import Mathlib.Data.List.Chain

/-!
# Streaks

A history is a list, the latest item last. `Streak good link history first last`: the history ends with
consecutive items, from `first` to `last`, that are all good, and each of them is linked to the one before
it. A monitor that keeps only the first and the last item of its streak keeps it by two rules:

* `Streak.start`: a good item starts a streak;
* `Streak.snoc`: a good item that is linked to the last one goes on with it.

`Streak.of_snoc` reads them backwards: the last item of a streak is the last of the history.
-/

variable {α : Type} {good : α → Prop} {link : α → α → Prop} {history : List α} {first last a : α}

/-- The history ends with a streak from `first` to `last`. -/
def Streak (good : α → Prop) (link : α → α → Prop) (history : List α) (first last : α) : Prop :=
  ∃ pre items, history = pre ++ items ∧ items.head? = some first ∧ items.getLast? = some last ∧
    (∀ a ∈ items, good a) ∧ items.IsChain link

namespace Streak

open List

theorem start (history : List α) (ha : good a) : Streak good link (history ++ [a]) a a :=
  ⟨history, [a], rfl, rfl, rfl, by simpa using ha, .singleton a⟩

theorem snoc (h : Streak good link history first last) (hl : link last a) (ha : good a) :
    Streak good link (history ++ [a]) first a := by
  obtain ⟨pre, items, rfl, hfirst, hlast, hgood, hchain⟩ := h
  refine ⟨pre, items ++ [a], append_assoc .., ?_, by simp, ?_, ?_⟩
  · rw [head?_append, hfirst]
    rfl
  · intro b hb
    rcases mem_append.mp hb with hb | hb
    · exact hgood b hb
    · rw [mem_singleton.mp hb]
      exact ha
  · refine isChain_append.mpr ⟨hchain, .singleton a, fun x hx y hy => ?_⟩
    rw [hlast] at hx
    cases hx
    cases hy
    exact hl

/-- The last item is that of the history; it starts the streak, or the streak was there before. -/
theorem of_snoc (h : Streak good link (history ++ [a]) first last) :
    last = a ∧ good a ∧ (first = a ∨ ∃ b, Streak good link history first b ∧ link b a) := by
  obtain ⟨pre, items, heq, hfirst, hlast, hgood, hchain⟩ := h
  rcases eq_nil_or_concat' items with rfl | ⟨rest, b, rfl⟩
  · cases hfirst
  rw [← append_assoc] at heq
  obtain ⟨rfl, hab⟩ := append_inj' heq rfl
  cases hab
  have hlast' : last = a := by simpa using hlast.symm
  refine ⟨hlast', hgood a (by simp), ?_⟩
  obtain ⟨hrest, -, hlink⟩ := isChain_append.mp hchain
  cases hb : rest.getLast? with
  | none =>
    rw [getLast?_eq_none_iff.mp hb] at hfirst
    exact .inl (Option.some.inj hfirst).symm
  | some b =>
    refine .inr ⟨b, ⟨pre, rest, rfl, ?_, hb, fun x hx => hgood x (mem_append_left _ hx), hrest⟩, ?_⟩
    · cases rest with
      | nil => exact nomatch hb
      | cons c rest => exact hfirst
    · exact hlink b hb a rfl

end Streak
