import Mathlib.Data.List.Forall2

/-!
# Folds that may fail

A fold in `Except` stops at the first error. `foldlM_cons_ok`, `foldlM_append_ok` and `foldlM_snoc`
take a successful fold apart at the place where the list is; `foldlM_inv` carries an invariant through
it. `map_eq_ok`, `bind_eq_ok` and `of_guard` take a `map`, a `bind` and a check apart; `mapM_eq_ok`, `mapM_of_ok`
and `map_eq_of_forall₂` say element by element what a `mapM` returns.
-/

namespace Fallible

open List

variable {α β ε : Type} {f : β → α → Except ε β}

variable {as : List α} {b c : β} {a : α} {x : Except ε α}

/-- A fold over two lists succeeds in the middle. -/
theorem foldlM_append_ok {bs : List α} (h : (as ++ bs).foldlM f b = .ok c) :
    ∃ m, as.foldlM f b = .ok m ∧ bs.foldlM f m = .ok c := by
  rw [foldlM_append] at h
  cases hm : as.foldlM f b with
  | error e => rw [hm] at h; exact nomatch h
  | ok m => rw [hm] at h; exact ⟨m, rfl, h⟩

/-- The first step of a fold that succeeds. -/
theorem foldlM_cons_ok (h : (a :: as).foldlM f b = .ok c) : ∃ m, f b a = .ok m ∧ as.foldlM f m = .ok c := by
  rw [foldlM_cons] at h
  cases hm : f b a with
  | error e => rw [hm] at h; exact nomatch h
  | ok m => rw [hm] at h; exact ⟨m, rfl, h⟩

/-- What every step keeps holds at the end. -/
theorem foldlM_inv {I : β → Prop} (h : as.foldlM f b = .ok c) (hb : I b)
    (hs : ∀ a ∈ as, ∀ b c, I b → f b a = .ok c → I c) : I c := by
  induction as generalizing b with
  | nil => cases h; exact hb
  | cons a as ih =>
    obtain ⟨m, hstep, hrest⟩ := foldlM_cons_ok h
    exact ih hrest (hs a mem_cons_self b m hb hstep) fun x hx =>
      hs x (mem_cons_of_mem _ hx)

theorem foldlM_singleton : [a].foldlM f b = f b a := by
  simp only [foldlM_cons, foldlM_nil]
  cases f b a <;> rfl

/-- The last step of a fold. -/
theorem foldlM_snoc {m : β} (h : as.foldlM f b = .ok m) : (as ++ [a]).foldlM f b = f m a := by
  rw [foldlM_append, h]
  exact foldlM_singleton

theorem toOption_eq_some : x.toOption = some a ↔ x = .ok a := by
  cases x with
  | error e => simp [Except.toOption]
  | ok b => simp [Except.toOption]

theorem map_eq_ok {γ : Type} {g : α → γ} {c : γ} (h : x.map g = .ok c) : ∃ a, x = .ok a ∧ g a = c := by
  cases x with
  | error e => cases h
  | ok a => exact ⟨a, rfl, Except.ok.inj h⟩

theorem bind_eq_ok {γ : Type} {g : α → Except ε γ} {c : γ} (h : x >>= g = .ok c) : ∃ a, x = .ok a ∧ g a = .ok c := by
  cases x with
  | error e => cases h
  | ok a => exact ⟨a, rfl, h⟩

/-- A check that succeeds. -/
theorem of_guard {c : Prop} [Decidable c] {e : ε} (h : (if c then .error e else x) = .ok a) : ¬c ∧ x = .ok a := by
  split at h
  · cases h
  · exact ⟨‹_›, h⟩

/-- A `forM` that succeeds does so for every element. -/
theorem forM_ok {g : α → Except ε Unit} (h : as.forM g = .ok ()) : ∀ a ∈ as, g a = .ok () := by
  induction as with
  | nil => exact fun _ ha => nomatch ha
  | cons a as ih =>
    obtain ⟨⟨⟩, ha, hrest⟩ := bind_eq_ok (show g a >>= (fun _ => as.forM g) = .ok () from h)
    exact forall_mem_cons.mpr ⟨ha, ih hrest⟩

theorem mapM_eq_ok {γ : Type} {g : α → Except ε γ} {cs : List γ} :
    as.mapM g = .ok cs ↔ List.Forall₂ (fun a c => g a = .ok c) as cs := by
  induction as generalizing cs with
  | nil =>
    rw [mapM_nil, forall₂_nil_left_iff]
    exact ⟨fun h => (Except.ok.inj h).symm, fun h => h ▸ rfl⟩
  | cons a as ih =>
    rw [mapM_cons, forall₂_cons_left_iff]
    constructor
    · intro h
      obtain ⟨c, hc, h⟩ := bind_eq_ok h
      obtain ⟨cs', hcs, h⟩ := bind_eq_ok h
      exact ⟨c, cs', hc, ih.mp hcs, (Except.ok.inj h).symm⟩
    · rintro ⟨c, cs', hc, hcs, rfl⟩
      rw [hc, ih.mpr hcs]
      rfl

/-- A `mapM` of which every step succeeds. -/
theorem mapM_of_ok {γ : Type} {g : α → Except ε γ} {h : α → γ} (hg : ∀ a ∈ as, g a = .ok (h a)) :
    as.mapM g = .ok (as.map h) := by
  rw [mapM_eq_ok, forall₂_map_right_iff, forall₂_same]
  exact hg

theorem map_eq_of_forall₂ {γ δ : Type} {R : α → γ → Prop} {f : α → δ} {g : γ → δ} {bs : List γ}
    (h : List.Forall₂ R as bs) (hR : ∀ a b, R a b → g b = f a) : bs.map g = as.map f := by
  induction h with
  | nil => rfl
  | cons hab _ ih => rw [map_cons, map_cons, hR _ _ hab, ih]

end Fallible
