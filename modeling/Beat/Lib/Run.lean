import Mathlib.Data.List.Induction

/-!
# Runs of a labelled step relation

A system is a relation `step s e s'`: the state `s` goes to `s'` by the event `e`. `Run step s₀ es s`
says that the events `es`, in this order, lead from `s₀` to `s`. The events are kept, so that a
property of a whole run can name the steps of it: the first, the one before, a stretch of them.

* `Run.inv`: an invariant of the states; `Run.hist`: an invariant of the state and the events so far.
* `Run.at`: the run up to an event, and the step of that event.
* `Run.split`: a run of `es ++ fs` is a run of `es` and then one of `fs`; `Run.uncons`: its first step.
* `Run.ofFn`, `Run.computed`, `Computed`: the run of a function that computes the next state.
* `Leads`: a number of events of one kind leads to a goal, whatever inputs they carry.
-/

namespace Lts

open List

variable {σ α : Type} {step : σ → α → σ → Prop}

/-- The events `es` lead from `s₀` to the last state. -/
inductive Run (step : σ → α → σ → Prop) (s₀ : σ) : List α → σ → Prop
  | nil : Run step s₀ [] s₀
  | snoc {es e s s'} : Run step s₀ es s → step s e s' → Run step s₀ (es ++ [e]) s'

variable {s s₀ : σ} {es : List α} {e : α}

theorem Run.inv {I : σ → Prop} (h : Run step s₀ es s) (h0 : I s₀) (hs : ∀ s e s', I s → step s e s' → I s') :
    I s := by
  induction h with
  | nil => exact h0
  | snoc _ hst ih => exact hs _ _ _ ih hst

/-- An invariant of the state and the events so far. The step may use the run that led to it. -/
theorem Run.hist {I : List α → σ → Prop} (h : Run step s₀ es s) (h0 : I [] s₀)
    (hs : ∀ es s e s', Run step s₀ es s → I es s → step s e s' → I (es ++ [e]) s') : I es s := by
  induction h with
  | nil => exact h0
  | snoc hr hst ih => exact hs _ _ _ _ hr ih hst

/-- The last step of a run that is not empty. -/
theorem Run.last (h : Run step s₀ (es ++ [e]) s) : ∃ s₁, Run step s₀ es s₁ ∧ step s₁ e s := by
  generalize hes : es ++ [e] = fs at h
  cases h with
  | nil => simp at hes
  | snoc hr hst =>
    obtain ⟨rfl, he⟩ := append_inj' hes rfl
    cases he
    exact ⟨_, hr, hst⟩

/-- A run of `es ++ fs` passes through a state after `es`. -/
theorem Run.split {fs : List α} (h : Run step s₀ (es ++ fs) s) : ∃ s₁, Run step s₀ es s₁ ∧ Run step s₁ fs s := by
  induction fs using reverseRecOn generalizing s with
  | nil => rw [append_nil] at h; exact ⟨s, h, .nil⟩
  | append_singleton fs f ih =>
    rw [← append_assoc] at h
    obtain ⟨s₁, hr, hst⟩ := h.last
    obtain ⟨s₂, h1, h2⟩ := ih hr
    exact ⟨s₂, h1, h2.snoc hst⟩

theorem Run.eq_of_nil (h : Run step s₀ [] s) : s = s₀ := by
  generalize hes : ([] : List α) = es at h
  cases h with
  | nil => rfl
  | snoc => simp at hes

/-- The first step of a run that is not empty. -/
theorem Run.uncons (h : Run step s₀ (e :: es) s) : ∃ s₁, step s₀ e s₁ ∧ Run step s₁ es s := by
  rw [← singleton_append] at h
  obtain ⟨s₁, hone, hrest⟩ := h.split
  obtain ⟨s₂, hnil, hst⟩ := Run.last (show Run step s₀ ([] ++ [e]) s₁ from hone)
  rw [hnil.eq_of_nil] at hst
  exact ⟨s₁, hst, hrest⟩

theorem Run.append {s₁ : σ} {fs : List α} (h : Run step s₀ es s₁) (h' : Run step s₁ fs s) :
    Run step s₀ (es ++ fs) s := by
  induction h' with
  | nil => rw [append_nil]; exact h
  | snoc _ hst ih => rw [← append_assoc]; exact ih.snoc hst

/-- The run up to event `n`, and the step of that event. -/
theorem Run.at {n : Nat} (h : Run step s₀ es s) (hn : es[n]? = some e) :
    ∃ s₁ s₂, Run step s₀ (es.take n) s₁ ∧ step s₁ e s₂ := by
  obtain ⟨hlt, rfl⟩ := List.getElem?_eq_some_iff.mp hn
  have hsplit : es.take n ++ [es[n]] ++ es.drop (n + 1) = es := by
    rw [List.append_assoc, List.singleton_append, List.getElem_cons_drop, List.take_append_drop]
  rw [← hsplit] at h
  obtain ⟨s₂, hr, -⟩ := h.split
  obtain ⟨s₁, hr', hst⟩ := hr.last
  exact ⟨s₁, s₂, hr', hst⟩

/-- Each event of a run was taken by a step from a reachable state. -/
theorem Run.mem (h : Run step s₀ es s) (he : e ∈ es) : ∃ fs s₁ s₂, Run step s₀ fs s₁ ∧ step s₁ e s₂ := by
  obtain ⟨n, hn⟩ := mem_iff_getElem?.mp he
  obtain ⟨s₁, s₂, hr, hst⟩ := h.at hn
  exact ⟨_, s₁, s₂, hr, hst⟩

/-- Running a partial step function over a list of events. -/
def runFn (next : σ → α → Option σ) : σ → List α → Option σ
  | s, [] => some s
  | s, e :: es => (next s e).bind fun s' => runFn next s' es

theorem runFn_append (next : σ → α → Option σ) (s : σ) (es fs : List α) :
    runFn next s (es ++ fs) = (runFn next s es).bind fun s' => runFn next s' fs := by
  induction es generalizing s with
  | nil => rfl
  | cons e es ih =>
    rw [cons_append, runFn, runFn, Option.bind_assoc]
    congr 1
    funext s'
    exact ih s'

theorem Run.cons {s₁ : σ} (hst : step s₀ e s₁) (h : Run step s₁ es s) : Run step s₀ (e :: es) s := by
  have := (Run.snoc (.nil : Run step s₀ [] s₀) hst).append h
  rwa [nil_append, singleton_append] at this

/-- What the step function computes is a run. -/
theorem Run.ofFn {next : σ → α → Option σ} (hn : ∀ s e s', next s e = some s' → step s e s')
    (h : runFn next s₀ es = some s) : Run step s₀ es s := by
  induction es generalizing s₀ with
  | nil => simp only [runFn, Option.some.injEq] at h; subst h; exact .nil
  | cons e es ih =>
    simp only [runFn, Option.bind_eq_some_iff] at h
    obtain ⟨s₁, h1, h2⟩ := h
    exact .cons (hn _ _ _ h1) (ih h2)

/-- A run that the step function computes, and what can be decided of its last state. -/
theorem Run.computed {P : σ → Prop} [DecidablePred P] (next : σ → α → Option σ)
    (hn : ∀ s e s', next s e = some s' → step s e s')
    (h : (runFn next s₀ es).any (fun s => decide (P s)) = true) : ∃ s, Run step s₀ es s ∧ P s := by
  obtain ⟨s, hs, hp⟩ := (Option.any_eq_true _ _).mp h
  exact ⟨s, .ofFn hn hs, of_decide_eq_true hp⟩

theorem Run.toFn {next : σ → α → Option σ} (hn : ∀ s e s', step s e s' → next s e = some s') (h : Run step s₀ es s) :
    runFn next s₀ es = some s := by
  induction h with
  | nil => rfl
  | snoc _ hst ih =>
    rw [runFn_append, ih, Option.bind_some, runFn, hn _ _ _ hst]
    rfl

/-- A step relation that a function computes: what can be decided of a state can be decided of the states after
an event, and after a list of events. -/
class Computed (step : σ → α → σ → Prop) where
  next : σ → α → Option σ
  next_iff : ∀ s e s', next s e = some s' ↔ step s e s'

instance (priority := low) [c : Computed step] {P : σ → Prop} [DecidablePred P] :
    Decidable (∃ s', step s e s' ∧ P s') :=
  decidable_of_iff (∃ s' ∈ c.next s e, P s') (exists_congr fun s' => and_congr_left' (c.next_iff s e s'))

instance (priority := low) [c : Computed step] {P : σ → Prop} [DecidablePred P] :
    Decidable (∃ s', Run step s es s' ∧ P s') :=
  decidable_of_iff (∃ s' ∈ runFn c.next s es, P s') (exists_congr fun _ => and_congr_left'
    ⟨.ofFn fun s e s' => (c.next_iff s e s').mp, Run.toFn fun s e s' => (c.next_iff s e s').mpr⟩)

/-- A number of events `ev x` leads from `s` to the goal, whatever the inputs `x` are. -/
def Leads {ι : Type} (next : σ → α → Option σ) (ev : ι → α) (s : σ) (goal : σ → Prop) : Prop :=
  ∃ n, ∀ xs : List ι, xs.length = n → ∃ t, runFn next s (xs.map ev) = some t ∧ goal t

section Leads

variable {ι : Type} {next : σ → α → Option σ} {ev : ι → α} {s s' : σ} {goal : σ → Prop}

theorem Leads.done (h : goal s) : Leads next ev s goal :=
  ⟨0, fun xs hx => ⟨s, by rw [length_eq_zero_iff.mp hx]; rfl, h⟩⟩

/-- A step that does not depend on its input. -/
theorem Leads.cons (hs : ∀ x, next s (ev x) = some s') (h : Leads next ev s' goal) : Leads next ev s goal := by
  obtain ⟨n, hn⟩ := h
  refine ⟨n + 1, fun xs hx => ?_⟩
  cases xs with
  | nil => cases hx
  | cons x xs =>
    obtain ⟨t, ht, hgoal⟩ := hn xs (Nat.succ.inj hx)
    exact ⟨t, by rw [map_cons, runFn, hs x, Option.bind_some, ht], hgoal⟩

/-- A last step that does. -/
theorem Leads.last (hs : ∀ x, ∃ t, next s (ev x) = some t ∧ goal t) : Leads next ev s goal := by
  refine ⟨1, fun xs hx => ?_⟩
  obtain ⟨x, rfl⟩ := length_eq_one_iff.mp hx
  obtain ⟨t, ht, hgoal⟩ := hs x
  exact ⟨t, by rw [map_singleton, runFn, ht]; rfl, hgoal⟩

theorem Leads.mono {goal' : σ → Prop} (h : Leads next ev s goal) (hg : ∀ t, goal t → goal' t) :
    Leads next ev s goal' := by
  obtain ⟨n, hn⟩ := h
  refine ⟨n, fun xs hx => ?_⟩
  obtain ⟨t, ht, hgoal⟩ := hn xs hx
  exact ⟨t, ht, hg t hgoal⟩

end Leads

end Lts
