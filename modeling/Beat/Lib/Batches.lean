import Mathlib.Data.List.Nodup
import Mathlib.Data.List.Perm.Subperm

/-!
# Batches

A list is worked through in batches: the first `first` places are batch 0, and each of the batches after
it has `size` places.

* `batchOf`: the batch of a place; `total`: the number of batches of `n` places.
* `batchOf_lt_total`, `exists_batchOf`: the batches below the total are those that have a place.
* `countP_batchOf_zero`, `countP_batchOf_succ`: how many places a batch has at most.
-/

namespace Batches

open List

variable {first size n i b : Nat}

/-- The batch of a place. -/
def batchOf (first size i : Nat) : Nat := if i < first then 0 else 1 + (i - first) / size

/-- The number of batches of `n` places, at least one. -/
def total (first size n : Nat) : Nat := if first < n then 1 + (n - first + size - 1) / size else 1

theorem total_pos : 0 < total first size n := by
  unfold total
  split
  · exact Nat.add_pos_left Nat.one_pos _
  · exact Nat.one_pos

theorem batchOf_lt_total (hs : 0 < size) (hi : i < n) : batchOf first size i < total first size n := by
  by_cases hfirst : i < first
  · rw [batchOf, if_pos hfirst]
    exact total_pos
  · rw [batchOf, total, if_neg hfirst, if_pos (by omega), Nat.add_lt_add_iff_left, Nat.lt_iff_add_one_le,
      Nat.le_div_iff_mul_le hs, Nat.add_mul, Nat.one_mul]
    have := Nat.div_mul_le_self (i - first) size
    omega

/-- No batch below the total is empty. -/
theorem exists_batchOf (hf : 0 < first) (hs : 0 < size) (hn : 0 < n) (hb : b < total first size n) :
    ∃ i < n, batchOf first size i = b := by
  cases b with
  | zero => exact ⟨0, hn, if_pos hf⟩
  | succ b =>
    unfold total at hb
    split at hb
    · -- the first place of the batch
      rw [Nat.add_comm 1, Nat.add_lt_add_iff_right, Nat.lt_iff_add_one_le, Nat.le_div_iff_mul_le hs,
        Nat.add_mul, Nat.one_mul] at hb
      refine ⟨first + b * size, by omega, ?_⟩
      rw [batchOf, if_neg (by omega), Nat.add_sub_cancel_left, Nat.mul_div_cancel _ hs, Nat.add_comm]
    · omega

/-- The places of an interval. -/
theorem countP_range_le {p : Nat → Bool} {a k : Nat} (h : ∀ i, p i = true → a ≤ i ∧ i < a + k) :
    (range n).countP p ≤ k := by
  have hsub : (range n).filter p ⊆ range' a k := by
    intro i hi
    rw [mem_range'_1]
    exact h i (mem_filter.mp hi).2
  have hle := ((nodup_range.filter p).subperm hsub).length_le
  rw [countP_eq_length_filter]
  simpa using hle

theorem countP_batchOf_zero : (range n).countP (fun i => batchOf first size i = 0) ≤ first := by
  refine countP_range_le (a := 0) fun i hi => ?_
  have hi := of_decide_eq_true hi
  unfold batchOf at hi
  split at hi
  · omega
  · exact absurd hi (Nat.ne_of_gt (Nat.add_pos_left Nat.one_pos _))

theorem countP_batchOf_succ (hs : 0 < size) : (range n).countP (fun i => batchOf first size i = b + 1) ≤ size := by
  refine countP_range_le (a := first + b * size) fun i hi => ?_
  have hi := of_decide_eq_true hi
  unfold batchOf at hi
  split at hi
  · cases hi
  rw [Nat.add_comm 1, Nat.add_left_inj] at hi
  have h1 := Nat.div_add_mod (i - first) size
  have h2 := Nat.mod_lt (i - first) hs
  rw [hi, Nat.mul_comm] at h1
  omega

end Batches
