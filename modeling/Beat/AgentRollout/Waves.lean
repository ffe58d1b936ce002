import Beat.AgentRollout.Model
import Beat.Lib.Batches

/-!
# The waves of a rollout

The arithmetic of `insertTargets` and `createRollout` with a policy that was accepted: the canaries are
the first batch, and each wave after them is a batch of `WaveSize` places.

* `waveOf_eq`, `totalWaves_eq`: the waves are the batches of the library.
* `WavePlan`: no wave is empty, and none has more targets than the policy allows; `wavePlan`.
-/

namespace Beat.AgentRollout

open List

section waves

variable {policy : Policy}

/-- The bounds of an accepted policy, over the natural numbers. -/
theorem sizes_of_valid (h : validPolicyConcurrency policy = true) :
    ∃ first size : Nat, 0 < first ∧ 0 < size ∧ policy.canaryCount = first ∧ policy.waveSize = size := by
  simp only [validPolicyConcurrency, Bool.and_eq_true, decide_eq_true_eq] at h
  exact ⟨policy.canaryCount.toNat, policy.waveSize.toNat, by omega, by omega, by omega, by omega⟩

theorem waveOf_eq {first size : Nat} (hc : policy.canaryCount = first) (hs : policy.waveSize = size)
    (i : Nat) : waveOf policy i = Batches.batchOf first size i := by
  unfold waveOf Batches.batchOf
  rw [hc, hs]
  by_cases h : i < first
  · rw [if_pos h, if_neg (by omega)]
    rfl
  · rw [if_neg h, if_pos (by omega), Int.tdiv_eq_ediv_of_nonneg (by omega), ← Int.ofNat_sub (by omega)]
    rfl

theorem totalWaves_eq {first size : Nat} (hc : policy.canaryCount = first) (hs : policy.waveSize = size)
    (hpos : 0 < size) (n : Nat) : totalWaves policy n = Batches.total first size n := by
  unfold totalWaves Batches.total
  rw [hc, hs]
  by_cases h : first < n
  · have hsum : (n : Int) - first + size - 1 = ((n - first + size - 1 : Nat) : Int) := by omega
    rw [if_pos h, if_pos (by omega), hsum, Int.tdiv_eq_ediv_of_nonneg (by omega)]
    rfl
  · rw [if_neg h, if_neg (by omega)]
    rfl

theorem totalWaves_pos (h : validPolicyConcurrency policy = true) (n : Nat) : 1 ≤ totalWaves policy n := by
  obtain ⟨first, size, -, hsize, hc, hs⟩ := sizes_of_valid h
  rw [totalWaves_eq hc hs hsize]
  have := @Batches.total_pos first size n
  omega

/-- How targets may be spread over waves. -/
structure WavePlan (policy : Policy) (total : Int) (waves : List Int) : Prop where
  bounds : ∀ v ∈ waves, 0 ≤ v ∧ v < total
  nonempty : ∀ v, 0 ≤ v → v < total → v ∈ waves
  canaries : (waves.countP (· = 0) : Int) ≤ policy.canaryCount
  later : ∀ v, 0 < v → (waves.countP (· = v) : Int) ≤ policy.waveSize

theorem wavePlan (h : validPolicyConcurrency policy = true) {n : Nat} (hn : 0 < n) :
    WavePlan policy (totalWaves policy n) ((range n).map (waveOf policy)) := by
  obtain ⟨first, size, hfirst, hsize, hc, hs⟩ := sizes_of_valid h
  have hwave : waveOf policy = fun i => (Batches.batchOf first size i : Int) := funext (waveOf_eq hc hs)
  have hcount : ∀ v : Nat, ((range n).map (waveOf policy)).countP (· = (v : Int)) =
      (range n).countP fun i => Batches.batchOf first size i = v := by
    intro v
    rw [hwave, countP_map]
    refine countP_congr fun i _ => ?_
    simp
  rw [totalWaves_eq hc hs hsize]
  refine ⟨fun v hv => ?_, fun v h0 hlt => ?_, ?_, fun v hv => ?_⟩
  · rw [hwave] at hv
    obtain ⟨i, hi, rfl⟩ := mem_map.mp hv
    have hlt : Batches.batchOf first size i < Batches.total first size n :=
      Batches.batchOf_lt_total hsize (mem_range.mp hi)
    omega
  · lift v to Nat using h0
    obtain ⟨i, hi, hb⟩ := Batches.exists_batchOf hfirst hsize hn (Int.ofNat_lt.mp hlt)
    rw [hwave]
    exact mem_map.mpr ⟨i, mem_range.mpr hi, by rw [hb]⟩
  · have := hcount 0
    rw [Int.natCast_zero] at this
    rw [this, hc]
    exact Int.ofNat_le.mpr Batches.countP_batchOf_zero
  · obtain ⟨b, rfl⟩ : ∃ b : Nat, v = ((b + 1 : Nat) : Int) := ⟨(v - 1).toNat, by omega⟩
    rw [hcount, hs]
    exact Int.ofNat_le.mpr (Batches.countP_batchOf_succ hsize)

end waves

end Beat.AgentRollout
