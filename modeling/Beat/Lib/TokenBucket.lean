import Mathlib.Tactic.Linarith
import Mathlib.Tactic.Ring

/-!
# Token buckets and rate limits

A bucket holds up to `burst` tokens and gains `rate` of them in a unit of time; a grant takes one. Times
are integers, tokens are in an ordered field.

* `level`: the tokens after a time has passed. `level_le`, `level_add_le`: the bounds of it.
* `level_level_eq`: a bucket that would be full after one wait is full after two that are no shorter.
* `Metered rate burst log now credit`: the times of the grants so far are `log`, and no window of time has
  more of them than `burst + rate * length`; `credit` is what may be granted `now`. It is kept when time
  passes and the credit grows no faster than the rate (`advance`), and by a grant that is paid for
  (`grant`).
-/

namespace TokenBucket

open List

variable {K : Type} [Field K] [LinearOrder K] {rate burst : K}

/-! ## Levels -/

/-- The tokens after a time. -/
def level (rate burst tokens : K) (elapsed : Int) : K := min burst (tokens + rate * (max 0 elapsed : Int))

theorem level_le (tokens : K) (elapsed : Int) : level rate burst tokens elapsed ≤ burst := min_le_left _ _

variable {elapsed now : Int} {tokens credit credit' : K} {log : List Int}

theorem level_zero (ht : tokens ≤ burst) (h : elapsed ≤ 0) : level rate burst tokens elapsed = tokens := by
  unfold level
  rw [max_eq_left h, Int.cast_zero, mul_zero, add_zero, min_eq_right ht]

variable [IsStrictOrderedRing K]

theorem level_nonneg (hrate : 0 ≤ rate) (hburst : 0 ≤ burst) (ht : 0 ≤ tokens) (elapsed : Int) :
    0 ≤ level rate burst tokens elapsed := by
  have hpos : (0 : K) ≤ ((max 0 elapsed : Int) : K) := by exact_mod_cast le_max_left 0 elapsed
  exact le_min hburst (add_nonneg ht (mul_nonneg hrate hpos))

/-- In a time `d` the level grows by `rate * d` at most. -/
theorem level_add_le (hrate : 0 ≤ rate) (tokens : K) {elapsed' d : Int} (hd : 0 ≤ d)
    (h : max 0 elapsed' ≤ max 0 elapsed + d) :
    level rate burst tokens elapsed' ≤ level rate burst tokens elapsed + rate * d := by
  have hcast : ((max 0 elapsed' : Int) : K) ≤ ((max 0 elapsed : Int) : K) + (d : K) := by exact_mod_cast h
  have hgain := mul_le_mul_of_nonneg_left hcast hrate
  have hpos : 0 ≤ rate * (d : K) := mul_nonneg hrate (by exact_mod_cast hd)
  unfold level
  rw [← min_add_add_right]
  refine le_min ((min_le_left _ _).trans (by linarith)) ((min_le_right _ _).trans ?_)
  linarith

/-- A full bucket is full after any time. -/
theorem level_eq_of_le (hrate : 0 ≤ rate) (h : burst ≤ tokens + rate * (max 0 elapsed : Int))
    {elapsed' : Int} (he : elapsed ≤ elapsed') : level rate burst tokens elapsed' = burst := by
  have hcast : ((max 0 elapsed : Int) : K) ≤ ((max 0 elapsed' : Int) : K) := by
    exact_mod_cast max_le_max_left 0 he
  have := mul_le_mul_of_nonneg_left hcast hrate
  exact min_eq_left (by linarith)

/-- A bucket that would be full after one wait is full after two that are no shorter together. -/
theorem level_level_eq (hrate : 0 ≤ rate) {whole first second : Int}
    (hfull : level rate burst tokens whole = burst) (h : max 0 whole ≤ max 0 first + max 0 second) :
    level rate burst (level rate burst tokens first) second = burst := by
  have hwhole : burst ≤ tokens + rate * (max 0 whole : Int) := by
    have := min_le_right burst (tokens + rate * ((max 0 whole : Int) : K))
    unfold level at hfull
    rwa [hfull] at this
  have hcast : ((max 0 whole : Int) : K) ≤ ((max 0 first : Int) : K) + ((max 0 second : Int) : K) := by
    exact_mod_cast h
  have hgain := mul_le_mul_of_nonneg_left hcast hrate
  have hpos : 0 ≤ rate * ((max 0 second : Int) : K) :=
    mul_nonneg hrate (by exact_mod_cast le_max_left 0 second)
  refine min_eq_left ?_
  unfold level
  rw [← min_add_add_right]
  exact le_min (by linarith) (by linarith)

/-! ## Grants -/

/-- The grants in a window of time, both ends included. -/
def grants (log : List Int) (a b : Int) : Nat := log.countP fun t => a ≤ t ∧ t ≤ b

structure Metered (rate burst : K) (log : List Int) (now : Int) (credit : K) : Prop where
  past : ∀ t ∈ log, t ≤ now
  window : ∀ a b, a ≤ b → (grants log a b : K) ≤ burst + rate * (b - a : Int)
  spent : ∀ a, a ≤ now → (grants log a now : K) + credit ≤ burst + rate * (now - a : Int)

theorem Metered.start (hrate : 0 ≤ rate) (hburst : 0 ≤ burst) (now : Int) (h : credit ≤ burst) :
    Metered rate burst [] now credit := by
  have hpos : ∀ {a b : Int}, a ≤ b → 0 ≤ rate * ((b - a : Int) : K) := fun hab =>
    mul_nonneg hrate (by exact_mod_cast Int.sub_nonneg.mpr hab)
  refine ⟨fun _ ht => (nomatch ht), fun a b hab => ?_, fun a ha => ?_⟩
  · have := hpos hab
    simp only [grants, countP_nil, Nat.cast_zero]
    linarith
  · have := hpos ha
    simp only [grants, countP_nil, Nat.cast_zero]
    linarith

/-- Time passes. -/
theorem Metered.advance {now' : Int} (h : Metered rate burst log now credit) (hrate : 0 ≤ rate)
    (hnow : now ≤ now') (hburst : credit' ≤ burst) (hcredit : credit' ≤ credit + rate * (now' - now : Int)) :
    Metered rate burst log now' credit' := by
  refine ⟨fun t ht => (h.past t ht).trans hnow, h.window, fun a ha => ?_⟩
  by_cases hcase : a ≤ now
  · have hsame : grants log a now' = grants log a now := by
      refine countP_congr fun t ht => ?_
      have := h.past t ht
      simp only [decide_eq_true_eq]
      omega
    have hsplit : rate * ((now' - a : Int) : K) =
        rate * ((now - a : Int) : K) + rate * ((now' - now : Int) : K) := by
      push_cast
      ring
    rw [hsame, hsplit]
    linarith [h.spent a hcase]
  · -- nothing was granted since `a`
    have hnone : grants log a now' = 0 := by
      refine countP_eq_zero.mpr fun t ht => ?_
      have := h.past t ht
      simp only [decide_eq_true_eq]
      omega
    have hpos : 0 ≤ rate * ((now' - a : Int) : K) :=
      mul_nonneg hrate (by exact_mod_cast Int.sub_nonneg.mpr ha)
    rw [hnone, Nat.cast_zero]
    linarith

/-- A grant, paid from the credit. -/
theorem Metered.grant (h : Metered rate burst log now credit) (hrate : 0 ≤ rate) (hcredit : 0 ≤ credit')
    (hpaid : credit' + 1 ≤ credit) : Metered rate burst (log ++ [now]) now credit' := by
  have happend : ∀ a b, grants (log ++ [now]) a b = grants log a b + if a ≤ now ∧ now ≤ b then 1 else 0 := by
    intro a b
    unfold grants
    simp
  have hspent : ∀ a, a ≤ now → (grants (log ++ [now]) a now : K) + credit' ≤ burst + rate * (now - a : Int) := by
    intro a ha
    rw [happend, if_pos ⟨ha, le_refl _⟩]
    push_cast
    have := h.spent a ha
    push_cast at this
    linarith
  refine ⟨fun t ht => ?_, fun a b hab => ?_, hspent⟩
  · obtain ht | ht := mem_append.mp ht
    · exact h.past t ht
    · exact le_of_eq (mem_singleton.mp ht)
  · by_cases hin : a ≤ now ∧ now ≤ b
    · -- the window ends at the grant, as far as grants are concerned
      have hsame : grants (log ++ [now]) a b = grants (log ++ [now]) a now := by
        rw [happend, happend, if_pos hin, if_pos ⟨hin.1, le_refl _⟩]
        congr 1
        refine countP_congr fun t ht => ?_
        have := h.past t ht
        simp only [decide_eq_true_eq]
        omega
      have hlonger : rate * ((now - a : Int) : K) ≤ rate * ((b - a : Int) : K) :=
        mul_le_mul_of_nonneg_left (by exact_mod_cast Int.sub_le_sub_right hin.2 a) hrate
      rw [hsame]
      linarith [hspent a hin.1]
    · rw [happend, if_neg hin, Nat.add_zero]
      exact h.window a b hab

end TokenBucket
