import Beat.Lib.Calendar
import Beat.Lib.Instant
import Beat.Model

/-!
# Billing periods

`BillingPeriod` of `model/traffic.go`: the period that contains an instant, from one reset to the
next. A month that is shorter than the reset day is reset on its last day.

* `billingPeriod_spec`: the period contains the instant.
* `billingPeriod_dvd`: a period begins and ends on a whole second.
* `billing_periods_partition`: the periods follow each other, with one boundary in each month.
-/

namespace Beat.Traffic

open Instant Calendar

/-- The length of a day. -/
def day : Int := 24 * hour

/-- The number of the day of the Unix epoch. -/
def epochDay : Int := 719162

/-- The day of an instant. -/
def dayOf (t : Int) : Int := t / day + epochDay

/-- The first instant of a day. -/
def midnight (n : Int) : Int := (n - epochDay) * day

/-- `resetDate`: the reset of a month, `time.Date(year, month, min(resetDay, lastDay), ...)`. -/
def resetDate (month : Int) (resetDay : ResetDay) : Int :=
  let lastDay := dayOfMonth (date (month + 1) 0)
  midnight (date month (min resetDay.day lastDay))

/-- `BillingPeriod`: the start of the period of `now` and the start of the next. Months are numbered,
so that `shiftMonth` is an addition. -/
def billingPeriod (now : Int) (resetDay : ResetDay) : Int × Int :=
  let month := monthOf (dayOf now)
  let currentReset := resetDate month resetDay
  if now < currentReset then (resetDate (month - 1) resetDay, currentReset)
  else (currentReset, resetDate (month + 1) resetDay)

theorem midnight_le_iff {n t : Int} : midnight n ≤ t ↔ n ≤ dayOf t := by
  unfold midnight dayOf day epochDay hour minute second
  omega

theorem second_dvd_midnight (n : Int) : second ∣ midnight n := by
  unfold midnight day hour minute second
  omega

/-- The reset of a month is on a day of the month. -/
theorem resetDate_bounds (month : Int) (resetDay : ResetDay) :
    midnight (monthStart month) ≤ resetDate month resetDay ∧
      resetDate month resetDay < midnight (monthStart (month + 1)) := by
  have hlen := (monthStart_succ month).1
  have hday := resetDay.one_le
  unfold resetDate
  rw [dayOfMonth_last]
  simp only [date, midnight, day, hour, minute, second]
  omega

theorem billingPeriod_spec (now : Int) (resetDay : ResetDay) :
    (billingPeriod now resetDay).1 ≤ now ∧ now < (billingPeriod now resetDay).2 := by
  obtain ⟨hle, hlt⟩ := monthOf_spec (dayOf now)
  have hmonth : midnight (monthStart (monthOf (dayOf now))) ≤ now :=
    midnight_le_iff.mpr hle
  have hnext : now < midnight (monthStart (monthOf (dayOf now) + 1)) := by
    rw [← not_le, midnight_le_iff]
    omega
  unfold billingPeriod
  simp only
  split_ifs with h
  · -- before the reset of the month: the reset of the month before is in the past
    refine ⟨?_, h⟩
    have := (resetDate_bounds (monthOf (dayOf now) - 1) resetDay).2
    rw [sub_add_cancel] at this
    omega
  · refine ⟨not_lt.mp h, ?_⟩
    have := (resetDate_bounds (monthOf (dayOf now) + 1) resetDay).1
    omega

theorem billingPeriod_dvd (now : Int) (resetDay : ResetDay) : second ∣ (billingPeriod now resetDay).1 ∧
      second ∣ (billingPeriod now resetDay).2 := by
  unfold billingPeriod
  simp only
  split_ifs <;> exact ⟨second_dvd_midnight _, second_dvd_midnight _⟩

theorem resetDate_eq (month : Int) (resetDay : ResetDay) :
    resetDate month resetDay = midnight (date month (min resetDay.day (daysIn month))) := by
  unfold resetDate
  rw [dayOfMonth_last, monthStart_daysIn, add_sub_cancel_left]

theorem resetDate_strictMono (resetDay : ResetDay) : StrictMono (resetDate · resetDay) :=
  strictMono_int_of_lt_succ fun month =>
    (resetDate_bounds month resetDay).2.trans_le (resetDate_bounds (month + 1) resetDay).1

theorem monthOf_resetDate (month : Int) (resetDay : ResetDay) : monthOf (dayOf (resetDate month resetDay)) = month := by
  obtain ⟨hle, hlt⟩ := resetDate_bounds month resetDay
  refine monthOf_eq (midnight_le_iff.mp hle) ?_
  rwa [← not_le, midnight_le_iff, not_le] at hlt

/-- A period goes from the reset of a month to that of the next. -/
theorem billingPeriod_months (now : Int) (resetDay : ResetDay) :
    ∃ month, billingPeriod now resetDay = (resetDate month resetDay, resetDate (month + 1) resetDay) := by
  unfold billingPeriod
  simp only
  split_ifs
  · exact ⟨monthOf (dayOf now) - 1, by rw [sub_add_cancel]⟩
  · exact ⟨_, rfl⟩

/-- There is only one such month. -/
theorem billingPeriod_of_mem {now month : Int} {resetDay : ResetDay} (h : resetDate month resetDay ≤ now)
    (h' : now < resetDate (month + 1) resetDay) :
    billingPeriod now resetDay = (resetDate month resetDay, resetDate (month + 1) resetDay) := by
  obtain ⟨k, hk⟩ := billingPeriod_months now resetDay
  obtain ⟨hle, hlt⟩ := billingPeriod_spec now resetDay
  rw [hk] at hle hlt ⊢
  have hmono := resetDate_strictMono resetDay
  have := hmono.lt_iff_lt.mp (lt_of_le_of_lt hle h')
  have := hmono.lt_iff_lt.mp (lt_of_le_of_lt h hlt)
  obtain rfl : k = month := by omega
  rfl

/-- Every instant is in one period, a period begins where the one before ends, and each month has one boundary: the
midnight of the reset day, or of its last day. -/
theorem billing_periods_partition (resetDay : ResetDay) :
    (∀ t, (billingPeriod t resetDay).1 ≤ t ∧ t < (billingPeriod t resetDay).2 ∧
      (∀ u, (billingPeriod t resetDay).1 ≤ u → u < (billingPeriod t resetDay).2 →
        billingPeriod u resetDay = billingPeriod t resetDay) ∧
      (billingPeriod (billingPeriod t resetDay).2 resetDay).1 = (billingPeriod t resetDay).2) ∧
    (∀ s t, s ≤ t → (billingPeriod s resetDay).1 ≤ (billingPeriod t resetDay).1) ∧
    ∀ boundary month, ((∃ t, boundary = (billingPeriod t resetDay).1 ∨ boundary = (billingPeriod t resetDay).2) ∧
        monthOf (dayOf boundary) = month) ↔
      boundary = midnight (date month (min resetDay.day (daysIn month))) := by
  have hmono := resetDate_strictMono resetDay
  have hstart : ∀ month, billingPeriod (resetDate month resetDay) resetDay = _ := fun month =>
    billingPeriod_of_mem le_rfl (hmono (lt_add_one month))
  refine ⟨fun t => ?_, fun s t hst => ?_, fun boundary month => ?_⟩
  · obtain ⟨hle, hlt⟩ := billingPeriod_spec t resetDay
    obtain ⟨month, hmonth⟩ := billingPeriod_months t resetDay
    rw [hmonth] at hle hlt ⊢
    exact ⟨hle, hlt, fun u => billingPeriod_of_mem, by rw [hstart]⟩
  · have hs := (billingPeriod_spec s resetDay).1
    have ht := (billingPeriod_spec t resetDay).2
    obtain ⟨k, hk⟩ := billingPeriod_months s resetDay
    obtain ⟨month, hmonth⟩ := billingPeriod_months t resetDay
    rw [hk] at hs ⊢
    rw [hmonth] at ht ⊢
    have := hmono.lt_iff_lt.mp (hs.trans_lt (hst.trans_lt ht))
    exact hmono.monotone (by omega)
  · rw [← resetDate_eq]
    constructor
    · rintro ⟨⟨t, ht⟩, rfl⟩
      obtain ⟨month, hmonth⟩ := billingPeriod_months t resetDay
      rw [hmonth] at ht
      rcases ht with rfl | rfl <;> rw [monthOf_resetDate]
    · rintro rfl
      exact ⟨⟨_, .inl (by rw [hstart])⟩, monthOf_resetDate month resetDay⟩

end Beat.Traffic
