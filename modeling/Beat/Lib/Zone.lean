import Beat.Lib.Calendar
import Beat.Lib.Instant

/-!
# Time zones

A zone gives every second its offset from UTC and the span in which this offset is in use, as the
lookup of a location of Go's `time` package does. Instants are in nanoseconds, days are numbered as in
`Calendar`, and a clock is a second of the day.

* `Zone.date` is `time.Date`. A time that the clock shows twice, or never, is read with one of the two
  offsets around the transition: the one in use at the same number of seconds of UTC, or else the one
  in use where that offset leads to.
* `Zone.addDate` is `t.AddDate`: the clock of `t` on another date.
* `Regular`: from a day on, `date` stays on the day that it is given and no day comes back.
* `Shows`: from a day on, the clock shows a time on every day.
* `Parts`: an instant of a day is after all earlier days and before all later ones.
* `fixed_regular`, `fixed_shows`: a zone with one offset is regular and shows every time.
-/

/-- An offset and the seconds in which it is in use. -/
structure Span where
  offset : Int
  start : Option Int
  stop : Option Int

def Span.contains (span : Span) (t : Int) : Bool := span.start.all (· ≤ t) && span.stop.all (t < ·)

structure Zone where
  lookup : Int → Span

namespace Zone

open Instant

/-- The number of the day of the Unix epoch. -/
def epochDay : Int := 719162

def secondsPerDay : Int := 86400

variable (z : Zone)

/-- What the wall clock shows at an instant, in seconds. -/
def wall (t : Int) : Int :=
  unix t + (z.lookup (unix t)).offset + epochDay * secondsPerDay

def day (t : Int) : Int := z.wall t / secondsPerDay

def clock (t : Int) : Int := z.wall t % secondsPerDay

/-- `time.Date`: the instant of a second `c` of the day `n`. -/
def date (n c : Int) : Int :=
  let unix := (n - epochDay) * secondsPerDay + c
  let span := z.lookup unix
  if span.offset = 0 then unix * second
  else
    let utc := unix - span.offset
    let offset := if span.contains utc then span.offset else (z.lookup utc).offset
    (unix - offset) * second

/-- `t.AddDate(0, months, days)`. -/
def addDate (t months days : Int) : Int :=
  z.date (Calendar.date (Calendar.monthOf (z.day t) + months) (Calendar.dayOfMonth (z.day t) + days))
    (z.clock t) + t % second

/-! ## Regular zones -/

/-- From the day `first` on, `date` stays on the day that it is given, and no day comes back after the
next one has begun. -/
structure Regular (first : Int) : Prop where
  day_date : ∀ n c, first ≤ n → 0 ≤ c → c < secondsPerDay → z.day (z.date n c) = n
  day_mono : ∀ s t, first ≤ z.day s → s ≤ t → z.day s ≤ z.day t

/-- From the day `first` on, the clock shows `c` on every day. -/
def Shows (first c : Int) : Prop := ∀ n, first ≤ n → z.clock (z.date n c) = c

variable {z}

theorem clock_nonneg (t : Int) : 0 ≤ z.clock t := Int.emod_nonneg _ (by decide)

theorem clock_lt (t : Int) : z.clock t < secondsPerDay := Int.emod_lt_of_pos _ (by decide)

theorem second_dvd_date (n c : Int) : second ∣ z.date n c := by
  unfold date
  simp only
  split <;> exact Dvd.intro_left _ rfl

/-- The part of an instant below the second does not count. -/
theorem day_add {t r : Int} (ht : second ∣ t) (h0 : 0 ≤ r) (h1 : r < second) : z.day (t + r) = z.day t := by
  have hunix : unix (t + r) = unix t := by
    unfold unix second at *
    omega
  unfold day wall
  rw [hunix]

theorem addDate_days (t days : Int) : z.addDate t 0 days = z.date (z.day t + days) (z.clock t) + t % second := by
  unfold addDate
  rw [add_zero, Calendar.date_monthOf]

theorem Regular.day_addDate {first t months days : Int} (h : z.Regular first)
    (hfirst : first ≤ Calendar.date (Calendar.monthOf (z.day t) + months) (Calendar.dayOfMonth (z.day t) + days)) :
    z.day (z.addDate t months days) = Calendar.date (Calendar.monthOf (z.day t) + months)
      (Calendar.dayOfMonth (z.day t) + days) := by
  unfold addDate
  rw [day_add (second_dvd_date _ _) (Int.emod_nonneg _ (by decide)) (Int.emod_lt_of_pos _ (by decide))]
  exact h.day_date _ _ hfirst (clock_nonneg t) (clock_lt t)

theorem Regular.day_addDate_days {first t days : Int} (h : z.Regular first)
    (hfirst : first ≤ z.day t + days) : z.day (z.addDate t 0 days) = z.day t + days := by
  have hdate := Calendar.date_monthOf (z.day t) days
  rw [h.day_addDate (by rw [add_zero, hdate]; exact hfirst), add_zero, hdate]

/-! ## Instants between the days -/

variable (z) in
/-- The instant `r` is after every time of a day before `n`, and before every time of a day after it. -/
def Parts (n r : Int) : Prop := ∀ t, (z.day t < n → t < r) ∧ (n < z.day t → r < t)

section Parts

variable {m n r r' t : Int}

theorem Parts.day (h : z.Parts n r) : z.day r = n := by
  have := h r
  omega

/-- The instants are in the order of their days. -/
theorem Parts.lt (h : z.Parts m r) (h' : z.Parts n r') (hlt : m < n) : r < r' := by
  apply (h' r).1
  rwa [h.day]

theorem Parts.day_le (h : z.Parts n r) (hlt : t < r) : z.day t ≤ n := by
  by_contra hday
  have := (h t).2 (not_le.mp hday)
  omega

theorem Parts.le_day (h : z.Parts n r) (hle : r ≤ t) : n ≤ z.day t := by
  by_contra hday
  have := (h t).1 (not_le.mp hday)
  omega

theorem Regular.parts {first : Int} (h : z.Regular first) (hn : first ≤ n) (hday : z.day r = n) : z.Parts n r := by
  refine fun t => ⟨fun hlt => ?_, fun hlt => ?_⟩
  · by_contra hle
    have := h.day_mono r t (by omega) (not_lt.mp hle)
    omega
  · by_contra hle
    have := h.day_mono t r (by omega) (not_lt.mp hle)
    omega

end Parts

/-! ## Zones with one offset -/

/-- `time.FixedZone`; `fixed 0` is UTC. -/
def fixed (offset : Int) : Zone := ⟨fun _ => ⟨offset, none, none⟩⟩

/-- A zone that changes its offset once. -/
def changing (second before after : Int) : Zone :=
  ⟨fun t => if t < second then ⟨before, none, some second⟩ else ⟨after, some second, none⟩⟩

theorem wall_fixed_date (offset n c : Int) :
    (fixed offset).wall ((fixed offset).date n c) = n * secondsPerDay + c := by
  unfold wall date fixed unix
  simp only [Span.contains, Option.all_none, Bool.and_self, if_true]
  split
  · rw [Int.mul_ediv_cancel _ (by decide)]
    unfold secondsPerDay epochDay
    omega
  · rw [Int.mul_ediv_cancel _ (by decide)]
    unfold secondsPerDay epochDay
    omega

theorem fixed_date_add (offset n c s : Int) :
    (fixed offset).date n c + s * second = (fixed offset).date n (c + s) := by
  unfold date fixed
  simp only [Span.contains, Option.all_none, Bool.and_self, if_true]
  split
  · rw [← Int.add_mul, add_assoc]
  · rw [← Int.add_mul]
    congr 1
    omega

theorem fixed_regular (offset first : Int) : (fixed offset).Regular first where
  day_date n c _ h0 h1 := by
    unfold day
    rw [wall_fixed_date]
    unfold secondsPerDay at *
    omega
  day_mono s t _ hle := by
    unfold day wall fixed unix second secondsPerDay
    simp only
    omega

theorem fixed_shows (offset first : Int) {c : Int} (h0 : 0 ≤ c) (h1 : c < secondsPerDay) :
    (fixed offset).Shows first c := by
  intro n _
  unfold clock
  rw [wall_fixed_date]
  unfold secondsPerDay at *
  omega

/-- Two zones that put the clock forward on 10 March 2024, from 2:00 to 3:00 and from 0:00 to 1:00, and UTC. -/
def sampleLocations : String → Option Zone
  | "UTC" => some (Zone.fixed 0)
  | "America/New_York" => some (Zone.changing 1710054000 (-18000) (-14400))
  | "America/Havana" => some (Zone.changing 1710046800 (-18000) (-14400))
  | _ => none

/-- A time of March 2024, in UTC. -/
def march (day hour minute : Int) : Int :=
  (Zone.fixed 0).date (Calendar.date (12 * 2024 + 2) day) (hour * 3600 + minute * 60)

end Zone
