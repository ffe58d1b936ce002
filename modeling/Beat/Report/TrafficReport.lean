import Beat.Lib.Periodic
import Beat.Lib.Zone
import Beat.Model

/-!
# Scheduled traffic reports

`trafficreport/schedule.go`, `queue.go`, `service.go` and `store/traffic_report_tx.go`: a schedule has a
run on some days, at its send time in its time zone. The report of a run covers the day, the week or the
month before it, and its key is the cadence and the first day of that period. `RunDue` builds the report
of a schedule that is due and hands it to the notification queue; the queue answers a key that it has
already, and otherwise moves the schedule to its next run in the transaction that stores the message.

The machine is that of `Periodic`, with the schedule as the configuration.

* `nextRun_spec`: the next run is the first later one on a day of the schedule (`RunDay`).
* `reportPeriod_eq`: the period of a run and its key.
* `trafficReport_lawful`: where the zone is regular and the send time exists on every day, keys do not come
  back.
* `traffic_report_moves`: with updates that do not go back to a period that was sent, no run gets stuck.
* `traffic_report_stuck`: an update, and a clock that is put forward, which leave it stuck.
-/

namespace Beat.TrafficReport

open Fallible Option Calendar Lts
open Periodic (Row Call World Job Event)
open Zone (sampleLocations march)

/-! ## Schedules -/

inductive Cadence where
  | daily
  | weekly
  | monthly
  /-- A text that is none of the three. -/
  | other (name : String)
  deriving DecidableEq

/-- `model.TrafficReportSchedule`: what an update sets. -/
structure TrafficReportSchedule where
  name : String
  cadence : Cadence
  timezone : String
  sendHour : Int
  sendMinute : Int
  weekday : Int := 1
  monthDay : Int := 1
  allNodes : Bool := true
  nodeIDs : List String := []
  allChannels : Bool := true
  channelIDs : List String := []
  deriving DecidableEq

def uniqueStrings (values : List String) : List String :=
  ((values.map trimSpace).filter (· ≠ "")).eraseDups

section

variable (schedule : TrafficReportSchedule)

def normalizeSchedule : TrafficReportSchedule :=
  { schedule with
    name := trimSpace schedule.name
    timezone := trimSpace schedule.timezone
    weekday := if schedule.weekday = 0 then 1 else schedule.weekday
    monthDay := if schedule.monthDay = 0 then 1 else schedule.monthDay
    nodeIDs := if schedule.allNodes then [] else uniqueStrings schedule.nodeIDs
    channelIDs := if schedule.allChannels then [] else uniqueStrings schedule.channelIDs }

def validateCadence : Except String Unit :=
  match schedule.cadence with
  | .daily => .ok ()
  | .weekly =>
    if schedule.weekday < 1 ∨ schedule.weekday > 7 then .error "weekday must be between 1 and 7" else .ok ()
  | .monthly =>
    if schedule.monthDay < 1 ∨ schedule.monthDay > 31 then .error "month day must be between 1 and 31"
    else .ok ()
  | .other _ => .error "invalid report cadence"

/-- The send time, in seconds of the day. -/
def TrafficReportSchedule.sendClock : Int :=
  schedule.sendHour * 3600 + schedule.sendMinute * 60

end

/-! ## Runs -/

section Clocks

variable (location : Zone) (after : Int) (schedule : TrafficReportSchedule)

def localMidnight (t : Int) : Int := location.date (location.day t) 0

def localClock (days : Int) : Int :=
  location.date (location.day (location.addDate after 0 days)) schedule.sendClock

/-- `localMonthClock`; a month has a number, see `Calendar`. -/
def localMonthClock (month : Int) (schedule : TrafficReportSchedule) : Int :=
  let lastDay := dayOfMonth (location.day (location.date (date (month + 1) 0) 0))
  location.date (date month (min schedule.monthDay lastDay)) schedule.sendClock

def dailyCandidate : Int :=
  let candidate := localClock location after schedule 0
  if after < candidate then candidate else location.addDate candidate 0 1

def weeklyCandidate : Int :=
  let weekday := weekday (location.day after)
  let weekday := if weekday = 0 then 7 else weekday
  let days := (schedule.weekday - weekday + 7).tmod 7
  let candidate := localClock location after schedule days
  if after < candidate then candidate else location.addDate candidate 0 7

def monthlyCandidate : Int :=
  let month := monthOf (location.day after)
  let candidate := localMonthClock location month schedule
  if after < candidate then candidate
  else
    let nextMonth := location.date (date (month + 1) 1) 0
    localMonthClock location (monthOf (location.day nextMonth)) schedule

end Clocks

/-- The cadence and the first day of the period, the two parts of the text of a key. -/
structure PeriodKey where
  cadence : Cadence
  day : Int
  deriving DecidableEq

structure TrafficReportPeriod where
  start : Int
  stop : Int
  key : PeriodKey

section Job

variable (loadLocation : String → Option Zone) (schedule : TrafficReportSchedule)

def validateSchedule : Except String Unit :=
  if schedule.name = "" then .error "schedule name is required"
  else if schedule.sendHour < 0 ∨ schedule.sendHour > 23 ∨ schedule.sendMinute < 0 ∨
      schedule.sendMinute > 59 then .error "send time is invalid"
  else if (loadLocation schedule.timezone).isNone then .error "load schedule timezone"
  else do
    validateCadence schedule
    if !schedule.allNodes && schedule.nodeIDs.isEmpty then .error "at least one node is required"
    else if !schedule.allChannels && schedule.channelIDs.isEmpty then .error "at least one channel is required"
    else .ok ()

def nextRun (after : Int) : Except String Int :=
  match loadLocation schedule.timezone with
  | none => .error "load schedule timezone"
  | some location =>
    match schedule.cadence with
    | .daily => .ok (dailyCandidate location after schedule)
    | .weekly => .ok (weeklyCandidate location after schedule)
    | .monthly => .ok (monthlyCandidate location after schedule)
    | .other _ => .error "invalid report cadence"

def reportPeriod (runAt : Int) : Except String TrafficReportPeriod :=
  match loadLocation schedule.timezone with
  | none => .error "load schedule timezone"
  | some location =>
    let period (localStart localEnd : Int) : TrafficReportPeriod :=
      ⟨localStart, localEnd, schedule.cadence, location.day localStart⟩
    let localEnd := localMidnight location runAt
    match schedule.cadence with
    | .daily => .ok (period (location.addDate localEnd 0 (-1)) localEnd)
    | .weekly => .ok (period (location.addDate localEnd 0 (-7)) localEnd)
    | .monthly =>
      let localEnd := location.date (date (monthOf (location.day runAt)) 1) 0
      .ok (period (location.addDate localEnd (-1) 0) localEnd)
    | .other _ => .error "invalid report cadence"

/-! ## The transaction -/

def validateReportCompletion (id : Uuid) (call : Call TrafficReportSchedule PeriodKey) (nextRun : Int) :
    Except String Unit :=
  if id.text = "" then .error "invalid report period completion"
  else if Instant.isZero call.now || nextRun ≤ call.row.nextRunAt then .error "invalid report completion times"
  else .ok ()

/-- `reportCompletionCurrent`: the row is still the one that was read, due, and not at this period. -/
def reportCompletionCurrent (row : Row TrafficReportSchedule PeriodKey)
    (call : Call TrafficReportSchedule PeriodKey) (key : PeriodKey) : Bool :=
  row.enabled && row.updatedAt = call.row.updatedAt && row.nextRunAt = call.row.nextRunAt &&
    row.nextRunAt ≤ call.now && row.lastKey = call.row.lastKey && row.lastKey ≠ some key

def completePeriodTx (id : Uuid) (row : Row TrafficReportSchedule PeriodKey)
    (call : Call TrafficReportSchedule PeriodKey) (key : PeriodKey) (nextRun : Int) :
    Except String (Option (Row TrafficReportSchedule PeriodKey)) := do
  validateReportCompletion id call nextRun
  if reportCompletionCurrent row call key then
    .ok (some { row with nextRunAt := nextRun, lastKey := some key, updatedAt := call.now })
  else .ok none

/-- What `RunDue` and `Update` do with the schedule `id`. -/
def trafficReportJob (id : Uuid) : Job TrafficReportSchedule PeriodKey String where
  nextRun := nextRun loadLocation
  key schedule t := (reportPeriod loadLocation schedule t).map (·.key)
  reference due _ := due
  complete := completePeriodTx id
  accept schedule := do
    validateSchedule loadLocation (normalizeSchedule schedule)
    .ok (normalizeSchedule schedule)
  replaceScopes _ := .ok ()

end Job

/-! ## The days of the runs -/

section

variable (schedule : TrafficReportSchedule)

/-- The day of the run of a month. -/
def TrafficReportSchedule.runOfMonth (month : Int) : Int :=
  date month (min schedule.monthDay (monthStart (month + 1) - monthStart month))

/-- The schedule has a run on the day `n`. -/
def TrafficReportSchedule.RunDay (n : Int) : Prop :=
  match schedule.cadence with
  | .daily => True
  | .weekly => Calendar.weekday n = schedule.weekday % 7
  | .monthly => ∃ month, n = schedule.runOfMonth month
  | .other _ => False

/-- The first day of the period of the run on the day `n`. -/
def TrafficReportSchedule.periodDay (n : Int) : Int :=
  match schedule.cadence with
  | .daily => n - 1
  | .weekly => n - 7
  | .monthly => monthStart (monthOf n - 1)
  | .other _ => n

/-- The day at whose midnight the period of the run on the day `n` ends. -/
def TrafficReportSchedule.endDay (n : Int) : Int :=
  match schedule.cadence with
  | .monthly => monthStart (monthOf n)
  | .daily | .weekly | .other _ => n

end

structure TrafficReportSchedule.Valid (schedule : TrafficReportSchedule) : Prop where
  clock_nonneg : 0 ≤ schedule.sendClock
  clock_lt : schedule.sendClock < Zone.secondsPerDay
  cadence : validateCadence schedule = .ok ()

variable {schedule : TrafficReportSchedule} {loadLocation : String → Option Zone} {id : Uuid}
  {key : PeriodKey}

theorem validateSchedule_ok (h : validateSchedule loadLocation schedule = .ok ()) : schedule.Valid := by
  unfold validateSchedule at h
  split at h
  · cases h
  split at h
  · cases h
  rename_i hclock
  split at h
  · cases h
  obtain ⟨_, hcadence, -⟩ := bind_eq_ok h
  refine ⟨?_, ?_, hcadence⟩ <;> unfold TrafficReportSchedule.sendClock
  · omega
  · unfold Zone.secondsPerDay
    omega

theorem accept_valid {schedule' : TrafficReportSchedule}
    (h : (trafficReportJob loadLocation id).accept schedule = .ok schedule') : schedule'.Valid := by
  generalize normalizeSchedule schedule = normal at h
  obtain ⟨_, hvalid, h⟩ := bind_eq_ok h
  cases h
  exact validateSchedule_ok hvalid

theorem TrafficReportSchedule.Valid.monthDay (h : schedule.Valid) (hc : schedule.cadence = .monthly) :
    1 ≤ schedule.monthDay := by
  have hv := h.cadence
  simp only [validateCadence, hc] at hv
  split at hv
  · cases hv
  · omega

theorem TrafficReportSchedule.Valid.weekday (h : schedule.Valid) (hc : schedule.cadence = .weekly) :
    1 ≤ schedule.weekday ∧ schedule.weekday ≤ 7 := by
  have hv := h.cadence
  simp only [validateCadence, hc] at hv
  split at hv
  · cases hv
  · omega

/-- The run of a month is in the month. -/
theorem runOfMonth_bounds (h : 1 ≤ schedule.monthDay) (month : Int) :
    monthStart month ≤ schedule.runOfMonth month ∧ schedule.runOfMonth month < monthStart (month + 1) := by
  have := monthStart_succ month
  unfold TrafficReportSchedule.runOfMonth date
  omega

theorem monthOf_runOfMonth (h : 1 ≤ schedule.monthDay) (month : Int) : monthOf (schedule.runOfMonth month) = month :=
  monthOf_eq (runOfMonth_bounds h month).1 (runOfMonth_bounds h month).2

theorem runOfMonth_strictMono (h : 1 ≤ schedule.monthDay) : StrictMono schedule.runOfMonth := by
  intro month month' hlt
  have hmono := monthStart_strictMono.monotone (show month + 1 ≤ month' by omega)
  have := (runOfMonth_bounds h month).2
  have := (runOfMonth_bounds h month').1
  omega

/-- The periods of later runs begin later. -/
theorem periodDay_lt (hv : schedule.Valid) {n n' : Int} (h : schedule.RunDay n) (h' : schedule.RunDay n')
    (hlt : n < n') : schedule.periodDay n < schedule.periodDay n' := by
  unfold TrafficReportSchedule.RunDay at h h'
  unfold TrafficReportSchedule.periodDay
  cases hc : schedule.cadence with
  | daily =>
    simp only
    omega
  | weekly =>
    simp only
    omega
  | monthly =>
    simp only [hc] at h h' ⊢
    obtain ⟨month, rfl⟩ := h
    obtain ⟨month', rfl⟩ := h'
    have hday := hv.monthDay hc
    rw [monthOf_runOfMonth hday, monthOf_runOfMonth hday]
    have := (runOfMonth_strictMono hday).lt_iff_lt.mp hlt
    exact monthStart_strictMono (by omega)
  | other =>
    simp only [hc] at h

/-- The days from one run of a daily or weekly schedule to the next. -/
def TrafficReportSchedule.step (schedule : TrafficReportSchedule) : Int :=
  match schedule.cadence with
  | .weekly => 7
  | .daily | .monthly | .other _ => 1

/-- The start of a period, from its end. -/
def TrafficReportSchedule.startOf (schedule : TrafficReportSchedule) (location : Zone) (localEnd : Int) : Int :=
  match schedule.cadence with
  | .monthly => location.addDate localEnd (-1) 0
  | .daily | .weekly | .other _ => location.addDate localEnd 0 (-schedule.step)

/-- The runs of a schedule that is not monthly are a number of days apart. -/
theorem runDay_step (hc : schedule.cadence ≠ .monthly) {n : Int} (h : schedule.RunDay n) :
    0 < schedule.step ∧ schedule.RunDay (n + schedule.step) ∧ schedule.RunDay (n - schedule.step) ∧
      ∀ m, schedule.RunDay m → n - schedule.step < m → n ≤ m ∧ (m ≠ n → n + schedule.step ≤ m) := by
  unfold TrafficReportSchedule.RunDay TrafficReportSchedule.step at *
  cases hcad : schedule.cadence with
  | daily => exact ⟨by decide, trivial, trivial, fun m _ hm => by simp only at *; omega⟩
  | weekly =>
    simp only [hcad] at h ⊢
    unfold weekday at *
    exact ⟨by decide, by omega, by omega, fun m hm hlt => by omega⟩
  | monthly => exact absurd hcad hc
  | other => simp only [hcad] at h

/-! ## What `nextRun` and `reportPeriod` return -/

/-- From the day `first` on, the run of a day is on the day, after all earlier days and before all later ones. `AddDate`
carries a run of a daily or weekly schedule to the next one, and the clock of a time to the day of the run after it; in
a month, the midnights of the first and of the last day give the month and, where the schedule asks for it, the day. -/
structure TrafficReportSchedule.InOrder (schedule : TrafficReportSchedule) (location : Zone) (first : Int) :
    Prop where
  parts : ∀ n, first ≤ n → schedule.RunDay n → location.Parts n (location.date n schedule.sendClock)
  days : schedule.cadence ≠ .monthly → ∀ n, first ≤ n → schedule.RunDay n →
    location.addDate (location.date n schedule.sendClock) 0 schedule.step =
        location.date (n + schedule.step) schedule.sendClock ∧
      ∀ t, first ≤ location.day t → location.day t ≤ n → n < location.day t + schedule.step →
        location.day (location.date n (location.clock t)) = n
  months : schedule.cadence = .monthly → ∀ month, first ≤ monthStart month →
    monthOf (location.day (location.date (monthStart month) 0)) = month ∧
      min schedule.monthDay (dayOfMonth (location.day (location.date (monthStart (month + 1) - 1) 0))) =
        min schedule.monthDay (monthStart (month + 1) - monthStart month)

section Candidates

variable {schedule : TrafficReportSchedule} {location : Zone} {first : Int}

variable {n after : Int} {days month : Int}

theorem dayOfMonth_end (month : Int) :
    dayOfMonth (monthStart (month + 1) - 1) = monthStart (month + 1) - monthStart month := by
  rw [← dayOfMonth_last, date, add_zero]

/-- A regular zone that shows the send time on every day. -/
theorem TrafficReportSchedule.InOrder.of_regular (hv : schedule.Valid) (hreg : location.Regular first)
    (hshows : location.Shows first schedule.sendClock) : schedule.InOrder location first := by
  have hday : ∀ {n}, first ≤ n → location.day (location.date n schedule.sendClock) = n := fun hn =>
    hreg.day_date _ _ hn hv.clock_nonneg hv.clock_lt
  have hmid : ∀ {n}, first ≤ n → location.day (location.date n 0) = n := fun hn =>
    hreg.day_date _ _ hn (le_refl _) (by decide)
  refine ⟨fun n hn _ => hreg.parts hn (hday hn), fun _ n hn _ => ⟨?_, fun t _ _ _ =>
    hreg.day_date _ _ hn (Zone.clock_nonneg t) (Zone.clock_lt t)⟩, fun _ month hm => ?_⟩
  · rw [Zone.addDate_days, hday hn, hshows n hn, Int.emod_eq_zero_of_dvd (Zone.second_dvd_date _ _), add_zero]
  · have := monthStart_succ month
    rw [hmid hm, hmid (by omega), dayOfMonth_end]
    exact ⟨monthOf_eq (le_refl _) (by omega), rfl⟩

variable (h : schedule.InOrder location first)

include h

theorem localClock_eq (hc : schedule.cadence ≠ .monthly) (hn : first ≤ location.day after) (h0 : 0 ≤ days)
    (h1 : days < schedule.step) (hrun : schedule.RunDay (location.day after + days)) :
    localClock location after schedule days = location.date (location.day after + days) schedule.sendClock := by
  unfold localClock
  rw [Zone.addDate_days, Zone.day_add (Zone.second_dvd_date _ _) (Int.emod_nonneg _ (by decide))
    (Int.emod_lt_of_pos _ (by decide)), (h.days hc _ (by omega) hrun).2 after hn (by omega) (by omega)]

/-- A candidate that is not after the given time is put off to the next run. -/
theorem candidate_spec (hc : schedule.cadence ≠ .monthly) (hn : first ≤ location.day after) (h0 : 0 ≤ days)
    (h1 : days < schedule.step) (hrun : schedule.RunDay (location.day after + days)) :
    ∃ n, (if after < localClock location after schedule days then localClock location after schedule days
        else location.addDate (localClock location after schedule days) 0 schedule.step) =
          location.date n schedule.sendClock ∧
      schedule.RunDay n ∧ location.day after ≤ n ∧ after < location.date n schedule.sendClock ∧
      ∀ m, schedule.RunDay m → first ≤ m → after < location.date m schedule.sendClock → n ≤ m := by
  obtain ⟨hpos, hnext, -, hgap⟩ := runDay_step hc hrun
  have hle : ∀ m, schedule.RunDay m → first ≤ m → after < location.date m schedule.sendClock →
      location.day after ≤ m := fun m hrun hm hlt => (h.parts m hm hrun).day_le hlt
  rw [localClock_eq h hc hn h0 h1 hrun, (h.days hc _ (by omega) hrun).1]
  split_ifs with hlt
  · refine ⟨_, rfl, hrun, by omega, hlt, fun m hm hm' hltm => ?_⟩
    have := hle m hm hm' hltm
    exact (hgap m hm (by omega)).1
  · refine ⟨_, rfl, hnext, by omega, (h.parts _ (by omega) hnext after).1 (by omega), fun m hm hm' hltm => ?_⟩
    have := hle m hm hm' hltm
    refine (hgap m hm (by omega)).2 ?_
    rintro rfl
    exact hlt hltm

theorem localMonthClock_eq (hc : schedule.cadence = .monthly) (hn : first ≤ monthStart month) :
    localMonthClock location month schedule = location.date (schedule.runOfMonth month) schedule.sendClock := by
  have hlast : date (month + 1) 0 = monthStart (month + 1) - 1 := by
    unfold date
    omega
  unfold localMonthClock TrafficReportSchedule.runOfMonth
  simp only [hlast, (h.months hc month hn).2]

omit h in
theorem date_one (month : Int) : date month 1 = monthStart month := by
  unfold date
  omega

theorem monthlyCandidate_spec (hc : schedule.cadence = .monthly) (hday : 1 ≤ schedule.monthDay)
    (hn : first + 31 ≤ location.day after) : ∃ month, monthlyCandidate location after schedule =
        location.date (schedule.runOfMonth month) schedule.sendClock ∧
      location.day after ≤ schedule.runOfMonth month ∧
      after < location.date (schedule.runOfMonth month) schedule.sendClock ∧ ∀ k, first ≤ schedule.runOfMonth k →
        after < location.date (schedule.runOfMonth k) schedule.sendClock → month ≤ k := by
  have hrun : ∀ k, schedule.RunDay (schedule.runOfMonth k) := fun k => by
    unfold TrafficReportSchedule.RunDay
    simp only [hc]
    exact ⟨k, rfl⟩
  obtain ⟨hstart, hstop⟩ := monthOf_spec (location.day after)
  unfold monthlyCandidate
  simp only
  generalize monthOf (location.day after) = month at *
  have hlen := monthStart_succ month
  have hbounds := runOfMonth_bounds hday month
  rw [localMonthClock_eq h hc (by omega)]
  -- a later run is not in an earlier month
  have hle : ∀ k, first ≤ schedule.runOfMonth k →
      after < location.date (schedule.runOfMonth k) schedule.sendClock → month ≤ k := by
    intro k hk hlt
    have := (h.parts _ hk (hrun k)).day_le hlt
    have hend := (runOfMonth_bounds hday k).2
    have := monthStart_strictMono.lt_iff_lt.mp (show monthStart month < monthStart (k + 1) by omega)
    omega
  split_ifs with hlt
  · exact ⟨month, rfl, (h.parts _ (by omega) (hrun month)).day_le hlt, hlt, hle⟩
  · have hbounds' := runOfMonth_bounds hday (month + 1)
    rw [date_one, (h.months hc (month + 1) (by omega)).1, localMonthClock_eq h hc (by omega)]
    refine ⟨month + 1, rfl, by omega, (h.parts _ (by omega) (hrun _) after).1 (by omega), fun k hk hk' => ?_⟩
    have hne : month ≠ k := by
      rintro rfl
      exact hlt hk'
    have := hle k hk hk'
    omega

end Candidates

section Specs

variable {loadLocation : String → Option Zone} {schedule : TrafficReportSchedule} {location : Zone} {first : Int}

variable (hloc : loadLocation schedule.timezone = some location) (hv : schedule.Valid)

include hloc hv

theorem nextRun_spec (h : schedule.InOrder location first) (after : Int) (hn : first + 31 ≤ location.day after) :
    ∃ n, nextRun loadLocation schedule after = .ok (location.date n schedule.sendClock) ∧
      schedule.RunDay n ∧ location.day after ≤ n ∧ after < location.date n schedule.sendClock ∧
      ∀ m, schedule.RunDay m → first ≤ m → after < location.date m schedule.sendClock → n ≤ m := by
  have hfirst : first ≤ location.day after := by omega
  unfold nextRun
  simp only [hloc]
  cases hc : schedule.cadence with
  | daily =>
    have hstep : schedule.step = 1 := by simp only [TrafficReportSchedule.step, hc]
    have hrun : schedule.RunDay (location.day after + 0) := by simp only [TrafficReportSchedule.RunDay, hc]
    obtain ⟨n, heq, hn⟩ := candidate_spec h (by simp [hc]) hfirst (le_refl 0) (by omega) hrun
    rw [hstep] at heq
    exact ⟨n, congrArg Except.ok heq, hn⟩
  | weekly =>
    have hw := hv.weekday hc
    have hstep : schedule.step = 7 := by simp only [TrafficReportSchedule.step, hc]
    simp only [weeklyCandidate]
    generalize hd : (schedule.weekday - (if weekday (location.day after) = 0 then 7
      else weekday (location.day after)) + 7).tmod 7 = days
    have hdays : 0 ≤ days ∧ weekday (location.day after + days) = schedule.weekday % 7 := by
      unfold weekday at *
      rw [← hd, Int.tmod_eq_emod_of_nonneg (by split <;> omega)]
      split <;> omega
    have hlast : days < 7 := hd ▸ Int.tmod_lt_of_pos _ (by decide)
    have hrun : schedule.RunDay (location.day after + days) := by
      simp only [TrafficReportSchedule.RunDay, hc]
      exact hdays.2
    obtain ⟨n, heq, hn⟩ := candidate_spec h (by simp [hc]) hfirst hdays.1 (by omega) hrun
    rw [hstep] at heq
    exact ⟨n, congrArg Except.ok heq, hn⟩
  | monthly =>
    have hday := hv.monthDay hc
    obtain ⟨month, heq, hle, hlt, hleast⟩ := monthlyCandidate_spec h hc hday hn
    have hrun : ∀ m, schedule.RunDay m ↔ ∃ k, m = schedule.runOfMonth k := fun m => by
      simp only [TrafficReportSchedule.RunDay, hc]
    refine ⟨_, congrArg Except.ok heq, (hrun _).mpr ⟨month, rfl⟩, hle, hlt, fun m hm hfirst hltm => ?_⟩
    obtain ⟨k, rfl⟩ := (hrun m).mp hm
    exact (runOfMonth_strictMono hday).monotone (hleast k hfirst hltm)
  | other =>
    have hv := hv.cadence
    simp only [validateCadence, hc] at hv
    cases hv

theorem reportPeriod_eq (t : Int) :
    let stop := location.date (schedule.endDay (location.day t)) 0
    reportPeriod loadLocation schedule t = .ok ⟨schedule.startOf location stop, stop, schedule.cadence,
      location.day (schedule.startOf location stop)⟩ := by
  unfold reportPeriod TrafficReportSchedule.endDay TrafficReportSchedule.startOf TrafficReportSchedule.step
    localMidnight
  simp only [hloc]
  cases hc : schedule.cadence with
  | daily | weekly => rfl
  | monthly => simp only [date_one]
  | other =>
    have hv := hv.cadence
    simp only [validateCadence, hc] at hv
    cases hv

end Specs

/-- The first day of the month before, by date arithmetic. -/
theorem date_monthBefore (month : Int) : date (monthOf (monthStart month) + -1)
    (dayOfMonth (monthStart month) + 0) = monthStart (month - 1) := by
  have := monthStart_succ month
  have hmonth : monthOf (monthStart month) = month := monthOf_eq (le_refl _) (by omega)
  have hone : dayOfMonth (monthStart month) + 0 = 1 := by
    unfold dayOfMonth
    rw [hmonth]
    omega
  rw [hmonth, hone, date_one]
  rfl

/-- In a regular zone the period of a run starts on its first day. -/
theorem day_startOf {location : Zone} {first n : Int} (hv : schedule.Valid) (hreg : location.Regular first)
    (hn : first + 62 ≤ n) :
    location.day (schedule.startOf location (location.date (schedule.endDay n) 0)) = schedule.periodDay n := by
  have hmid : ∀ {n}, first ≤ n → location.day (location.date n 0) = n := fun hn =>
    hreg.day_date _ _ hn (le_refl _) (by decide)
  unfold TrafficReportSchedule.startOf TrafficReportSchedule.endDay TrafficReportSchedule.periodDay
    TrafficReportSchedule.step
  cases hc : schedule.cadence with
  | daily | weekly =>
    simp only
    rw [hreg.day_addDate_days (by rw [hmid (by omega)]; omega), hmid (by omega)]
    rfl
  | monthly =>
    obtain ⟨hstart, hstop⟩ := monthOf_spec n
    simp only
    generalize monthOf n = month at *
    have hlen := monthStart_succ month
    have hlen' := monthStart_succ (month - 1)
    rw [sub_add_cancel] at hlen'
    have hday := hmid (show first ≤ monthStart month by omega)
    rw [hreg.day_addDate (by rw [hday, date_monthBefore]; omega), hday, date_monthBefore]
  | other =>
    have hv := hv.cadence
    simp only [validateCadence, hc] at hv
    cases hv

/-! ## The laws -/

section Laws

variable (loadLocation : String → Option Zone)

/-- From two months before the clock on, the zone of the schedule is regular and the send time exists on
every day. -/
def Settled (schedule : TrafficReportSchedule) (now : Int) : Prop :=
  ∃ location first, loadLocation schedule.timezone = some location ∧ location.Regular first ∧
    location.Shows first schedule.sendClock ∧ first + 62 ≤ location.day now

def RunTime (schedule : TrafficReportSchedule) (t : Int) : Prop :=
  ∃ location first n, loadLocation schedule.timezone = some location ∧ schedule.Valid ∧ location.Regular first ∧
    location.Shows first schedule.sendClock ∧ first + 62 ≤ n ∧ schedule.RunDay n ∧
    t = location.date n schedule.sendClock

/-- The period of the key is before that of the run at `t`; keys of another cadence do not matter. -/
def Past (schedule : TrafficReportSchedule) (t : Int) (key : PeriodKey) : Prop :=
  key.cadence = schedule.cadence →
    ∃ period, reportPeriod loadLocation schedule t = .ok period ∧ key.day < period.key.day

variable {loadLocation}

variable {t : Int} {call : Call TrafficReportSchedule PeriodKey}

theorem RunTime.period (h : RunTime loadLocation schedule t) :
    ∃ location n period, loadLocation schedule.timezone = some location ∧ schedule.Valid ∧ schedule.RunDay n ∧
      t = location.date n schedule.sendClock ∧ location.Parts n t ∧ reportPeriod loadLocation schedule t = .ok period ∧
      period.key = ⟨schedule.cadence, schedule.periodDay n⟩ := by
  obtain ⟨location, first, n, hloc, hv, hreg, hshows, hfirst, hrun, rfl⟩ := h
  have hparts := (TrafficReportSchedule.InOrder.of_regular hv hreg hshows).parts n (by omega) hrun
  refine ⟨location, n, _, hloc, hv, hrun, rfl, hparts, reportPeriod_eq hloc hv _, ?_⟩
  rw [hparts.day, day_startOf hv hreg hfirst]

/-- A later run has a later period. -/
theorem RunTime.period_lt {t' : Int} (h : RunTime loadLocation schedule t) (h' : RunTime loadLocation schedule t')
    (hlt : t < t') : ∃ period period', reportPeriod loadLocation schedule t = .ok period ∧
      reportPeriod loadLocation schedule t' = .ok period' ∧ period.key.day < period'.key.day := by
  obtain ⟨location, n, period, hloc, hv, hrun, rfl, hparts, hperiod, hkey⟩ := h.period
  obtain ⟨location', n', period', hloc', -, hrun', rfl, hparts', hperiod', hkey'⟩ := h'.period
  obtain rfl : location = location' := some.inj (hloc.symm.trans hloc')
  have hle := hparts'.day_le hlt
  rw [hparts.day] at hle
  have hne : n ≠ n' := by
    rintro rfl
    exact lt_irrefl _ hlt
  refine ⟨period, period', hperiod, hperiod', ?_⟩
  rw [hkey, hkey']
  exact periodDay_lt hv hrun hrun' (lt_of_le_of_ne hle hne)

theorem trafficReport_lawful (id : Uuid) :
    Periodic.Lawful (trafficReportJob loadLocation id) (Settled loadLocation) (RunTime loadLocation)
      (Past loadLocation) where
  reference t now h := ⟨le_refl t, h⟩
  first schedule₀ schedule now t haccept hsettled hnext := by
    obtain ⟨location, first, hloc, hreg, hshows, hfirst⟩ := hsettled
    have hv := accept_valid haccept
    obtain ⟨n, hn, hrun, hle, hlt, -⟩ := nextRun_spec hloc hv (.of_regular hv hreg hshows) now (by omega)
    obtain rfl := Except.ok.inj (hn.symm.trans hnext)
    exact ⟨⟨location, first, n, hloc, hv, hreg, hshows, by omega, hrun, rfl⟩, hlt⟩
  key schedule t h := by
    obtain ⟨-, n, period, -, -, -, -, -, hperiod, hkey⟩ := h.period
    refine ⟨period.key, ?_, fun hpast => ?_⟩
    · simp only [trafficReportJob, hperiod, Except.map]
    · obtain ⟨period', hperiod', hlt⟩ := hpast (by rw [hkey])
      rw [hperiod] at hperiod'
      cases hperiod'
      exact lt_irrefl _ hlt
  next schedule t now h hle := by
    obtain ⟨location, first, n, hloc, hv, hreg, hshows, hfirst, hrun, rfl⟩ := h
    have hin := TrafficReportSchedule.InOrder.of_regular hv hreg hshows
    have hday := (hin.parts n (by omega) hrun).day
    obtain ⟨n', hn', hrun', hle', hlt', -⟩ := nextRun_spec hloc hv hin
      (location.date n schedule.sendClock) (by rw [hday]; omega)
    exact ⟨_, hn', ⟨location, first, n', hloc, hv, hreg, hshows, by omega, hrun', rfl⟩, hlt'⟩
  past_key schedule t t' k h h' hlt hk _ := by
    obtain ⟨period, period', hperiod, hperiod', hday⟩ := h.period_lt h' hlt
    simp only [trafficReportJob, hperiod, Except.map] at hk
    cases hk
    exact ⟨period', hperiod', hday⟩
  past_mono schedule t t' k h h' hlt hpast hc := by
    obtain ⟨period, period', hperiod, hperiod', hday⟩ := h.period_lt h' hlt
    obtain ⟨period₁, hperiod₁, hlt₁⟩ := hpast hc
    rw [hperiod] at hperiod₁
    cases hperiod₁
    exact ⟨period', hperiod', hlt₁.trans hday⟩
  complete_some row call key t row' h := by
    obtain ⟨_, -, h⟩ := bind_eq_ok h
    split at h
    · rename_i hcurrent
      cases h
      simp only [reportCompletionCurrent, Bool.and_eq_true, decide_eq_true_eq] at hcurrent
      exact ⟨hcurrent.1.1.1.2, rfl⟩
    · cases h
  complete_self call key t hen hdue hlast hlt := by
    have hcurrent : reportCompletionCurrent call.row call key = true := by
      simp [reportCompletionCurrent, hen, hdue, hlast]
    dsimp only [trafficReportJob, completePeriodTx, validateReportCompletion]
    rw [if_neg id.text_ne_empty]
    by_cases hzero : Instant.isZero call.now = true
    · refine .inl ⟨hzero, "invalid report completion times", ?_⟩
      simp only [hzero, Bool.true_or, if_true]
      rfl
    · right
      simp only [hzero, not_le.mpr hlt, decide_false, Bool.or_self, Bool.false_eq_true, if_false, hcurrent, if_true]
      rfl

end Laws

/-! ## Runs -/

/-- From a schedule that was created in order, along updates that are in order and do not go back to a
period that was sent: no period is sent twice; every `RunDue` that returns no error for the schedule leaves
it with a later run; and a `RunDue` that nothing disturbs sends the period of a due run, which is new, and
goes on to the next run. -/
theorem traffic_report_moves {loadLocation : String → Option Zone} {id : Uuid}
    {schedule : TrafficReportSchedule} {enabled : Bool} {created stamp : Int}
    {w₀ w : World TrafficReportSchedule PeriodKey} {es : List (Event TrafficReportSchedule String)}
    (hcreate : (trafficReportJob loadLocation id).create schedule enabled created stamp = .ok w₀)
    (hsettled : ∀ schedule', (trafficReportJob loadLocation id).accept schedule = .ok schedule' →
      Settled loadLocation schedule' created)
    (h : Run (Periodic.CarefulStep (trafficReportJob loadLocation id) (Settled loadLocation) (Past loadLocation))
      w₀ es w) : w.sent.Nodup ∧ (∀ call fault outcome w', w.call = some call →
      (trafficReportJob loadLocation id).runScheduled w call fault = (.ok outcome, w') →
        call.row.nextRunAt < w'.row.nextRunAt) ∧
    (∀ now, w.call = none → w.row.enabled = true → w.clock ≤ now → w.row.nextRunAt ≤ now →
      Instant.isZero now = false →
      ∃ period next, reportPeriod loadLocation w.row.config w.row.nextRunAt = .ok period ∧
        period.key ∉ w.sent ∧ nextRun loadLocation w.row.config w.row.nextRunAt = .ok next ∧ w.row.nextRunAt < next ∧
        runFn (trafficReportJob loadLocation id).next w [.listDue now, .run none] = some { w with
            row := { w.row with nextRunAt := next, lastKey := some period.key, updatedAt := now }
            sent := w.sent ++ [period.key]
            clock := now }) := by
  have hl : Periodic.Lawful (trafficReportJob loadLocation id) _ _ _ := trafficReport_lawful id
  obtain ⟨hnodup, hm⟩ := Periodic.moving_run (fun _ _ _ hs => hs) hl hcreate hsettled h
  refine ⟨hnodup, ?_, ?_⟩
  · intro call fault outcome w' hcall hr
    exact hm.run_moves hl hcall hr
  · intro now hcall hen hclock hdue hzero
    obtain ⟨key, next, hkey, hnew, hnext, hlt, hrun⟩ := hm.run_queues hl hcall hen hclock hdue hzero
    obtain ⟨period, hperiod, rfl⟩ := map_eq_ok hkey
    exact ⟨period, next, hperiod, hnew, hnext, hlt, hrun⟩

def sampleReportID : Uuid := ⟨"5d3f0a52-7c0e-4c61-9b1f-8f6b1f3c2a10", by decide +kernel⟩

def sampleReport : Job TrafficReportSchedule PeriodKey String := trafficReportJob sampleLocations sampleReportID

def dailyReport (timezone : String) (hour minute : Int) : TrafficReportSchedule :=
  { name := "traffic", cadence := .daily, timezone := timezone, sendHour := hour, sendMinute := minute }

/-- `RunDue` at each of these times. -/
def runsAt (times : List Int) : List (Event TrafficReportSchedule String) :=
  times.flatMap fun t => [.listDue t, .run none]

/-- The next run can be computed where the period can. -/
theorem nextRun_of_key {t now : Int} (h : sampleReport.key schedule t = .ok key) :
    ∃ next, sampleReport.nextRun schedule (sampleReport.reference t now) = .ok next := by
  obtain ⟨period, hperiod, -⟩ := map_eq_ok h
  dsimp only [sampleReport, trafficReportJob, nextRun]
  unfold reportPeriod at hperiod
  split at hperiod
  · cases hperiod
  cases hc : schedule.cadence with
  | daily | weekly | monthly => exact ⟨_, rfl⟩
  | other => simp only [hc] at hperiod; cases hperiod

/-- A daily report that was sent at 8:00 is put off to 10:00 of the same day. A daily report at 2:30 has
two runs on the day after the clock skips 2:30. A daily report on the day whose midnight is skipped has the
period of the day before. -/
theorem traffic_report_stuck : sampleReport.Stuck (dailyReport "UTC" 8 0) (march 1 7 0)
      (runsAt [march 1 8 0] ++ [.update (dailyReport "UTC" 10 0) true (march 1 9 0) (march 1 9 0) none]) ∧
    sampleReport.Stuck (dailyReport "America/New_York" 2 30) (march 9 0 0)
      (runsAt [march 9 7 30, march 10 6 30, march 11 5 30]) ∧
    sampleReport.Stuck (dailyReport "America/Havana" 8 0) (march 9 0 0) (runsAt [march 9 13 0]) :=
  ⟨.of_key (fun _ => true) (by decide +kernel) fun _ _ _ _ _ => nextRun_of_key,
    .of_key (fun _ => true) (by decide +kernel) fun _ _ _ _ _ => nextRun_of_key,
    .of_key (fun _ => true) (by decide +kernel) fun _ _ _ _ _ => nextRun_of_key⟩

theorem settled_utc (hour minute : Int) {now : Int} (h0 : 0 ≤ hour * 3600 + minute * 60)
    (h1 : hour * 3600 + minute * 60 < Zone.secondsPerDay) (h : schedule = dailyReport "UTC" hour minute) :
    Settled sampleLocations schedule now := by
  subst h
  exact ⟨Zone.fixed 0, (Zone.fixed 0).day now - 62, rfl, Zone.fixed_regular _ _, Zone.fixed_shows _ _ h0 h1,
    by omega⟩

/-- The only update puts the send time off to 10:00, from 2 March on. -/
def carefulSample (w : World TrafficReportSchedule PeriodKey) : Event TrafficReportSchedule String → Bool
  | .update schedule _ now _ _ => schedule = dailyReport "UTC" 10 0 && now = march 2 7 0 && w.clock ≤ now &&
      w.sent.all fun key => key.day < date (12 * 2024 + 2) 1
  | .listDue _ | .run _ => true

theorem careful_sample {w : World TrafficReportSchedule PeriodKey} {e : Event TrafficReportSchedule String}
    (h : carefulSample w e = true) :
    Periodic.Careful sampleReport (Settled sampleLocations) (Past sampleLocations) w e := by
  cases e with
  | listDue | run => trivial
  | update schedule enabled now stamp fault =>
    simp only [carefulSample, Bool.and_eq_true, decide_eq_true_eq, List.all_eq_true] at h
    obtain ⟨⟨⟨rfl, rfl⟩, hclock⟩, hsent⟩ := h
    intro schedule' t haccept hnext _
    obtain rfl : dailyReport "UTC" 10 0 = schedule' := Except.ok.inj haccept
    obtain rfl : march 2 10 0 = t := Except.ok.inj hnext
    refine ⟨hclock, settled_utc 10 0 (by decide) (by decide) rfl, fun key hkey _ => ⟨_, rfl, ?_⟩⟩
    have hday := hsent key hkey
    have hperiod : (Zone.fixed 0).day ((Zone.fixed 0).addDate (localMidnight (Zone.fixed 0) (march 2 10 0)) 0 (-1)) =
        date (12 * 2024 + 2) 1 := by decide +kernel
    exact lt_of_lt_of_eq hday hperiod.symm

/-- A report that was sent, a later send time from the next day on, and the report of that day. -/
theorem traffic_report_moves_sample :
    ∃ w₀ w, sampleReport.create (dailyReport "UTC" 8 0) true (march 1 7 0) (march 1 7 0) = .ok w₀ ∧
      Run (Periodic.CarefulStep sampleReport (Settled sampleLocations) (Past sampleLocations)) w₀
        (runsAt [march 1 8 0] ++ [.update (dailyReport "UTC" 10 0) true (march 2 7 0) (march 2 7 0) none] ++
          [.listDue (march 2 10 0)]) w ∧ ∃ call, w.call = some call ∧ ∀ fault outcome w',
        sampleReport.runScheduled w call fault = (.ok outcome, w') → call.row.nextRunAt < w'.row.nextRunAt := by
  refine Periodic.checked_run carefulSample (fun _ _ _ hc hs => ⟨hs, careful_sample hc⟩) (by decide +kernel)
    fun w₀ w call hcreate hr hcall fault outcome w' => ?_
  have hmoves := traffic_report_moves hcreate (fun schedule' haccept =>
    settled_utc 8 0 (by decide) (by decide) (Except.ok.inj haccept).symm) hr
  exact hmoves.2.1 call fault outcome w' hcall

end Beat.TrafficReport
