import Beat.Lib.Periodic
import Beat.Lib.Zone
import Beat.Model

/-!
# Scheduled fleet summaries

`fleetsummary/schedule.go`, `summary.go`, `service.go` and `store/fleet_summary_tx.go`: a daily or weekly
summary at a local time. The key of a run is its local date, or its ISO week. `RunDue` handles one run at
a time and goes on to the first run after the clock, so that missed runs are made up for once.

The machine is that of `Periodic`, with the schedule as the configuration. Unlike a traffic report, a local
time that the clock skips is looked for from midnight on, minute by minute (`localInstant`).

* `Reaches.parts`: the run of a day that reaches the local time is on that day.
* `nextRun_spec`, `periodKey_spec`: the next run and its key.
* `fleetSummary_lawful`: where the days of the runs reach the local time, keys do not come back.
* `replaceScopes_refused`: an update is always taken back, since the handler gives it no schedule id.
* `fleet_summary_moves`: every `RunDue` leaves the schedule with a run after its clock; `fleet_summary_stuck` is a
  midnight that is skipped, which leaves it stuck.
-/

namespace Beat.FleetSummary

open Fallible Option Calendar Lts
open Periodic (Row Call World Job Event)
open Zone (sampleLocations march)

/-! ## Schedules -/

inductive Cadence where
  | daily
  | weekly
  /-- A text that is none of the two. -/
  | other (name : String)
  deriving DecidableEq

/-- `model.FleetSummarySchedule`: what an update sets. -/
structure FleetSummarySchedule where
  name : String
  cadence : Cadence
  timezone : String
  localTime : String
  weekday : Option Int := none
  nameThreshold : Int := 10
  nodeIDs : List String := []
  groupIDs : List String := []
  channelIDs : List String
  deriving DecidableEq

def maximumNameThreshold : Int := 50

def uniqueIDs (ids : List String) : List String := ((ids.map trimSpace).filter (· ≠ "")).eraseDups

def normalizeSchedule (schedule : FleetSummarySchedule) : FleetSummarySchedule :=
  { schedule with
    name := trimSpace schedule.name
    timezone := trimSpace schedule.timezone
    localTime := trimSpace schedule.localTime
    weekday := if schedule.cadence = .weekly then schedule.weekday else none
    nodeIDs := uniqueIDs schedule.nodeIDs
    groupIDs := uniqueIDs schedule.groupIDs
    channelIDs := uniqueIDs schedule.channelIDs }

/-- `strconv.Atoi`, for a text of a few characters. -/
def atoi (text : List Char) : Option Int :=
  let digits (value : List Char) : Option Nat :=
    if value.isEmpty || !value.all Char.isDigit then none
    else some (value.foldl (fun n c => 10 * n + (c.toNat - 48)) 0)
  match text with
  | '-' :: rest => (digits rest).map fun n => -(n : Int)
  | '+' :: rest => (digits rest).map fun n => (n : Int)
  | _ => (digits text).map fun n => (n : Int)

/-- `parseLocalTime`: the hour and the minute. -/
def parseLocalTime (value : String) : Except String (Int × Int) :=
  let (hour, rest) := (trimSpace value).toList.span (· ≠ ':')
  match rest with
  | [] => .error "local time must use HH:MM"
  | _ :: minute =>
    match atoi hour, atoi minute with
    | some parsedHour, some parsedMinute =>
      if (String.ofList hour).utf8ByteSize ≠ 2 ∨ (String.ofList minute).utf8ByteSize ≠ 2 ∨ parsedHour < 0 ∨
          parsedHour > 23 ∨ parsedMinute < 0 ∨ parsedMinute > 59 then .error "local time must use HH:MM"
      else .ok (parsedHour, parsedMinute)
    | _, _ => .error "local time must use HH:MM"

def validateCadence (schedule : FleetSummarySchedule) : Except String Unit :=
  match schedule.cadence with
  | .daily => if schedule.weekday.isSome then .error "daily schedules must not set a weekday" else .ok ()
  | .weekly =>
    if schedule.weekday.all (fun weekday => weekday < 0 || weekday > 6) then
      .error "weekly schedules require a weekday between 0 and 6"
    else .ok ()
  | .other _ => .error "invalid summary cadence"

/-! ## Runs -/

/-- Covers the longest local day. -/
def localScanMinutes : Nat := 26 * 60

section Clocks

variable (location : Zone)

/-- The clock shows the hour and the minute, or a later time. -/
def atOrAfter (t hour minute : Int) : Bool :=
  location.clock t / 3600 > hour ||
    (location.clock t / 3600 = hour && location.clock t / 60 % 60 ≥ minute)

/-- The loop of `localInstant`, from the given number of minutes on. -/
def localScan (start hour minute : Int) : Nat → Int → Int
  | 0, _ => start
  | fuel + 1, offset =>
    let candidate := start + offset * Instant.minute
    if atOrAfter location candidate hour minute then candidate
    else localScan start hour minute fuel (offset + 1)

/-- `localInstant`: the first instant of the day `n` at or after the hour and the minute. -/
def localInstant (n hour minute : Int) : Int :=
  localScan location (location.date n 0) hour minute (localScanMinutes + 1) 0

def weekdayShift (current target : Int) : Int := (target - current + 7).tmod 7

def weeklyInstant (t weekday hour minute : Int) : Int :=
  let day := location.addDate t 0 (weekdayShift (Calendar.weekday (location.day t)) weekday)
  localInstant location (location.day day) hour minute

end Clocks

/-- The key of a run: its local date, or its ISO week. -/
inductive PeriodKey where
  | date (day : Int)
  | week (year number : Int)
  deriving DecidableEq

section Job

variable (loadLocation : String → Option Zone) (schedule : FleetSummarySchedule)

def validateSchedule : Except String Unit :=
  if trimSpace schedule.name = "" ∨ (trimSpace schedule.name).utf8ByteSize > 100 then
    .error "schedule name must be 1-100 characters"
  else do
    let _ ← parseLocalTime schedule.localTime
    if (loadLocation schedule.timezone).isNone then .error "load schedule timezone"
    else do
      validateCadence schedule
      if schedule.nameThreshold < 0 ∨ schedule.nameThreshold > maximumNameThreshold then
        .error "name threshold must be between 0 and 50"
      else if schedule.channelIDs.isEmpty then .error "at least one notification channel is required"
      else .ok ()

/-- `NextRun`; a weekly schedule without a weekday is not stored. -/
def nextRun (after : Int) : Except String Int :=
  match loadLocation schedule.timezone with
  | none => .error "load schedule timezone"
  | some location => do
    let (hour, minute) ← parseLocalTime schedule.localTime
    match schedule.cadence, schedule.weekday with
    | .daily, _ =>
      let candidate := localInstant location (location.day after) hour minute
      if after < candidate then .ok candidate
      else .ok (localInstant location (location.day after + 1) hour minute)
    | .weekly, some weekday =>
      let candidate := weeklyInstant location after weekday hour minute
      if after < candidate then .ok candidate
      else .ok (weeklyInstant location (location.addDate after 0 7) weekday hour minute)
    | .weekly, none => .error "weekly schedules require a weekday between 0 and 6"
    | .other _, _ => .error "invalid summary cadence"

def periodKey (run : Int) : Except String PeriodKey :=
  match loadLocation schedule.timezone with
  | none => .error "load schedule timezone"
  | some location =>
    match schedule.cadence with
    | .daily => .ok (.date (location.day run))
    | .weekly =>
      let (year, week) := isoWeek (location.day run)
      .ok (.week year week)
    | .other _ => .error "invalid summary cadence"

/-! ## The transaction -/

def validateFleetSummaryCompletion (id : Uuid) (call : Call FleetSummarySchedule PeriodKey) (nextRun : Int) :
    Except String Unit :=
  if id.text = "" then .error "invalid fleet summary completion"
  else if Instant.isZero call.now || nextRun ≤ call.row.nextRunAt then
    .error "invalid fleet summary completion times"
  else .ok ()

def completeRunTx (id : Uuid) (row : Row FleetSummarySchedule PeriodKey)
    (call : Call FleetSummarySchedule PeriodKey) (key : PeriodKey) (nextRun : Int) :
    Except String (Option (Row FleetSummarySchedule PeriodKey)) := do
  validateFleetSummaryCompletion id call nextRun
  if row.enabled && row.updatedAt = call.row.updatedAt && row.nextRunAt = call.row.nextRunAt &&
      row.nextRunAt ≤ call.now && row.lastKey ≠ some key then
    .ok (some { row with nextRunAt := nextRun, lastKey := some key, updatedAt := call.now })
  else .ok none

/-- `replaceFleetSummaryScopes`: the rows of the scopes name the schedule, and a foreign key asks for the row of it. -/
def replaceFleetSummaryScopes (id : Uuid) (scheduleID : String) (schedule : FleetSummarySchedule) :
    Except String Unit :=
  if scheduleID ≠ id.text ∧ schedule.nodeIDs ++ schedule.groupIDs ++ schedule.channelIDs ≠ [] then
    .error "insert fleet summary scope: FOREIGN KEY constraint failed"
  else .ok ()

/-- What `RunDue` and `Update` do with the schedule `id`. `HandleUpdate` leaves the id of the new schedule empty, and
`Update` gives it to the scopes as it is. -/
def fleetSummaryJob (id : Uuid) : Job FleetSummarySchedule PeriodKey String where
  nextRun := nextRun loadLocation
  key := periodKey loadLocation
  reference due now := if now < due then due else now
  complete := completeRunTx id
  accept schedule := do
    validateSchedule loadLocation (normalizeSchedule schedule)
    .ok (normalizeSchedule schedule)
  replaceScopes := replaceFleetSummaryScopes id ""

end Job

/-! ## The days of the runs -/

/-- The midnight that `time.Date` gives for the day `n` is after all earlier days, and at most `localScanMinutes` after
it the clock reaches the hour and the minute, before any later day. -/
def Reaches (location : Zone) (n hour minute : Int) : Prop :=
  (∀ t, location.day t < n → t < location.date n 0) ∧ ∃ k : Nat, k ≤ localScanMinutes ∧
    atOrAfter location (location.date n 0 + k * Instant.minute) hour minute = true ∧
    ∀ t, n < location.day t → location.date n 0 + k * Instant.minute < t

variable {n t : Int} {schedule : FleetSummarySchedule} {id : Uuid}

section Instants

variable {location : Zone} {hour minute : Int}

/-- The loop ends at or before each minute that it would accept. -/
theorem localScan_spec (start : Int) (fuel : Nat) (offset : Int) {k : Nat} (hk : k < fuel)
    (h : atOrAfter location (start + (offset + k) * Instant.minute) hour minute = true) :
    ∃ j : Nat, j ≤ k ∧ localScan location start hour minute fuel offset = start + (offset + j) * Instant.minute ∧
      atOrAfter location (start + (offset + j) * Instant.minute) hour minute = true := by
  induction fuel generalizing offset k with
  | zero => omega
  | succ fuel ih =>
    unfold localScan
    simp only
    split
    · exact ⟨0, Nat.zero_le _, by simpa⟩
    · rename_i hnot
      cases k with
      | zero =>
        rw [Nat.cast_zero, add_zero] at h
        exact absurd h hnot
      | succ k =>
        have hshift : offset + ((k + 1 : Nat) : Int) = offset + 1 + k := by omega
        rw [hshift] at h
        obtain ⟨j, hj, heq⟩ := ih (offset + 1) (by omega) h
        rw [show offset + 1 + (j : Int) = offset + ((j + 1 : Nat) : Int) by omega] at heq
        exact ⟨j + 1, by omega, heq⟩

/-- The run of a day that reaches the local time is at or after it, and on the day. -/
theorem Reaches.parts (h : Reaches location n hour minute) :
    atOrAfter location (localInstant location n hour minute) hour minute = true ∧
      location.Parts n (localInstant location n hour minute) := by
  obtain ⟨hstart, k, hk, hat, hend⟩ := h
  have hfuel : k < localScanMinutes + 1 := by omega
  obtain ⟨j, hj, heq, hat⟩ := localScan_spec (location.date n 0) (localScanMinutes + 1) 0 hfuel (by rwa [zero_add])
  unfold localInstant
  rw [zero_add] at heq hat
  rw [heq]
  -- the instant is between midnight and the time that is reached
  have hpos : (0 : Int) < Instant.minute := by decide
  have hlow := mul_nonneg (Int.natCast_nonneg j) hpos.le
  have hhigh := mul_le_mul_of_nonneg_right (Int.ofNat_le.mpr hj) hpos.le
  refine ⟨hat, fun t => ⟨fun hlt => ?_, fun hlt => ?_⟩⟩
  · have := hstart t hlt
    omega
  · have := hend t hlt
    omega

theorem weekdayShift_spec {target : Int} (h0 : 0 ≤ target) (h1 : target ≤ 6) :
    0 ≤ weekdayShift (weekday n) target ∧ weekdayShift (weekday n) target ≤ 6 ∧
      weekday (n + weekdayShift (weekday n) target) = target := by
  unfold weekdayShift weekday
  rw [Int.tmod_eq_emod_of_nonneg (by omega)]
  omega

end Instants

/-- The schedule has a run on the day `n`. -/
def FleetSummarySchedule.RunDay (schedule : FleetSummarySchedule) (n : Int) : Prop :=
  match schedule.cadence with
  | .daily => True
  | .weekly => schedule.weekday = some (Calendar.weekday n)
  | .other _ => False

/-- The key of the run on the day `n`. -/
def FleetSummarySchedule.keyOf (schedule : FleetSummarySchedule) (n : Int) : PeriodKey :=
  match schedule.cadence with
  | .weekly => .week (isoWeek n).1 (isoWeek n).2
  | .daily | .other _ => .date n

/-- A key of the same kind is before another. -/
def PeriodKey.Before : PeriodKey → PeriodKey → Prop
  | .date day, .date day' => day < day'
  | .week year number, .week year' number' => year < year' ∨ (year = year' ∧ number < number')
  | .date _, .week _ _ | .week _ _, .date _ => True

theorem PeriodKey.not_before_self (key : PeriodKey) : ¬ key.Before key := by
  cases key with
  | date day => exact lt_irrefl day
  | week year number =>
    simp only [PeriodKey.Before]
    omega

/-- The keys of later runs are later, and so are those that come before them. -/
theorem keyOf_before {n' : Int} (h : schedule.RunDay n) (h' : schedule.RunDay n') (hlt : n < n') :
    (schedule.keyOf n).Before (schedule.keyOf n') ∧
      ∀ key, PeriodKey.Before key (schedule.keyOf n) → PeriodKey.Before key (schedule.keyOf n') := by
  unfold FleetSummarySchedule.RunDay at h h'
  unfold FleetSummarySchedule.keyOf
  cases hc : schedule.cadence with
  | daily =>
    refine ⟨hlt, fun key hkey => ?_⟩
    cases key with
    | date day => exact lt_trans hkey hlt
    | week => trivial
  | weekly =>
    simp only [hc] at h h'
    have hweek := isoWeek_lt hlt (some.inj (h.symm.trans h'))
    refine ⟨hweek, fun key hkey => ?_⟩
    cases key with
    | date day => trivial
    | week year number =>
      simp only [PeriodKey.Before] at hkey ⊢
      omega
  | other => simp only [hc] at h

/-! ## What `nextRun` and `periodKey` return -/

theorem validateSchedule_ok {loadLocation : String → Option Zone}
    (h : validateSchedule loadLocation schedule = .ok ()) :
    validateCadence schedule = .ok () ∧ schedule.channelIDs ≠ [] := by
  unfold validateSchedule at h
  split at h
  · cases h
  obtain ⟨_, -, h⟩ := bind_eq_ok h
  split at h
  · cases h
  obtain ⟨_, hcadence, h⟩ := bind_eq_ok h
  split at h
  · cases h
  split at h
  · cases h
  rename_i hchannels
  exact ⟨hcadence, fun hnil => hchannels (by rw [hnil]; rfl)⟩

theorem accept_valid {loadLocation : String → Option Zone} {schedule' : FleetSummarySchedule}
    (h : (fleetSummaryJob loadLocation id).accept schedule = .ok schedule') :
    validateCadence schedule' = .ok () ∧ schedule'.channelIDs ≠ [] := by
  obtain ⟨_, hvalid, h⟩ := bind_eq_ok h
  cases h
  exact validateSchedule_ok hvalid

/-- An accepted update has a channel, whose row has no schedule to refer to. -/
theorem replaceScopes_refused {loadLocation : String → Option Zone} {schedule' : FleetSummarySchedule}
    (h : (fleetSummaryJob loadLocation id).accept schedule = .ok schedule') :
    (fleetSummaryJob loadLocation id).replaceScopes schedule' ≠ .ok () := by
  have hscopes : schedule'.nodeIDs ++ schedule'.groupIDs ++ schedule'.channelIDs ≠ [] := fun hnil =>
    (accept_valid h).2 (List.append_eq_nil_iff.mp hnil).2
  unfold fleetSummaryJob replaceFleetSummaryScopes
  simp only
  rw [if_pos ⟨id.text_ne_empty.symm, hscopes⟩]
  nofun

theorem weekday_of_valid (h : validateCadence schedule = .ok ()) (hc : schedule.cadence = .weekly) :
    ∃ weekday, schedule.weekday = some weekday ∧ 0 ≤ weekday ∧ weekday ≤ 6 := by
  simp only [validateCadence, hc] at h
  split at h
  · cases h
  rename_i hnot
  cases hw : schedule.weekday with
  | none => simp [hw] at hnot
  | some weekday =>
    simp only [hw, all_some, Bool.or_eq_true, decide_eq_true_eq, not_or, not_lt] at hnot
    exact ⟨weekday, rfl, hnot.1, hnot.2⟩

/-- From the day `first` on, the days of the runs reach the local time, and `AddDate` carries the clock of a time at most
a week before to the day of a weekly run. -/
structure FleetSummarySchedule.InOrder (schedule : FleetSummarySchedule) (location : Zone)
    (first hour minute : Int) : Prop where
  time : parseLocalTime schedule.localTime = .ok (hour, minute)
  reaches : ∀ n, first ≤ n → schedule.RunDay n → Reaches location n hour minute
  days : schedule.cadence = .weekly → ∀ n t, schedule.RunDay n → first ≤ location.day t → location.day t ≤ n →
    n ≤ location.day t + 7 → location.day (location.date n (location.clock t)) = n

section Specs

variable {loadLocation : String → Option Zone} {schedule : FleetSummarySchedule} {location : Zone}
  {first hour minute after : Int}

theorem FleetSummarySchedule.InOrder.parts (h : schedule.InOrder location first hour minute) (hn : first ≤ n)
    (hrun : schedule.RunDay n) : location.Parts n (localInstant location n hour minute) :=
  (h.reaches n hn hrun).parts.2

/-- The day of a run of a weekly schedule, at most a week on. -/
theorem FleetSummarySchedule.InOrder.day_addDate (h : schedule.InOrder location first hour minute)
    (hc : schedule.cadence = .weekly) (hn : first ≤ location.day t) {days : Int} (h0 : 0 ≤ days) (h1 : days ≤ 7)
    (hrun : schedule.RunDay (location.day t + days)) :
    location.day (location.addDate t 0 days) = location.day t + days := by
  rw [Zone.addDate_days, Zone.day_add (Zone.second_dvd_date _ _) (Int.emod_nonneg _ (by decide))
    (Int.emod_lt_of_pos _ (by decide)), h.days hc _ t hrun hn (by omega) (by omega)]

/-- The run of a week is within the seven days from the day of `t` on. -/
theorem weeklyInstant_eq (h : schedule.InOrder location first hour minute) (hc : schedule.cadence = .weekly)
    {weekday : Int} (hw : schedule.weekday = some weekday) (hn : first ≤ location.day t) (h0 : 0 ≤ weekday)
    (h1 : weekday ≤ 6) : ∃ n, weeklyInstant location t weekday hour minute = localInstant location n hour minute ∧
      location.day t ≤ n ∧ n ≤ location.day t + 6 ∧ schedule.RunDay n := by
  obtain ⟨hlow, hhigh, hday⟩ := weekdayShift_spec (n := location.day t) h0 h1
  have hrun : schedule.RunDay (location.day t + weekdayShift (Calendar.weekday (location.day t)) weekday) := by
    simp only [FleetSummarySchedule.RunDay, hc, hw, hday]
  refine ⟨_, ?_, by omega, by omega, hrun⟩
  unfold weeklyInstant
  simp only
  rw [h.day_addDate hc hn hlow (by omega) hrun]

variable (hloc : loadLocation schedule.timezone = some location)

include hloc

theorem nextRun_spec (hv : validateCadence schedule = .ok ()) (h : schedule.InOrder location first hour minute)
    (after : Int) (hn : first ≤ location.day after) :
    ∃ n, nextRun loadLocation schedule after = .ok (localInstant location n hour minute) ∧
      schedule.RunDay n ∧ location.day after ≤ n ∧ after < localInstant location n hour minute ∧
      ∀ m, schedule.RunDay m → first ≤ m → after < localInstant location m hour minute → n ≤ m := by
  have hbefore : ∀ m, schedule.RunDay m → first ≤ m → after < localInstant location m hour minute →
      location.day after ≤ m := fun m hrun hm => (h.parts hm hrun).day_le
  unfold nextRun
  simp only [hloc, h.time, Bind.bind, Except.bind]
  cases hc : schedule.cadence with
  | daily =>
    have hrun : ∀ n, schedule.RunDay n := fun n => by simp only [FleetSummarySchedule.RunDay, hc]
    split_ifs with hlt
    · exact ⟨_, rfl, hrun _, le_refl _, hlt, hbefore⟩
    · refine ⟨_, rfl, hrun _, by omega, (h.parts (by omega) (hrun _) after).1 (by omega), fun m hrun hm hltm => ?_⟩
      have hne : location.day after ≠ m := by
        rintro rfl
        exact hlt hltm
      have := hbefore m hrun hm hltm
      omega
  | weekly =>
    obtain ⟨weekday, hw, h0, h1⟩ := weekday_of_valid hv hc
    have hweek : ∀ {m n}, schedule.RunDay m → schedule.RunDay n → (m - n) % 7 = 0 := fun hm hn => by
      simp only [FleetSummarySchedule.RunDay, hc] at hm hn
      have := some.inj (hm.symm.trans hn)
      unfold Calendar.weekday at this
      omega
    obtain ⟨n, heq, hlow, hhigh, hrun⟩ := weeklyInstant_eq h hc hw hn h0 h1
    simp only [hw, heq]
    split_ifs with hlt
    · refine ⟨n, rfl, hrun, hlow, hlt, fun m hm hfirst hltm => ?_⟩
      have := hbefore m hm hfirst hltm
      have := hweek hm hrun
      omega
    · -- the run of the day itself is over
      have hday : location.day after = n := by
        by_contra hne
        exact hlt ((h.parts (by omega) hrun after).1 (lt_of_le_of_ne hlow hne))
      have hrun' : schedule.RunDay (location.day after + 7) := by
        simp only [FleetSummarySchedule.RunDay, hc] at hrun ⊢
        rw [hrun, hday]
        unfold Calendar.weekday
        congr 1
        omega
      have hday' := h.day_addDate hc hn (by decide) (le_refl 7) hrun'
      obtain ⟨n', heq', hlow', hhigh', hrun'⟩ := weeklyInstant_eq h hc hw
        (show first ≤ location.day (location.addDate after 0 7) by omega) h0 h1
      rw [heq']
      refine ⟨n', rfl, hrun', by omega, (h.parts (by omega) hrun' after).1 (by omega), fun m hm hfirst hltm => ?_⟩
      have hne : n ≠ m := by
        rintro rfl
        exact hlt hltm
      have := hbefore m hm hfirst hltm
      have := hweek hm hrun
      have := hweek hrun' hrun
      omega
  | other =>
    simp only [validateCadence, hc] at hv
    cases hv

theorem periodKey_spec (hv : validateCadence schedule = .ok ()) (h : schedule.InOrder location first hour minute)
    (hn : first ≤ n) (hrun : schedule.RunDay n) :
    periodKey loadLocation schedule (localInstant location n hour minute) = .ok (schedule.keyOf n) := by
  unfold periodKey FleetSummarySchedule.keyOf
  simp only [hloc, (h.parts hn hrun).day]
  cases hc : schedule.cadence with
  | daily | weekly => rfl
  | other =>
    simp only [validateCadence, hc] at hv
    cases hv

end Specs

/-! ## The laws -/

section Laws

variable (loadLocation : String → Option Zone)

/-- From the day of the clock on, the runs of the schedule are in order. -/
def Settled (schedule : FleetSummarySchedule) (now : Int) : Prop :=
  ∃ location first hour minute, loadLocation schedule.timezone = some location ∧
    schedule.InOrder location first hour minute ∧ first ≤ location.day now

def RunTime (schedule : FleetSummarySchedule) (t : Int) : Prop :=
  ∃ location first hour minute n, loadLocation schedule.timezone = some location ∧
    validateCadence schedule = .ok () ∧ schedule.InOrder location first hour minute ∧ first ≤ n ∧
    schedule.RunDay n ∧ t = localInstant location n hour minute

/-- The key is before that of the run at `t`. -/
def Past (schedule : FleetSummarySchedule) (t : Int) (key : PeriodKey) : Prop :=
  ∃ key', periodKey loadLocation schedule t = .ok key' ∧ key.Before key'

variable {loadLocation} {call : Call FleetSummarySchedule PeriodKey} {key : PeriodKey}

/-- A later run has a later key. -/
theorem RunTime.key_before {t' : Int} (h : RunTime loadLocation schedule t) (h' : RunTime loadLocation schedule t')
    (hlt : t < t') : ∃ k k', periodKey loadLocation schedule t = .ok k ∧ periodKey loadLocation schedule t' = .ok k' ∧
      k.Before k' ∧ ∀ key, PeriodKey.Before key k → PeriodKey.Before key k' := by
  obtain ⟨location, first, hour, minute, n, hloc, hv, hin, hfirst, hrun, rfl⟩ := h
  obtain ⟨location', first', hour', minute', n', hloc', -, hin', hfirst', hrun', rfl⟩ := h'
  obtain rfl : location = location' := some.inj (hloc.symm.trans hloc')
  obtain ⟨rfl, rfl⟩ : hour = hour' ∧ minute = minute' :=
    Prod.mk.inj (Except.ok.inj (hin.time.symm.trans hin'.time))
  have hle := (hin'.parts hfirst' hrun').day_le hlt
  rw [(hin.parts hfirst hrun).day] at hle
  have hne : n ≠ n' := by
    rintro rfl
    exact lt_irrefl _ hlt
  exact ⟨_, _, periodKey_spec hloc hv hin hfirst hrun, periodKey_spec hloc hv hin' hfirst' hrun',
    keyOf_before hrun hrun' (lt_of_le_of_ne hle hne)⟩

theorem fleetSummary_lawful (id : Uuid) :
    Periodic.Lawful (fleetSummaryJob loadLocation id) (Settled loadLocation) (RunTime loadLocation)
      (Past loadLocation) where
  reference t now h := by
    simp only [fleetSummaryJob, if_neg (not_lt.mpr h)]
    exact ⟨h, le_refl now⟩
  first schedule₀ schedule now t haccept hsettled hnext := by
    obtain ⟨location, first, hour, minute, hloc, hin, hfirst⟩ := hsettled
    have hv := (accept_valid haccept).1
    obtain ⟨n, hn, hrun, hle, hlt, -⟩ := nextRun_spec hloc hv hin now hfirst
    obtain rfl := Except.ok.inj (hn.symm.trans hnext)
    exact ⟨⟨location, first, hour, minute, n, hloc, hv, hin, by omega, hrun, rfl⟩, hlt⟩
  key schedule t h := by
    obtain ⟨location, first, hour, minute, n, hloc, hv, hin, hfirst, hrun, rfl⟩ := h
    have hkey := periodKey_spec hloc hv hin hfirst hrun
    refine ⟨_, hkey, fun hpast => ?_⟩
    obtain ⟨key', hkey', hbefore⟩ := hpast
    obtain rfl := Except.ok.inj (hkey.symm.trans hkey')
    exact PeriodKey.not_before_self _ hbefore
  next schedule t now h hle := by
    obtain ⟨location, first, hour, minute, n, hloc, hv, hin, hfirst, hrun, rfl⟩ := h
    have := (hin.parts hfirst hrun).le_day hle
    obtain ⟨n', hn', hrun', hle', hlt', -⟩ := nextRun_spec hloc hv hin now (by omega)
    simp only [fleetSummaryJob, if_neg (not_lt.mpr hle)]
    exact ⟨_, hn', ⟨location, first, hour, minute, n', hloc, hv, hin, by omega, hrun', rfl⟩, hlt'⟩
  past_key schedule t t' k h h' hlt hk := by
    obtain ⟨k₁, k', hk₁, hk', hbefore, -⟩ := h.key_before h' hlt
    obtain rfl := Except.ok.inj (hk₁.symm.trans hk)
    exact ⟨k', hk', hbefore⟩
  past_mono schedule t t' k h h' hlt hpast := by
    obtain ⟨k₁, k', hk₁, hk', -, htrans⟩ := h.key_before h' hlt
    obtain ⟨k₂, hk₂, hbefore⟩ := hpast
    obtain rfl := Except.ok.inj (hk₁.symm.trans hk₂)
    exact ⟨k', hk', htrans k hbefore⟩
  complete_some row call key t row' h := by
    obtain ⟨_, -, h⟩ := bind_eq_ok h
    split at h
    · rename_i hcurrent
      cases h
      simp only [Bool.and_eq_true, decide_eq_true_eq] at hcurrent
      exact ⟨hcurrent.1.1.2, rfl⟩
    · cases h
  complete_self call key t hen hdue hlast hlt := by
    dsimp only [fleetSummaryJob, completeRunTx, validateFleetSummaryCompletion]
    rw [if_neg id.text_ne_empty]
    by_cases hzero : Instant.isZero call.now = true
    · refine .inl ⟨hzero, "invalid fleet summary completion times", ?_⟩
      simp only [hzero, Bool.true_or, if_true]
      rfl
    · right
      simp only [hzero, not_le.mpr hlt, decide_false, Bool.or_self, Bool.false_eq_true, if_false, hen, hdue, hlast,
        decide_true, Bool.and_self, ne_eq, not_false_eq_true, if_true]
      rfl

end Laws

/-! ## Runs -/

/-- No update gets as far as to change the schedule. -/
theorem careful_of_refused {loadLocation : String → Option Zone} (w : World FleetSummarySchedule PeriodKey)
    (e : Event FleetSummarySchedule String) :
    Periodic.Careful (fleetSummaryJob loadLocation id) (Settled loadLocation) (Past loadLocation) w e := by
  cases e with
  | listDue | run => trivial
  | update => exact fun _ _ haccept _ hscopes => absurd hscopes (replaceScopes_refused haccept)

/-- From a schedule that was created in order, along calls of `RunDue` and `Update` of any kind: no key is delivered
twice; every `RunDue` that returns no error for the schedule leaves it with a run after its clock; and a `RunDue` that
nothing disturbs delivers the key of a due run, which is new, and goes on to the first run after the clock. -/
theorem fleet_summary_moves {loadLocation : String → Option Zone} {id : Uuid}
    {schedule : FleetSummarySchedule} {enabled : Bool} {created stamp : Int}
    {w₀ w : World FleetSummarySchedule PeriodKey} {es : List (Event FleetSummarySchedule String)}
    (hcreate : (fleetSummaryJob loadLocation id).create schedule enabled created stamp = .ok w₀)
    (hsettled : ∀ schedule', (fleetSummaryJob loadLocation id).accept schedule = .ok schedule' →
      Settled loadLocation schedule' created)
    (h : Run (fleetSummaryJob loadLocation id).Step w₀ es w) : w.sent.Nodup ∧
    (∀ call fault outcome w', w.call = some call →
      (fleetSummaryJob loadLocation id).runScheduled w call fault = (.ok outcome, w') → call.now < w'.row.nextRunAt) ∧
    (∀ now, w.call = none → w.row.enabled = true → w.clock ≤ now → w.row.nextRunAt ≤ now →
      Instant.isZero now = false →
      ∃ key next, periodKey loadLocation w.row.config w.row.nextRunAt = .ok key ∧ key ∉ w.sent ∧
        nextRun loadLocation w.row.config now = .ok next ∧ now < next ∧
        runFn (fleetSummaryJob loadLocation id).next w [.listDue now, .run none] = some { w with
            row := { w.row with nextRunAt := next, lastKey := some key, updatedAt := now }
            sent := w.sent ++ [key]
            clock := now }) := by
  have hl : Periodic.Lawful (fleetSummaryJob loadLocation id) _ _ _ := fleetSummary_lawful id
  obtain ⟨hnodup, hm⟩ := Periodic.moving_run (fun _ _ _ hs => ⟨hs, careful_of_refused _ _⟩) hl hcreate hsettled h
  -- the next run is sought from the clock, since the run is due
  have href : ∀ {due now : Int}, due ≤ now → (fleetSummaryJob loadLocation id).reference due now = now :=
    fun hle => if_neg (not_lt.mpr hle)
  refine ⟨hnodup, ?_, ?_⟩
  · intro call fault outcome w' hcall hr
    have hmoves := hm.run_moves hl hcall hr
    rwa [href (hm.call call hcall).2.1] at hmoves
  · intro now hcall hen hclock hdue hzero
    obtain ⟨key, next, hkey, hnew, hnext, hlt, hrun⟩ := hm.run_queues hl hcall hen hclock hdue hzero
    rw [href hdue] at hnext hlt
    exact ⟨key, next, hkey, hnew, hnext, hlt, hrun⟩

def sampleSummaryID : Uuid := ⟨"0f7c7b64-3d2e-4a55-8a0c-51d2c9a1e7b3", by decide +kernel⟩

def sampleSummary : Job FleetSummarySchedule PeriodKey String := fleetSummaryJob sampleLocations sampleSummaryID

def dailySummary (timezone localTime : String) : FleetSummarySchedule :=
  { name := "fleet", cadence := .daily, timezone := timezone, localTime := localTime, channelIDs := ["mail"] }

/-- The checks of a schedule that `NextRun` repeats. -/
def goesOn (schedule : FleetSummarySchedule) : Bool :=
  (sampleLocations schedule.timezone).isSome && (validateCadence schedule).toOption.isSome &&
    (parseLocalTime schedule.localTime).toOption.isSome

theorem nextRun_of_goesOn (h : goesOn schedule = true) (after : Int) :
    ∃ next, sampleSummary.nextRun schedule after = .ok next := by
  simp only [goesOn, Bool.and_eq_true, isSome_iff_exists, toOption_eq_some] at h
  obtain ⟨⟨⟨location, hloc⟩, ⟨_, hv⟩⟩, ⟨time, ht⟩⟩ := h
  unfold sampleSummary fleetSummaryJob nextRun
  simp only [hloc, ht, Bind.bind, Except.bind]
  cases hc : schedule.cadence with
  | daily =>
    simp only
    split <;> exact ⟨_, rfl⟩
  | weekly =>
    obtain ⟨weekday, hw, -, -⟩ := weekday_of_valid hv hc
    simp only [hw]
    split <;> exact ⟨_, rfl⟩
  | other =>
    simp only [validateCadence, hc] at hv
    cases hv

/-- A daily summary at 0:10, before a day whose midnight is skipped, has its next run at 23:00 of the same day. -/
theorem fleet_summary_stuck :
    sampleSummary.Stuck (dailySummary "America/Havana" "00:10") (march 9 0 0) [.listDue (march 9 5 10), .run none] :=
  .of_key goesOn (by decide +kernel) fun _ _ _ _ h _ => nextRun_of_goesOn h _

theorem fixed_reaches (n : Int) {hour minute : Int} (h0 : 0 ≤ hour) (h1 : hour ≤ 23) (h2 : 0 ≤ minute)
    (h3 : minute ≤ 59) : Reaches (Zone.fixed 0) n hour minute := by
  have hk : ((hour * 60 + minute).toNat : Int) = hour * 60 + minute := Int.toNat_of_nonneg (by omega)
  have hsum : (Zone.fixed 0).date n 0 + ((hour * 60 + minute).toNat : Int) * Instant.minute =
      (Zone.fixed 0).date n ((hour * 60 + minute) * 60) := by
    have hminute : (hour * 60 + minute) * Instant.minute = (hour * 60 + minute) * 60 * Instant.second := by
      unfold Instant.minute
      rw [Int.mul_assoc]
    rw [hk, hminute, Zone.fixed_date_add, zero_add]
  have hclock : (hour * 60 + minute) * 60 < Zone.secondsPerDay := by
    unfold Zone.secondsPerDay
    omega
  have hreg := Zone.fixed_regular 0 n
  have hparts : ∀ {c}, 0 ≤ c → c < Zone.secondsPerDay → (Zone.fixed 0).Parts n ((Zone.fixed 0).date n c) :=
    fun h0 h1 => hreg.parts (le_refl n) (hreg.day_date n _ (le_refl _) h0 h1)
  refine ⟨fun t => (hparts (le_refl 0) (by decide) t).1, (hour * 60 + minute).toNat, ?_, ?_, fun t => ?_⟩
  · unfold localScanMinutes
    omega
  · rw [hsum, atOrAfter, Zone.fixed_shows 0 n (by omega) hclock n (le_refl _)]
    simp only [Bool.or_eq_true, Bool.and_eq_true, decide_eq_true_eq]
    right
    omega
  · rw [hsum]
    exact (hparts (by omega) hclock t).2

theorem inOrder_utc (first : Int) : (dailySummary "UTC" "00:10").InOrder (Zone.fixed 0) first 0 10 :=
  ⟨toOption_eq_some.mp (by decide +kernel),
    fun n _ _ => fixed_reaches n (by decide) (by decide) (by decide) (by decide), nofun⟩

/-- A summary that was delivered, an update to a later local time, which is taken back, and the summary of the next day
at the time as it was. -/
theorem fleet_summary_moves_sample :
    ∃ w₀ w, sampleSummary.create (dailySummary "UTC" "00:10") true (march 1 0 0) (march 1 0 0) = .ok w₀ ∧
      Run sampleSummary.Step w₀ [.listDue (march 1 0 10), .run none,
        .update (dailySummary "UTC" "00:20") true (march 1 0 15) (march 1 0 15) none, .listDue (march 2 0 10)] w ∧
      ∃ call, w.call = some call ∧ ∀ fault outcome w',
        sampleSummary.runScheduled w call fault = (.ok outcome, w') → call.now < w'.row.nextRunAt := by
  refine Periodic.checked_run (fun _ _ => true) (fun _ _ _ _ hs => hs) (by decide +kernel)
    fun w₀ w call hcreate hr hcall fault outcome w' => ?_
  have haccept : sampleSummary.accept (dailySummary "UTC" "00:10") = .ok (dailySummary "UTC" "00:10") :=
    toOption_eq_some.mp (by decide +kernel)
  have hmoves := fleet_summary_moves hcreate (fun schedule' hs => by
    obtain rfl := Except.ok.inj (haccept.symm.trans hs)
    exact ⟨Zone.fixed 0, _, 0, 10, rfl, inOrder_utc _, le_refl _⟩) hr
  exact hmoves.2.1 call fault outcome w' hcall

end Beat.FleetSummary
