import Beat.Lib.Fallible
import Beat.Traffic.Ledger

/-!
# The calibration ledger of a backup

`validateCalibrationLedger` (`backup/traffic_calibration_validation.go`): a restore replays the rows
of the ledger in the order of their rowid and refuses a ledger in which a row is malformed or a
`revoke` does not take back the active `set` of its key. The key of a row is its node, or its name
once the node was deleted.

* `replay_spec`: the state of the replay, in terms of the rows so far.
* `accepted_snoc`: one row more.
* `accepted_iff`: a ledger is accepted when every row of it fits the rows before.
-/

namespace Beat.Backup

open List Fallible Instant Option Function Traffic

/-- Why a ledger is refused; the text names the row. -/
inductive LedgerError where
  | invalid (id : String)
  | notRepresentable (id : String)
  | missingNode (id : String)
  | notActive (id : String)
  | unknownOrLater (id : String)
  | otherNode (id : String)
  deriving DecidableEq

/-- `calibrationLedgerKey`. -/
def calibrationLedgerKey (event : TrafficCalibrationEvent) : String :=
  match event.nodeID with
  | some id => id
  | none => "name:" ++ event.nodeName

/-- `validateArchivedCalibrationEvent`. -/
def validateArchivedCalibrationEvent (event : TrafficCalibrationEvent) (nodes : List String) :
    Except LedgerError Unit :=
  if event.validate = false then .error (.invalid event.id)
  else if event.effectiveAt.any fun at_ => at_ ≠ truncateSecond at_ then
    .error (.notRepresentable event.id)
  else if event.nodeID.any fun id => !nodes.contains id then .error (.missingNode event.id)
  else .ok ()

/-- What the replay keeps: the active `set` of each key, and the `set` rows by id. -/
structure Replay where
  active : String → Option String := fun _ => none
  appended : String → Option TrafficCalibrationEvent := fun _ => none

/-- `validateArchivedRevoke`. -/
def validateArchivedRevoke (event : TrafficCalibrationEvent) (activeID : String)
    (appended : String → Option TrafficCalibrationEvent) : Except LedgerError Unit :=
  let reference := event.referenceEventID.getD ""
  if activeID ≠ reference then .error (.notActive event.id)
  else
    match appended reference with
    | none => .error (.unknownOrLater event.id)
    | some target =>
      if event.createdAt < target.createdAt then .error (.unknownOrLater event.id)
      else if target.nodeID ≠ event.nodeID then .error (.otherNode event.id)
      else .ok ()

/-- One row of the replay. -/
def replayEvent (nodes : List String) (replay : Replay) (event : TrafficCalibrationEvent) :
    Except LedgerError Replay :=
  match validateArchivedCalibrationEvent event nodes with
  | .error e => .error e
  | .ok () =>
    let key := calibrationLedgerKey event
    match event.kind with
    | .set =>
      .ok
        { active := update replay.active key (some event.id)
          appended := update replay.appended event.id (some event) }
    | .revoke =>
      match validateArchivedRevoke event ((replay.active key).getD "") replay.appended with
      | .error e => .error e
      | .ok () => .ok { replay with active := update replay.active key none }

def replayLedger (events : Ledger) (nodes : List String) : Except LedgerError Replay :=
  events.foldlM (replayEvent nodes) {}

/-- `validateCalibrationLedger`. -/
def validateCalibrationLedger (events : Ledger) (nodes : List String) : Except LedgerError Unit :=
  match replayLedger events nodes with
  | .error e => .error e
  | .ok _ => .ok ()

/-! ## What the replay accepts -/

/-- The last row of a key. -/
def lastOfKey (rows : Ledger) (key : String) : Option TrafficCalibrationEvent :=
  Table.last rows fun e => calibrationLedgerKey e = key

/-- The last `set` row with an id. -/
def lastSet (rows : Ledger) (id : String) : Option TrafficCalibrationEvent :=
  Table.last rows fun e => e.kind = .set && e.id = id

/-- The active `set` of a key: its last row, unless that is a `revoke`. -/
def activeOf (rows : Ledger) (key : String) : Option String :=
  (lastOfKey rows key).bind fun e => if e.kind = .set then some e.id else none

/-- The row is well-formed. -/
def RowValid (nodes : List String) (e : TrafficCalibrationEvent) : Prop :=
  e.validate = true ∧ (∀ at_ ∈ e.effectiveAt, second ∣ at_) ∧ ∀ id ∈ e.nodeID, id ∈ nodes

/-- A `revoke` takes back the active `set` of its key, which is not later and of the same node. -/
def RevokeFits (rows : Ledger) (e : TrafficCalibrationEvent) : Prop :=
  ∃ reference, e.referenceEventID = some reference ∧
    activeOf rows (calibrationLedgerKey e) = some reference ∧
    ∃ target, lastSet rows reference = some target ∧ target.createdAt ≤ e.createdAt ∧
      target.nodeID = e.nodeID

/-- The row fits the rows before it. -/
def RowFits (nodes : List String) (rows : Ledger) (e : TrafficCalibrationEvent) : Prop :=
  RowValid nodes e ∧ (e.kind = .revoke → RevokeFits rows e)

def Accepted (nodes : List String) (rows : Ledger) : Prop :=
  validateCalibrationLedger rows nodes = .ok ()

section replay

variable {nodes : List String} {rows : Ledger} {e : TrafficCalibrationEvent} {r : Replay}

theorem validateArchivedCalibrationEvent_ok :
    validateArchivedCalibrationEvent e nodes = .ok () ↔ RowValid nodes e := by
  have hsec : ∀ at_ : Int, at_ = truncateSecond at_ ↔ second ∣ at_ := by
    intro at_
    refine ⟨fun h => h ▸ second_dvd_truncateSecond at_, fun h => ?_⟩
    exact (truncateSecond_of_dvd h).symm
  unfold validateArchivedCalibrationEvent RowValid
  split_ifs with h1 h2 h3
  · simp [h1]
  · obtain ⟨at_, ha, hne⟩ := (any_eq_true _ _).mp h2
    refine ⟨(nomatch ·), fun h => ?_⟩
    exact absurd ((hsec at_).mpr (h.2.1 at_ ha)) (by simpa using hne)
  · obtain ⟨id, hid, hne⟩ := (any_eq_true _ _).mp h3
    refine ⟨(nomatch ·), fun h => ?_⟩
    have := h.2.2 id hid
    simp [this] at hne
  · refine ⟨fun _ => ⟨by simpa using h1, fun at_ ha => ?_, fun id hid => ?_⟩, fun _ => rfl⟩
    · rw [ha] at h2
      exact (hsec at_).mp (by simpa using h2)
    · rw [hid] at h3
      simpa using h3

/-- An id of a `revoke` that is valid is not empty. -/
theorem reference_of_validate (hv : e.validate = true) (hk : e.kind = .revoke) :
    ∃ reference, e.referenceEventID = some reference ∧ reference ≠ "" := by
  unfold TrafficCalibrationEvent.validate at hv
  simp only [hk, Bool.and_eq_true] at hv
  obtain ⟨reference, hr, hs⟩ := (any_eq_true _ _).mp hv.2.2
  refine ⟨reference, hr, ?_⟩
  rintro rfl
  exact absurd hs (by decide)

/-- The state of the replay, in terms of the rows. -/
def Tracks (r : Replay) (rows : Ledger) : Prop :=
  (∀ key, r.active key = activeOf rows key) ∧ ∀ id, r.appended id = lastSet rows id

theorem activeOf_snoc (key : String) : activeOf (rows ++ [e]) key =
      if calibrationLedgerKey e = key then (if e.kind = .set then some e.id else none) else activeOf rows key := by
  unfold activeOf lastOfKey
  rw [Table.last_snoc]
  by_cases h : calibrationLedgerKey e = key <;> simp [h]

theorem lastSet_snoc (id : String) :
    lastSet (rows ++ [e]) id = if e.kind = .set ∧ e.id = id then some e else lastSet rows id := by
  unfold lastSet
  rw [Table.last_snoc]
  simp only [Bool.and_eq_true, decide_eq_true_eq]

theorem validateArchivedRevoke_ok (ht : Tracks r rows) (hv : e.validate = true) (hk : e.kind = .revoke) :
    validateArchivedRevoke e ((r.active (calibrationLedgerKey e)).getD "") r.appended = .ok () ↔
      RevokeFits rows e := by
  obtain ⟨reference, href, hne⟩ := reference_of_validate hv hk
  unfold validateArchivedRevoke RevokeFits
  rw [ht.1, href]
  simp only [getD_some, ht.2, some.injEq, exists_eq_left']
  -- an active id is the reference when it exists: the reference is not empty
  have hactive : (activeOf rows (calibrationLedgerKey e)).getD "" = reference ↔
      activeOf rows (calibrationLedgerKey e) = some reference := by
    cases activeOf rows (calibrationLedgerKey e) with
    | none => simpa using Ne.symm hne
    | some x => simp
  rw [← hactive]
  split_ifs with h1
  · simp [h1]
  · rw [ne_eq, not_not] at h1
    rw [and_iff_right h1]
    cases hl : lastSet rows reference with
    | none => simp
    | some target =>
      simp only [some.injEq, exists_eq_left']
      split_ifs with h2 h3
      · simp; omega
      · simp [h3]
      · simp only [true_iff]
        exact ⟨not_lt.mp h2, not_not.mp h3⟩

theorem replayEvent_spec (ht : Tracks r rows) : (∃ r', replayEvent nodes r e = .ok r') ↔ RowFits nodes rows e := by
  unfold replayEvent RowFits
  cases hv : validateArchivedCalibrationEvent e nodes with
  | error err =>
    simp only [reduceCtorEq, exists_false, false_iff]
    intro h
    rw [validateArchivedCalibrationEvent_ok.mpr h.1] at hv
    cases hv
  | ok u =>
    have hvalid := validateArchivedCalibrationEvent_ok.mp hv
    rw [and_iff_right hvalid]
    cases hk : e.kind with
    | set => simp
    | revoke =>
      have hiff := validateArchivedRevoke_ok ht hvalid.1 hk
      simp only [true_implies]
      rw [← hiff]
      cases validateArchivedRevoke e ((r.active (calibrationLedgerKey e)).getD "") r.appended with
      | error err => simp
      | ok u => simp

theorem replayEvent_tracks {r' : Replay} (ht : Tracks r rows) (h : replayEvent nodes r e = .ok r') :
    Tracks r' (rows ++ [e]) := by
  unfold replayEvent at h
  split at h
  · cases h
  simp only at h
  split at h
  · rename_i hk
    cases h
    refine ⟨fun key => ?_, fun id => ?_⟩
    · rw [activeOf_snoc]
      simp only [update_apply, ht.1, hk, if_true, eq_comm]
    · rw [lastSet_snoc]
      simp only [update_apply, ht.2, hk, true_and, eq_comm]
  · rename_i hk
    split at h
    · cases h
    cases h
    refine ⟨fun key => ?_, fun id => ?_⟩
    · rw [activeOf_snoc]
      simp only [update_apply, ht.1, hk, reduceCtorEq, if_false, eq_comm]
    · rw [lastSet_snoc, ht.2]
      simp [hk]

theorem replay_spec (h : replayLedger rows nodes = .ok r) : Tracks r rows := by
  induction rows using reverseRecOn generalizing r with
  | nil =>
    cases h
    exact ⟨fun _ => rfl, fun _ => rfl⟩
  | append_singleton rows e ih =>
    obtain ⟨m, h1, h2⟩ := foldlM_append_ok h
    rw [foldlM_singleton] at h2
    exact replayEvent_tracks (ih h1) h2

theorem accepted_iff_replay : Accepted nodes rows ↔ ∃ r, replayLedger rows nodes = .ok r := by
  unfold Accepted validateCalibrationLedger
  cases replayLedger rows nodes <;> simp

theorem accepted_nil : Accepted nodes [] := rfl

/-- One row more is accepted when it fits. -/
theorem accepted_snoc : Accepted nodes (rows ++ [e]) ↔ Accepted nodes rows ∧ RowFits nodes rows e := by
  rw [accepted_iff_replay, accepted_iff_replay]
  constructor
  · rintro ⟨r', h⟩
    obtain ⟨r, h1, h2⟩ := foldlM_append_ok h
    rw [foldlM_singleton] at h2
    exact ⟨⟨r, h1⟩, (replayEvent_spec (replay_spec h1)).mp ⟨r', h2⟩⟩
  · rintro ⟨⟨r, h1⟩, hfits⟩
    obtain ⟨r', h2⟩ := (replayEvent_spec (replay_spec h1)).mpr hfits
    exact ⟨r', (foldlM_snoc h1).trans h2⟩

/-- A ledger is accepted when every row fits the rows before it. -/
theorem accepted_iff :
    Accepted nodes rows ↔ ∀ before e after, rows = before ++ e :: after → RowFits nodes before e := by
  induction rows using reverseRecOn with
  | nil => simp [accepted_nil]
  | append_singleton rows x ih =>
    rw [accepted_snoc, ih]
    constructor
    · rintro ⟨hrows, hx⟩ before e after h
      rcases eq_nil_or_concat after with rfl | ⟨after, y, rfl⟩
      · obtain ⟨rfl, he⟩ := append_inj' h rfl
        cases he
        exact hx
      · rw [concat_eq_append, ← cons_append, ← append_assoc] at h
        obtain ⟨rfl, -⟩ := append_inj' h rfl
        exact hrows before e after rfl
    · intro h
      refine ⟨fun before e after hr => h before e (after ++ [x]) ?_, h rows x [] rfl⟩
      rw [hr, append_assoc, cons_append]

end replay

end Beat.Backup
