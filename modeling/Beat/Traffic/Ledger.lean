import Beat.Lib.Table
import Beat.Traffic.Billing

/-!
# The traffic calibration ledger

The append-only table of traffic calibrations (`model/traffic_calibration.go`,
`store/traffic_calibration.go`, `store/traffic_calibration_read.go`) and the handlers that write it
(`api/handler/traffic_calibration.go`). The ledger is the list of its rows in the order of their
rowid. A `set` row states the totals of a billing period at a second; a `revoke` row takes one back.

* `appendSet`, `appendRevoke`, `appendReplace`: the transactions; an error is a rollback.
* `latestTrafficCalibration`: the last row of a node whose anchor is in a window.
* `handleCreate`, `handleRevoke`, `handleReplace`: the requests, with the window of the request time.
-/

namespace Beat.Traffic

open Instant

inductive CalibrationError where
  | invalid
  | conflict
  | missing
  | storage
  deriving DecidableEq

inductive CalibrationKind where
  | set
  | revoke
  deriving DecidableEq

/-- `TrafficCalibrationActor`. -/
structure TrafficCalibrationActor where
  id : String
  name : String
  sessionID : String := ""
  requestID : String
  deriving DecidableEq

/-- `TrafficCalibrationEvent`: a row of the ledger. -/
structure TrafficCalibrationEvent where
  id : String
  nodeID : Option String
  nodeName : String
  kind : CalibrationKind
  effectiveAt : Option Int := none
  targetSent : Option Int := none
  targetReceived : Option Int := none
  reason : String
  actor : TrafficCalibrationActor
  referenceEventID : Option String := none
  createdAt : Int
  deriving DecidableEq

abbrev Ledger := List TrafficCalibrationEvent

/-! ## Rows -/

def maximumTrafficCalibrationReasonBytes : Nat := 500

def maximumTrafficCalibrationTarget : Int := 8 * 2 ^ 50

def maximumTrafficCalibrationActorBytes : Nat := 64

def maximumTrafficCalibrationNodeBytes : Nat := 128

namespace TrafficCalibrationEvent

/-- `Anchor`: where the event counts, the effective second of a `set`, the creation of a `revoke`. -/
def anchor (event : TrafficCalibrationEvent) : Int := event.effectiveAt.getD event.createdAt

/-- `Calibrated`: the event switches the accounting to the calibrated totals. -/
def calibrated (event : TrafficCalibrationEvent) : Bool :=
  event.kind = .set && event.effectiveAt.isSome && event.targetSent.isSome &&
    event.targetReceived.isSome

end TrafficCalibrationEvent

def validateCalibrationTarget (value : Int) : Bool :=
  0 ≤ value && value ≤ maximumTrafficCalibrationTarget

def containsNul (value : String) : Bool := value.toList.contains (Char.ofNat 0)

def validateCalibrationSet (event : TrafficCalibrationEvent) : Bool :=
  (event.effectiveAt.any fun at_ => !isZero at_) &&
    event.targetSent.any validateCalibrationTarget &&
    event.targetReceived.any validateCalibrationTarget && event.referenceEventID.isNone

def validateCalibrationAttribution (event : TrafficCalibrationEvent) : Bool :=
  event.nodeName != "" && event.nodeName.utf8ByteSize ≤ maximumTrafficCalibrationNodeBytes &&
    event.actor.id != "" && event.actor.id.utf8ByteSize ≤ maximumTrafficCalibrationActorBytes &&
    event.actor.name != "" && event.actor.name.utf8ByteSize ≤ maximumTrafficCalibrationActorBytes &&
    event.actor.sessionID.utf8ByteSize ≤ maximumTrafficCalibrationActorBytes &&
    1 ≤ event.reason.utf8ByteSize &&
    event.reason.utf8ByteSize ≤ maximumTrafficCalibrationReasonBytes &&
    !containsNul event.reason && !isZero event.createdAt

/-- `Validate`: the event has the shape of its kind, and its texts and targets are in bounds. -/
def TrafficCalibrationEvent.validate (event : TrafficCalibrationEvent) : Bool :=
  validUUIDShape event.id && validUUIDShape event.actor.requestID &&
    validateCalibrationAttribution event &&
    match event.kind with
    | .set => validateCalibrationSet event
    | .revoke =>
      event.effectiveAt.isNone && event.targetSent.isNone && event.targetReceived.isNone &&
        event.referenceEventID.any validUUIDShape

/-! ## Requests -/

/-- `TrafficCalibrationRequest`. -/
structure TrafficCalibrationRequest where
  requestID : String
  effectiveAt : Option Int := none
  targetSent : Int
  targetReceived : Int
  reason : String
  deriving DecidableEq

def TrafficCalibrationRequest.validate (request : TrafficCalibrationRequest) : Bool :=
  validUUIDShape request.requestID && validateCalibrationTarget request.targetSent &&
    validateCalibrationTarget request.targetReceived &&
    1 ≤ (trimSpace request.reason).utf8ByteSize &&
    (trimSpace request.reason).utf8ByteSize ≤ maximumTrafficCalibrationReasonBytes &&
    !containsNul request.reason && request.effectiveAt.all fun at_ => !isZero at_

/-- `TrafficCalibrationWindow`: a half-open range of anchors. -/
structure TrafficCalibrationWindow where
  nodeID : String
  start : Int
  stop : Int
  deriving DecidableEq

def validateTrafficCalibrationWindow (window : TrafficCalibrationWindow) : Bool :=
  window.nodeID != "" && !isZero window.start && !isZero window.stop &&
    window.start < window.stop

/-- `TrafficCalibrationChange`: the appended event, or the one that a repeated request appended
before. -/
structure TrafficCalibrationChange where
  event : TrafficCalibrationEvent
  revoked : Option TrafficCalibrationEvent := none
  replayed : Bool := false
  deriving DecidableEq

/-! ## Reads -/

section

variable (nodeIDs : List String) (ledger : Ledger)

/-- `latestTrafficCalibration`: the last row of the node whose anchor is in the window. -/
def latestTrafficCalibration (window : TrafficCalibrationWindow) : Option TrafficCalibrationEvent :=
  Table.last ledger fun e =>
    e.nodeID = some window.nodeID && window.start ≤ e.anchor && e.anchor < window.stop

/-- `findTrafficCalibrationRevoke`. -/
def findTrafficCalibrationRevoke (reference : String) : Option TrafficCalibrationEvent :=
  Table.last ledger fun e => e.kind = .revoke && e.referenceEventID = some reference

def sameTrafficCalibrationPayload (existing candidate : TrafficCalibrationEvent) : Bool :=
  existing.kind = candidate.kind && existing.reason = candidate.reason &&
    existing.actor.id = candidate.actor.id && existing.actor.name = candidate.actor.name &&
    existing.nodeID = candidate.nodeID && existing.targetSent = candidate.targetSent &&
    existing.targetReceived = candidate.targetReceived &&
    existing.effectiveAt = candidate.effectiveAt

/-- `loadTrafficCalibrationReplay`: the event that the same request appended before. -/
def loadTrafficCalibrationReplay (candidate : TrafficCalibrationEvent) :
    Except CalibrationError (Option TrafficCalibrationEvent) :=
  match ledger.find? fun e => e.actor.requestID = candidate.actor.requestID with
  | none => .ok none
  | some existing =>
    if sameTrafficCalibrationPayload existing candidate then .ok (some existing)
    else .error .conflict

/-! ## Writes -/

/-- `insertTrafficCalibration`, with the constraints of the table: the id and the request id are
unique, the node exists, and so does the referenced event. -/
def insertTrafficCalibration
    (event : TrafficCalibrationEvent) : Except CalibrationError Ledger :=
  if event.validate = false then .error .invalid
  else if (ledger.any fun e => e.id = event.id || e.actor.requestID = event.actor.requestID) ||
      (event.nodeID.any fun id => !nodeIDs.contains id) ||
      (event.referenceEventID.any fun id => !ledger.any fun e => e.id = id) then .error .storage
  else .ok (ledger ++ [event])

structure TrafficCalibrationSetWrite where
  request : TrafficCalibrationRequest
  nodeID : String
  nodeName : String
  effectiveAt : Int
  actor : TrafficCalibrationActor
  now : Int

/-- `trafficCalibrationSetEvent`; `id` is the new UUID of the event. -/
def trafficCalibrationSetEvent (id : Uuid) (write : TrafficCalibrationSetWrite) :
    Except CalibrationError TrafficCalibrationEvent :=
  if write.request.validate = false then .error .invalid
  else if write.nodeID = "" ∨ isZero write.effectiveAt ∨ isZero write.now then
    .error .invalid
  else
    let event : TrafficCalibrationEvent :=
      { id := id.text, nodeID := some write.nodeID, nodeName := write.nodeName, kind := .set
        effectiveAt := some write.effectiveAt, targetSent := some write.request.targetSent
        targetReceived := some write.request.targetReceived, reason := trimSpace write.request.reason
        createdAt := write.now, actor := { write.actor with requestID := write.request.requestID } }
    if event.validate = false then .error .invalid else .ok event

/-- `append`: one event, unless the request was made before. -/
def append (event : TrafficCalibrationEvent) :
    Except CalibrationError (Ledger × TrafficCalibrationChange) :=
  if event.validate = false then .error .invalid
  else
    match loadTrafficCalibrationReplay ledger event with
    | .error e => .error e
    | .ok (some replay) => .ok (ledger, { event := replay, replayed := true })
    | .ok none =>
      match insertTrafficCalibration nodeIDs ledger event with
      | .error e => .error e
      | .ok ledger => .ok (ledger, { event := event })

/-- `AppendSet`. -/
def appendSet (id : Uuid) (write : TrafficCalibrationSetWrite) :
    Except CalibrationError (Ledger × TrafficCalibrationChange) :=
  match trafficCalibrationSetEvent id write with
  | .error e => .error e
  | .ok event => append nodeIDs ledger event

def defaultRevokeReason : String := "revoked by administrator"

/-- `appendRevokeAndSet`: revoke the active event of the window, and perhaps append a new one. -/
def appendRevokeAndSet (window : TrafficCalibrationWindow)
    (revoke : TrafficCalibrationEvent) (replacement : Option TrafficCalibrationEvent) :
    Except CalibrationError (Ledger × TrafficCalibrationChange) :=
  if validateTrafficCalibrationWindow window = false then .error .invalid
  else if revoke.validate = false then .error .invalid
  else
    let primary := replacement.getD revoke
    match loadTrafficCalibrationReplay ledger primary with
    | .error e => .error e
    | .ok (some replay) =>
      .ok (ledger,
        { event := replay
          revoked := revoke.referenceEventID.bind (findTrafficCalibrationRevoke ledger)
          replayed := true })
    | .ok none =>
      match latestTrafficCalibration ledger window with
      | none => .error .conflict
      | some active =>
        if some active.id ≠ revoke.referenceEventID ∨ active.calibrated = false then .error .conflict
        else
          match insertTrafficCalibration nodeIDs ledger revoke with
          | .error e => .error e
          | .ok ledger =>
            match replacement with
            | none => .ok (ledger, { event := primary, revoked := some revoke })
            | some event =>
              match insertTrafficCalibration nodeIDs ledger event with
              | .error e => .error e
              | .ok ledger => .ok (ledger, { event := primary, revoked := some revoke })

/-- The row that takes an event back. -/
def revokeEvent (id : Uuid) (nodeID nodeName eventID : String) (actor : TrafficCalibrationActor)
    (requestID : String) (now : Int) : TrafficCalibrationEvent :=
  { id := id.text, nodeID := some nodeID, nodeName := nodeName, kind := .revoke
    referenceEventID := some eventID, reason := defaultRevokeReason, createdAt := now
    actor := { actor with requestID := requestID } }

structure TrafficCalibrationRevokeWrite where
  requestID : String
  nodeName : String
  window : TrafficCalibrationWindow
  eventID : String
  actor : TrafficCalibrationActor
  now : Int

/-- `AppendRevoke`. -/
def appendRevoke (id : Uuid)
    (write : TrafficCalibrationRevokeWrite) : Except CalibrationError (Ledger × TrafficCalibrationChange) :=
  if validUUIDShape write.requestID = false ∨ write.eventID = "" ∨ isZero write.now then
    .error .invalid
  else
    appendRevokeAndSet nodeIDs ledger write.window
      (revokeEvent id write.window.nodeID write.nodeName write.eventID write.actor write.requestID
        write.now) none

structure TrafficCalibrationReplaceWrite where
  request : TrafficCalibrationRequest
  nodeName : String
  effectiveAt : Int
  window : TrafficCalibrationWindow
  eventID : String
  actor : TrafficCalibrationActor
  now : Int

/-- `AppendReplace`; `ids` are the new UUIDs of the replacement, of the revoke and of the request of
the revoke. -/
def appendReplace (ids : Uuid × Uuid × Uuid)
    (write : TrafficCalibrationReplaceWrite) : Except CalibrationError (Ledger × TrafficCalibrationChange) :=
  match trafficCalibrationSetEvent ids.1
    { request := write.request, nodeID := write.window.nodeID, nodeName := write.nodeName
      effectiveAt := write.effectiveAt, actor := write.actor, now := write.now } with
  | .error e => .error e
  | .ok replacement =>
    appendRevokeAndSet nodeIDs ledger write.window
      (revokeEvent ids.2.1 write.window.nodeID write.nodeName write.eventID write.actor
        ids.2.2.text write.now) (some replacement)

/-! ## Handlers -/

/-- `selectEffective`: the effective second. `boundary` is the second of the last traffic sample, if
there is one. -/
def selectEffective (resetDay : ResetDay) (boundary requested : Option Int) (now : Int) :
    Except CalibrationError Int :=
  let start := (billingPeriod now resetDay).1
  let safe := truncateSecond now
  let safe :=
    match boundary with
    | some b => if b < safe then b else safe
    | none => safe
  let safe := if safe < start then start else safe
  match requested with
  | none => .ok safe
  | some want =>
    if want ≠ truncateSecond want ∨ want < start ∨ safe < want then .error .invalid
    else .ok want

/-- `HandleCreate`, after the request was parsed. -/
def handleCreate (node : Node) (boundary : Option Int)
    (request : TrafficCalibrationRequest) (actor : TrafficCalibrationActor) (id : Uuid) (now : Int) :
    Except CalibrationError (Ledger × TrafficCalibrationChange) :=
  match selectEffective node.trafficResetDay boundary request.effectiveAt now with
  | .error e => .error e
  | .ok effective =>
    appendSet nodeIDs ledger id
      { request := request, nodeID := node.id, nodeName := node.name, effectiveAt := effective
        actor := actor, now := now }

/-- The window of a request. -/
def requestWindow (node : Node) (now : Int) : TrafficCalibrationWindow :=
  let (start, next) := billingPeriod now node.trafficResetDay
  { nodeID := node.id, start := start, stop := next }

/-- `HandleRevoke`, after the request was parsed. -/
def handleRevoke (node : Node) (requestID eventID : String)
    (actor : TrafficCalibrationActor) (id : Uuid) (now : Int) :
    Except CalibrationError (Ledger × TrafficCalibrationChange) :=
  appendRevoke nodeIDs ledger id
    { requestID := requestID, nodeName := node.name, window := requestWindow node now
      eventID := eventID, actor := actor, now := now }

/-- `HandleReplace`, after the request was parsed. -/
def handleReplace (node : Node) (boundary : Option Int)
    (request : TrafficCalibrationRequest) (eventID : String) (actor : TrafficCalibrationActor)
    (ids : Uuid × Uuid × Uuid) (now : Int) : Except CalibrationError (Ledger × TrafficCalibrationChange) :=
  match selectEffective node.trafficResetDay boundary request.effectiveAt now with
  | .error e => .error e
  | .ok effective =>
    appendReplace nodeIDs ledger ids
      { request := request, nodeName := node.name, effectiveAt := effective
        window := requestWindow node now, eventID := eventID, actor := actor, now := now }

end

/-! ## What the transactions do -/

section spec

variable {nodeIDs : List String} {ledger ledger' : Ledger} {change : TrafficCalibrationChange}
  {event : TrafficCalibrationEvent}

/-- What an inserted row fulfils. -/
structure Inserted (nodeIDs : List String) (ledger : Ledger) (event : TrafficCalibrationEvent) :
    Prop where
  valid : event.validate = true
  fresh : ∀ e ∈ ledger, e.id ≠ event.id
  request : ∀ e ∈ ledger, e.actor.requestID ≠ event.actor.requestID
  node : ∀ id ∈ event.nodeID, id ∈ nodeIDs

theorem insertTrafficCalibration_spec (h : insertTrafficCalibration nodeIDs ledger event = .ok ledger') :
    ledger' = ledger ++ [event] ∧ Inserted nodeIDs ledger event := by
  unfold insertTrafficCalibration at h
  split_ifs at h with hv hc
  cases h
  simp only [Bool.or_eq_true, not_or, List.any_eq_true, not_exists, not_and, decide_eq_true_eq] at hc
  refine ⟨rfl, by simpa using hv, fun e he => (hc.1.1 e he).1, fun e he => (hc.1.1 e he).2,
    fun id hid => ?_⟩
  have := hc.1.2
  rw [hid] at this
  simpa using this

theorem append_spec (h : append nodeIDs ledger event = .ok (ledger', change)) :
    (change.replayed = true ∧ ledger' = ledger) ∨
      (change.replayed = false ∧ ledger' = ledger ++ [event] ∧ Inserted nodeIDs ledger event) := by
  unfold append at h
  split_ifs at h
  split at h
  · cases h
  · cases h
    exact .inl ⟨rfl, rfl⟩
  · split at h
    · cases h
    · rename_i hins
      cases h
      exact .inr ⟨rfl, insertTrafficCalibration_spec hins⟩

/-- What a successful `appendRevokeAndSet` found and appended. -/
theorem appendRevokeAndSet_spec {window : TrafficCalibrationWindow} {revoke : TrafficCalibrationEvent}
    {replacement : Option TrafficCalibrationEvent}
    (h : appendRevokeAndSet nodeIDs ledger window revoke replacement = .ok (ledger', change)) :
    (change.replayed = true ∧ ledger' = ledger) ∨
      (∃ active ∈ ledger, active.nodeID = some window.nodeID ∧ active.kind = .set ∧
        some active.id = revoke.referenceEventID) ∧ Inserted nodeIDs ledger revoke ∧ match replacement with
      | none => ledger' = ledger ++ [revoke]
      | some event => ledger' = ledger ++ [revoke] ++ [event] ∧
          Inserted nodeIDs (ledger ++ [revoke]) event := by
  unfold appendRevokeAndSet at h
  simp only at h
  split_ifs at h
  split at h
  · cases h
  · cases h
    exact .inl ⟨rfl, rfl⟩
  · split at h
    · cases h
    · rename_i active hlatest
      split_ifs at h with hbad
      rw [not_or, not_not, Bool.not_eq_false] at hbad
      have hactive : ∃ active ∈ ledger, active.nodeID = some window.nodeID ∧ active.kind = .set ∧
          some active.id = revoke.referenceEventID := by
        have hw := Table.of_last hlatest
        have hc := hbad.2
        simp only [TrafficCalibrationEvent.calibrated, Bool.and_eq_true, decide_eq_true_eq] at hw hc
        exact ⟨active, Table.mem_of_last hlatest, hw.1.1, hc.1.1.1, hbad.1⟩
      split at h
      · cases h
      rename_i hins
      obtain ⟨rfl, hrev⟩ := insertTrafficCalibration_spec hins
      refine .inr ⟨hactive, hrev, ?_⟩
      cases replacement with
      | none =>
        cases h
        rfl
      | some event =>
        simp only at h
        split at h
        · cases h
        rename_i hins'
        cases h
        exact insertTrafficCalibration_spec hins'

/-- The event that a `set` request makes. -/
def setEvent (id : Uuid) (write : TrafficCalibrationSetWrite) : TrafficCalibrationEvent :=
  { id := id.text, nodeID := some write.nodeID, nodeName := write.nodeName, kind := .set
    effectiveAt := some write.effectiveAt, targetSent := some write.request.targetSent
    targetReceived := some write.request.targetReceived, reason := trimSpace write.request.reason
    createdAt := write.now, actor := { write.actor with requestID := write.request.requestID } }

theorem trafficCalibrationSetEvent_spec {id : Uuid} {write : TrafficCalibrationSetWrite}
    (h : trafficCalibrationSetEvent id write = .ok event) : event = setEvent id write ∧ write.nodeID ≠ "" := by
  unfold trafficCalibrationSetEvent at h
  simp only at h
  split_ifs at h with h1 h2 h3
  cases h
  exact ⟨rfl, fun hn => h2 (.inl hn)⟩

/-- The effective second is whole. -/
theorem selectEffective_dvd {resetDay : ResetDay} {boundary requested : Option Int} {now effective : Int}
    (hb : ∀ b ∈ boundary, second ∣ b) (h : selectEffective resetDay boundary requested now = .ok effective) :
    second ∣ effective := by
  have hstart := (billingPeriod_dvd now resetDay).1
  have htrunc := second_dvd_truncateSecond now
  unfold selectEffective at h
  cases requested with
  | none =>
    simp only [Except.ok.injEq] at h
    subst h
    cases boundary with
    | none => simp only; split_ifs <;> assumption
    | some b =>
      have := hb b rfl
      simp only
      split_ifs <;> assumption
  | some want =>
    simp only at h
    split_ifs at h
    all_goals
      cases h
      rename_i hbad
      rw [not_or, not_not] at hbad
      rw [hbad.1]
      exact second_dvd_truncateSecond _

/-- The effective second lies in the billing period, not after the request. -/
theorem selectEffective_spec {resetDay : ResetDay} {boundary requested : Option Int} {now effective : Int}
    (h : selectEffective resetDay boundary requested now = .ok effective) :
    (billingPeriod now resetDay).1 ≤ effective ∧ effective ≤ now := by
  have hstart := (billingPeriod_spec now resetDay).1
  have htrunc := truncateSecond_le now
  unfold selectEffective at h
  -- the last second that is safe
  have hsafe : ∀ b : Option Int,
      (match b with
        | some b => if b < truncateSecond now then b else truncateSecond now
        | none => truncateSecond now) ≤ now := by
    intro b
    cases b with
    | none => exact htrunc
    | some b => simp only; split_ifs <;> omega
  have := hsafe boundary
  cases requested with
  | none =>
    simp only [Except.ok.injEq] at h
    split_ifs at h <;> omega
  | some want =>
    simp only at h
    split_ifs at h with hbad
    all_goals
      cases h
      omega

end spec

/-! ## A request -/

/-- Midnight of a day in January. -/
def sampleMidnight : Int := 1768435200 * second

def sampleNode : Node := { id := "n1", name := "edge" }

def sampleRequest : TrafficCalibrationRequest :=
  { requestID := "0a5f8f5e-6a55-4b43-9f2d-0d2a0d6f1c77", targetSent := 1000, targetReceived := 2000
    reason := "provider invoice" }

def sampleActor : TrafficCalibrationActor :=
  { id := "a1", name := "owner", requestID := "0a5f8f5e-6a55-4b43-9f2d-0d2a0d6f1c77" }

def sampleEventID : Uuid := ⟨"3f2504e0-4f89-41d3-9a0c-0305e82c3311", by decide⟩

/-- A calibration of the sample node at midnight, under a request of its own. -/
def sampleRow (id : Uuid) : TrafficCalibrationEvent :=
  setEvent id
    { request := { sampleRequest with requestID := id.text }, nodeID := "n1", nodeName := "edge"
      effectiveAt := sampleMidnight, actor := sampleActor, now := sampleMidnight }

end Beat.Traffic
