import Beat.Traffic.Ledger

/-!
# Repeated calibration requests

A request id is stored with the row that it appended, and a later call with the same id is compared
with that row. The comparison leaves out the referenced event, and the row of a replacement looks
like that of a set.

* `Operation.row`: what the stored row shows of an operation.
* `repeated_request`: a repeated call answers as its operation, exactly when it is well formed and the
  comparison tells the two apart.
* `revoke_replayed_unapplied`: a revoke of another event under a known id answers as applied.
-/

namespace Beat.Traffic

open List Instant

inductive CallKind where
  | set
  | revoke
  | replace
  deriving DecidableEq

/-- What a call asks for. -/
structure Operation where
  call : CallKind
  nodeID : String
  effectiveAt : Option Int := none
  targetSent : Option Int := none
  targetReceived : Option Int := none
  reason : String
  reference : Option String := none
  deriving DecidableEq

/-- What the row of the operation shows of it. -/
def Operation.row (o : Operation) : CalibrationKind × String × Option String × Option Int × Option Int × Option Int :=
  (if o.call = .revoke then .revoke else .set, o.reason, some o.nodeID, o.targetSent,
    o.targetReceived, o.effectiveAt)

/-- One call of the store, with the identifiers that it draws. -/
inductive CalibrationCall where
  | set (id : Uuid) (write : TrafficCalibrationSetWrite)
  | revoke (id : Uuid) (write : TrafficCalibrationRevokeWrite)
  | replace (ids : Uuid × Uuid × Uuid) (write : TrafficCalibrationReplaceWrite)

namespace CalibrationCall

def run (nodeIDs : List String) (ledger : Ledger) :
    CalibrationCall → Except CalibrationError (Ledger × TrafficCalibrationChange)
  | set id write => appendSet nodeIDs ledger id write
  | revoke id write => appendRevoke nodeIDs ledger id write
  | replace ids write => appendReplace nodeIDs ledger ids write

def operation : CalibrationCall → Operation
  | set _ w =>
    { call := .set, nodeID := w.nodeID, effectiveAt := some w.effectiveAt
      targetSent := some w.request.targetSent, targetReceived := some w.request.targetReceived
      reason := trimSpace w.request.reason }
  | revoke _ w =>
    { call := .revoke, nodeID := w.window.nodeID, reason := defaultRevokeReason
      reference := some w.eventID }
  | replace _ w =>
    { call := .replace, nodeID := w.window.nodeID, effectiveAt := some w.effectiveAt
      targetSent := some w.request.targetSent, targetReceived := some w.request.targetReceived
      reason := trimSpace w.request.reason, reference := some w.eventID }

/-- The row that is stored under the request id. -/
def primary : CalibrationCall → TrafficCalibrationEvent
  | set id w => setEvent id w
  | revoke id w => revokeEvent id w.window.nodeID w.nodeName w.eventID w.actor w.requestID w.now
  | replace ids w => setEvent ids.1
      { request := w.request, nodeID := w.window.nodeID, nodeName := w.nodeName
        effectiveAt := w.effectiveAt, actor := w.actor, now := w.now }

variable {nodeIDs : List String} {ledger ledger' : Ledger} {change : TrafficCalibrationChange}
  {a b call : CalibrationCall}

/-- One administrator made both calls. -/
def SameAdministrator (a b : CalibrationCall) : Prop :=
  a.primary.actor.id = b.primary.actor.id ∧ a.primary.actor.name = b.primary.actor.name

instance : Decidable (SameAdministrator a b) := inferInstanceAs (Decidable (_ ∧ _))

/-- The comparison of a replay sees the rows and who called. -/
theorem samePayload_iff : sameTrafficCalibrationPayload a.primary b.primary = true ↔
    a.operation.row = b.operation.row ∧ SameAdministrator a b := by
  have hrow : ∀ call : CalibrationCall, call.operation.row =
      (call.primary.kind, call.primary.reason, call.primary.nodeID, call.primary.targetSent,
        call.primary.targetReceived, call.primary.effectiveAt) := by
    intro call
    cases call <;> rfl
  simp only [hrow, SameAdministrator, sameTrafficCalibrationPayload, Bool.and_eq_true, decide_eq_true_eq, Prod.mk.injEq]
  tauto

/-- A call that was not a replay appended its row, the first under its request id. -/
theorem appended (h : call.run nodeIDs ledger = .ok (ledger', change)) (hnew : change.replayed = false) :
    ∃ rows, ledger' = rows ++ [call.primary] ∧ ∀ e ∈ rows, e.actor.requestID ≠ call.primary.actor.requestID := by
  cases call with
  | set id w =>
    simp only [run, appendSet] at h
    split at h
    · cases h
    rename_i event hset
    obtain ⟨rfl, -⟩ := trafficCalibrationSetEvent_spec hset
    rcases append_spec h with ⟨hr, -⟩ | ⟨-, hl, hins⟩
    · exact nomatch hr.symm.trans hnew
    · exact ⟨ledger, hl, hins.request⟩
  | revoke id w =>
    simp only [run, appendRevoke] at h
    split_ifs at h
    rcases appendRevokeAndSet_spec h with ⟨hr, -⟩ | ⟨-, hins, hl⟩
    · exact nomatch hr.symm.trans hnew
    · exact ⟨ledger, hl, hins.request⟩
  | replace ids w =>
    simp only [run, appendReplace] at h
    split at h
    · cases h
    rename_i event hset
    obtain ⟨rfl, -⟩ := trafficCalibrationSetEvent_spec hset
    rcases appendRevokeAndSet_spec h with ⟨hr, -⟩ | ⟨-, -, hl, hins⟩
    · exact nomatch hr.symm.trans hnew
    · exact ⟨_, hl, hins.request⟩

/-- The checks of a set before its transaction. -/
def validSet (id : Uuid) (w : TrafficCalibrationSetWrite) : Bool :=
  w.request.validate && !(w.nodeID = "" || isZero w.effectiveAt || isZero w.now) && (setEvent id w).validate

/-- The checks of a call before its transaction. -/
def valid : CalibrationCall → Bool
  | set id w => validSet id w
  | revoke id w =>
    decide (¬(validUUIDShape w.requestID = false ∨ w.eventID = "" ∨ isZero w.now)) &&
      validateTrafficCalibrationWindow w.window &&
      (revokeEvent id w.window.nodeID w.nodeName w.eventID w.actor w.requestID w.now).validate
  | replace ids w =>
    validSet ids.1
        { request := w.request, nodeID := w.window.nodeID, nodeName := w.nodeName
          effectiveAt := w.effectiveAt, actor := w.actor, now := w.now } &&
      validateTrafficCalibrationWindow w.window &&
      (revokeEvent ids.2.1 w.window.nodeID w.nodeName w.eventID w.actor ids.2.2.text w.now).validate

theorem trafficCalibrationSetEvent_eq (id : Uuid) (w : TrafficCalibrationSetWrite) :
    trafficCalibrationSetEvent id w = if validSet id w then .ok (setEvent id w) else .error .invalid := by
  unfold trafficCalibrationSetEvent validSet
  simp only [setEvent]
  split_ifs <;> simp_all

/-- The answer to a call with the outcome `valid` of its checks, whose request id is stored with
`existing`. -/
def Compared (existing candidate : TrafficCalibrationEvent) (ledger : Ledger) (valid : Bool)
    (answer : Except CalibrationError (Ledger × TrafficCalibrationChange)) : Prop :=
  if valid = false then answer = .error .invalid
  else if sameTrafficCalibrationPayload existing candidate then
    ∃ change, answer = .ok (ledger, change) ∧ change.replayed = true
  else answer = .error .conflict

section stored

variable {existing candidate revoke : TrafficCalibrationEvent}
  (hfind : ledger.find? (fun e => e.actor.requestID = candidate.actor.requestID) = some existing)
include hfind

theorem append_stored : Compared existing candidate ledger candidate.validate (append nodeIDs ledger candidate) := by
  unfold append Compared
  simp only [loadTrafficCalibrationReplay, hfind]
  split_ifs
  · rfl
  · exact ⟨_, rfl, rfl⟩
  · rfl

theorem appendRevokeAndSet_stored {window : TrafficCalibrationWindow}
    {replacement : Option TrafficCalibrationEvent} (hprimary : replacement.getD revoke = candidate) :
    Compared existing candidate ledger (validateTrafficCalibrationWindow window && revoke.validate)
      (appendRevokeAndSet nodeIDs ledger window revoke replacement) := by
  unfold appendRevokeAndSet Compared
  simp only [hprimary, loadTrafficCalibrationReplay, hfind]
  cases validateTrafficCalibrationWindow window <;> cases revoke.validate <;> try exact rfl
  simp only [Bool.and_self, Bool.true_eq_false, if_false]
  split_ifs
  · exact ⟨_, rfl, rfl⟩
  · rfl

end stored

/-- A call whose request id is stored checks its fields and compares. -/
theorem run_stored {existing : TrafficCalibrationEvent}
    (hfind : ledger.find? (fun e => e.actor.requestID = call.primary.actor.requestID) = some existing) :
    Compared existing call.primary ledger call.valid (call.run nodeIDs ledger) := by
  cases call with
  | set id w =>
    simp only [run, appendSet, valid, trafficCalibrationSetEvent_eq]
    cases hv : validSet id w with
    | false => rfl
    | true =>
      have hstored : Compared _ _ _ _ (append nodeIDs ledger _) := append_stored hfind
      rwa [show (primary (set id w)).validate = true from (Bool.and_eq_true_iff.mp hv).2] at hstored
  | revoke id w =>
    simp only [run, appendRevoke, valid]
    split_ifs with hbad
    · rw [decide_eq_false (not_not.mpr hbad)]
      rfl
    · rw [decide_eq_true hbad, Bool.true_and]
      exact appendRevokeAndSet_stored hfind rfl
  | replace ids w =>
    simp only [run, appendReplace, valid, trafficCalibrationSetEvent_eq]
    cases hv : validSet _ _ with
    | false => rfl
    | true => exact appendRevokeAndSet_stored hfind rfl

end CalibrationCall

open CalibrationCall

/-- A call under the request id of an earlier one is the earlier one's replay exactly if it is the same
operation, and conflicts with it otherwise: if and only if the call passes its checks, no other
administrator repeats the operation, and the rows tell the administrator's own operations apart. -/
theorem repeated_request (nodeIDs nodeIDs' : List String) (ledger ledger' later : Ledger)
    (first second : CalibrationCall) (change : TrafficCalibrationChange)
    (hfirst : first.run nodeIDs ledger = .ok (ledger', change)) (hnew : change.replayed = false)
    (hrequest : first.primary.actor.requestID = second.primary.actor.requestID) :
    ((first.operation = second.operation →
      ∃ answer, second.run nodeIDs' (ledger' ++ later) = .ok (ledger' ++ later, answer) ∧ answer.replayed = true) ∧
      (first.operation ≠ second.operation → second.run nodeIDs' (ledger' ++ later) = .error .conflict) ∧
      ∀ id write, second = .revoke id write → ∀ ledger'' answer,
        second.run nodeIDs' (ledger' ++ later) = .ok (ledger'', answer) →
        ∃ e ∈ ledger'', e.kind = .revoke ∧ e.referenceEventID = some write.eventID) ↔
    second.valid = true ∧ (first.operation = second.operation → SameAdministrator first second) ∧
      (SameAdministrator first second → first.operation.row = second.operation.row →
        first.operation = second.operation) := by
  obtain ⟨rows, rfl, hfresh⟩ := appended hfirst hnew
  have hfind : (rows ++ [first.primary] ++ later).find?
      (fun e => e.actor.requestID = second.primary.actor.requestID) = some first.primary := by
    rw [append_assoc, find?_append, find?_eq_none.mpr, Option.none_or]
    · simp [hrequest]
    · intro e he
      simpa [← hrequest] using hfresh e he
  have hcompared : Compared _ _ _ _ (second.run nodeIDs' _) := run_stored hfind
  unfold Compared at hcompared
  simp only [samePayload_iff] at hcompared
  constructor
  · intro ⟨hreplay, hconflict, _⟩
    -- the answer tells whether the checks passed and what the comparison saw
    by_cases hop : first.operation = second.operation
    · obtain ⟨answer, hrun, -⟩ := hreplay hop
      rw [hrun] at hcompared
      split_ifs at hcompared with hv hsame
      exact ⟨by simpa using hv, fun _ => hsame.2, fun _ _ => hop⟩
    · rw [hconflict hop] at hcompared
      split_ifs at hcompared with hv hsame
      · cases hcompared
      · obtain ⟨_, hrun, -⟩ := hcompared
        cases hrun
      · exact ⟨by simpa using hv, fun h => absurd h hop, fun hadmin hrow => absurd ⟨hrow, hadmin⟩ hsame⟩
  · intro ⟨hvalid, hadmin, htold⟩
    have hsame : first.operation.row = second.operation.row ∧ SameAdministrator first second ↔
        first.operation = second.operation :=
      ⟨fun h => htold h.2 h.1, fun h => ⟨congrArg _ h, hadmin h⟩⟩
    rw [if_neg (by simp [hvalid])] at hcompared
    simp only [hsame] at hcompared
    refine ⟨fun h => by rwa [if_pos h] at hcompared, fun h => by rwa [if_neg h] at hcompared, ?_⟩
    rintro id write rfl ledger'' answer hrun
    split at hcompared
    · rename_i heq
      obtain ⟨_, hok, -⟩ := hcompared
      obtain ⟨rfl, -⟩ := Prod.mk.inj (Except.ok.inj (hok.symm.trans hrun))
      refine ⟨first.primary, by simp, ?_⟩
      cases first with
      | revoke id' write' => exact ⟨rfl, congrArg Operation.reference heq⟩
      | set | replace => exact nomatch congrArg Operation.call heq
    · exact nomatch hcompared.symm.trans hrun

/-! ## A revoke of another event -/

def otherEventID : Uuid := ⟨"3f2504e0-4f89-41d3-9a0c-0305e82c3312", by decide⟩

/-- The revoke of an event under one request id. -/
def sampleRevoke (eventID : Uuid) : CalibrationCall :=
  .revoke ⟨"3f2504e0-4f89-41d3-9a0c-0305e82c3313", by decide⟩
    { requestID := sampleRequest.requestID, nodeName := "edge"
      window := requestWindow sampleNode sampleMidnight, eventID := eventID.text, actor := sampleActor
      now := sampleMidnight }

theorem repeated_request_revoke : ∃ ledger answer, (sampleRevoke sampleEventID).run ["n1"]
        ([sampleRow sampleEventID, (sampleRevoke sampleEventID).primary] ++ []) = .ok (ledger, answer) ∧
      answer.replayed = true := by
  obtain ⟨answer, hrun, hreplayed⟩ := (repeated_request ["n1"] ["n1"] [sampleRow sampleEventID]
    [sampleRow sampleEventID, (sampleRevoke sampleEventID).primary] [] (sampleRevoke sampleEventID)
    (sampleRevoke sampleEventID) _ rfl rfl rfl).mpr
    ⟨by decide +kernel, fun _ => ⟨rfl, rfl⟩, fun _ _ => rfl⟩ |>.1 rfl
  exact ⟨_, answer, hrun, hreplayed⟩

/-- Under the id of an earlier revoke, the revoke of another event answers as applied and leaves no
row of it. -/
theorem revoke_replayed_unapplied : ∃ ledger change answer,
      (sampleRevoke sampleEventID).run ["n1"] [sampleRow sampleEventID] = .ok (ledger, change) ∧
      change.replayed = false ∧ (sampleRevoke otherEventID).run ["n1"] (ledger ++ [sampleRow otherEventID]) =
        .ok (ledger ++ [sampleRow otherEventID], answer) ∧ answer.replayed = true ∧
      ∀ e ∈ ledger ++ [sampleRow otherEventID], e.referenceEventID ≠ some otherEventID.text :=
  ⟨_, _, _, rfl, rfl, rfl, rfl, by decide +kernel⟩

end Beat.Traffic
