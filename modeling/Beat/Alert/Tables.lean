import Beat.Alert.Engine
import Beat.Lib.Table

/-!
# The alert tables and their transactions

The tables that alert evaluation reads and writes, and the transactions of `internal/store` on them:
`Claim` and `Release` of a lease, `RebaseClock`, `Admit`, the event transitions, the rule writes and
`CommitTx`. A transaction is a function to `Except`: an error is a rollback, so the caller keeps the
tables that it had.

Times in the state table are milliseconds; only the time of the last evidence keeps its nanoseconds
(`storedState`). The rows of the audit log and of the notification queue, which no transaction here
reads, are left out.
-/

namespace Beat.Alert

open Table Instant

open Ieee (F64)

/-- `AlertEvaluationKey`. -/
structure Key where
  ruleID : String
  nodeID : String
  deviceID : String := ""
  deriving DecidableEq

def AlertEvaluationState.key (s : AlertEvaluationState) : Key := ⟨s.ruleID, s.nodeID, s.deviceID⟩

def AlertEvent.key (e : AlertEvent) : Key := ⟨e.ruleID, e.nodeID, e.deviceID⟩

/-- A SHA-256 digest. -/
abbrev TokenHash := BitVec 256

/-- The lease columns of a state row; `expiresAt` is in milliseconds. -/
structure RowLease where
  tokenHash : TokenHash
  expiresAt : Int
  workerID : String
  deriving DecidableEq

/-- A row of `alert_evaluation_states`. -/
structure StateRow where
  state : AlertEvaluationState
  lease : Option RowLease := none
  deriving DecidableEq

/-- A row of `alert_events`. -/
structure EventRow where
  event : AlertEvent
  ruleRevision : Int := 1
  deriving DecidableEq

/-- A row of `node_accelerators`. -/
structure Accelerator where
  nodeID : String
  deviceID : String
  inactiveAt : Option Int := none
  deriving DecidableEq

structure Tables where
  rules : List AlertEvaluationRule := []
  nodes : List Node := []
  accelerators : List Accelerator := []
  states : List StateRow := []
  events : List EventRow := []
  healthEvents : List AlertEvaluationEvent := []
  deriving DecidableEq

/-- A time as the state table keeps it. -/
def storedMillis (t : Int) : Int := unixMilli t * millisecond

/-- A state as the table keeps it. The name of the device is not stored. -/
def storedState (s : AlertEvaluationState) : AlertEvaluationState :=
  { s with
    deviceName := ""
    pendingSince := s.pendingSince.map storedMillis
    recoverySince := s.recoverySince.map storedMillis
    lastEvaluatedAt := s.lastEvaluatedAt.map storedMillis
    lastGoodAt := s.lastGoodAt.map storedMillis
    lastEvidenceObservedAt := s.lastEvidenceObservedAt.map storedMillis
    health :=
      { s.health with
        startedAt := s.health.startedAt.map storedMillis
        statusSince := s.health.statusSince.map storedMillis
        lastObservedAt := s.health.lastObservedAt.map storedMillis }
    nextDueAt := storedMillis s.nextDueAt
    updatedAt := storedMillis s.updatedAt }

/-! ## Reads -/

section

variable (t : Tables) (key : Key) (change : AlertEvaluationCommit)

/-- `findEvaluationState`. -/
def findEvaluationState : Option AlertEvaluationState :=
  (t.states.find? fun r => r.state.key = key).map (·.state)

/-- `findAdvancedAlertRule`. -/
def findAdvancedAlertRule (id : String) : Except EvalError AlertEvaluationRule :=
  match t.rules.find? fun r => r.id = id with
  | none => .error .ruleNotFound
  | some rule => .ok rule

/-- The row is the active event of a key. -/
def EventRow.isActiveFor (r : EventRow) : Bool :=
  r.event.key = key && r.event.status.isActive

/-- `GetActiveEventForKey`. -/
def getActiveEventForKey : Option AlertEvent :=
  (t.events.find? (·.isActiveFor key)).map (·.event)

/-- The id and status of the active event of a key, both empty when there is none. -/
def activeIncident : String × AlertStatus :=
  match getActiveEventForKey t key with
  | none => ("", .unset)
  | some event => (event.id, event.status)

/-! ## Leases -/

/-- A lease in the hands of an evaluator; `expiresAt` is an instant. -/
structure Lease where
  key : Key
  tokenHash : TokenHash
  expiresAt : Int
  deriving DecidableEq

/-- `Claim`: take the lease of a due row that is free or whose lease has expired. -/
def claim (dueAt : Int) (workerID : String) (at_ : Int)
    (tokenHash : TokenHash) : Except EvalError (Tables × Lease) :=
  if workerID = "" ∨ 36 < workerID.utf8ByteSize ∨ isZero at_ then .error .invalidPolicy
  else
    let now := unixMilli at_
    let matching := fun r : StateRow =>
      r.state.key = key && unixMilli r.state.nextDueAt = unixMilli dueAt &&
        decide (unixMilli r.state.nextDueAt ≤ now) &&
        r.lease.all fun lease => lease.expiresAt ≤ now
    let lease : Lease := ⟨key, tokenHash, at_ + leaseDuration⟩
    if t.states.any matching then
      .ok
        ({ t with
            states := update t.states matching fun r =>
              { r with lease := some ⟨tokenHash, unixMilli lease.expiresAt, workerID⟩ } }, lease)
    else .error .conflict

/-- `Release`: give the lease back if it is still the one of the row. -/
def release (lease : Lease) : Except EvalError Tables :=
  let matching := fun r : StateRow =>
    r.state.key = lease.key && r.lease.any fun l => l.tokenHash = lease.tokenHash
  if t.states.any matching then
    .ok { t with states := update t.states matching fun r => { r with lease := none } }
  else .error .conflict

/-! ## The clock -/

/-- A row after the clock went back to `at_` before its last evaluation. -/
def rebasedRow (at_ : Int) (r : StateRow) : StateRow :=
  let now := storedMillis at_
  let bound := unixMilli (at_ + leaseDuration)
  { state :=
      { r.state with
        version := r.state.version + 1
        phase := if r.state.activeEventID = "" then .normal else .firing
        status := .error, reason := "clock_rollback"
        triggerElapsedMS := 0, recoveryElapsedMS := 0
        pendingSince := none, recoverySince := none
        lastEvaluatedAt := some now
        lastEvidenceObservedAt := r.state.lastEvidenceObservedAt.map fun _ => now
        health :=
          { r.state.health with
            elapsedMS := 0
            lastObservedAt := r.state.health.lastObservedAt.map fun _ => now
            statusSince := r.state.health.statusSince.map fun _ => now }
        nextDueAt := now, updatedAt := now }
    lease := r.lease.map fun l =>
      { l with expiresAt := if bound < l.expiresAt then bound else l.expiresAt } }

/-- `RebaseClock`. -/
def rebaseClock (at_ : Int) : Except EvalError Tables :=
  if isZero at_ then .error .invalidPolicy
  else
    .ok
      { t with
        states := update t.states
          (fun r => r.state.lastEvaluatedAt.any fun e =>
            unixMilli at_ < unixMilli e)
          (rebasedRow at_) }

/-! ## Admission -/

/-- The scope of a rule contains a node. -/
def AlertEvaluationRule.coversNode (rule : AlertEvaluationRule) (node : Node) : Bool :=
  match rule.scope.kind with
  | .all => true
  | .nodes => rule.scope.nodeIDs.contains node.id
  | .groups => rule.scope.groupIDs.contains node.groupID

def AlertEvaluationRule.isLive (rule : AlertEvaluationRule) : Bool :=
  rule.enabled && rule.deletedAt.isNone

/-- `missingEvaluationTargets`: the keys that a live rule covers and the state table lacks, with the
revision of the rule. -/
def missingEvaluationTargets : List (Key × Int) :=
  let plain := (t.rules.filter fun r => r.isLive && r.scope.deviceID = "").flatMap fun r =>
    (t.nodes.filter r.coversNode).map fun n => (⟨r.id, n.id, ""⟩, r.revision)
  let devices :=
    (t.rules.filter fun r => r.isLive && r.scope.kind = .nodes && r.scope.deviceID != "").flatMap
      fun r => (t.nodes.filter fun n => r.scope.nodeIDs.contains n.id).flatMap fun n =>
        (t.accelerators.filter fun g => g.nodeID = n.id &&
          (r.scope.deviceID == acceleratorAnyDevice && g.inactiveAt.isNone ||
            r.scope.deviceID == g.deviceID)).map fun g => (⟨r.id, n.id, g.deviceID⟩, r.revision)
  (plain ++ devices).filter fun target => (t.states.any fun s => s.state.key = target.1) = false

/-- The order of the targets: by rule, node and device. -/
def targetLe (a b : Key × Int) : Bool :=
  a.1.ruleID < b.1.ruleID || a.1.ruleID == b.1.ruleID &&
    (a.1.nodeID < b.1.nodeID || a.1.nodeID == b.1.nodeID && a.1.deviceID ≤ b.1.deviceID)

/-- The row that admission creates. -/
def admittedRow (at_ : Int) (target : Key × Int) : StateRow :=
  { state :=
      { ruleID := target.1.ruleID, nodeID := target.1.nodeID, deviceID := target.1.deviceID
        ruleRevision := target.2, version := 1, phase := .normal, status := .noData
        nextDueAt := storedMillis at_, updatedAt := storedMillis at_ } }

/-- Insert rows; a taken key fails the statement. -/
def insertStates (states : List StateRow) : List StateRow → Except EvalError (List StateRow)
  | [] => .ok states
  | row :: rows =>
    if states.any fun s => s.state.key = row.state.key then .error .storage
    else insertStates (states ++ [row]) rows

def batchSize : Nat := 256

/-- `Admit`. `checks` is the outcome of the capacity check of the rules. -/
def admitTargets (at_ : Int) (checks : Except EvalError Unit) : Except EvalError Tables :=
  if isZero at_ then .error .invalidPolicy
  else
    match checks with
    | .error e => .error e
    | .ok () =>
      let missing := missingEvaluationTargets t
      if maximumStateRows < t.states.length + missing.length then .error .capacity
      else
        match insertStates t.states
          (((missing.mergeSort targetLe).take batchSize).map (admittedRow at_)) with
        | .error e => .error e
        | .ok states => .ok { t with states := states }

/-! ## Events -/

def validateNewAlertEvent (event : AlertEvent) : Bool :=
  (event.deviceID == "" ||
    validAcceleratorDeviceID event.deviceID && event.deviceName.utf8ByteSize ≤ 256) &&
    event.id != "" && event.ruleID != "" && event.nodeID != "" &&
    !isZero event.triggeredAt && event.status == .triggered && event.value.isFinite

/-- The row of a new event. -/
def newEventRow (event : AlertEvent) : EventRow :=
  { event := { event with acknowledgedAt := none, resolvedAt := none } }

/-- `CreateActiveEventTx`: whether the event was created, and the tables. -/
def createActiveEventTx (event : AlertEvent) : Except EvalError (Bool × Tables) :=
  if validateNewAlertEvent event = false then .error .invalidTransition
  else if t.events.any (·.isActiveFor event.key) then .ok (false, t)
  else if t.events.any fun r => r.event.id = event.id then .error .storage
  else .ok (true, { t with events := t.events ++ [newEventRow event] })

structure AlertEventTransition where
  event : AlertEvent
  previous : AlertStatus
  deriving DecidableEq

def validateAlertTransition (change : AlertEventTransition) : Bool :=
  change.event.id != "" && change.event.ruleID != "" && change.event.nodeID != "" &&
    match change.event.status with
    | .acknowledged => change.previous == .triggered && change.event.acknowledgedAt.isSome
    | .resolved => change.previous.isActive && change.event.resolvedAt.isSome
    | _ => false

/-- `TransitionEventTx`: whether the event was changed, and the tables. The update compares the old
status. -/
def transitionEventTx (change : AlertEventTransition) : Except EvalError (Bool × Tables) :=
  if validateAlertTransition change = false then .error .invalidTransition
  else
    let matching := fun r : EventRow =>
      r.event.id = change.event.id && r.event.key = change.event.key &&
        r.event.status = change.previous
    if t.events.any matching then
      .ok (true, { t with
          events := update t.events matching fun r =>
            { r with
              event :=
                { r.event with
                  status := change.event.status
                  acknowledgedAt := change.event.acknowledgedAt
                  resolvedAt := change.event.resolvedAt
                  resolutionReason := change.event.resolutionReason } } })
    else .ok (false, t)

/-! ## Rules -/

/-- The text of a canonical operator. -/
def Comparison.text : Comparison → String
  | .gt => "gt"
  | .gte => "gte"
  | .lt => "lt"
  | .lte => "lte"
  | .eq => "eq"
  | .ne => "ne"

def canonicalText (operator : String) : String := ((canonicalOperator operator).map (·.text)).getD ""

/-- Create a rule under a new id. `checks` is the outcome of the validation against the metric
catalogue and of the capacity check. -/
def createRule (id : Uuid) (rule : AlertEvaluationRule) (checks : Except EvalError Unit) :
    Except EvalError Tables :=
  match checks with
  | .error e => .error e
  | .ok () =>
    if t.rules.any fun r => r.id = id.text then .error .storage
    else
      .ok
        { t with
          rules := t.rules ++
            [{ rule with
                id := id.text, revision := 1, deletedAt := none
                operator := canonicalText rule.operator }] }

def effectiveRecovery (rule : AlertEvaluationRule) : F64 := rule.recoveryThreshold.getD rule.threshold

/-- The numeric policies of two rules agree, as `guardActiveAlertPolicy` compares them. -/
def sameNumericPolicy (first second : AlertEvaluationRule) : Bool :=
  first.metric == second.metric && canonicalText first.operator == second.operator &&
    F64.eq first.threshold second.threshold && first.duration == second.duration &&
    first.windowSeconds == second.windowSeconds && first.aggregation == second.aggregation &&
    first.recoveryDuration == second.recoveryDuration &&
    F64.eq (effectiveRecovery first) (effectiveRecovery second)

def guardActiveAlertPolicy (previous next : AlertEvaluationRule) : Except EvalError Unit :=
  if sameNumericPolicy previous next then .ok ()
  else if t.events.any fun r => r.event.ruleID = previous.id && r.event.status.isActive then
    .error .policyInUse
  else .ok ()

/-- Update a rule at its expected revision. -/
def updateRule (id : String) (expectedRevision : Int) (rule : AlertEvaluationRule)
    (checks : Except EvalError Unit) : Except EvalError Tables :=
  match findAdvancedAlertRule t id with
  | .error e => .error e
  | .ok previous =>
    if previous.revision ≠ expectedRevision ∨ previous.deletedAt.isSome then .error .conflict
    else
      let rule :=
        { rule with
          id := id, revision := previous.revision + 1, deletedAt := none
          operator := canonicalText rule.operator }
      match checks with
      | .error e => .error e
      | .ok () =>
        match guardActiveAlertPolicy t previous rule with
        | .error e => .error e
        | .ok () =>
          .ok
            { t with
              rules := update t.rules
                (fun r => r.id = id && r.revision = previous.revision) fun _ => rule }

/-- Delete a rule at its expected revision: the row stays, marked and disabled. -/
def deleteRule (id : String) (expectedRevision : Int) (at_ : Int) : Except EvalError Tables :=
  match findAdvancedAlertRule t id with
  | .error e => .error e
  | .ok rule =>
    if rule.revision ≠ expectedRevision ∨ rule.deletedAt.isSome then .error .conflict
    else
      .ok
        { t with
          rules := update t.rules (fun r => r.id = id && r.revision = rule.revision) fun r =>
            { r with
              enabled := false, deletedAt := some (storedMillis at_), revision := r.revision + 1 } }

/-! ## Commit -/

/-- `AlertMetricPolicyReference`: the part that `expectedEvaluationPolicies` reads. -/
structure AlertMetricPolicyReference where
  key : String
  revision : Int
  deriving DecidableEq

/-- `AlertEvaluationCommit`. A commit without a lease has no token hash. -/
structure AlertEvaluationCommit where
  decision : StepResult
  expectedStateVersion : Int
  ruleRevision : Int
  policies : List AlertMetricPolicyReference := []
  leaseTokenHash : Option TokenHash := none
  deriving DecidableEq

def metricTrafficUsagePercent : String := "traffic_usage_percent"

def metricHeartbeatAgeSeconds : String := "heartbeat_age_seconds"

def acceleratorAlertInputs (key : String) : List String :=
  if key = "gpu_memory_percent" then ["gpu_memory_used_bytes", "gpu_memory_total_bytes"]
  else if key = "gpu_power_limit_percent" then ["gpu_power_watts", "gpu_power_limit_watts"]
  else [key]

def expectedEvaluationPolicies (rule : AlertEvaluationRule) (references : List AlertMetricPolicyReference) : Bool :=
  let required :=
    if rule.metric = metricHeartbeatAgeSeconds then []
    else if rule.metric = metricTrafficUsagePercent then ["net_recv_delta", "net_sent_delta"]
    else acceleratorAlertInputs rule.metric
  required.length == references.length &&
    required.all fun key => references.countP (fun r => r.key = key && 0 < r.revision) == 1

def evaluationScopeMatches (rule : AlertEvaluationRule) (nodeID deviceID : String) : Bool :=
  (if isAcceleratorAlertMetric rule.metric then
    validAcceleratorDeviceID deviceID &&
      (rule.scope.deviceID == acceleratorAnyDevice || rule.scope.deviceID == deviceID)
  else deviceID == "") &&
    t.nodes.any fun n => n.id = nodeID && rule.coversNode n

/-- `authorizeEvaluationCommit`. `recheck` is the outcome of the last two checks, which read the
metric catalogue and the accelerator inventory. -/
def authorizeEvaluationCommit
    (recheck : Except EvalError Unit) : Except EvalError Unit :=
  let state := change.decision.state
  match findAdvancedAlertRule t state.ruleID with
  | .error e => .error e
  | .ok rule =>
    if rule.revision ≠ change.ruleRevision ∨ state.ruleRevision ≠ rule.revision then .error .conflict
    else if rule.isLive = false then
      if state.status = .disabled ∧ change.decision.actions = [] then .ok () else .error .conflict
    else if evaluationScopeMatches t rule state.nodeID state.deviceID = false then
      if state.status = .outOfScope ∧ change.decision.actions = [] then .ok () else .error .conflict
    else if expectedEvaluationPolicies rule change.policies = false then .error .conflict
    else recheck

/-- The incident that an action expects, instead of the one of the state. -/
def expectedIncident (expected : String × AlertStatus) (action : Action) : Except EvalError (String × AlertStatus) :=
  match action.kind with
  | .thresholdTrigger => .ok ("", .unset)
  | .deviceUnavailable =>
    match action.event with
    | none => .error .conflict
    | some event =>
      if action.previousStatus.isActive then .ok (event.id, action.previousStatus)
      else .error .conflict
  | .thresholdRecovery =>
    match action.event with
    | none => .error .conflict
    | some event => .ok (event.id, .triggered)
  | .health => .ok expected

/-- `recheckEvaluationIncident`: the incident of the key is the one that the decision was made for. -/
def recheckEvaluationIncident : Except EvalError Unit :=
  let state := change.decision.state
  match change.decision.actions.foldlM expectedIncident
    (state.activeEventID, state.activeEventStatus) with
  | .error e => .error e
  | .ok expected => if activeIncident t state.key = expected then .ok () else .error .conflict

/-- `writeEvaluationState`: insert the first version, or update the expected one under the lease. -/
def writeEvaluationState (now : Int) : Except EvalError Tables :=
  let state := change.decision.state
  if change.expectedStateVersion = 0 then
    if maximumStateRows ≤ t.states.length then .error .capacity
    else if t.states.any fun r => r.state.key = state.key then .error .conflict
    else .ok { t with states := t.states ++ [{ state := storedState state }] }
  else
    let matching := fun r : StateRow =>
      r.state.key = state.key && r.state.version = change.expectedStateVersion &&
        match change.leaseTokenHash with
        | some hash =>
          r.lease.any fun l => l.tokenHash = hash && unixMilli now < l.expiresAt
        | none => r.lease.isNone
    if t.states.any matching then
      .ok { t with states := update t.states matching fun _ => { state := storedState state } }
    else .error .conflict

def applyThresholdRecovery (event : AlertEvent) : Except EvalError Tables :=
  match t.events.find? fun r => r.event.id = event.id with
  | none => .error .storage
  | some row =>
    if row.event.status ≠ .triggered then .error .conflict
    else
      match transitionEventTx t ⟨event, row.event.status⟩ with
      | .error e => .error e
      | .ok (changed, t) => if changed then .ok t else .error .conflict

/-- `writeEvaluationHealthEvent`: one row for each epoch and kind. -/
def writeEvaluationHealthEvent (event : AlertEvaluationEvent) : Except EvalError Tables :=
  if (⟨event.ruleID, event.nodeID, event.deviceID⟩ : Key) ≠ key then .error .conflict
  else
    let same := fun r : AlertEvaluationEvent => r.epochID = event.epochID && r.kind = event.kind
    let rows :=
      if t.healthEvents.any same then
        update t.healthEvents same fun r =>
          { r with notifiedAt := r.notifiedAt.or event.notifiedAt, closedAt := event.closedAt }
      else t.healthEvents ++ [event]
    let rows :=
      if event.kind = .recovered then
        update rows (fun r => r.epochID = event.epochID) fun r =>
          { r with closedAt := some event.occurredAt }
      else rows
    .ok { t with healthEvents := rows }

def applyEvaluationAction (state : AlertEvaluationState) (t : Tables) (action : Action) : Except EvalError Tables :=
  if action.event.any fun event => event.key ≠ state.key then .error .conflict
  else
    match action.kind, action.event, action.health with
    | .thresholdTrigger, some event, _ =>
      match createActiveEventTx t event with
      | .error e => .error e
      | .ok (changed, t) =>
        if changed then
          .ok { t with
            events := update t.events (fun r => r.event.id = event.id) fun r =>
              { r with ruleRevision := state.ruleRevision } }
        else .error .conflict
    | .deviceUnavailable, some event, _ =>
      if event.deviceID = "" ∨ event.resolutionReason ≠ acceleratorDeviceUnavailable then
        .error .conflict
      else
        match transitionEventTx t ⟨event, action.previousStatus⟩ with
        | .error e => .error e
        | .ok (changed, t) => if changed then .ok t else .error .conflict
    | .thresholdRecovery, some event, _ => applyThresholdRecovery t event
    | .health, _, some event => writeEvaluationHealthEvent t state.key event
    | _, _, _ => .error .conflict

/-- `CommitTx`. -/
def commitTx (now : Int)
    (recheck : Except EvalError Unit) : Except EvalError Tables :=
  if change.decision.state.version ≠ change.expectedStateVersion + 1 ∨
      2 < change.decision.actions.length then .error .conflict
  else
    match authorizeEvaluationCommit t change recheck with
    | .error e => .error e
    | .ok () =>
      match recheckEvaluationIncident t change with
      | .error e => .error e
      | .ok () =>
        match writeEvaluationState t change now with
        | .error e => .error e
        | .ok t => change.decision.actions.foldlM (applyEvaluationAction change.decision.state) t

end

end Beat.Alert
