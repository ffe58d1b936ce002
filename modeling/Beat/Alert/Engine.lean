import Beat.Alert.Model

/-!
# The alert engine

`alerteval.Step` and the functions it calls, in the order of the source. A step reads one previous
state, one observation and the incident that the caller looked up, and returns the next state with
the actions to commit. The only effect is `uuid.NewRandom`: a step draws at most one identifier, so
the draw is an argument and `none` is a failed read of the random source.
-/

namespace Beat.Alert

open Instant

open Ieee (F64)

inductive ActionKind where
  | thresholdTrigger
  | thresholdRecovery
  | health
  | deviceUnavailable
  deriving DecidableEq

structure Action where
  previousStatus : AlertStatus := .unset
  kind : ActionKind
  notify : Bool
  event : Option AlertEvent := none
  health : Option AlertEvaluationEvent := none
  deriving DecidableEq

structure StepInput where
  deviceID : String := ""
  deviceName : String := ""
  rule : AlertEvaluationRule
  node : Node
  previous : AlertEvaluationState
  observation : AlertEvaluationObservation
  incident : Option AlertEvent := none
  incidentChecked : Bool := false
  deriving DecidableEq

structure StepResult where
  state : AlertEvaluationState
  actions : List Action
  deriving DecidableEq

/-! ## Comparison -/

/-- The comparison that an operator text names. -/
inductive Comparison where
  | gt
  | gte
  | lt
  | lte
  | eq
  | ne
  deriving DecidableEq

/-- `CanonicalOperator`; `none` is the empty text. -/
def canonicalOperator : String → Option Comparison
  | "gt" | ">" => some .gt
  | "gte" | ">=" => some .gte
  | "lt" | "<" => some .lt
  | "lte" | "<=" => some .lte
  | "eq" | "==" | "=" => some .eq
  | "ne" | "!=" => some .ne
  | _ => none

def triggered (value : F64) (rule : AlertEvaluationRule) : Bool :=
  match canonicalOperator rule.operator with
  | some .gt => F64.lt rule.threshold value
  | some .gte => F64.le rule.threshold value
  | some .lt => F64.lt value rule.threshold
  | some .lte => F64.le value rule.threshold
  | some .eq => F64.eq value rule.threshold
  | some .ne => F64.ne value rule.threshold
  | none => false

def recovered (value : F64) (rule : AlertEvaluationRule) : Bool :=
  let threshold := rule.recoveryThreshold.getD rule.threshold
  match canonicalOperator rule.operator with
  | some .gt => F64.le value threshold
  | some .gte => F64.lt value threshold
  | some .lt => F64.le threshold value
  | some .lte => F64.lt threshold value
  -- equality rules ignore the recovery threshold
  | some .eq => F64.ne value rule.threshold
  | some .ne => F64.eq value rule.threshold
  | none => false

/-! ## Evidence -/

def newEvidence (previous : AlertEvaluationState) (observation : AlertEvaluationObservation) : Bool :=
  observation.evidenceID != previous.evidenceID &&
    match previous.lastEvidenceAt with
    | none => true
    | some at_ => at_ ≤ observation.sourceAt

/-- The time that new evidence confirms, and whether the evidence is continuous with the last. -/
def evidenceElapsed (previous : AlertEvaluationState) (observation : AlertEvaluationObservation) : Int × Bool :=
  match previous.lastEvidenceAt, previous.lastEvidenceObservedAt with
  | some evidenceAt, some evidenceObservedAt =>
    if previous.runID ≠ observation.runID then (0, true)
    else if previous.lastEvaluatedAt.any fun at_ =>
        maximumPollGap < sub observation.observedAt at_ then (0, false)
    else
      let sourceElapsed := sub observation.sourceAt evidenceAt
      let maximumGap := max (2 * observation.cadence) (30 * second)
      if sourceElapsed < 0 ∨ maximumGap < sourceElapsed then (0, false)
      else
        let wallElapsed := sub observation.observedAt evidenceObservedAt
        (max (min sourceElapsed wallElapsed) 0, true)
  | _, _ => (0, true)

section

variable (rule : AlertEvaluationRule) (state : AlertEvaluationState) (observation : AlertEvaluationObservation)

def applyEvidence : AlertEvaluationState :=
  { state with
    status := .ok, reason := ""
    evidenceID := observation.evidenceID, runID := observation.runID
    lastEvidenceAt := some observation.sourceAt
    lastEvidenceObservedAt := some observation.observedAt
    lastGoodAt := some observation.observedAt }

def resetConfirmation : AlertEvaluationState :=
  { state with
    triggerElapsedMS := 0, recoveryElapsedMS := 0
    pendingSince := none, recoverySince := none
    phase := if state.activeEventID = "" then .normal else .firing }

/-- Add a duration to an elapsed counter, which stops at the longest configurable delay. -/
def creditMS (elapsedMS elapsed : Int) : Int :=
  min (elapsedMS + milliseconds elapsed) (maximumDelaySeconds * 1000)

/-! ## Health -/

def noDataMask : Nat := 1

def errorMask : Nat := 2

def healthPolicy (status : EvaluationStatus) : Nat × EvaluationPolicy × Int :=
  if status = .noData then (noDataMask, rule.noDataPolicy, rule.noDataDelaySeconds)
  else (errorMask, rule.errorPolicy, rule.errorDelaySeconds)

def healthEvent (kind : HealthKind) (reason : String) (at_ : Int) :
    AlertEvaluationEvent :=
  { ruleID := state.ruleID, nodeID := state.nodeID, deviceID := state.deviceID
    deviceName := state.deviceName, ruleRevision := state.ruleRevision
    epochID := state.health.epochID, kind := kind, reason := reason, occurredAt := at_
    sourceKey := "alert-evaluation:" ++ state.health.epochID ++ ":" ++ kind.text }

def creditHealthDelay :
    AlertEvaluationHealth :=
  let health := state.health
  let health :=
    if health.status ≠ observation.status ∨ health.suspended then
      { health with
        status := observation.status, elapsedMS := 0, statusSince := some observation.observedAt }
    else
      match health.lastObservedAt with
      | none => health
      | some last =>
        if state.runID = observation.runID then
          let delta := sub observation.observedAt last
          if 0 ≤ delta ∧ delta ≤ maximumPollGap then
            { health with elapsedMS := creditMS health.elapsedMS delta }
          else { health with elapsedMS := 0 }
        else health
  { health with lastObservedAt := some observation.observedAt, suspended := false }

/-- The health epoch that an unhealthy observation belongs to: the open one, or a new one under the
drawn identifier. -/
def openEpoch (draw : Option Uuid) (health : AlertEvaluationHealth) (at_ : Int) :
    Except EvalError AlertEvaluationHealth :=
  if health.epochID = "" then
    match draw with
    | none => .error .unavailable
    | some id => .ok { epochID := id.text, startedAt := some at_ }
  else .ok health

/-- The part of `unhealthyStep` after the epoch is known. -/
def recordUnhealthy (result : StepResult)
    (observation : AlertEvaluationObservation) : StepResult :=
  let health := creditHealthDelay result.state observation
  let (mask, policy, delay) := healthPolicy rule observation.status
  let first := health.seenMask &&& mask = 0
  let notify := policy = .notify ∧ delay * 1000 ≤ health.elapsedMS ∧ health.notifiedMask &&& mask = 0
  let health :=
    { health with
      seenMask := health.seenMask ||| mask
      notifiedMask := if notify then health.notifiedMask ||| mask else health.notifiedMask }
  let state := { result.state with health := health }
  let event :=
    { healthEvent state (.status observation.status) observation.reason observation.observedAt with
      notifiedAt := if notify then some observation.observedAt else none }
  { state := { state with runID := observation.runID }
    actions :=
      if first ∨ notify then
        result.actions ++ [{ kind := .health, notify := notify, health := some event }]
      else result.actions }

def unhealthyStep (draw : Option Uuid) (rule : AlertEvaluationRule) (result : StepResult)
    (observation : AlertEvaluationObservation) : Except EvalError StepResult :=
  let state := resetConfirmation result.state
  let state := { state with status := observation.status, reason := observation.reason }
  match openEpoch draw state.health observation.observedAt with
  | .error e => .error e
  | .ok health =>
    .ok (recordUnhealthy rule { result with state := { state with health := health } } observation)

def finishHealth (result : StepResult) (observation : AlertEvaluationObservation) : StepResult :=
  if result.state.health.epochID = "" then result
  else
    let notify := result.state.health.notifiedMask ≠ 0
    let event :=
      { healthEvent result.state .recovered "fresh_evidence" observation.observedAt with
        notifiedAt := if notify then some observation.observedAt else none
        closedAt := some observation.observedAt }
    { state := { result.state with health := {} }
      actions := result.actions ++ [{ kind := .health, notify := notify, health := some event }] }

/-! ## Threshold -/

/-- The suffix that names the device in the message of an incident. -/
def deviceMessage (deviceID deviceName : String) : String :=
  if deviceID = "" then "" else " · " ++ deviceName

def triggerEvent (id : Uuid) (input : StepInput) (observation : AlertEvaluationObservation)
    (value : F64) : AlertEvent :=
  { id := id.text, ruleID := input.rule.id, nodeID := input.node.id
    deviceID := input.deviceID, deviceName := input.deviceName
    status := .triggered, triggeredAt := observation.observedAt, value := value
    ruleName := input.rule.name, nodeName := input.node.name, metric := input.rule.metric
    severity := input.rule.severity
    message := input.rule.name ++ ": " ++ input.rule.metric ++ " on " ++ input.node.name ++
      " exceeds its alert condition" ++ deviceMessage input.deviceID input.deviceName }

def triggerThreshold (draw : Option Uuid) (input : StepInput) (result : StepResult)
    (observation : AlertEvaluationObservation) (value : F64) : Except EvalError StepResult :=
  match draw with
  | none => .error .unavailable
  | some id =>
    let event := triggerEvent id input observation value
    .ok
      { state :=
          { result.state with
            activeEventID := event.id, activeEventStatus := event.status, phase := .firing }
        actions := result.actions ++
          [{ kind := .thresholdTrigger, notify := true, event := some event }] }

def recoveryEvent (value : F64) : AlertEvent :=
  { id := state.activeEventID, ruleID := state.ruleID, nodeID := state.nodeID
    deviceID := state.deviceID, status := .resolved, resolvedAt := some observation.observedAt
    value := value, ruleName := rule.name, metric := rule.metric, severity := rule.severity
    message := rule.name ++ ": alert condition recovered" }

/-- The recovery phase with one more piece of recovered evidence. -/
def confirmRecovery
    (elapsed : Int) : AlertEvaluationState :=
  if state.phase ≠ .recovering then
    { state with
      phase := .recovering, recoverySince := some observation.observedAt, recoveryElapsedMS := 0 }
  else { state with recoveryElapsedMS := creditMS state.recoveryElapsedMS elapsed }

def advanceRecovery
    (elapsed : Int) (result : StepResult) (value : F64) : StepResult :=
  let state := result.state
  if recovered value rule = false then
    { result with
      state := { state with phase := .firing, recoveryElapsedMS := 0, recoverySince := none } }
  else
    let state := confirmRecovery state observation elapsed
    if state.recoveryElapsedMS < rule.recoveryDuration * 1000 ∨
        state.activeEventStatus = .acknowledged then
      { result with state := state }
    else
      { state := resetConfirmation { state with activeEventID := "", activeEventStatus := .unset }
        actions := result.actions ++
          [{ kind := .thresholdRecovery, notify := true
             event := some (recoveryEvent rule state observation value) }] }

/-- The loop after `advanceRecovery`: every incident of the step carries the device's name. -/
def nameDevice (deviceID deviceName : String) (action : Action) : Action :=
  match action.event with
  | none => action
  | some event =>
    if deviceID = "" then action
    else
      { action with
        event := some { event with
          deviceName := deviceName, message := event.message ++ deviceMessage deviceID deviceName } }

/-- The pending phase with one more piece of triggered evidence. -/
def confirmTrigger
    (elapsed : Int) : AlertEvaluationState :=
  if state.phase ≠ .pending then
    { state with
      phase := .pending, pendingSince := some observation.observedAt, triggerElapsedMS := 0 }
  else { state with triggerElapsedMS := creditMS state.triggerElapsedMS elapsed }

end

def advanceThreshold (draw : Option Uuid) (input : StepInput)
    (observation : AlertEvaluationObservation) (elapsed : Int) (result : StepResult) : Except EvalError StepResult :=
  let state := result.state
  match observation.value with
  | none => .error .nilDereference
  | some value =>
    if state.activeEventID ≠ "" then
      let result := advanceRecovery input.rule observation elapsed result value
      .ok { result with actions := result.actions.map (nameDevice input.deviceID input.deviceName) }
    else if triggered value input.rule = false then
      .ok { result with state := resetConfirmation state }
    else
      let state := confirmTrigger state observation elapsed
      let result := { result with state := state }
      if state.triggerElapsedMS < input.rule.duration * 1000 then .ok result
      else triggerThreshold draw input result observation value

/-! ## Accelerator devices -/

section

variable (draw : Option Uuid) (input : StepInput) (result : StepResult)

def unavailableEvent (incident : AlertEvent) : AlertEvent :=
  { incident with
    status := .resolved, resolvedAt := some input.observation.observedAt
    resolutionReason := acceleratorDeviceUnavailable
    ruleName := input.rule.name, nodeName := input.node.name, metric := input.rule.metric
    severity := input.rule.severity
    message := input.rule.name ++ ": GPU device unavailable · " ++ input.deviceName }

def unavailableDevice : Except EvalError StepResult :=
  let state :=
    { result.state with
      status := .outOfScope, reason := acceleratorDeviceUnavailable
      health := { result.state.health with suspended := true } }
  if state.activeEventID = "" then .ok { result with state := resetConfirmation state }
  else
    match input.incident with
    | none => .error .invalidObservation
    | some incident =>
      if incident.id ≠ state.activeEventID ∨ incident.deviceID ≠ input.deviceID then
        .error .invalidObservation
      else
        .ok
          { state :=
              resetConfirmation { state with activeEventID := "", activeEventStatus := .unset }
            actions := result.actions ++
              [{ kind := .deviceUnavailable, notify := true
                 event := some (unavailableEvent input incident)
                 previousStatus := state.activeEventStatus }] }

/-! ## The step -/

/-- The device of an evaluation does not fit its rule. -/
def deviceMismatch : Bool :=
  if input.observation.status = .disabled ∨ input.observation.status = .outOfScope then false
  else if isAcceleratorAlertMetric input.rule.metric then
    !validAcceleratorDeviceID input.deviceID ||
      (input.rule.scope.deviceID != acceleratorAnyDevice && input.rule.scope.deviceID != input.deviceID)
  else input.deviceID != ""

def validateObservation : Except EvalError Unit :=
  let observation := input.observation
  if deviceMismatch input then .error .invalidObservation
  else if observation.reason = acceleratorDeviceUnavailable ∧
      (isAcceleratorAlertMetric input.rule.metric = false ∨
        validAcceleratorDeviceID input.deviceID = false) then .error .invalidObservation
  else if input.rule.id = "" ∨ input.node.id = "" ∨ input.rule.revision < 1 ∨
      isZero observation.observedAt ∨ observation.runID = "" then .error .invalidObservation
  else if observation.status = .unset then .error .invalidObservation
  else if observation.status = .ok then
    if !observation.value.any F64.isFinite ∨ observation.evidenceID = "" ∨
        256 < observation.evidenceID.utf8ByteSize ∨ isZero observation.sourceAt then
      .error .invalidObservation
    else if observation.observedAt + maximumAgentClockSkew < observation.sourceAt ∨
        observation.cadence ≤ 0 ∨ maximumAgentReportInterval < observation.cadence then
      .error .invalidObservation
    else .ok ()
  else if observation.value.isSome then .error .invalidObservation
  else .ok ()

def initialStep : StepResult :=
  let state := input.previous
  let state := if state.phase = .unset then { state with phase := .normal } else state
  let state :=
    if state.ruleRevision ≠ 0 ∧ state.ruleRevision ≠ input.rule.revision then
      resetConfirmation state
    else state
  let state :=
    { state with
      ruleID := input.rule.id, nodeID := input.node.id, ruleRevision := input.rule.revision
      deviceID := input.deviceID, deviceName := input.deviceName
      version := state.version + 1
      status := input.observation.status, reason := input.observation.reason
      lastEvaluatedAt := some input.observation.observedAt
      updatedAt := input.observation.observedAt
      nextDueAt := input.observation.observedAt + evaluationInterval }
  let state :=
    if input.incidentChecked then
      match input.incident with
      | some incident =>
        if incident.status.isActive then
          { state with activeEventID := incident.id, activeEventStatus := incident.status }
        else { state with activeEventID := "", activeEventStatus := .unset }
      | none => { state with activeEventID := "", activeEventStatus := .unset }
    else state
  { state := state, actions := [] }

/-- The server clock reads before the last evaluation of the key. -/
def clockRollback : Bool :=
  input.previous.lastEvaluatedAt.any fun at_ => input.observation.observedAt < at_

def stepObservation : AlertEvaluationObservation × StepResult :=
  let observation := input.observation
  let observation :=
    if input.rule.enabled = false ∨ input.rule.deletedAt.isSome then
      { observation with status := .disabled, reason := "rule_disabled", value := none }
    else observation
  if clockRollback input then
    let state := resetConfirmation result.state
    ({ observation with status := .error, reason := "clock_rollback", value := none },
      { result with state := { state with health := { state.health with elapsedMS := 0 } } })
  else (observation, result)

/-- The end of `Step`, for an observation with new evidence. -/
def evidenceStep
    (observation : AlertEvaluationObservation) : Except EvalError StepResult :=
  let (elapsed, continuous) := evidenceElapsed input.previous observation
  let result :=
    if continuous then result else { result with state := resetConfirmation result.state }
  let result := finishHealth result observation
  let result := { result with state := applyEvidence result.state observation }
  advanceThreshold draw input observation elapsed result

/-- `alerteval.Step`. -/
def step : Except EvalError StepResult :=
  match validateObservation input with
  | .error e => .error e
  | .ok () =>
    let (observation, result) := stepObservation input (initialStep input)
    if observation.status = .outOfScope ∧ observation.reason = acceleratorDeviceUnavailable ∧
        input.deviceID ≠ "" then
      unavailableDevice input result
    else if observation.status = .disabled ∨ observation.status = .outOfScope then
      let state :=
        resetConfirmation
          { result.state with status := observation.status, reason := observation.reason }
      .ok { result with state := { state with health := { state.health with suspended := true } } }
    else if observation.status ≠ .ok then unhealthyStep draw input.rule result observation
    else if newEvidence input.previous observation = false then
      if result.state.health.epochID ≠ "" then
        unhealthyStep draw input.rule result
          { observation with status := .noData, reason := "no_new_evidence", value := none }
      else .ok { result with state := { result.state with reason := "no_new_evidence" } }
    else evidenceStep draw input result observation

end

end Beat.Alert
