import Beat.Alert.Tables
import Beat.Lib.Run

/-!
# Evaluators

`AlertEvaluator.Evaluate` as a machine that takes one access to the database at a time: claim the
lease of a key, read the state, the rule, the node and the active incident, decide with
`alerteval.Step`, commit, release. Any number of evaluations run at once, and between any two
accesses the clock may be rebased, states admitted, rules written, nodes changed and incidents
acknowledged or resolved. Every access is one transaction (`Access`): it either gives the new world, or an
error and the world stays.

* `Decision`: the result of the step with what it was computed from. The fields carry the facts that
  the earlier accesses established, so that a decision about another key cannot be built.
* `ProtocolRun`: the runs from tables without states and events.
-/

namespace Beat.Alert

open Function Instant

/-- `AgentOfflineAfter`. -/
def agentOfflineAfter (interval : Int) : Int :=
  max (90 * second) (min (max interval second) (24 * hour) * 3)

/-- The rule that the step compares with: `observeHeartbeat` raises the threshold of a rule that it has
observed to the age at which a node is offline. -/
def observedRule (rule : AlertEvaluationRule) (observed : AlertEvaluationObservation) : AlertEvaluationRule :=
  if rule.metric = metricHeartbeatAgeSeconds ∧ observed.status = .ok ∧ canonicalOperator rule.operator = some .gt then
    { rule with threshold := rule.threshold.max (.finite (agentOfflineAfter observed.cadence / second)) }
  else rule

/-- The input of the step, as `prepare` builds it. `observed` is what the metric store reports of a
live rule that covers the node. -/
def prepareInput (key : Key) (state : AlertEvaluationState) (rule : AlertEvaluationRule)
    (node : Option Node) (incident : Option AlertEvent) (at_ : Int) (runID : String)
    (deviceName : String) (observed : AlertEvaluationObservation) : StepInput :=
  let input : StepInput :=
    { deviceID := key.deviceID, rule := rule, previous := state
      node := node.getD { id := key.nodeID }
      observation := { observedAt := at_, runID := runID, status := .unset }
      incident := incident, incidentChecked := true }
  if rule.isLive = false then
    { input with observation := { input.observation with status := .disabled } }
  else if node.all (fun n => rule.coversNode n = false) ∨
      (if isAcceleratorAlertMetric rule.metric then
        validAcceleratorDeviceID key.deviceID = false ∨
          rule.scope.deviceID ≠ acceleratorAnyDevice ∧ rule.scope.deviceID ≠ key.deviceID
      else key.deviceID ≠ "") then
    { input with
      observation := { input.observation with status := .outOfScope, reason := "scope_changed" } }
  else { input with rule := observedRule rule observed, deviceName := deviceName, observation := observed }

/-- What an evaluator decided, and what from. -/
structure Decision where
  lease : Lease
  draw : Option Uuid
  /-- The rule as it was read. -/
  rule : AlertEvaluationRule
  input : StepInput
  result : StepResult
  policies : List AlertMetricPolicyReference
  step_eq : step draw input = .ok result
  checked : input.incidentChecked = true
  rule_eq : ∃ threshold, input.rule = { rule with threshold := threshold }
  ruleID_eq : input.rule.id = lease.key.ruleID
  nodeID_eq : input.node.id = lease.key.nodeID
  deviceID_eq : input.deviceID = lease.key.deviceID

/-- The commit of a decision. -/
def Decision.change (d : Decision) : AlertEvaluationCommit :=
  { decision := d.result, expectedStateVersion := d.input.previous.version
    ruleRevision := d.input.rule.revision, policies := d.policies
    leaseTokenHash := some d.lease.tokenHash }

/-- How far an evaluation is. -/
inductive Attempt where
  | claimed (lease : Lease)
  | stateRead (lease : Lease) (state : AlertEvaluationState)
  | ruleRead (lease : Lease) (state : AlertEvaluationState)
      (rule : { r : AlertEvaluationRule // r.id = lease.key.ruleID })
  | nodeRead (lease : Lease) (state : AlertEvaluationState)
      (rule : { r : AlertEvaluationRule // r.id = lease.key.ruleID })
      (node : { n : Option Node // ∀ x ∈ n, x.id = lease.key.nodeID })
  | incidentRead (lease : Lease) (state : AlertEvaluationState)
      (rule : { r : AlertEvaluationRule // r.id = lease.key.ruleID })
      (node : { n : Option Node // ∀ x ∈ n, x.id = lease.key.nodeID })
      (incident : Option AlertEvent)
  | decided (d : Decision)
  | committed (lease : Lease)
  | released

/-- The lease that an evaluation has to give back. -/
def Attempt.lease? : Attempt → Option Lease
  | .claimed l | .stateRead l _ | .ruleRead l _ _ | .nodeRead l _ _ _ | .incidentRead l _ _ _ _
  | .committed l => some l
  | .decided d => some d.lease
  | .released => none

/-- The version of the state that an evaluation read. -/
def Attempt.version? : Attempt → Option Int
  | .stateRead _ s | .ruleRead _ s _ | .nodeRead _ s _ _ | .incidentRead _ s _ _ _ => some s.version
  | .decided d => some d.input.previous.version
  | _ => none

/-- The incident that an evaluation read. -/
def Attempt.incident? : Attempt → Option AlertEvent
  | .incidentRead _ _ _ _ incident => incident
  | .decided d => d.input.incident
  | _ => none

/-- The tables and the evaluations, by number. -/
structure World where
  tables : Tables
  attempts : Nat → Option Attempt

/-- A transaction of others than the evaluators, with the reading of the clock and the outcome of
the checks that other tables decide. -/
inductive TableEvent where
  | rebaseClock (at_ : Int)
  | admission (at_ : Int) (checks : Except EvalError Unit)
  | transition (change : AlertEventTransition)
  | createRule (id : Uuid) (rule : AlertEvaluationRule) (checks : Except EvalError Unit)
  | updateRule (id : String) (expectedRevision : Int) (rule : AlertEvaluationRule)
      (checks : Except EvalError Unit)
  | deleteRule (id : String) (expectedRevision : Int) (at_ : Int)
  | setNodes (nodes : List Node) (accelerators : List Accelerator)

def transact (t : Tables) : TableEvent → Except EvalError Tables
  | .rebaseClock at_ => rebaseClock t at_
  | .admission at_ checks => admitTargets t at_ checks
  | .transition change =>
    match transitionEventTx t change with
    | .error e => .error e
    | .ok (_, t) => .ok t
  | .createRule id rule checks => createRule t id rule checks
  | .updateRule id expectedRevision rule checks => updateRule t id expectedRevision rule checks
  | .deleteRule id expectedRevision at_ => deleteRule t id expectedRevision at_
  | .setNodes nodes accelerators => .ok { t with nodes := nodes, accelerators := accelerators }

/-- One access to the database. -/
inductive AccessEvent where
  | table (e : TableEvent)
  | claim (attempt : Nat) (key : Key) (dueAt : Int) (workerID : String) (at_ : Int)
      (tokenHash : TokenHash)
  | readState (attempt : Nat)
  | readRule (attempt : Nat)
  | readNode (attempt : Nat)
  | readIncident (attempt : Nat)
  | decide (attempt : Nat) (draw : Option Uuid) (at_ : Int) (runID deviceName : String)
      (observed : AlertEvaluationObservation) (policies : List AlertMetricPolicyReference)
  | commit (attempt : Nat) (d : Decision) (now : Int) (recheck : Except EvalError Unit)
  | release (attempt : Nat) (lease : Lease)

theorem findAdvancedAlertRule_id {t : Tables} {id : String} {rule : AlertEvaluationRule}
    (h : findAdvancedAlertRule t id = .ok rule) : rule.id = id := by
  unfold findAdvancedAlertRule at h
  split at h
  · cases h
  rename_i r hr
  cases h
  simpa using List.find?_some hr

theorem find_node_id {nodes : List Node} {id : String} : ∀ x ∈ nodes.find? fun n => n.id = id, x.id = id := by
  intro x hx
  simpa using List.find?_some hx

theorem prepareInput_fields (key : Key) (state : AlertEvaluationState) (rule : AlertEvaluationRule)
    (node : Option Node) (incident : Option AlertEvent) (at_ : Int) (runID deviceName : String)
    (observed : AlertEvaluationObservation) :
    let input := prepareInput key state rule node incident at_ runID deviceName observed
    input.previous = state ∧ (∃ threshold, input.rule = { rule with threshold := threshold }) ∧
      input.node = node.getD { id := key.nodeID } ∧
      input.deviceID = key.deviceID ∧ input.incident = incident ∧ input.incidentChecked = true := by
  simp only [prepareInput, observedRule]
  split_ifs <;> exact ⟨rfl, ⟨_, rfl⟩, rfl, rfl, rfl, rfl⟩

/-- The decision about the prepared input. -/
def decisionOf (lease : Lease) (state : AlertEvaluationState)
    (rule : { r : AlertEvaluationRule // r.id = lease.key.ruleID })
    (node : { n : Option Node // ∀ x ∈ n, x.id = lease.key.nodeID }) (incident : Option AlertEvent)
    (draw : Option Uuid) (at_ : Int) (runID deviceName : String)
    (observed : AlertEvaluationObservation) (policies : List AlertMetricPolicyReference) (result : StepResult)
    (h : step draw (prepareInput lease.key state rule node incident at_ runID deviceName observed) =
      .ok result) : Decision :=
  have hf :=
    prepareInput_fields lease.key state rule node incident at_ runID deviceName observed
  { lease := lease, draw := draw, rule := rule
    input := prepareInput lease.key state rule node incident at_ runID deviceName observed
    result := result, policies := policies, step_eq := h
    checked := hf.2.2.2.2.2
    rule_eq := hf.2.1
    ruleID_eq := by
      obtain ⟨threshold, hrule⟩ := hf.2.1
      rw [hrule]
      exact rule.2
    nodeID_eq := by
      rw [hf.2.2.1]
      cases hn : node.1 with
      | none => rfl
      | some n => exact node.2 n hn
    deviceID_eq := hf.2.2.2.1 }

/-- An access and its outcome. An access that fails, whatever the reason, is rolled back. -/
inductive Access : World → AccessEvent × Option EvalError → World → Prop where
  | failed {w} (e : AccessEvent) (err : EvalError) : Access w (e, some err) w
  | table {w e t} (h : transact w.tables e = .ok t) : Access w (.table e, none) { w with tables := t }
  | claim {w a key dueAt at_ workerID hash t lease} (hidle : w.attempts a = none)
      (h : Alert.claim w.tables key dueAt workerID at_ hash = .ok (t, lease)) :
      Access w (.claim a key dueAt workerID at_ hash, none)
        ⟨t, update w.attempts a (some (.claimed lease))⟩
  | readState {w a lease state} (ha : w.attempts a = some (.claimed lease))
      (h : findEvaluationState w.tables lease.key = some state) :
      Access w (.readState a, none)
        { w with attempts := update w.attempts a (some (.stateRead lease state)) }
  | readRule {w a lease state rule} (ha : w.attempts a = some (.stateRead lease state))
      (h : findAdvancedAlertRule w.tables lease.key.ruleID = .ok rule) :
      Access w (.readRule a, none)
        { w with
          attempts := update w.attempts a
            (some (.ruleRead lease state ⟨rule, findAdvancedAlertRule_id h⟩)) }
  | readNode {w a lease state} {rule : { r : AlertEvaluationRule // r.id = lease.key.ruleID }}
      (ha : w.attempts a = some (.ruleRead lease state rule)) :
      Access w (.readNode a, none)
        { w with
          attempts := update w.attempts a
            (some (.nodeRead lease state rule
              ⟨w.tables.nodes.find? fun n => n.id = lease.key.nodeID, find_node_id⟩)) }
  | readIncident {w a lease state} {rule : { r : AlertEvaluationRule // r.id = lease.key.ruleID }}
      {node : { n : Option Node // ∀ x ∈ n, x.id = lease.key.nodeID }}
      (ha : w.attempts a = some (.nodeRead lease state rule node)) :
      Access w (.readIncident a, none)
        { w with
          attempts := update w.attempts a
            (some (.incidentRead lease state rule node
              (getActiveEventForKey w.tables lease.key))) }
  | decide {w a lease state} {rule : { r : AlertEvaluationRule // r.id = lease.key.ruleID }}
      {node : { n : Option Node // ∀ x ∈ n, x.id = lease.key.nodeID }} {incident : Option AlertEvent}
      {draw : Option Uuid} {at_ : Int} {runID deviceName : String}
      {observed : AlertEvaluationObservation} {policies : List AlertMetricPolicyReference}
      {result : StepResult} (ha : w.attempts a = some (.incidentRead lease state rule node incident))
      (h : step draw (prepareInput lease.key state rule node incident at_ runID deviceName observed) =
        .ok result) :
      Access w (.decide a draw at_ runID deviceName observed policies, none)
        { w with
          attempts := update w.attempts a
            (some (.decided (decisionOf lease state rule node incident draw at_ runID deviceName
              observed policies result h))) }
  | commit {w a d now recheck t} (ha : w.attempts a = some (.decided d))
      (h : commitTx w.tables d.change now recheck = .ok t) :
      Access w (.commit a d now recheck, none)
        ⟨t, update w.attempts a (some (.committed d.lease))⟩
  | release {w a attempt lease t} (ha : w.attempts a = some attempt) (hl : attempt.lease? = some lease)
      (h : Alert.release w.tables lease = .ok t) :
      Access w (.release a lease, none) ⟨t, update w.attempts a (some .released)⟩

/-- A world before the first evaluation: no states, no events. -/
def World.start (rules : List AlertEvaluationRule) (nodes : List Node) (accelerators : List Accelerator) : World :=
  { tables := { rules := rules, nodes := nodes, accelerators := accelerators }
    attempts := fun _ => none }

/-- Any interleaving of accesses from such a world. -/
abbrev ProtocolRun (rules : List AlertEvaluationRule) (nodes : List Node)
    (accelerators : List Accelerator) : List (AccessEvent × Option EvalError) → World → Prop :=
  Lts.Run Access (World.start rules nodes accelerators)

end Beat.Alert
