import Beat.Lib.Ieee
import Beat.Lib.Instant
import Beat.Model

/-!
# The data model of alert evaluation

The records of `internal/model` that the alert engine and its store read and write. A string that
the source compares with fixed constants is an enumeration whose constructor `unset` is the empty
string; a pointer is an `Option`; an instant is a number of nanoseconds; a measured value is a
binary64 value.
-/

namespace Beat.Alert

open Instant

open Ieee (F64)

/-- The status of an incident (`AlertStatus`). -/
inductive AlertStatus where
  | unset
  | triggered
  | acknowledged
  | resolved
  deriving DecidableEq

/-- The incident still needs someone. -/
def AlertStatus.isActive : AlertStatus → Bool
  | .triggered | .acknowledged => true
  | _ => false

inductive AlertSeverity where
  | critical
  | warning
  | info
  deriving DecidableEq

/-- The phase of the threshold state machine. -/
inductive AlertPhase where
  | unset
  | normal
  | pending
  | firing
  | recovering
  deriving DecidableEq

/-- The status of one evaluation. -/
inductive EvaluationStatus where
  | unset
  | ok
  | noData
  | error
  | disabled
  | outOfScope
  deriving DecidableEq

/-- The text that the source stores for a status. -/
def EvaluationStatus.text : EvaluationStatus → String
  | .unset => ""
  | .ok => "ok"
  | .noData => "no_data"
  | .error => "error"
  | .disabled => "disabled"
  | .outOfScope => "out_of_scope"

/-- What to do about missing data or a failed evaluation. -/
inductive EvaluationPolicy where
  | keep
  | notify
  deriving DecidableEq

inductive ScopeKind where
  | all
  | nodes
  | groups
  deriving DecidableEq

structure AlertRuleScope where
  deviceID : String := ""
  kind : ScopeKind := .all
  nodeIDs : List String := []
  groupIDs : List String := []
  deriving DecidableEq

/-- `AlertEvaluationRule`, with the fields of the embedded `AlertRule`. Durations and delays are
seconds. -/
structure AlertEvaluationRule where
  id : String
  name : String := ""
  metric : String := ""
  operator : String := "gt"
  threshold : F64 := .finite 0
  duration : Int := 0
  severity : AlertSeverity := .warning
  enabled : Bool := true
  revision : Int := 1
  deletedAt : Option Int := none
  scope : AlertRuleScope := {}
  windowSeconds : Int := 0
  aggregation : String := "last"
  recoveryThreshold : Option F64 := none
  recoveryDuration : Int := 0
  noDataPolicy : EvaluationPolicy := .keep
  noDataDelaySeconds : Int := 300
  errorPolicy : EvaluationPolicy := .keep
  errorDelaySeconds : Int := 60
  deriving DecidableEq

/-- An incident (`AlertEvent`). -/
structure AlertEvent where
  deviceID : String := ""
  deviceName : String := ""
  resolutionReason : String := ""
  id : String
  ruleID : String
  nodeID : String
  message : String := ""
  value : F64 := .finite 0
  status : AlertStatus
  triggeredAt : Int := zero
  acknowledgedAt : Option Int := none
  resolvedAt : Option Int := none
  ruleName : String := ""
  nodeName : String := ""
  metric : String := ""
  severity : AlertSeverity := .warning
  deriving DecidableEq

/-- The kind of a health event: the status that it reports, or the end of its epoch. -/
inductive HealthKind where
  | status (s : EvaluationStatus)
  | recovered
  deriving DecidableEq

def HealthKind.text : HealthKind → String
  | .status s => s.text
  | .recovered => "recovered"

/-- A health event (`AlertEvaluationEvent`). Its `ID` is the name-based UUID of `sourceKey`. -/
structure AlertEvaluationEvent where
  deviceID : String
  deviceName : String
  ruleID : String
  nodeID : String
  ruleRevision : Int
  epochID : String
  kind : HealthKind
  reason : String
  occurredAt : Int
  notifiedAt : Option Int := none
  closedAt : Option Int := none
  sourceKey : String
  deriving DecidableEq

/-- What one evaluation observed (`AlertEvaluationObservation`). `cadence` is a duration. -/
structure AlertEvaluationObservation where
  observedAt : Int
  runID : String
  evidenceID : String := ""
  sourceAt : Int := zero
  cadence : Int := 0
  status : EvaluationStatus
  reason : String := ""
  value : Option F64 := none
  deriving DecidableEq

/-- The health epoch of a state (`AlertEvaluationHealth`). -/
structure AlertEvaluationHealth where
  epochID : String := ""
  status : EvaluationStatus := .unset
  startedAt : Option Int := none
  statusSince : Option Int := none
  lastObservedAt : Option Int := none
  elapsedMS : Int := 0
  seenMask : Nat := 0
  notifiedMask : Nat := 0
  suspended : Bool := false
  deriving DecidableEq

/-- `AlertEvaluationState`. The value with every field at its default is the zero state. -/
structure AlertEvaluationState where
  deviceID : String := ""
  deviceName : String := ""
  ruleID : String := ""
  nodeID : String := ""
  ruleRevision : Int := 0
  version : Int := 0
  phase : AlertPhase := .unset
  status : EvaluationStatus := .unset
  reason : String := ""
  triggerElapsedMS : Int := 0
  recoveryElapsedMS : Int := 0
  pendingSince : Option Int := none
  recoverySince : Option Int := none
  lastEvaluatedAt : Option Int := none
  lastGoodAt : Option Int := none
  lastEvidenceAt : Option Int := none
  lastEvidenceObservedAt : Option Int := none
  evidenceID : String := ""
  runID : String := ""
  activeEventID : String := ""
  activeEventStatus : AlertStatus := .unset
  health : AlertEvaluationHealth := {}
  nextDueAt : Int := zero
  updatedAt : Int := zero
  deriving DecidableEq

/-! ## Accelerator metrics -/

def acceleratorMetricKeys : List String :=
  ["gpu_utilization_percent", "gpu_memory_used_bytes", "gpu_memory_total_bytes",
    "gpu_temperature_celsius", "gpu_power_watts", "gpu_power_limit_watts"]

def acceleratorAnyDevice : String := "*"

def acceleratorDeviceUnavailable : String := "device_unavailable"

/-- `IsAcceleratorAlertMetric`. -/
def isAcceleratorAlertMetric (key : String) : Bool :=
  acceleratorMetricKeys.contains key || key == "gpu_memory_percent" ||
    key == "gpu_power_limit_percent"

/-- `ValidAcceleratorDeviceID`: 16 bytes in lower-case hexadecimal. -/
def validAcceleratorDeviceID (value : String) : Bool :=
  value.length == 32 && value.toList.all fun c => c.isDigit || ('a' ≤ c && c ≤ 'f')

/-! ## Bounds -/

def maximumDelaySeconds : Int := 86400

/-- `EvaluationInterval`. -/
def evaluationInterval : Int := 30 * second

/-- `MaximumPollGap`. -/
def maximumPollGap : Int := 2 * evaluationInterval

/-- `LeaseDuration`. -/
def leaseDuration : Int := 15 * second

def maximumStateRows : Nat := 100000

/-- `MaximumAgentClockSkew`. -/
def maximumAgentClockSkew : Int := 2 * minute

/-- `MaximumAgentReportInterval`. -/
def maximumAgentReportInterval : Int := 24 * hour

/-- The errors of `alerteval` and of the alert stores; `storage` is an error of the database, such as
a taken primary key, and `nilDereference` is a panic of the source. -/
inductive EvalError where
  | invalidPolicy
  | invalidObservation
  | capacity
  | conflict
  | policyInUse
  | unavailable
  | ruleNotFound
  | invalidTransition
  | storage
  | nilDereference
  deriving DecidableEq

end Beat.Alert
