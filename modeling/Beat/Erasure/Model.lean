import Beat.Model

/-!
# Metric erasure jobs

The rows of `metric_erasure_jobs` (`model/metric_erasure.go`). A job erases the history of a node, of
a network task or of the fleet up to a cutoff; its row keeps the state, the cutoff and the progress.
-/

namespace Beat.Erasure

/-- What a job erases. -/
inductive MetricErasureScope where
  | nodeHistory
  | networkTaskHistory
  | fleetTelemetry
  | allMetricHistory
  | deleteNode
  | deleteNetworkTask
  deriving DecidableEq

inductive MetricErasureState where
  | queued
  | claimed
  | deleting
  | compacting
  | finalizing
  | succeeded
  | failed
  | canceled
  deriving DecidableEq

inductive MetricErasureTarget where
  | none
  | node
  | networkTask
  deriving DecidableEq

/-- `MetricErasureTargetTypeFor`. -/
def MetricErasureScope.targetType : MetricErasureScope → MetricErasureTarget
  | .nodeHistory | .deleteNode => .node
  | .networkTaskHistory | .deleteNetworkTask => .networkTask
  | .fleetTelemetry | .allMetricHistory => .none

/-- `MetricErasureJob`: the columns that the modelled functions read or write. -/
structure MetricErasureJob where
  id : String
  scope : MetricErasureScope
  targetID : String := ""
  state : MetricErasureState := .queued
  cutoffUnixNano : Option Int := none
  catalogDigest : String := ""
  measurementCursor : String := ""
  attemptCount : Nat := 0
  leaseOwner : String := ""
  leaseExpiresAt : Option Int := none
  nextAttemptAt : Option Int := none
  lastErrorCode : String := ""
  requestedAt : Int := 0
  deriving DecidableEq

/-- A lease is held while a worker is at the job. -/
def MetricErasureState.isHeld : MetricErasureState → Bool
  | .claimed | .deleting | .compacting | .finalizing => true
  | .queued | .succeeded | .failed | .canceled => false

end Beat.Erasure
