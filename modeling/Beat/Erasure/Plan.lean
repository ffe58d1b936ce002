import Beat.Erasure.Lifecycle
import Mathlib.Data.List.Sort

/-!
# Erasure plans

What a session of `BeginMetricErasure` freezes (`store/mts_erasure.go`): the measurements that the
scope of a job selects from the inventory, the digest of the inventory and a cutoff. The metric store
is a list of samples, one for each measurement, tags and timestamp. The digest of an inventory is
SHA-256 over its lines and a parameter here.

* `Plan.covers`: the samples that a plan is to erase.
* `metricErasurePlan_spec`: the tags of a plan are those of its job.
* `mem_eraseMeasurement`: what is left after the range of one measurement was erased.
-/

namespace Beat.Erasure

/-- A stored sample: the tags are the node and the network task, the timestamp counts the nanoseconds
from the epoch. -/
structure Sample where
  measurement : String
  node : String := ""
  task : String := ""
  timestamp : Nat
  value : Rat := 0
  deriving DecidableEq

/-- Two samples at one place of the store. -/
def Sample.samePlace (x y : Sample) : Bool :=
  x.measurement = y.measurement && x.node = y.node && x.task = y.task && x.timestamp = y.timestamp

/-- Write a sample. -/
def writeSample (samples : List Sample) (x : Sample) : List Sample :=
  samples.filter (fun y => !y.samePlace x) ++ [x]

/-- `MetricErasurePlan`. -/
structure MetricErasurePlan where
  measurements : List String
  digest : String
  cutoffUnixNano : Int
  nodeID : String
  taskID : String
  deriving DecidableEq

def networkProbeMeasurement : String := "network_probe"

def agentReceiptMeasurement : String := "agent_ingest_receipt"

def acceleratorSampleMeasurement : String := "accelerator_sample"

/-- `metricErasureKnownMeasurements`: the keys of the catalog and the measurements outside it. -/
def metricErasureKnownMeasurements (catalog : List String) : List String :=
  catalog ++ [networkProbeMeasurement, agentReceiptMeasurement, acceleratorSampleMeasurement]

/-- `sortUniqueMeasurements`. -/
def sortUniqueMeasurements (measurements : List String) : List String :=
  (measurements.filter (· ≠ "")).dedup.insertionSort (· ≤ ·)

/-- `metricErasureInventory`: every stored measurement must be known. -/
def metricErasureInventory (samples : List Sample) (catalog : List String) : Except ErasureError (List String) :=
  let known := metricErasureKnownMeasurements catalog
  if samples.any fun x => x.measurement ≠ "" && !known.contains x.measurement then .error .inventory
  else .ok (sortUniqueMeasurements known)

/-- `metricErasureSelection`. -/
def metricErasureSelection (scope : MetricErasureScope) (known : List String) (nodeID taskID : String) :
    Except ErasureError (List String) :=
  match scope with
  | .nodeHistory | .deleteNode => if nodeID = "" then .error .invalid else .ok known
  | .networkTaskHistory | .deleteNetworkTask =>
    if taskID = "" then .error .invalid else .ok [networkProbeMeasurement]
  | .fleetTelemetry => .ok (known.filter (· ≠ networkProbeMeasurement))
  | .allMetricHistory => .ok known

/-- `erasureTarget`: the node and the network task of a job. -/
def erasureTarget (job : MetricErasureJob) : String × String :=
  match job.scope.targetType with
  | .node => (job.targetID, "")
  | .networkTask => ("", job.targetID)
  | .none => ("", "")

/-- `metricErasurePlan`, at a time of the clock. -/
def metricErasurePlan (digest : List String → String) (samples : List Sample) (catalog : List String)
    (job : MetricErasureJob) (now : Int) : Except ErasureError MetricErasurePlan :=
  let (nodeID, taskID) := erasureTarget job
  match metricErasureInventory samples catalog with
  | .error e => .error e
  | .ok known =>
    match metricErasureSelection job.scope known nodeID taskID with
    | .error e => .error e
    | .ok selected =>
      .ok
        { measurements := selected, digest := digest known, cutoffUnixNano := now, nodeID := nodeID
          taskID := taskID }

/-- `metricErasureTags`: the sample has the tag of the plan. -/
def MetricErasurePlan.tags (plan : MetricErasurePlan) (x : Sample) : Bool :=
  if plan.nodeID ≠ "" then x.node = plan.nodeID
  else if plan.taskID ≠ "" then x.task = plan.taskID
  else true

/-- `eraseMeasurementRange`: delete the range of one measurement up to the cutoff. -/
def eraseMeasurement (samples : List Sample) (plan : MetricErasurePlan) (measurement : String) : List Sample :=
  samples.filter fun x =>
    !(x.measurement = measurement && plan.tags x && decide ((x.timestamp : Int) ≤ plan.cutoffUnixNano))

/-- `remainingMeasurements`: those after the cursor, or all when it is not among them. -/
def remainingMeasurements (measurements : List String) (cursor : String) : List String :=
  if cursor = "" then measurements
  else
    match measurements.idxOf? cursor with
    | none => measurements
    | some i => measurements.drop (i + 1)

/-! ## What a plan covers -/

/-- A sample belongs to the target of a job. -/
def MetricErasureJob.matches (job : MetricErasureJob) (x : Sample) : Bool :=
  match job.scope.targetType with
  | .node => x.node = job.targetID
  | .networkTask => x.task = job.targetID
  | .none => true

/-- The samples that a plan is to erase. -/
def MetricErasurePlan.covers (plan : MetricErasurePlan) (x : Sample) : Bool :=
  plan.measurements.contains x.measurement && plan.tags x &&
    decide ((x.timestamp : Int) ≤ plan.cutoffUnixNano)

/-- A plan selects the samples of the target of a job. -/
def PlanFor (job : MetricErasureJob) (plan : MetricErasurePlan) : Prop :=
  ∀ x, plan.tags x = job.matches x

variable {samples : List Sample} {plan : MetricErasurePlan} {x : Sample} {measurement : String}

theorem metricErasurePlan_spec {digest : List String → String} {catalog : List String} {job : MetricErasureJob}
    {now : Int} (h : metricErasurePlan digest samples catalog job now = .ok plan) : PlanFor job plan := by
  intro x
  unfold metricErasurePlan at h
  simp only at h
  split at h
  · cases h
  split at h
  · cases h
  rename_i selected hselected
  cases h
  unfold metricErasureSelection at hselected
  unfold MetricErasurePlan.tags MetricErasureJob.matches
  -- the selection refuses a node or a network task without an id
  cases hscope : job.scope <;> simp only [hscope, erasureTarget, MetricErasureScope.targetType] at hselected ⊢
  case nodeHistory | deleteNode =>
    split_ifs at hselected with hid
    simp only [ne_eq, hid, not_false_eq_true, if_true]
  case networkTaskHistory | deleteNetworkTask =>
    split_ifs at hselected with hid
    simp only [ne_eq, not_true_eq_false, hid, not_false_eq_true, if_true, if_false]
  case fleetTelemetry | allMetricHistory =>
    simp only [ne_eq, not_true_eq_false, if_false]

theorem covers_iff : plan.covers x = true ↔ x.measurement ∈ plan.measurements ∧ plan.tags x = true ∧
      (x.timestamp : Int) ≤ plan.cutoffUnixNano := by
  unfold MetricErasurePlan.covers
  rw [Bool.and_eq_true, Bool.and_eq_true, List.contains_iff_mem, decide_eq_true_eq, and_assoc]

/-- What is left of a measurement is not covered. -/
theorem mem_eraseMeasurement (h : x ∈ eraseMeasurement samples plan measurement) :
    x ∈ samples ∧ (plan.covers x = true → x.measurement ≠ measurement) := by
  obtain ⟨hx, hkept⟩ := List.mem_filter.mp h
  refine ⟨hx, fun hcovers hm => ?_⟩
  obtain ⟨-, htags, htime⟩ := covers_iff.mp hcovers
  simp [hm, htags, htime] at hkept

/-- No sample that a plan covers lies outside some measurements. -/
def Left (samples : List Sample) (plan : MetricErasurePlan) (remaining : List String) : Prop :=
  ∀ x ∈ samples, plan.covers x = true → x.measurement ∈ remaining

theorem Left.erase {remaining : List String} (h : Left samples plan (measurement :: remaining)) :
    Left (eraseMeasurement samples plan measurement) plan remaining := by
  intro x hx hcovers
  obtain ⟨hmem, hother⟩ := mem_eraseMeasurement hx
  exact (List.mem_cons.mp (h x hmem hcovers)).resolve_left (hother hcovers)

end Beat.Erasure
