import Beat.Erasure.Model
import Beat.Ingest.Latest
import Beat.Traffic.Billing

/-!
# Stored traffic

What the metric store keeps of one node: the receipts of its reports, the network counters and the
traffic deltas derived from them (`store/mts_traffic.go`, `store/mts_traffic_boundary.go`,
`store/traffic_erasure_boundary.go`). Timestamps are nanoseconds; a time range of the store includes
both of its ends, and a range that is given in seconds means these instants. Values are exact.

* `NodeMetrics`: the series, with what every write keeps: a receipt lies at the time of its capture,
  and a delta is not negative.
* `total_commitAll`: the sums after a number of reports.
-/

namespace Beat.Traffic

open Instant Erasure Ingest

/-- `AgentReceipt`. -/
structure AgentReceipt where
  sampleID : String
  capturedAt : Int
  payloadDigest : String
  credentialFingerprint : String
  protocolVersion : Int
  reportIntervalMS : Int
  customSamplesJSON : String
  deriving DecidableEq

/-- The series of one node. -/
structure NodeMetrics where
  receipts : Series AgentReceipt
  /-- The counters `net_recv_total` and `net_sent_total`. -/
  receivedCounter : Series Rat
  sentCounter : Series Rat
  /-- The deltas `net_recv_delta` and `net_sent_delta`. -/
  received : Series Rat
  sent : Series Rat
  captured : ∀ p ∈ receipts, p.2.capturedAt = p.1
  received_nonneg : ∀ p ∈ received, 0 ≤ p.2
  sent_nonneg : ∀ p ∈ sent, 0 ≤ p.2

namespace NodeMetrics

def empty : NodeMetrics where
  receipts := .empty
  receivedCounter := .empty
  sentCounter := .empty
  received := .empty
  sent := .empty
  captured := fun _ h => nomatch h
  received_nonneg := fun _ h => nomatch h
  sent_nonneg := fun _ h => nomatch h

end NodeMetrics

/-- What the points of one report say about traffic: its receipt, the counters and the deltas. -/
structure TrafficSample where
  receipt : AgentReceipt
  receivedCounter : Rat
  sentCounter : Rat
  received : Rat
  sent : Rat
  received_nonneg : 0 ≤ received
  sent_nonneg : 0 ≤ sent

/-- The time of a sample. -/
def TrafficSample.capturedAt (s : TrafficSample) : Int := s.receipt.capturedAt

/-- Every point after a write of the series of deltas is not negative. -/
theorem nonneg_put {s : Series Rat} (h : ∀ p ∈ s, 0 ≤ p.2) {t : Int} {v : Rat} (hv : 0 ≤ v) :
    ∀ p ∈ s.put t v, 0 ≤ p.2 := by
  intro p hp
  rcases Series.mem_put.mp hp with rfl | ⟨hp, -⟩
  · exact hv
  · exact h p hp

/-- Write the points of a report (`agentReportPoints`). -/
def NodeMetrics.commit (m : NodeMetrics) (s : TrafficSample) : NodeMetrics where
  receipts := m.receipts.put s.capturedAt s.receipt
  receivedCounter := m.receivedCounter.put s.capturedAt s.receivedCounter
  sentCounter := m.sentCounter.put s.capturedAt s.sentCounter
  received := m.received.put s.capturedAt s.received
  sent := m.sent.put s.capturedAt s.sent
  captured := by
    intro p hp
    rcases Series.mem_put.mp hp with rfl | ⟨hp, -⟩
    · rfl
    · exact m.captured p hp
  received_nonneg := nonneg_put m.received_nonneg s.received_nonneg
  sent_nonneg := nonneg_put m.sent_nonneg s.sent_nonneg

def NodeMetrics.commitAll (m : NodeMetrics) (samples : List TrafficSample) : NodeMetrics :=
  samples.foldl .commit m

/-! ## Boundaries -/

/-- `readAgentReceipt`: the latest receipt of a range, by the windows that end at the clock if the range
has no end. -/
def readAgentReceipt (m : NodeMetrics) (clock : Int) (sampleID : String) (start stop : Int) : Option AgentReceipt :=
  (scanLatestRows m.receipts (fun p => sampleID = "" || p.2.sampleID = sampleID)
    (latestScanPlan start stop (latestProbeEnd stop clock))).map (·.2)

/-- `lastTrafficDeltaSecond`: the second of the last delta, at most a day ahead of the clock. -/
def lastTrafficDeltaSecond (m : NodeMetrics) (now : Int) : Option Int :=
  let limit := unix (now + 24 * hour)
  let last := fun s : Series Rat =>
    (s.latest fun p => decide (second ≤ p.1) && decide (p.1 ≤ limit * second)).map
      fun p => unix p.1 * second
  match last m.received, last m.sent with
  | some r, some s => if r < s then some s else some r
  | some r, none => some r
  | none, other => other

/-- `TrafficAccountingBoundary`: the second of the latest receipt that the clock lets the scan find, or else
of the last delta. -/
def trafficAccountingBoundary (m : NodeMetrics) (now : Int) : Option Int :=
  match readAgentReceipt m now "" 0 maxInt64 with
  | some receipt => some (truncateSecond receipt.capturedAt)
  | none => lastTrafficDeltaSecond m now

variable {m : NodeMetrics} {samples : List TrafficSample}

/-- The boundary is a whole second. -/
theorem trafficAccountingBoundary_dvd {now b : Int} (h : trafficAccountingBoundary m now = some b) : second ∣ b := by
  have hunix : ∀ (o : Option (Int × Rat)) x,
      o.map (fun p => unix p.1 * second) = some x → second ∣ x := by
    intro o x hx
    obtain ⟨p, -, rfl⟩ := Option.map_eq_some_iff.mp hx
    exact dvd_mul_left _ _
  unfold trafficAccountingBoundary at h
  split at h
  · cases h
    exact second_dvd_truncateSecond _
  · unfold lastTrafficDeltaSecond at h
    simp only at h
    split at h
    · rename_i r s hr hs
      split_ifs at h
      · cases h; exact hunix _ _ hs
      · cases h; exact hunix _ _ hr
    · rename_i r hr hs
      cases h
      exact hunix _ _ hr
    · exact hunix _ _ h

/-- `MAX` of the cutoffs of the succeeded jobs that fulfil a condition. -/
def maxCutoff (jobs : List MetricErasureJob) (p : MetricErasureJob → Bool) : Option Int :=
  (jobs.filterMap fun j => if j.state = .succeeded && p j then j.cutoffUnixNano else none).max?

/-- `LatestErasureCutoff`: the first of the three maxima that exists. -/
def latestErasureCutoff (jobs : List MetricErasureJob) (nodeID : String) : Option Int :=
  if nodeID = "" then none
  else
    (maxCutoff jobs fun j => j.scope = .nodeHistory && j.targetID = nodeID).or <|
      (maxCutoff jobs fun j => j.scope = .deleteNode && j.targetID = nodeID).or <|
        maxCutoff jobs fun j => j.scope = .fleetTelemetry || j.scope = .allMetricHistory

/-! ## Sums -/

/-- `TrafficTotals`. -/
structure TrafficTotals where
  sent : Rat
  received : Rat
  trackedSince : Option Int := none
  deriving DecidableEq

/-- `queryMetricSum`: a range in seconds. -/
def queryMetricSum (s : Series Rat) (start stop : Int) : Rat :=
  s.total (unix start * second) (unix stop * second)

/-- `queryFirstMetricTime`. -/
def queryFirstMetricTime (s : Series Rat) (start stop : Int) : Option Int :=
  (s.range (unix start * second) (unix stop * second)).head?.map
    fun p => unix p.1 * second

/-- `QueryTrafficUsage`. -/
def queryTrafficUsage (m : NodeMetrics) (start stop : Int) : TrafficTotals :=
  { sent := queryMetricSum m.sent start stop
    received := queryMetricSum m.received start stop
    trackedSince := queryFirstMetricTime m.received start stop }

/-- `QueryTrafficUsageAfter`: the deltas after an instant. -/
def queryTrafficUsageAfter (m : NodeMetrics) (after stop : Int) : TrafficTotals :=
  if stop ≤ after then { sent := 0, received := 0 }
  else
    { sent := m.sent.total (after + 1) stop, received := m.received.total (after + 1) stop
      trackedSince := some after }

/-! ## Reports that follow each other -/

/-- Each sample was captured after all points of the store and after the samples before it. -/
def Follows (m : NodeMetrics) : List TrafficSample → Prop
  | [] => True
  | s :: samples =>
    (∀ p ∈ m.received, p.1 < s.capturedAt) ∧ (∀ p ∈ m.sent, p.1 < s.capturedAt) ∧
      Follows (m.commit s) samples

instance Follows.decidable : (m : NodeMetrics) → (samples : List TrafficSample) → Decidable (Follows m samples)
  | _, [] => isTrue trivial
  | m, s :: samples =>
    have := Follows.decidable (m.commit s) samples
    inferInstanceAs (Decidable (_ ∧ _ ∧ _))

/-- What the samples in a range add. -/
def inRange (lo hi : Int) (value : TrafficSample → Rat) (s : TrafficSample) : Rat :=
  if lo ≤ s.capturedAt ∧ s.capturedAt ≤ hi then value s else 0

theorem total_commitAll (h : Follows m samples) (lo hi : Int) : (m.commitAll samples).received.total lo hi =
        m.received.total lo hi + (samples.map (inRange lo hi (·.received))).sum ∧
      (m.commitAll samples).sent.total lo hi = m.sent.total lo hi + (samples.map (inRange lo hi (·.sent))).sum := by
  induction samples generalizing m with
  | nil => simp [NodeMetrics.commitAll]
  | cons s samples ih =>
    obtain ⟨hr, hs, hrest⟩ := h
    obtain ⟨ihr, ihs⟩ := ih hrest
    have hput := Series.total_put hr s.received lo hi
    have hput' := Series.total_put hs s.sent lo hi
    simp only [NodeMetrics.commitAll, List.foldl_cons, List.map_cons, List.sum_cons] at ihr ihs ⊢
    rw [ihr, ihs]
    simp only [NodeMetrics.commit, hput, hput', inRange]
    exact ⟨add_assoc _ _ _, add_assoc _ _ _⟩

theorem Follows.take (h : Follows m samples) (k : Nat) : Follows m (samples.take k) := by
  induction samples generalizing m k with
  | nil => rw [List.take_nil]; exact h
  | cons s samples ih =>
    obtain ⟨hr, hs, hrest⟩ := h
    cases k with
    | zero => exact trivial
    | succ k => exact ⟨hr, hs, ih hrest k⟩

end Beat.Traffic
