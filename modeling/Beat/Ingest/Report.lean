import Beat.Traffic.Metrics

/-!
# Agent reports

A report of an agent, its validation (`model/agent_report.go`), and the points that the store derives
from it: the receipt, the network counters and the traffic deltas (`store/mts_metric_report.go`,
`store/mts_traffic.go`). The two directions of traffic are handled by one loop in the source and by
one parameter here.

The outcome of code that is not modelled is data of the report: its digest, the encoding of its
custom samples, and whether the other parts of it are valid.

* `counterDelta_eq`: the delta of a counter against the last stored counter.
-/

namespace Beat.Ingest

open Traffic (AgentReceipt NodeMetrics)

/-- The errors of the ingestion. -/
inductive IngestError where
  /-- `ErrAgentReportProtocol`, `ErrAgentReportInvalid`, `ErrAgentReportFuture` and
  `ErrAgentReportExpired`. -/
  | protocol
  | invalid
  | future
  | expired
  /-- `ErrAgentSampleConflict`, `ErrAgentSampleOrder`, `ErrAgentIngestCapacity` and
  `ErrAgentIngestClosed`. -/
  | sampleConflict
  | sampleOrder
  | capacity
  | closed
  /-- `ErrMetricIngestion` and `ErrAgentCredentialRejected`. -/
  | metricIngestion
  | credentialRejected
  /-- Traffic deltas require their persisted source counter. -/
  | sourceCounter
  /-- The context, the store or the engine failed. -/
  | unavailable
  deriving DecidableEq

/-- The two directions of network traffic. -/
inductive Direction where
  | received
  | sent
  deriving DecidableEq

/-- The metrics of a report: the network counters, which `NodeMetrics.Validate` wants not negative,
and whether it accepts the other values. -/
structure ReportMetrics where
  counter : Direction → Rat
  counter_nonneg : ∀ d, 0 ≤ counter d
  valid : Bool := true

/-- `AcceleratorReport`. -/
structure AcceleratorReport where
  state : String
  installationEnabled : Bool
  valid : Bool := true

/-- `AgentReport`. The instant of the capture is a 64-bit number of nanoseconds. -/
structure AgentReport where
  protocolVersion : Int
  sampleID : String
  capturedAt : Int
  captured_le : capturedAt ≤ maxInt64
  reportIntervalMS : Int
  name : String
  host : String
  port : Int
  /-- The texts of `System`. -/
  system : List String
  metrics : Option ReportMetrics
  /-- The names of the custom metrics, with whether their values are finite. -/
  customMetrics : List (String × Bool)
  /-- The outcome of `ValidateCustomSamples`. -/
  customSamplesValid : Bool := true
  accelerators : Option AcceleratorReport := none
  /-- The outcome of `Digest`. -/
  digest : Option String
  /-- The outcome of `EncodeCustomSampleMetadata`. -/
  sources : Option String

/-! ## Validation -/

def agentReportProtocol : Int := 2

/-- The text of a UUID that is not the nil one, in the form that `String` prints. -/
def canonicalUUID (value : String) : Bool :=
  validUUIDShape value && value.toList.all (fun c => !c.isUpper) &&
    value != "00000000-0000-0000-0000-000000000000"

/-- `unicode.IsSpace`. -/
def isSpace (c : Char) : Bool :=
  [9, 10, 11, 12, 13, 32, 133, 160, 5760, 8232, 8233, 8239, 8287, 12288].contains c.toNat ||
    (8192 ≤ c.toNat && c.toNat ≤ 8202)

/-- `validAgentText`. -/
def validAgentText (value : String) (maximum : Nat) : Bool :=
  value.utf8ByteSize ≤ maximum && !value.toList.any isControl

/-- `validAgentCustomName`. -/
def validAgentCustomName (name : String) : Bool :=
  name != "" && name.utf8ByteSize ≤ 100 &&
    name.toList.all fun c => c.isAlphanum || c = '_' || c = '.' || c = '-'

namespace AgentReport

variable (report : AgentReport)

/-- `validateTime`. -/
def validateTime (now : Int) : Except IngestError Unit :=
  if Instant.isZero report.capturedAt || Instant.unix report.capturedAt ≤ 0 then .error .invalid
  else if now + maximumAgentClockSkew < report.capturedAt then .error .future
  else if report.capturedAt < now - maximumAgentSampleAge then .error .expired
  else .ok ()

/-- `validMetadata`. -/
def validMetadata : Bool :=
  1000 ≤ report.reportIntervalMS && report.reportIntervalMS ≤ 86400000 &&
    (1 ≤ report.port && report.port ≤ 65535) &&
    (validAgentText report.host 255 && !report.host.toList.all isSpace) &&
    validAgentText report.name 128 &&
    report.system.all fun value => validAgentText value 512

/-- `validateAgentCustomValues`. -/
def validCustomValues : Bool :=
  report.customMetrics.length ≤ 64 &&
    report.customMetrics.all fun (name, finite) => validAgentCustomName name && finite

/-- `Validate`. -/
def validate (now : Int) : Except IngestError Unit :=
  if report.protocolVersion ≠ agentReportProtocol then .error .protocol
  else
    match report.validateTime now with
    | .error e => .error e
    | .ok () =>
      if canonicalUUID report.sampleID = false then .error .invalid
      else if report.validMetadata = false ∨ report.metrics.all (·.valid) = false ∨
          report.metrics.isNone then .error .invalid
      else if report.validCustomValues = false then .error .invalid
      else if report.customSamplesValid = false then .error .invalid
      else if report.accelerators.all (·.valid) = false then .error .invalid
      else .ok ()

/-- What the validation says about the time of the capture. -/
theorem validate_time {report : AgentReport} {now : Int} (h : report.validate now = .ok ()) :
    0 < report.capturedAt ∧ report.capturedAt ≤ now + maximumAgentClockSkew := by
  have htime : report.validateTime now = .ok () := by
    cases ht : report.validateTime now with
    | error e =>
      unfold validate at h
      rw [ht] at h
      split_ifs at h
    | ok u => rfl
  unfold validateTime at htime
  split_ifs at htime with hinvalid hfuture hexpired
  rw [Bool.or_eq_true, not_or, decide_eq_true_eq, not_le] at hinvalid
  have hunix := hinvalid.2
  unfold Instant.unix Instant.second at hunix
  exact ⟨by omega, not_lt.mp hfuture⟩

end AgentReport

/-! ## Points -/

/-- The builtin metrics of the traffic: `net_recv_total` and `net_sent_total`, `net_recv_delta` and
`net_sent_delta`. -/
inductive TrafficMetric where
  | total (d : Direction)
  | delta (d : Direction)
  deriving DecidableEq

/-- `EnabledBuiltins`: the builtin metrics that the catalog keeps, or all of them. -/
abbrev EnabledBuiltins := Option (TrafficMetric → Bool)

/-- `allows`. -/
def EnabledBuiltins.allows (enabled : EnabledBuiltins) (key : TrafficMetric) : Bool :=
  match enabled with
  | none => true
  | some keys => keys key

/-- The points of one report that concern traffic. -/
structure AgentPoints where
  receipt : AgentReceipt
  counter : Direction → Option Rat
  delta : Direction → Option Rat
  delta_nonneg : ∀ d, ∀ v ∈ delta d, 0 ≤ v

def AgentPoints.capturedAt (points : AgentPoints) : Int := points.receipt.capturedAt

/-- The counters of a node. -/
def counters (m : NodeMetrics) : Direction → Series Rat
  | .received => m.receivedCounter
  | .sent => m.sentCounter

/-- The deltas of a node. -/
def deltas (m : NodeMetrics) : Direction → Series Rat
  | .received => m.received
  | .sent => m.sent

/-- What a counter adds after its previous value: nothing at first, and all of it when it fell. -/
def counterStep (previous : Option Rat) (current : Rat) : Rat :=
  match previous with
  | none => 0
  | some previous => if previous ≤ current then current - previous else current

variable {current : Rat} {timestamp : Int} {m : NodeMetrics} {enabled : EnabledBuiltins}
  {metrics : ReportMetrics} {d : Direction} {receipt : AgentReceipt} {points : AgentPoints}

/-- `queryLatestMetric`: the last value before an instant. -/
def queryLatestMetric (s : Series Rat) (stop : Int) : Option Rat :=
  (scanLatestRows s (fun _ => true) (latestScanPlan 0 (stop - 1) (stop - 1))).map (·.2)

/-- `counterDelta`. -/
def counterDelta (s : Series Rat) (current : Rat) (timestamp : Int) : Rat :=
  counterStep (queryLatestMetric s timestamp) current

/-- After all points of a counter, its delta is taken against the last of them. -/
theorem counterDelta_eq {s : Series Rat} (h : ∀ p ∈ s, 0 < p.1 ∧ p.1 < timestamp) :
    counterDelta s current timestamp = counterStep (s.points.getLast?.map (·.2)) current := by
  unfold counterDelta queryLatestMetric
  rw [scanLatestRows_plan fun _ _ _ _ => Iff.rfl]
  have hall : ∀ p ∈ s,
      (decide (0 ≤ p.1) && decide (p.1 ≤ timestamp - 1) && (fun _ => true) p) = true := by
    intro p hp
    have := h p hp
    exact (@scanRange_taken _ (fun _ => true) (0, timestamp - 1) p).mpr
      ⟨le_of_lt this.1, Int.le_sub_one_of_lt this.2, rfl⟩
  rw [scanRange, Series.latest_eq_getLast? hall]

/-- `metricReportTraffic`: the delta of one direction, if it is kept. -/
def metricReportTraffic (m : NodeMetrics) (enabled : EnabledBuiltins) (metrics : ReportMetrics)
    (timestamp : Int) (d : Direction) : Except IngestError (Option Rat) :=
  if enabled.allows (.delta d) = false then .ok none
  else if enabled.allows (.total d) = false then .error .sourceCounter
  else .ok (some (counterDelta (counters m d) (metrics.counter d) timestamp))

theorem metricReportTraffic_nonneg {delta : Option Rat}
    (h : metricReportTraffic m enabled metrics timestamp d = .ok delta) : ∀ v ∈ delta, 0 ≤ v := by
  unfold metricReportTraffic at h
  split_ifs at h <;> cases h
  · exact fun v hv => nomatch hv
  · rintro v ⟨⟩
    unfold counterDelta counterStep
    split
    · exact le_refl _
    · split_ifs with hle
      · exact sub_nonneg.mpr hle
      · exact metrics.counter_nonneg d

/-- `agentReceiptPoint`: the receipt as it is stored. -/
def agentReceiptPoint (receipt : AgentReceipt) : AgentReceipt :=
  if receipt.customSamplesJSON = "" then { receipt with customSamplesJSON := "\x7b\x7d" } else receipt

@[simp] theorem agentReceiptPoint_capturedAt (receipt : AgentReceipt) :
    (agentReceiptPoint receipt).capturedAt = receipt.capturedAt := by
  unfold agentReceiptPoint
  split_ifs <;> rfl

/-- The points of a report: `agentReportPoints` over `metricReportValues`, the received direction
first. -/
def reportPoints (m : NodeMetrics) (enabled : EnabledBuiltins) (metrics : ReportMetrics)
    (receipt : AgentReceipt) : Except IngestError AgentPoints :=
  match hr : metricReportTraffic m enabled metrics receipt.capturedAt .received with
  | .error e => .error e
  | .ok received =>
    match hs : metricReportTraffic m enabled metrics receipt.capturedAt .sent with
    | .error e => .error e
    | .ok sent =>
      .ok
        { receipt := agentReceiptPoint receipt
          counter := fun d => if enabled.allows (.total d) then some (metrics.counter d) else none
          delta := fun | .received => received | .sent => sent
          delta_nonneg := fun
            | .received => metricReportTraffic_nonneg hr
            | .sent => metricReportTraffic_nonneg hs }

/-- What the points of a report are; a delta is kept together with its counter. -/
theorem reportPoints_spec (h : reportPoints m enabled metrics receipt = .ok points) :
    points.receipt = agentReceiptPoint receipt ∧
      (∀ d, points.counter d = if enabled.allows (.total d) then some (metrics.counter d) else none) ∧
      ∀ d, (points.delta d = if enabled.allows (.delta d) then
          some (counterDelta (counters m d) (metrics.counter d) receipt.capturedAt) else none) ∧
        (enabled.allows (.delta d) = true → enabled.allows (.total d) = true) := by
  have hdelta : ∀ d delta, metricReportTraffic m enabled metrics receipt.capturedAt d = .ok delta →
      (delta = if enabled.allows (.delta d) then
          some (counterDelta (counters m d) (metrics.counter d) receipt.capturedAt)
        else none) ∧ (enabled.allows (.delta d) = true → enabled.allows (.total d) = true) := by
    intro d delta hd
    unfold metricReportTraffic at hd
    split_ifs at hd with hkept hsource <;> cases hd
    · simp [hkept]
    · simp [(Bool.not_eq_false _).mp hkept, (Bool.not_eq_false _).mp hsource]
  unfold reportPoints at h
  split at h
  · cases h
  rename_i received hr
  split at h
  · cases h
  rename_i sent hs
  cases h
  refine ⟨rfl, fun d => rfl, fun d => ?_⟩
  cases d with
  | received => exact hdelta _ _ hr
  | sent => exact hdelta _ _ hs

end Beat.Ingest
