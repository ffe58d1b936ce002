import Beat.Traffic.Resolver

/-!
# Erased calibrations

A succeeded erasure that covers the traffic of a node makes the calibrations up to its cutoff void.
`LatestErasureCutoff` asks three scopes and keeps the first that has a cutoff, not the latest of all
(`store/traffic_erasure_boundary.go`).

* `maxCutoff_or`: when the first scope has the latest cutoff, that of both.
* `erased_calibration_raw`: exactly then the boundary is right and no erased calibration reaches the totals.
* `fleet_erasure_ignored`: after an older erasure of the node alone, that of the fleet is not seen.
-/

namespace Beat.Traffic

open List Instant Erasure

/-- An erasure of one node's own traffic. -/
def erasesNode (scope : MetricErasureScope) (nodeID : String) (j : MetricErasureJob) : Bool :=
  j.scope = scope && j.targetID = nodeID

/-- An erasure of the traffic of every node. -/
def erasesFleet (j : MetricErasureJob) : Bool :=
  j.scope = .fleetTelemetry || j.scope = .allMetricHistory

/-- An erasure that covers the traffic of the node. -/
def coversTraffic (nodeID : String) (j : MetricErasureJob) : Bool :=
  (erasesNode .nodeHistory nodeID j || erasesNode .deleteNode nodeID j) || erasesFleet j

/-- The job succeeded with this cutoff. -/
def ErasedUpTo (p : MetricErasureJob → Bool) (j : MetricErasureJob) (cutoff : Int) : Prop :=
  j.state = .succeeded ∧ p j = true ∧ j.cutoffUnixNano = some cutoff

/-- Once a job of the scope `p` succeeded, no job of the scope `q` has a later cutoff than all of
them. -/
def CutoffLeads (jobs : List MetricErasureJob) (p q : MetricErasureJob → Bool) : Prop :=
  ∀ j ∈ jobs, ∀ c, ErasedUpTo p j c → ∀ k ∈ jobs, ∀ d, ErasedUpTo q k d →
    ∃ i ∈ jobs, ∃ e, ErasedUpTo p i e ∧ d ≤ e

section cutoffs

variable {jobs : List MetricErasureJob} {p q : MetricErasureJob → Bool} {c : Int}

theorem mem_cutoffs : c ∈ (jobs.filterMap fun j => if j.state = .succeeded && p j then j.cutoffUnixNano else none) ↔
    ∃ j ∈ jobs, ErasedUpTo p j c := by
  simp only [mem_filterMap, ErasedUpTo, Option.ite_none_right_eq_some, Bool.and_eq_true,
    decide_eq_true_eq, and_assoc]

theorem maxCutoff_eq_some : maxCutoff jobs p = some c ↔
    (∃ j ∈ jobs, ErasedUpTo p j c) ∧ ∀ j ∈ jobs, ∀ d, ErasedUpTo p j d → d ≤ c := by
  rw [maxCutoff, max?_eq_some_iff, mem_cutoffs]
  refine and_congr_right fun _ => ⟨fun h j hj d hd => h d (mem_cutoffs.mpr ⟨j, hj, hd⟩), ?_⟩
  intro h d hd
  obtain ⟨j, hj, he⟩ := mem_cutoffs.mp hd
  exact h j hj d he

theorem maxCutoff_eq_none : maxCutoff jobs p = none ↔ ∀ j ∈ jobs, ∀ c, ¬ErasedUpTo p j c := by
  rw [maxCutoff, max?_eq_none_iff, eq_nil_iff_forall_not_mem]
  simp only [mem_cutoffs, not_exists, not_and]
  exact ⟨fun h j hj c => h c j hj, fun h c j hj => h j hj c⟩

theorem erasedUpTo_or {j : MetricErasureJob} :
    ErasedUpTo (fun j => p j || q j) j c ↔ ErasedUpTo p j c ∨ ErasedUpTo q j c := by
  simp only [ErasedUpTo, Bool.or_eq_true]
  tauto

/-- The first of two maxima is the maximum of both, when the first scope leads. -/
theorem maxCutoff_or (h : CutoffLeads jobs p q) :
    (maxCutoff jobs p).or (maxCutoff jobs q) = maxCutoff jobs fun j => p j || q j := by
  cases hp : maxCutoff jobs p with
  | some c =>
    obtain ⟨⟨j, hj, hjc⟩, hmax⟩ := maxCutoff_eq_some.mp hp
    refine (maxCutoff_eq_some.mpr ⟨⟨j, hj, erasedUpTo_or.mpr (.inl hjc)⟩, ?_⟩).symm
    intro k hk d hd
    rcases erasedUpTo_or.mp hd with hd | hd
    · exact hmax k hk d hd
    · obtain ⟨i, hi, e, hie, hle⟩ := h j hj c hjc k hk d hd
      exact hle.trans (hmax i hi e hie)
  | none =>
    have hor : ∀ j ∈ jobs, ∀ c, ErasedUpTo (fun j => p j || q j) j c ↔ ErasedUpTo q j c :=
      fun j hj c => erasedUpTo_or.trans (or_iff_right (maxCutoff_eq_none.mp hp j hj c))
    cases hq : maxCutoff jobs q with
    | none =>
      refine (maxCutoff_eq_none.mpr fun j hj c hc => ?_).symm
      exact maxCutoff_eq_none.mp hq j hj c ((hor j hj c).mp hc)
    | some c =>
      obtain ⟨⟨j, hj, hjc⟩, hmax⟩ := maxCutoff_eq_some.mp hq
      refine (maxCutoff_eq_some.mpr ⟨⟨j, hj, (hor j hj c).mpr hjc⟩, ?_⟩).symm
      exact fun k hk d hd => hmax k hk d ((hor k hk d).mp hd)

/-- When the first scope with a cutoff gives the latest of all, it leads every other scope. -/
theorem cutoffLeads_of_or {r : MetricErasureJob → Bool} {later : Option Int}
    (h : (maxCutoff jobs p).or later = maxCutoff jobs r) (hqr : ∀ j, q j = true → r j = true) :
    CutoffLeads jobs p q := by
  intro j hj c hjc k hk d hkd
  cases hp : maxCutoff jobs p with
  | none => exact absurd hjc (maxCutoff_eq_none.mp hp j hj c)
  | some e =>
    obtain ⟨i, hi, hie⟩ := (maxCutoff_eq_some.mp hp).1
    rw [hp, Option.some_or] at h
    exact ⟨i, hi, e, hie, (maxCutoff_eq_some.mp h.symm).2 k hk d ⟨hkd.1, hqr k hkd.2.1, hkd.2.2⟩⟩

/-- The cutoff that the three scopes give is the latest of all exactly when they lead in their order. -/
theorem latestErasureCutoff_iff {nodeID : String} (hid : nodeID ≠ "") :
    latestErasureCutoff jobs nodeID = maxCutoff jobs (coversTraffic nodeID) ↔
      CutoffLeads jobs (erasesNode .nodeHistory nodeID) (erasesNode .deleteNode nodeID) ∧
        CutoffLeads jobs
          (fun j => erasesNode .nodeHistory nodeID j || erasesNode .deleteNode nodeID j) erasesFleet := by
  have hscopes : latestErasureCutoff jobs nodeID = (maxCutoff jobs (erasesNode .nodeHistory nodeID)).or
      ((maxCutoff jobs (erasesNode .deleteNode nodeID)).or (maxCutoff jobs erasesFleet)) := if_neg hid
  rw [hscopes]
  constructor
  · intro hlatest
    have hnode := cutoffLeads_of_or (q := erasesNode .deleteNode nodeID) hlatest
      fun j hj => by simp [coversTraffic, hj]
    rw [← Option.or_assoc, maxCutoff_or hnode] at hlatest
    exact ⟨hnode, cutoffLeads_of_or hlatest fun j hj => by simp [coversTraffic, hj]⟩
  · intro ⟨hnode, hfleet⟩
    rw [← Option.or_assoc, maxCutoff_or hnode]
    exact maxCutoff_or hfleet

end cutoffs

/-- The last set event of the window. -/
def latestSet (ledger : Ledger) (window : TrafficCalibrationWindow) : Option TrafficCalibrationEvent :=
  Table.last ledger fun e => (e.nodeID = some window.nodeID && window.start ≤ e.anchor &&
    e.anchor < window.stop) && e.kind = .set

/-- The event that the resolver reads is the last set event, or it does not calibrate. -/
theorem latest_is_set {ledger : Ledger} {window : TrafficCalibrationWindow}
    {event : TrafficCalibrationEvent} (h : latestTrafficCalibration ledger window = some event) :
    event.calibrated = false ∨ latestSet ledger window = some event := by
  by_cases hset : event.kind = .set
  · right
    refine find?_eq_some_iff_append.mpr ?_
    obtain ⟨hp, before, after, hsplit, hbefore⟩ := find?_eq_some_iff_append.mp h
    refine ⟨by rw [hp, hset]; rfl, before, after, hsplit, fun e he => ?_⟩
    rw [Bool.not_eq_true', Bool.and_eq_false_iff]
    exact .inl (Bool.not_eq_true' _ ▸ hbefore e he)
  · left
    simp [TrafficCalibrationEvent.calibrated, hset]

/-- The boundary of a node is the latest cutoff of the erasures that cover its traffic, and a
calibration that one of them reaches leaves the totals raw, if and only if the scopes lead in the order in
which they are asked. -/
theorem erased_calibration_raw (jobs : List MetricErasureJob) (node : Node) (hid : node.id ≠ "") :
    (latestErasureCutoff jobs node.id = maxCutoff jobs (coversTraffic node.id) ∧
      ∀ (m : NodeMetrics) (ledger : Ledger) (now : Int) (event : TrafficCalibrationEvent),
        validateTrafficCalibrationWindow (requestWindow node now) = true →
        latestSet ledger (requestWindow node now) = some event →
        (∃ j ∈ jobs, ∃ c, ErasedUpTo (coversTraffic node.id) j c ∧ event.anchor ≤ c) →
        cycleTotals m ledger jobs node now = .ok (queryTrafficUsage m (billingPeriod now node.trafficResetDay).1
            (billingPeriod now node.trafficResetDay).2, { mode := .raw })) ↔
    CutoffLeads jobs (erasesNode .nodeHistory node.id) (erasesNode .deleteNode node.id) ∧
      CutoffLeads jobs
        (fun j => erasesNode .nodeHistory node.id j || erasesNode .deleteNode node.id j) erasesFleet := by
  rw [← latestErasureCutoff_iff hid]
  refine ⟨And.left, fun hlatest => ⟨hlatest, ?_⟩⟩
  refine fun m ledger now event hwindow hset ⟨j, hj, c, hc, hle⟩ => ?_
  -- the cutoff that the resolver finds is no earlier than the one that reaches the event
  have herased : ((latestErasureCutoff jobs node.id).any fun cutoff => event.anchor ≤ cutoff) = true := by
    rw [hlatest]
    cases hmax : maxCutoff jobs (coversTraffic node.id) with
    | none => exact absurd hc (maxCutoff_eq_none.mp hmax j hj c)
    | some d => exact decide_eq_true (hle.trans ((maxCutoff_eq_some.mp hmax).2 j hj c hc))
  unfold cycleTotals latestState
  rw [if_neg (by simp [hwindow])]
  cases hread : latestTrafficCalibration ledger (requestWindow node now) with
  | none => rfl
  | some latest =>
    simp only
    rcases latest_is_set hread with hoff | hsame
    · rw [if_pos hoff]
    · obtain rfl : latest = event := Option.some.inj (hsame.symm.trans hset)
      split <;> rfl

/-- An erasure that succeeded with this cutoff. -/
def sampleErasure (scope : MetricErasureScope) (targetID : String) (cutoff : Int) : MetricErasureJob :=
  { id := "j", scope := scope, targetID := targetID, state := .succeeded, cutoffUnixNano := some cutoff }

theorem erased_calibration_raw_node :
    cycleTotals .empty [sampleRow sampleEventID] [sampleErasure .nodeHistory "n1" sampleNow] sampleNode sampleNow =
      .ok (queryTrafficUsage .empty (billingPeriod sampleNow sampleNode.trafficResetDay).1
        (billingPeriod sampleNow sampleNode.trafficResetDay).2, { mode := .raw }) :=
  (erased_calibration_raw [sampleErasure .nodeHistory "n1" sampleNow] sampleNode (by decide)).mpr
    ⟨by simp [CutoffLeads, ErasedUpTo, erasesNode, sampleErasure],
      by simp [CutoffLeads, ErasedUpTo, erasesFleet, sampleErasure]⟩ |>.2 .empty [sampleRow sampleEventID] sampleNow
      (sampleRow sampleEventID) (by decide +kernel) (by decide +kernel)
      ⟨_, mem_singleton.mpr rfl, sampleNow, ⟨rfl, rfl, rfl⟩, by decide +kernel⟩

/-- The history of the node was erased up to one, the fleet's up to the time of the request: the
calibration at midnight still counts. -/
theorem fleet_erasure_ignored :
    let jobs := [sampleErasure .nodeHistory "n1" 1, sampleErasure .fleetTelemetry "" sampleNow]
    latestErasureCutoff jobs "n1" = some 1 ∧ maxCutoff jobs (coversTraffic "n1") = some sampleNow ∧
      ∃ totals, cycleTotals .empty [sampleRow sampleEventID] jobs sampleNode sampleNow =
          .ok (totals, { mode := .calibrated, calibratedAt := some sampleMidnight }) ∧
        totals.sent = 1000 :=
  ⟨by decide +kernel, by decide +kernel, _, rfl, by decide +kernel⟩

end Beat.Traffic
