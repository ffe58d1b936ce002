import Beat.Traffic.Ledger
import Beat.Traffic.Metrics

/-!
# Calibrated totals

`TrafficAccountingResolver.CycleTotals` (`store/traffic_resolver.go`): the totals of a billing period
are those of the store, or, after a calibration, its targets and the deltas after its effective
second. A calibration whose request leaves the effective second open takes the second of the last
sample.

* `cycleTotals_after`: the totals after a calibration.
* `exact_totals_iff`: when the totals of a calibration are its targets and the deltas of the later
  samples, at every time in the period.
* `boundary_sample_counted_twice`: a sample later in the effective second is in both.
-/

namespace Beat.Traffic

open List Instant Erasure

inductive AccountingMode where
  | raw
  | calibrated
  deriving DecidableEq

/-- `TrafficAccounting`. -/
structure TrafficAccounting where
  mode : AccountingMode
  calibratedAt : Option Int := none
  deriving DecidableEq

/-- `LatestState`. -/
def latestState (ledger : Ledger) (window : TrafficCalibrationWindow) :
    Except CalibrationError (Option TrafficCalibrationEvent) :=
  if validateTrafficCalibrationWindow window = false then .error .invalid
  else .ok (latestTrafficCalibration ledger window)

/-- `CycleTotals`. -/
def cycleTotals (m : NodeMetrics) (ledger : Ledger) (jobs : List MetricErasureJob) (node : Node)
    (now : Int) : Except CalibrationError (TrafficTotals × TrafficAccounting) :=
  let (start, next) := billingPeriod now node.trafficResetDay
  let raw := queryTrafficUsage m start next
  match latestState ledger (requestWindow node now) with
  | .error e => .error e
  | .ok none => .ok (raw, { mode := .raw })
  | .ok (some event) =>
    if event.calibrated = false then .ok (raw, { mode := .raw })
    else if (latestErasureCutoff jobs node.id).any fun cutoff => event.anchor ≤ cutoff then
      .ok (raw, { mode := .raw })
    else
      let effective := event.effectiveAt.getD 0
      let after := queryTrafficUsageAfter m effective next
      .ok
        ({ sent := (event.targetSent.getD 0 : Int) + after.sent
           received := (event.targetReceived.getD 0 : Int) + after.received
           trackedSince := some start }, { mode := .calibrated, calibratedAt := some effective })

/-! ## The totals after a calibration -/

/-- The effective second of a request that leaves it open. -/
def openEffective (node : Node) (boundary : Option Int) (now : Int) : Int :=
  max (billingPeriod now node.trafficResetDay).1
    (min (truncateSecond now) (boundary.getD (truncateSecond now)))

theorem selectEffective_open (node : Node) (boundary : Option Int) (now : Int) :
    selectEffective node.trafficResetDay boundary none now = .ok (openEffective node boundary now) := by
  unfold selectEffective openEffective
  cases boundary with
  | none =>
    simp only [Option.getD_none, min_self, Except.ok.injEq]
    split_ifs <;> omega
  | some b =>
    simp only [Option.getD_some, Except.ok.injEq]
    split_ifs <;> omega

/-- The row of a calibration is the last of its window. -/
theorem latestTrafficCalibration_append {ledger : Ledger} {event : TrafficCalibrationEvent}
    {window : TrafficCalibrationWindow} (hnode : event.nodeID = some window.nodeID)
    (hstart : window.start ≤ event.anchor) (hstop : event.anchor < window.stop) :
    latestTrafficCalibration (ledger ++ [event]) window = some event := by
  unfold latestTrafficCalibration
  rw [Table.last_snoc, if_pos (by simp [hnode, hstart, hstop])]

section calibration

variable {nodeIDs : List String} {ledger ledger' : Ledger} {node : Node} {boundary : Option Int}
  {request : TrafficCalibrationRequest} {actor : TrafficCalibrationActor} {id : Uuid} {now : Int}
  {change : TrafficCalibrationChange}

/-- What a successful request that leaves the effective second open appends. -/
theorem handleCreate_open (hreq : request.effectiveAt = none)
    (h : handleCreate nodeIDs ledger node boundary request actor id now = .ok (ledger', change))
    (hnew : change.replayed = false) :
    ∃ event : TrafficCalibrationEvent, ledger' = ledger ++ [event] ∧ event.calibrated = true ∧
      event.nodeID = some node.id ∧ event.effectiveAt = some (openEffective node boundary now) ∧
      event.targetSent = some request.targetSent ∧ event.targetReceived = some request.targetReceived := by
  unfold handleCreate at h
  rw [hreq, selectEffective_open] at h
  simp only [appendSet] at h
  split at h
  · cases h
  rename_i event hset
  obtain ⟨rfl, -⟩ := trafficCalibrationSetEvent_spec hset
  rcases append_spec h with ⟨hr, -⟩ | ⟨-, hl, -⟩
  · rw [hr] at hnew
    cases hnew
  · exact ⟨_, hl, rfl, rfl, rfl, rfl, rfl⟩

theorem openEffective_bounds (node : Node) (boundary : Option Int) (now : Int) :
    (billingPeriod now node.trafficResetDay).1 ≤ openEffective node boundary now ∧
      openEffective node boundary now < (billingPeriod now node.trafficResetDay).2 := by
  have h := selectEffective_spec (selectEffective_open node boundary now)
  have := (billingPeriod_spec now node.trafficResetDay).2
  omega

variable {m : NodeMetrics} {jobs : List MetricErasureJob} {at_ : Int}

/-- The totals in the period of a calibration: its targets and the deltas after the effective second,
unless an erasure reaches that second. -/
theorem cycleTotals_after (hreq : request.effectiveAt = none)
    (h : handleCreate nodeIDs ledger node boundary request actor id now = .ok (ledger', change))
    (hnew : change.replayed = false)
    (hperiod : billingPeriod at_ node.trafficResetDay = billingPeriod now node.trafficResetDay)
    (hwindow : validateTrafficCalibrationWindow (requestWindow node now) = true) :
    cycleTotals m ledger' jobs node at_ =
      if (latestErasureCutoff jobs node.id).any fun c => openEffective node boundary now ≤ c then
        .ok (queryTrafficUsage m (billingPeriod now node.trafficResetDay).1
          (billingPeriod now node.trafficResetDay).2, { mode := .raw })
      else
        .ok
          ({ sent := request.targetSent +
               m.sent.total (openEffective node boundary now + 1)
                 (billingPeriod now node.trafficResetDay).2
             received := request.targetReceived +
               m.received.total (openEffective node boundary now + 1)
                 (billingPeriod now node.trafficResetDay).2
             trackedSince := some (billingPeriod now node.trafficResetDay).1 },
            { mode := .calibrated, calibratedAt := some (openEffective node boundary now) }) := by
  obtain ⟨event, rfl, hcal, hnode, heff, hsent, hrecv⟩ := handleCreate_open hreq h hnew
  obtain ⟨hlo, hhi⟩ := openEffective_bounds node boundary now
  have hanchor : event.anchor = openEffective node boundary now := by
    rw [TrafficCalibrationEvent.anchor, heff, Option.getD_some]
  have hlatest : latestState (ledger ++ [event]) (requestWindow node at_) = .ok (some event) := by
    have hw : requestWindow node at_ = requestWindow node now := by
      unfold requestWindow
      rw [hperiod]
    rw [latestState, hw, if_neg (by simp [hwindow])]
    rw [latestTrafficCalibration_append hnode (hanchor ▸ hlo) (hanchor ▸ hhi)]
  unfold cycleTotals
  rw [hperiod]
  simp only [hlatest, hcal, hanchor, heff, hsent, hrecv, Option.getD_some, queryTrafficUsageAfter,
    if_neg (not_le.mpr hhi), Bool.true_eq_false, if_false]

/-- The totals are `sent` and `received`. -/
def Totals (result : Except CalibrationError (TrafficTotals × TrafficAccounting)) (sent received : Rat) : Prop :=
  ∃ totals accounting, result = .ok (totals, accounting) ∧ totals.sent = sent ∧
    totals.received = received

/-- At every time in the period of the calibration the totals are its targets and the deltas of the
samples that were committed after it. -/
def ExactTotals (m : NodeMetrics) (ledger : Ledger) (jobs : List MetricErasureJob) (node : Node)
    (request : TrafficCalibrationRequest) (now : Int) (samples : List TrafficSample) : Prop :=
  ∀ k at_, billingPeriod at_ node.trafficResetDay = billingPeriod now node.trafficResetDay →
    Totals (cycleTotals (m.commitAll (samples.take k)) ledger jobs node at_)
      (request.targetSent + ((samples.take k).map (·.sent)).sum)
      (request.targetReceived + ((samples.take k).map (·.received)).sum)

/-- The samples outside the range from `lo` to `hi` have no traffic. -/
def SilentOutside (lo hi : Int) (samples : List TrafficSample) : Prop :=
  ∀ s ∈ samples, ¬(lo ≤ s.capturedAt ∧ s.capturedAt ≤ hi) → s.sent = 0 ∧ s.received = 0

/-- The series has no traffic in the range. -/
def SilentInside (lo hi : Int) (s : Series Rat) : Prop := ∀ p ∈ s, lo ≤ p.1 → p.1 ≤ hi → p.2 = 0

instance (lo hi : Int) (samples : List TrafficSample) : Decidable (SilentOutside lo hi samples) :=
  inferInstanceAs (Decidable (∀ s ∈ samples, _))

instance (lo hi : Int) (s : Series Rat) : Decidable (SilentInside lo hi s) :=
  inferInstanceAs (Decidable (∀ p ∈ s, _))

/-- When the totals are exact. The deltas that the resolver adds are those after the effective
second, so the stored ones must not lie there and the later ones must; after an erasure that reaches
the effective second the totals are those of the store. -/
def ExactWhen (m : NodeMetrics) (jobs : List MetricErasureJob) (node : Node)
    (request : TrafficCalibrationRequest) (now : Int) (samples : List TrafficSample) : Prop :=
  let start := (billingPeriod now node.trafficResetDay).1
  let next := (billingPeriod now node.trafficResetDay).2
  let effective := openEffective node (trafficAccountingBoundary m now) now
  let erased := (latestErasureCutoff jobs node.id).any fun c => effective ≤ c
  validateTrafficCalibrationWindow (requestWindow node now) = true ∧
    (erased = true → m.sent.total start next = request.targetSent ∧
      m.received.total start next = request.targetReceived ∧ SilentOutside start next samples) ∧
    (erased = false → SilentInside (effective + 1) next m.sent ∧
      SilentInside (effective + 1) next m.received ∧ SilentOutside (effective + 1) next samples)

instance (m : NodeMetrics) (jobs : List MetricErasureJob) (node : Node)
    (request : TrafficCalibrationRequest) (now : Int) (samples : List TrafficSample) :
    Decidable (ExactWhen m jobs node request now samples) :=
  inferInstanceAs (Decidable (_ ∧ (_ → _) ∧ (_ → _)))

end calibration

/-- Two running sums agree all along when they begin and go on alike. -/
theorem take_sums_iff {α : Type} {f g : α → Rat} {a b : Rat} {l : List α} :
    (∀ k, a + ((l.take k).map f).sum = b + ((l.take k).map g).sum) ↔ a = b ∧ ∀ x ∈ l, f x = g x := by
  induction l generalizing a b with
  | nil => simp
  | cons x l ih =>
    constructor
    · intro h
      have h0 : a = b := by simpa using h 0
      have h1 : f x = g x := by
        have := h 1
        simp only [take_succ_cons, take_zero, map_cons, map_nil, sum_cons, sum_nil, add_zero, h0] at this
        exact add_left_cancel this
      have hrest : ∀ k, a + f x + ((l.take k).map f).sum = b + g x + ((l.take k).map g).sum := by
        intro k
        have := h (k + 1)
        rw [add_assoc, add_assoc]
        exact this
      refine ⟨h0, fun y hy => ?_⟩
      rcases mem_cons.mp hy with rfl | hy
      · exact h1
      · exact (ih.mp hrest).2 y hy
    · rintro ⟨rfl, h⟩ k
      congr 2
      exact map_congr_left fun y hy => h y (mem_of_mem_take hy)

theorem inRange_eq_iff {lo hi : Int} {value : TrafficSample → Rat} {s : TrafficSample} :
    inRange lo hi value s = value s ↔ (¬(lo ≤ s.capturedAt ∧ s.capturedAt ≤ hi) → value s = 0) := by
  unfold inRange
  split_ifs with h
  · simp [h]
  · exact ⟨fun e _ => e.symm, fun e => (e h).symm⟩

/-- The sums of a range follow the samples exactly when the samples outside have no traffic. -/
theorem running_total_iff {m : NodeMetrics} {samples : List TrafficSample} (h : Follows m samples)
    (lo hi : Int) (sent received a b : Rat) : (∀ k, a + (m.commitAll (samples.take k)).sent.total lo hi =
          sent + ((samples.take k).map (·.sent)).sum ∧ b + (m.commitAll (samples.take k)).received.total lo hi =
          received + ((samples.take k).map (·.received)).sum) ↔
      a + m.sent.total lo hi = sent ∧ b + m.received.total lo hi = received ∧ SilentOutside lo hi samples := by
  have htotal := fun k => total_commitAll (h.take k) lo hi
  have hsent := take_sums_iff (f := inRange lo hi (·.sent)) (g := (·.sent))
    (a := a + m.sent.total lo hi) (b := sent) (l := samples)
  have hrecv := take_sums_iff (f := inRange lo hi (·.received)) (g := (·.received))
    (a := b + m.received.total lo hi) (b := received) (l := samples)
  simp only [inRange_eq_iff] at hsent hrecv
  rw [forall_and]
  simp only [fun k => (htotal k).1, fun k => (htotal k).2, ← add_assoc]
  rw [hsent, hrecv]
  constructor
  · rintro ⟨⟨h1, h2⟩, h3, h4⟩
    exact ⟨h1, h3, fun s hs hout => ⟨h2 s hs hout, h4 s hs hout⟩⟩
  · rintro ⟨h1, h3, hout⟩
    exact ⟨⟨h1, fun s hs ho => (hout s hs ho).1⟩, h3, fun s hs ho => (hout s hs ho).2⟩

theorem totals_ok {totals : TrafficTotals} {accounting : TrafficAccounting} {sent received : Rat} :
    Totals (.ok (totals, accounting)) sent received ↔ totals.sent = sent ∧ totals.received = received := by
  constructor
  · rintro ⟨t, a, h, h1, h2⟩
    cases h
    exact ⟨h1, h2⟩
  · rintro ⟨h1, h2⟩
    exact ⟨totals, accounting, rfl, h1, h2⟩

/-- The totals of a calibration that leaves its effective second open are exact when, and only when,
the deltas before and after it lie on the right side of that second. -/
theorem exact_totals_iff {m : NodeMetrics} {jobs : List MetricErasureJob} {nodeIDs : List String}
    {ledger ledger' : Ledger} {node : Node} {request : TrafficCalibrationRequest}
    {actor : TrafficCalibrationActor} {id : Uuid} {now : Int} {change : TrafficCalibrationChange}
    {samples : List TrafficSample} (hreq : request.effectiveAt = none)
    (h : handleCreate nodeIDs ledger node (trafficAccountingBoundary m now) request actor id now =
      .ok (ledger', change)) (hnew : change.replayed = false) (hfollows : Follows m samples) :
    ExactTotals m ledger' jobs node request now samples ↔ ExactWhen m jobs node request now samples := by
  unfold ExactWhen
  by_cases hwindow : validateTrafficCalibrationWindow (requestWindow node now) = true
  swap
  · -- the resolver fails at the time of the calibration itself
    refine ⟨fun hexact => ?_, fun hw => absurd hw.1 hwindow⟩
    obtain ⟨t, a, ht, -⟩ := hexact 0 now rfl
    unfold cycleTotals latestState at ht
    rw [if_pos (by simpa using hwindow)] at ht
    cases ht
  obtain ⟨hstart, hnext⟩ := billingPeriod_dvd now node.trafficResetDay
  have hafter := fun (m' : NodeMetrics) (at_ : Int) hp =>
    @cycleTotals_after _ _ _ _ _ _ _ _ _ _ m' jobs at_ hreq h hnew hp hwindow
  -- the totals do not depend on the time in the period
  have hperiod : ∀ P : Nat → Prop, (∀ k, P k) ↔ ∀ k at_,
      billingPeriod at_ node.trafficResetDay = billingPeriod now node.trafficResetDay → P k :=
    fun P => ⟨fun hP k _ _ => hP k, fun hP k => hP k now rfl⟩
  rw [and_iff_right hwindow]
  by_cases herased : ((latestErasureCutoff jobs node.id).any fun c =>
      openEffective node (trafficAccountingBoundary m now) now ≤ c) = true
  · have hraw := running_total_iff hfollows (billingPeriod now node.trafficResetDay).1
      (billingPeriod now node.trafficResetDay).2 request.targetSent request.targetReceived 0 0
    simp only [zero_add] at hraw
    simp only [herased, true_implies, Bool.true_eq_false, false_implies, and_true]
    rw [← hraw, hperiod]
    refine forall_congr' fun k => forall_congr' fun at_ => forall_congr' fun hp => ?_
    rw [hafter _ _ hp, if_pos herased, totals_ok]
    simp only [queryTrafficUsage, queryMetricSum, unix_mul_second hstart, unix_mul_second hnext]
  · have hcal := running_total_iff hfollows
      (openEffective node (trafficAccountingBoundary m now) now + 1)
      (billingPeriod now node.trafficResetDay).2 request.targetSent request.targetReceived
      request.targetSent request.targetReceived
    rw [add_eq_left, add_eq_left, Series.total_eq_zero_iff m.sent_nonneg,
      Series.total_eq_zero_iff m.received_nonneg] at hcal
    simp only [herased, Bool.false_eq_true, false_implies, true_and, true_implies]
    rw [SilentInside, SilentInside, ← hcal, hperiod]
    refine forall_congr' fun k => forall_congr' fun at_ => forall_congr' fun hp => ?_
    rw [hafter _ _ hp, if_neg herased, totals_ok]

/-! ## A report in the second of the calibration -/

/-- A report some nanoseconds after midnight. -/
def sampleReport (offset : Int) (received sent : Nat) : TrafficSample where
  receipt :=
    { sampleID := "5b0f9c54-31c2-4f6e-8f0a-6f6f3a9d2c11", capturedAt := sampleMidnight + offset
      payloadDigest := "", credentialFingerprint := "", protocolVersion := 2, reportIntervalMS := 10000
      customSamplesJSON := "" }
  receivedCounter := received
  sentCounter := sent
  received := received
  sent := sent
  received_nonneg := Nat.cast_nonneg _
  sent_nonneg := Nat.cast_nonneg _

/-- The time of the calibration. -/
def sampleNow : Int := sampleMidnight + 700000000

/-- The report half a second after midnight is before the calibration and after its effective second,
midnight: the targets include it and the resolver adds it again. -/
theorem boundary_sample_counted_twice :
    let samples := [sampleReport (-10 * second) 0 0, sampleReport 500000000 100 50]
    let m := NodeMetrics.empty.commitAll samples
    Follows NodeMetrics.empty samples ∧
      ∃ ledger change totals accounting,
        handleCreate ["n1"] [] sampleNode (trafficAccountingBoundary m sampleNow) sampleRequest
          sampleActor sampleEventID sampleNow = .ok (ledger, change) ∧ change.replayed = false ∧
        cycleTotals m ledger [] sampleNode sampleNow = .ok (totals, accounting) ∧
        totals.sent = sampleRequest.targetSent + 50 ∧
        totals.received = sampleRequest.targetReceived + 100 := by
  refine ⟨by decide +kernel, _, _, _, _, rfl, rfl, rfl, ?_, ?_⟩ <;> decide +kernel

/-- The store after one report, ten seconds before midnight. -/
def sampleMetrics : NodeMetrics := NodeMetrics.empty.commit (sampleReport (-10 * second) 0 0)

/-- When the last report before the calibration lies on a whole second, the totals are exact. -/
theorem exact_totals_sample : ∃ ledger change,
    handleCreate ["n1"] [] sampleNode (trafficAccountingBoundary sampleMetrics sampleNow)
        sampleRequest sampleActor sampleEventID sampleNow = .ok (ledger, change) ∧
      ExactTotals sampleMetrics ledger [] sampleNode sampleRequest sampleNow [sampleReport 900000000 100 50] := by
  obtain ⟨ledger, change, hcreate, hnew⟩ : ∃ ledger change,
      handleCreate ["n1"] [] sampleNode (trafficAccountingBoundary sampleMetrics sampleNow)
        sampleRequest sampleActor sampleEventID sampleNow = .ok (ledger, change) ∧
          change.replayed = false := by
    refine ⟨_, _, rfl, ?_⟩
    rfl
  refine ⟨ledger, change, hcreate, (exact_totals_iff rfl hcreate hnew ?_).mpr ?_⟩ <;> decide +kernel

end Beat.Traffic
