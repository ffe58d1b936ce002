import Beat.Ingest.Attempt
import Beat.Lib.Run

/-!
# Exactly-once ingestion

Runs of the ingestion of one node: calls of `PrepareAgentReport`, `Commit` and `Close` in any order,
where each write of the engine is applied, fails, or fails to the caller although it was applied.

A plan that waits in the map is *fresh*: its sample is later than every stored one, and its deltas are
those against the stored counters. Or it is the last one that was written, and writing it again
changes nothing. So the store is always a *chain*: each sample was fresh when it was written first.

* `Chain`: the samples of the store, each fresh for those before it; `Chain.deltas_points`: its deltas.
* `ingest_inv`: the invariant of a run.
* `exactly_once`: what a run has stored.
* `disabled_delta_missing`: a policy may leave the deltas out.
-/

namespace Beat.Ingest

open List

open Traffic (AgentReceipt NodeMetrics TrafficSample Follows readAgentReceipt)

/-! ## Chains of samples -/

/-- The store after some samples. -/
def stored (cs : List AgentPoints) : NodeMetrics := cs.foldl writePoints NodeMetrics.empty

theorem stored_snoc (cs : List AgentPoints) (c : AgentPoints) : stored (cs ++ [c]) = writePoints (stored cs) c := by
  unfold stored
  rw [foldl_append]
  rfl

/-- Points that are later than the store and whose deltas are taken against its counters. -/
structure Fresh (m : NodeMetrics) (points : AgentPoints) : Prop where
  positive : 0 < points.capturedAt
  later : ∀ p ∈ m.receipts, p.1 < points.capturedAt
  delta : ∀ d, ∀ v ∈ points.delta d, ∃ current ∈ points.counter d,
    v = counterDelta (counters m d) current points.capturedAt

/-- Each sample was fresh for the samples before it. -/
inductive Chain : List AgentPoints → Prop
  | nil : Chain []
  | snoc {cs c} : Chain cs → Fresh (stored cs) c → Chain (cs ++ [c])

theorem putOption_points {α : Type} {s : Series α} {t : Int} (h : ∀ p ∈ s, p.1 < t) (o : Option α) :
    (putOption s t o).points = s.points ++ (o.map fun v => (t, v)).toList := by
  cases o with
  | none => simp [putOption]
  | some v => exact Series.put_points h v

/-- The points that the samples have in one series. -/
def pointsOf (f : AgentPoints → Option Rat) (cs : List AgentPoints) : List (Int × Rat) :=
  cs.flatMap fun c => ((f c).map fun v => (c.capturedAt, v)).toList

theorem pointsOf_snoc (f : AgentPoints → Option Rat) (cs : List AgentPoints) (c : AgentPoints) :
    pointsOf f (cs ++ [c]) = pointsOf f cs ++ ((f c).map fun v => (c.capturedAt, v)).toList := by
  simp [pointsOf]

variable {cs : List AgentPoints} {m : NodeMetrics} {s : IngestState}

theorem mem_pointsOf {f : AgentPoints → Option Rat} {p : Int × Rat} (h : p ∈ pointsOf f cs) :
    ∃ c ∈ cs, p.1 = c.capturedAt := by
  obtain ⟨c, hc, hp⟩ := mem_flatMap.mp h
  refine ⟨c, hc, ?_⟩
  rw [Option.mem_toList, Option.map_eq_some_iff] at hp
  obtain ⟨v, -, rfl⟩ := hp
  rfl

theorem counters_writePoints (m : NodeMetrics) (c : AgentPoints) (d : Direction) :
    counters (writePoints m c) d = putOption (counters m d) c.capturedAt (c.counter d) := by
  cases d <;> rfl

theorem deltas_writePoints (m : NodeMetrics) (c : AgentPoints) (d : Direction) :
    deltas (writePoints m c) d = putOption (deltas m d) c.capturedAt (c.delta d) := by
  cases d <;> rfl

/-- Writing the same points twice is writing them once. -/
theorem writePoints_writePoints (m : NodeMetrics) (c : AgentPoints) :
    writePoints (writePoints m c) c = writePoints m c := by
  have hoption : ∀ (s : Series Rat) o,
      putOption (putOption s c.capturedAt o) c.capturedAt o = putOption s c.capturedAt o := by
    intro s o
    cases o with
    | none => rfl
    | some v => exact Series.put_put s _ v
  unfold writePoints
  simp only [Series.put_put, hoption]

namespace Chain

variable {cs : List AgentPoints} {c : AgentPoints}

/-- The series of the store. -/
theorem points (h : Chain cs) : (stored cs).receipts.points = cs.map (fun c => (c.capturedAt, c.receipt)) ∧
      (∀ d, (counters (stored cs) d).points = pointsOf (·.counter d) cs) ∧
      ∀ d, (deltas (stored cs) d).points = pointsOf (·.delta d) cs := by
  induction h with
  | nil => exact ⟨rfl, fun d => by cases d <;> rfl, fun d => by cases d <;> rfl⟩
  | @snoc cs c _ hfresh ih =>
    obtain ⟨hreceipts, hcounters, hdeltas⟩ := ih
    -- every point is at the time of an earlier sample
    have hearlier : ∀ c' ∈ cs, c'.capturedAt < c.capturedAt := by
      intro c' hc'
      have hmem : (c'.capturedAt, c'.receipt) ∈ (stored cs).receipts.points := by
        rw [hreceipts]
        exact mem_map_of_mem hc'
      exact hfresh.later _ hmem
    have hseries : ∀ (s : Series Rat) f, s.points = pointsOf f cs → ∀ p ∈ s, p.1 < c.capturedAt := by
      intro s f hs p hp
      have hp' : p ∈ pointsOf f cs := hs ▸ hp
      obtain ⟨c', hc', htime⟩ := mem_pointsOf hp'
      rw [htime]
      exact hearlier c' hc'
    rw [stored_snoc]
    refine ⟨?_, fun d => ?_, fun d => ?_⟩
    · rw [map_append, ← hreceipts]
      exact Series.put_points hfresh.later c.receipt
    · rw [counters_writePoints, putOption_points (hseries _ _ (hcounters d)), hcounters d, pointsOf_snoc]
    · rw [deltas_writePoints, putOption_points (hseries _ _ (hdeltas d)), hdeltas d, pointsOf_snoc]

/-- A fresh sample is later than those of the chain. -/
theorem lt_fresh (h : Chain cs) (hfresh : Fresh (stored cs) c) {a : AgentPoints} (ha : a ∈ cs) :
    a.capturedAt < c.capturedAt := by
  have hmem : (a.capturedAt, a.receipt) ∈ (stored cs).receipts.points := by
    rw [h.points.1]
    exact mem_map_of_mem ha
  exact hfresh.later _ hmem

/-- The samples are in the order of time, after the epoch. -/
theorem increasing (h : Chain cs) :
    cs.Pairwise (fun a b => a.capturedAt < b.capturedAt) ∧ ∀ c ∈ cs, 0 < c.capturedAt := by
  induction h with
  | nil => exact ⟨List.Pairwise.nil, fun c hc => nomatch hc⟩
  | @snoc cs c hchain hfresh ih =>
    constructor
    · refine pairwise_append.mpr ⟨ih.1, pairwise_singleton _ _, fun a ha b hb => ?_⟩
      obtain rfl := mem_singleton.mp hb
      exact hchain.lt_fresh hfresh ha
    · intro a ha
      rcases mem_append.mp ha with ha | ha
      · exact ih.2 a ha
      · obtain rfl := mem_singleton.mp ha
        exact hfresh.positive

end Chain

/-- The deltas of the samples: for each one that keeps its delta, the step of its counter from the last
counter kept before it. -/
def deltaPoints (d : Direction) : Option Rat → List AgentPoints → List (Int × Rat)
  | _, [] => []
  | previous, c :: cs =>
    match c.counter d with
    | none => deltaPoints d previous cs
    | some current =>
      ((c.delta d).map fun _ => (c.capturedAt, counterStep previous current)).toList ++
        deltaPoints d (some current) cs

/-- The last counter of the samples, after a previous one. -/
def lastCounter (d : Direction) (previous : Option Rat) (cs : List AgentPoints) : Option Rat :=
  cs.foldl (fun previous c => (c.counter d).or previous) previous

theorem deltaPoints_append (d : Direction) (previous : Option Rat) (cs ds : List AgentPoints) :
    deltaPoints d previous (cs ++ ds) =
      deltaPoints d previous cs ++ deltaPoints d (lastCounter d previous cs) ds := by
  induction cs generalizing previous with
  | nil => rfl
  | cons c cs ih =>
    rw [cons_append, deltaPoints, deltaPoints, lastCounter, foldl_cons]
    cases hc : c.counter d with
    | none => exact ih previous
    | some current =>
      simp only
      rw [ih (some current), append_assoc]
      rfl

theorem lastCounter_snoc (d : Direction) (cs : List AgentPoints) (c : AgentPoints) :
    lastCounter d none (cs ++ [c]) = (c.counter d).or (lastCounter d none cs) := by
  unfold lastCounter
  rw [foldl_append]
  rfl

/-- The last counter is the one that the store has last. -/
theorem lastCounter_eq (d : Direction) (cs : List AgentPoints) :
    lastCounter d none cs = (pointsOf (·.counter d) cs).getLast?.map (·.2) := by
  induction cs using reverseRecOn with
  | nil => rfl
  | append_singleton cs c ih =>
    rw [lastCounter_snoc, pointsOf_snoc, ih]
    cases c.counter d with
    | none => simp
    | some v => simp

/-- The deltas of a chain. -/
theorem Chain.deltas_points (h : Chain cs) (d : Direction) :
    (deltas (stored cs) d).points = deltaPoints d none cs := by
  rw [h.points.2.2 d]
  induction h with
  | nil => rfl
  | @snoc cs c hchain hfresh ih =>
    rw [pointsOf_snoc, deltaPoints_append, ih]
    congr 1
    cases hdelta : c.delta d with
    | none =>
      rw [deltaPoints]
      cases c.counter d <;> simp [hdelta, deltaPoints]
    | some v =>
      obtain ⟨current, hcurrent, hv⟩ := hfresh.delta d v hdelta
      have hbefore : ∀ p ∈ counters (stored cs) d, 0 < p.1 ∧ p.1 < c.capturedAt := by
        intro p hp
        have hp' : p ∈ pointsOf (·.counter d) cs := hchain.points.2.1 d ▸ hp
        obtain ⟨c', hc', htime⟩ := mem_pointsOf hp'
        rw [htime]
        exact ⟨hchain.increasing.2 c' hc', hchain.lt_fresh hfresh hc'⟩
      rw [hv, counterDelta_eq hbefore, hchain.points.2.1 d, ← lastCounter_eq, deltaPoints,
        Option.mem_def.mp hcurrent]
      simp [hdelta, deltaPoints]

/-! ## Runs -/

inductive IngestEvent where
  | prepare (call : PrepareCall)
  | commit (call : CommitCall)
  | close

/-- A step of a run: the call, and the write that the engine applied. -/
structure IngestLabel where
  event : IngestEvent
  written : Option Write

/-- The state after a call, and the write that the engine applied. -/
def ingest (s : IngestState) : IngestEvent → IngestState × Option Write
  | .prepare call => ((prepareAgentReport s call).1, none)
  | .commit call => ((commit s call).1, (commit s call).2.2)
  | .close => (close s, none)

def IngestStep (s : IngestState) (l : IngestLabel) (s' : IngestState) : Prop :=
  ingest s l.event = (s', l.written)

/-- The calls of `PrepareAgentReport`. -/
def prepares (ls : List IngestLabel) : List PrepareCall :=
  ls.filterMap fun l => match l.event with
    | .prepare call => some call
    | _ => none

/-- The writes that the engine applied. -/
def writes (ls : List IngestLabel) : List Write := ls.filterMap (·.written)

/-- The first write of each plan. -/
def firstWrites (ws : List Write) : List Write :=
  ws.foldl (fun firsts w => if firsts.any (·.serial = w.serial) then firsts else firsts ++ [w]) []

/-- The committed samples, in the order of their commits. -/
def committed (ls : List IngestLabel) : List AgentPoints := (firstWrites (writes ls)).map (·.points)

/-- The server time does not decrease: a clock that a call reads is not behind the time that an
earlier call was given. -/
def ServerTime (calls : List PrepareCall) : Prop := calls.Pairwise fun a b => a.now ≤ b.clock

/-- The points are those of a report: its receipt, and the counters and deltas that its policy keeps. -/
structure MadeFrom (call : PrepareCall) (points : AgentPoints) : Prop where
  time : points.capturedAt ≤ call.now + maximumAgentClockSkew
  le : points.capturedAt ≤ maxInt64
  receipt : ∃ receipt ∈ call.receipt, points.receipt = agentReceiptPoint receipt
  values : ∃ metrics ∈ call.report.metrics, ∃ enabled : EnabledBuiltins, call.enabled = .ok enabled ∧
    (∀ d, points.counter d = if enabled.allows (.total d) then some (metrics.counter d) else none) ∧
    ∀ d, (points.delta d).isSome = enabled.allows (.delta d)

section steps

variable {s s' : IngestState} {call : PrepareCall} {receipt : AgentReceipt} {points : AgentPoints}

theorem capturedAt_receipt (h : call.receipt = some receipt) : receipt.capturedAt = call.report.capturedAt := by
  obtain ⟨digest, -, h⟩ := Option.bind_eq_some_iff.mp h
  obtain ⟨sources, -, rfl⟩ := Option.map_eq_some_iff.mp h
  rfl

variable {m : NodeMetrics}

/-- What a new plan holds. -/
theorem planPoints_spec (h : planPoints m call receipt = .ok points) :
    ∃ metrics ∈ call.report.metrics, ∃ enabled, call.enabled = .ok enabled ∧
      reportPoints m enabled metrics receipt = .ok points := by
  unfold planPoints at h
  split at h
  · cases h
  rename_i enabled henabled
  split at h
  · cases h
  split at h
  · cases h
  split at h
  · cases h
  rename_i metrics hmetrics
  split at h
  · cases h
  rename_i points' hpoints
  split at h <;> cases h
  exact ⟨metrics, hmetrics, enabled, henabled, hpoints⟩

/-- When nothing is newer than the clock allows, a report without a matching receipt is the latest. -/
theorem later_of_noMatch
    (hclock : ∀ p ∈ m.receipts, 0 < p.1 ∧ p.1 ≤ maxInt64 ∧ p.1 ≤ call.clock + maximumAgentClockSkew)
    (h : findMatchingAgentReceipt m call = .ok none) : ∀ p ∈ m.receipts, p.1 < call.report.capturedAt := by
  have hread : readAgentReceipt m call.clock "" 0 maxInt64 =
      (scanRange m.receipts (fun p => "" = "" || p.2.sampleID = "") (0, maxInt64)).map (·.2) := by
    unfold readAgentReceipt latestProbeEnd
    rw [if_pos rfl, scanLatestRows_plan]
    exact fun p hp _ _ => ⟨fun _ => (hclock p hp).2.1, fun _ => (hclock p hp).2.2⟩
  unfold findMatchingAgentReceipt at h
  simp only at h
  split_ifs at h
  split at h
  · cases h
  split at h
  · cases h
  rw [hread] at h
  intro p hp
  have htaken := (@scanRange_taken _ (fun p : Int × AgentReceipt => "" = "" || p.2.sampleID = "")
    (0, maxInt64) p).mpr ⟨le_of_lt (hclock p hp).1, (hclock p hp).2.1, rfl⟩
  cases hlast : scanRange m.receipts (fun p => "" = "" || p.2.sampleID = "") (0, maxInt64) with
  | none =>
    have := Series.latest_eq_none.mp hlast p hp
    rw [htaken] at this
    cases this
  | some latest =>
    rw [hlast] at h
    simp only [Option.map_some] at h
    split_ifs at h with horder
    obtain ⟨hmem, -, hmax⟩ := Series.latest_eq_some hlast
    rw [m.captured latest hmem, not_le] at horder
    exact lt_of_le_of_lt (hmax p hp htaken) horder

/-- The points of a new plan are those of its report, and fresh. -/
theorem planPoints_fresh (hclock : ∀ p ∈ s.metrics.receipts,
      0 < p.1 ∧ p.1 ≤ maxInt64 ∧ p.1 ≤ call.clock + maximumAgentClockSkew)
    (hvalid : call.report.validate call.now = .ok ()) (hreceipt : call.receipt = some receipt)
    (hmatch : findMatchingAgentReceipt s.metrics call = .ok none)
    (h : planPoints s.metrics call receipt = .ok points) : MadeFrom call points ∧ Fresh s.metrics points := by
  obtain ⟨metrics, hmetrics, enabled, henabled, hpoints⟩ := planPoints_spec h
  obtain ⟨hr, hcounter, hdelta⟩ := reportPoints_spec hpoints
  have htime : points.capturedAt = call.report.capturedAt := by
    rw [AgentPoints.capturedAt, hr, agentReceiptPoint_capturedAt, capturedAt_receipt hreceipt]
  obtain ⟨hpos, hnow⟩ := AgentReport.validate_time hvalid
  refine ⟨⟨htime ▸ hnow, htime ▸ call.report.captured_le, ⟨receipt, hreceipt, hr⟩, metrics, hmetrics, enabled,
    henabled, hcounter, fun d => ?_⟩, htime ▸ hpos, htime ▸ later_of_noMatch hclock hmatch, fun d v hv => ?_⟩
  · rw [(hdelta d).1]
    split_ifs with hd
    · exact hd.symm
    · exact ((Bool.not_eq_true _).mp hd).symm
  · rw [Option.mem_def, (hdelta d).1] at hv
    split_ifs at hv with hkept
    cases hv
    refine ⟨metrics.counter d, ?_, ?_⟩
    · rw [Option.mem_def, hcounter d, if_pos ((hdelta d).2 hkept)]
    · rw [htime, capturedAt_receipt hreceipt]

end steps

/-! ## The invariant -/

theorem firstWrites_snoc (ws : List Write) (w : Write) : firstWrites (ws ++ [w]) =
      if (firstWrites ws).any (·.serial = w.serial) then firstWrites ws else firstWrites ws ++ [w] := by
  unfold firstWrites
  rw [foldl_append]
  rfl

/-- The plan of the map: it is fresh and was never written, or it is the last one that was. -/
structure PlanOk (ws : List Write) (calls : List PrepareCall) (m : NodeMetrics) (made : Nat)
    (plan : PreparedAgentReport) : Prop where
  serial_lt : plan.serial < made
  points : ∃ points, plan.points = some points ∧ (∃ call ∈ calls, MadeFrom call points) ∧
    (((∀ w ∈ firstWrites ws, w.serial ≠ plan.serial) ∧ Fresh m points) ∨
      (firstWrites ws).getLast? = some ⟨plan.serial, points⟩)

/-- A plan stays as good as it was. -/
theorem PlanOk.mono {ws : List Write} {calls : List PrepareCall} {made made' : Nat}
    {plan plan' : PreparedAgentReport} (h : PlanOk ws calls m made plan) (calls' : List PrepareCall)
    (hmade : made ≤ made') (hserial : plan'.serial = plan.serial) (hpoints : plan'.points = plan.points) :
    PlanOk ws (calls ++ calls') m made' plan' where
  serial_lt := hserial ▸ lt_of_lt_of_le h.serial_lt hmade
  points :=
    let ⟨points, hp, ⟨call, hcall, hm⟩, hstate⟩ := h.points
    ⟨points, hpoints.trans hp, ⟨call, mem_append_left _ hcall, hm⟩, hserial ▸ hstate⟩

/-- What holds after the writes `ws` and the calls `calls`. -/
structure IngestInv (ws : List Write) (calls : List PrepareCall) (s : IngestState) : Prop where
  chain : Chain ((firstWrites ws).map (·.points))
  metrics : s.metrics = stored ((firstWrites ws).map (·.points))
  first : ∀ w ∈ ws, w ∈ firstWrites ws
  serial_lt : ∀ w ∈ firstWrites ws, w.serial < s.made
  madeFrom : ∀ w ∈ firstWrites ws, ∃ call ∈ calls, MadeFrom call w.points
  plan : ∀ plan ∈ s.prepared, PlanOk ws calls s.metrics s.made plan
  attempt : ∀ attempt ∈ s.attempt, attempt.duplicate = false → s.prepared.isSome = true

namespace IngestInv

variable {ws : List Write} {calls : List PrepareCall} {s s' : IngestState} {call : PrepareCall}

theorem init : IngestInv [] [] .init where
  chain := .nil
  metrics := rfl
  first := fun _ h => nomatch h
  serial_lt := fun _ h => nomatch h
  madeFrom := fun _ h => nomatch h
  plan := fun _ h => nomatch h
  attempt := fun _ h => nomatch h

section

variable (h : IngestInv ws calls s)

include h

/-- A step that writes nothing. -/
theorem frame (calls' : List PrepareCall) (hmetrics : s'.metrics = s.metrics) (hmade : s.made ≤ s'.made)
    (hplan : ∀ plan ∈ s'.prepared, PlanOk ws (calls ++ calls') s.metrics s'.made plan)
    (hattempt : ∀ attempt ∈ s'.attempt, attempt.duplicate = false → s'.prepared.isSome = true) :
    IngestInv ws (calls ++ calls') s' where
  chain := h.chain
  metrics := hmetrics.trans h.metrics
  first := h.first
  serial_lt := fun w hw => lt_of_lt_of_le (h.serial_lt w hw) hmade
  madeFrom := fun w hw =>
    let ⟨call, hcall, hm⟩ := h.madeFrom w hw
    ⟨call, mem_append_left _ hcall, hm⟩
  plan := hmetrics ▸ hplan
  attempt := hattempt

/-- The stored receipts are not ahead of the clock of a later call. -/
theorem receipts_clock (htime : ∀ a ∈ calls, a.now ≤ call.clock) :
    ∀ p ∈ s.metrics.receipts, 0 < p.1 ∧ p.1 ≤ maxInt64 ∧ p.1 ≤ call.clock + maximumAgentClockSkew := by
  intro p hp
  rw [h.metrics] at hp
  have hp' : p ∈ ((firstWrites ws).map (·.points)).map fun c => (c.capturedAt, c.receipt) :=
    h.chain.points.1 ▸ hp
  obtain ⟨c, hc, rfl⟩ := mem_map.mp hp'
  obtain ⟨w, hw, rfl⟩ := mem_map.mp hc
  obtain ⟨made, hmade, hfrom⟩ := h.madeFrom w hw
  have hnow := htime made hmade
  refine ⟨h.chain.increasing.2 _ hc, hfrom.le, hfrom.time.trans ?_⟩
  omega

theorem prepare (htime : ∀ a ∈ calls, a.now ≤ call.clock)
    (hexit : PrepareExit s call s') : IngestInv ws (calls ++ [call]) s' := by
  cases hexit with
  | refused =>
    exact h.frame [call] rfl (le_refl _)
      (fun plan hp => (h.plan plan hp).mono [call] (le_refl _) rfl rfl) h.attempt
  | dropped made hfree hmade =>
    refine h.frame [call] rfl hmade (fun plan hp => nomatch hp) fun attempt ha => ?_
    rw [hfree] at ha
    cases ha
  | duplicate attempt hfree hprepared hduplicate =>
    refine h.frame [call] rfl (le_refl _)
      (fun plan hp => (h.plan plan hp).mono [call] (le_refl _) rfl rfl) ?_
    rintro _ ⟨⟩ hfalse
    rw [hduplicate] at hfalse
    cases hfalse
  | resumed plan attempt hfree hplan hprepared hduplicate =>
    refine h.frame [call] rfl (le_refl _) ?_ fun _ _ _ => rfl
    rintro _ ⟨⟩
    exact (h.plan plan hplan).mono [call] (le_refl _) rfl rfl
  | planned receipt points hfree hvalid hreceipt hmatch hpoints =>
    refine h.frame [call] rfl (Nat.le_succ _) ?_ fun _ _ _ => rfl
    rintro _ ⟨⟩
    obtain ⟨hmade, hfresh⟩ := planPoints_fresh (h.receipts_clock htime) hvalid hreceipt hmatch hpoints
    exact ⟨Nat.lt_succ_self _, points, rfl, ⟨call, by simp, hmade⟩,
      .inl ⟨fun w hw => ne_of_lt (h.serial_lt w hw), hfresh⟩⟩

/-- After the engine applied the write of the plan, the plan is the last one written. -/
theorem last_write {w : Write}
    (hstate : ((∀ v ∈ firstWrites ws, v.serial ≠ w.serial) ∧ Fresh s.metrics w.points) ∨
      (firstWrites ws).getLast? = some w) :
    ∃ pre, firstWrites (ws ++ [w]) = pre ++ [w] ∧ Chain ((pre ++ [w]).map (·.points)) ∧
      writePoints s.metrics w.points = stored ((pre ++ [w]).map (·.points)) ∧
      (∀ v ∈ pre, v ∈ firstWrites ws) ∧ ∀ v ∈ firstWrites ws, v ∈ pre ++ [w] := by
  rcases hstate with ⟨hnew, hfresh⟩ | hlast
  · -- the first write of the plan
    have hfirst : firstWrites (ws ++ [w]) = firstWrites ws ++ [w] := by
      rw [firstWrites_snoc, if_neg]
      rw [any_eq_true]
      rintro ⟨v, hv, hserial⟩
      exact hnew v hv (of_decide_eq_true hserial)
    refine ⟨firstWrites ws, hfirst, ?_, ?_, fun v hv => hv, fun v hv => mem_append_left _ hv⟩
    · rw [map_append]
      exact h.chain.snoc (h.metrics ▸ hfresh)
    · rw [map_append, map_singleton, stored_snoc, h.metrics]
  · -- the plan is written again
    obtain ⟨pre, hpre⟩ := getLast?_eq_some_iff.mp hlast
    have hfirst : firstWrites (ws ++ [w]) = firstWrites ws := by
      rw [firstWrites_snoc, if_pos]
      rw [any_eq_true]
      exact ⟨w, mem_of_getLast? hlast, decide_eq_true rfl⟩
    refine ⟨pre, hfirst.trans hpre, hpre ▸ h.chain, ?_, fun v hv => ?_, fun v hv => hpre ▸ hv⟩
    · rw [h.metrics, hpre, map_append, map_singleton, stored_snoc, writePoints_writePoints]
    · rw [hpre]
      exact mem_append_left _ hv

/-- The engine applies the write of the plan. -/
theorem write {plan : PreparedAgentReport} {points : AgentPoints}
    (hplan : s.prepared = some plan) (hpoints : plan.points = some points)
    {prepared : Option PreparedAgentReport} {attempt : Option AgentIngestAttempt}
    (hprepared : ∀ plan' ∈ prepared, plan'.serial = plan.serial ∧ plan'.points = plan.points)
    (hattempt : ∀ a ∈ attempt, a.duplicate = false → prepared.isSome = true) :
    IngestInv (ws ++ [⟨plan.serial, points⟩]) calls
      { s with metrics := writePoints s.metrics points, prepared := prepared, attempt := attempt } := by
  obtain ⟨hlt, points', hp, ⟨call, hcall, hmade⟩, hstate⟩ := h.plan plan hplan
  obtain rfl : points' = points := Option.some.inj (hp.symm.trans hpoints)
  obtain ⟨pre, hfirst, hchain, hstored, hpre, hmem⟩ :=
    @last_write ws calls s h ⟨plan.serial, points'⟩ hstate
  -- a write is an old one or that of the plan
  have hold : ∀ P : Write → Prop, (∀ v ∈ firstWrites ws, P v) → P ⟨plan.serial, points'⟩ →
      ∀ v ∈ firstWrites (ws ++ [⟨plan.serial, points'⟩]), P v := by
    intro P hall hlast v hv
    rw [hfirst] at hv
    rcases mem_append.mp hv with hv | hv
    · exact hall v (hpre v hv)
    · rwa [mem_singleton.mp hv]
  refine ⟨hfirst ▸ hchain, hfirst ▸ hstored, ?_, hold _ h.serial_lt hlt,
    hold _ h.madeFrom ⟨call, hcall, hmade⟩, ?_, hattempt⟩
  · rw [hfirst]
    intro v hv
    rcases mem_append.mp hv with hv | hv
    · exact hmem v (h.first v hv)
    · exact mem_append_right _ hv
  · intro plan' hplan'
    obtain ⟨hs, hpts⟩ := hprepared plan' hplan'
    refine ⟨hs ▸ hlt, points', hpts.trans hp, ⟨call, hcall, hmade⟩, .inr ?_⟩
    rw [hfirst, hs, getLast?_concat]

theorem commit {s' : IngestState} {written : Option Write}
    (hexit : CommitExit s s' written) : IngestInv (ws ++ written.toList) calls s' := by
  have hcalls : calls = calls ++ [] := (append_nil _).symm
  cases hexit with
  | unchanged => rwa [Option.toList_none, append_nil]
  | applied attempt plan points hplan hpoints =>
    refine h.write hplan hpoints (fun _ hp => nomatch hp) ?_
    rintro _ ⟨⟩ hfalse
    cases hfalse
  | failed plan hplan =>
    rw [Option.toList_none, append_nil, hcalls]
    refine h.frame [] rfl (le_refl _) ?_ fun attempt ha hd => rfl
    rintro _ ⟨⟩
    exact (h.plan plan hplan).mono [] (le_refl _) rfl rfl
  | unacknowledged plan points hplan hpoints =>
    refine h.write hplan hpoints ?_ fun _ _ _ => rfl
    rintro _ ⟨⟩
    exact ⟨rfl, rfl⟩

theorem close : IngestInv ws calls (close s) := by
  have hcalls : calls = calls ++ [] := (append_nil _).symm
  unfold Ingest.close
  split
  · exact h
  · rename_i attempt hattempt
    unfold closeAttempt
    split_ifs with hprepared
    · rw [hcalls]
      refine h.frame [] rfl (le_refl _) (fun plan hp => ?_) fun _ ha => nomatch ha
      obtain ⟨hp, -⟩ := Option.filter_eq_some_iff.mp hp
      obtain ⟨plan', hplan', rfl⟩ := Option.map_eq_some_iff.mp hp
      exact (h.plan plan' hplan').mono [] (le_refl _) rfl rfl
    · rw [hcalls]
      exact h.frame [] rfl (le_refl _)
        (fun plan hp => (h.plan plan hp).mono [] (le_refl _) rfl rfl) fun _ ha => nomatch ha

end

end IngestInv

variable {ls : List IngestLabel}

/-- The invariant holds along every run in which the server time does not decrease. -/
theorem ingest_inv (hrun : Lts.Run IngestStep .init ls s) (htime : ServerTime (prepares ls)) :
    IngestInv (writes ls) (prepares ls) s := by
  induction hrun with
  | nil => exact .init
  | @snoc ls l s s' _ hstep ih => ?_
  have hprepares : prepares (ls ++ [l]) = prepares ls ++ prepares [l] := filterMap_append
  have hwrites : writes (ls ++ [l]) = writes ls ++ l.written.toList := by
    unfold writes
    cases hw : l.written <;> simp [hw]
  rw [hprepares] at htime ⊢
  obtain ⟨hbefore, -, hclock⟩ := pairwise_append.mp htime
  have hinv := ih hbefore
  rw [hwrites]
  obtain ⟨event, written⟩ := l
  cases event with
  | prepare call =>
    obtain ⟨rfl, rfl⟩ := Prod.mk.inj hstep
    have hpoints : ∀ plan ∈ s.prepared, plan.points.isSome = true := by
      intro plan hplan
      obtain ⟨points, hp, -⟩ := (hinv.plan plan hplan).points
      rw [hp]
      rfl
    rw [Option.toList_none, append_nil]
    exact hinv.prepare (fun a ha => hclock a ha call (by simp [prepares])) (prepareAgentReport_exit hpoints)
  | commit call =>
    obtain ⟨rfl, rfl⟩ := Prod.mk.inj hstep
    have hnone : prepares [⟨.commit call, (commit s call).2.2⟩] = [] := rfl
    rw [hnone, append_nil]
    exact hinv.commit (commit_exit rfl)
  | close =>
    obtain ⟨rfl, rfl⟩ := Prod.mk.inj hstep
    have hnone : prepares [⟨.close, none⟩] = [] := rfl
    rw [hnone, append_nil, Option.toList_none, append_nil]
    exact hinv.close

/-! ## What a run has stored -/

/-- The report keeps all metrics of the traffic. -/
def KeepsTraffic (call : PrepareCall) : Prop :=
  ∃ enabled : EnabledBuiltins, call.enabled = .ok enabled ∧ ∀ key, enabled.allows key = true

/-- The deltas of samples that all keep them: zero at first, and then the step from the counter of the
sample before. -/
def telescope (d : Direction) : List AgentPoints → List (Int × Rat)
  | [] => []
  | c :: cs =>
    (c.capturedAt, 0) ::
      zipWith (fun a b =>
        (b.capturedAt, counterStep (some ((a.counter d).getD 0)) ((b.counter d).getD 0))) (c :: cs) cs

/-- The deltas after a previous counter. -/
theorem deltaPoints_cons {d : Direction} (c : AgentPoints) (previous : Option Rat)
    (h : ∀ x ∈ c :: cs, (x.counter d).isSome = true ∧ (x.delta d).isSome = true) :
    deltaPoints d previous (c :: cs) = (c.capturedAt, counterStep previous ((c.counter d).getD 0)) ::
      zipWith (fun a b =>
        (b.capturedAt, counterStep (some ((a.counter d).getD 0)) ((b.counter d).getD 0))) (c :: cs) cs := by
  induction cs generalizing c previous with
  | nil =>
    obtain ⟨hcounter, hdelta⟩ := h c mem_cons_self
    obtain ⟨current, hcurrent⟩ := Option.isSome_iff_exists.mp hcounter
    obtain ⟨v, hv⟩ := Option.isSome_iff_exists.mp hdelta
    simp [deltaPoints, hcurrent, hv]
  | cons b cs ih =>
    obtain ⟨hcounter, hdelta⟩ := h c mem_cons_self
    obtain ⟨current, hcurrent⟩ := Option.isSome_iff_exists.mp hcounter
    obtain ⟨v, hv⟩ := Option.isSome_iff_exists.mp hdelta
    rw [deltaPoints, hcurrent]
    simp only [hv, Option.map_some, Option.toList_some, singleton_append, Option.getD_some]
    rw [ih b (some current) fun x hx => h x (mem_cons_of_mem _ hx), zipWith_cons_cons, hcurrent, Option.getD_some]

theorem deltaPoints_telescope {d : Direction}
    (h : ∀ c ∈ cs, (c.counter d).isSome = true ∧ (c.delta d).isSome = true) :
    deltaPoints d none cs = telescope d cs := by
  cases cs with
  | nil => rfl
  | cons c cs => exact deltaPoints_cons c none h

/-- What a run has stored: one sample for each plan that was committed. -/
structure ExactlyOnce (ls : List IngestLabel) (s : IngestState) : Prop where
  /-- The receipts are those of the committed samples, in the order of the commits. -/
  receipts : s.metrics.receipts.points = (committed ls).map fun c => (c.capturedAt, c.receipt)
  increasing : (committed ls).Pairwise fun a b => a.capturedAt < b.capturedAt
  /-- All writes of a sample are of one plan. -/
  single : ∀ v ∈ writes ls, ∀ w ∈ writes ls, v.points.capturedAt = w.points.capturedAt → v = w
  /-- The points of a plan are those of a report of the run. -/
  madeFrom : ∀ w ∈ writes ls, ∃ call ∈ prepares ls, MadeFrom call w.points
  /-- One delta for each committed sample that keeps it. -/
  deltas : ∀ d, (deltas s.metrics d).points = deltaPoints d none (committed ls)
  /-- One delta for each committed sample, when all reports keep the traffic. -/
  telescopes : (∀ call ∈ prepares ls, KeepsTraffic call) →
    ∀ d, (Ingest.deltas s.metrics d).points = telescope d (committed ls)
  /-- A call that commits no new sample changes nothing in the store. -/
  retries : ∀ l s', IngestStep s l s' → ServerTime (prepares (ls ++ [l])) →
    committed (ls ++ [l]) = committed ls → s'.metrics = s.metrics

theorem keeps_of_madeFrom {call : PrepareCall} {points : AgentPoints} (h : MadeFrom call points)
    (hkeeps : KeepsTraffic call) (d : Direction) :
    (points.counter d).isSome = true ∧ (points.delta d).isSome = true := by
  obtain ⟨metrics, -, enabled, henabled, hcounter, hdelta⟩ := h.values
  obtain ⟨enabled', henabled', hall⟩ := hkeeps
  obtain rfl : enabled = enabled' := Except.ok.inj (henabled.symm.trans henabled')
  rw [hcounter d, hdelta d, hall, hall]
  exact ⟨rfl, rfl⟩

theorem IngestInv.kept {ws : List Write} {calls : List PrepareCall} (h : IngestInv ws calls s)
    (hkeeps : ∀ call ∈ calls, KeepsTraffic call) : ∀ c ∈ (firstWrites ws).map (·.points), ∀ d,
      (c.counter d).isSome = true ∧ (c.delta d).isSome = true := by
  intro c hc d
  obtain ⟨w, hw, rfl⟩ := mem_map.mp hc
  obtain ⟨call, hcall, hmade⟩ := h.madeFrom w hw
  exact keeps_of_madeFrom hmade (hkeeps call hcall) d

/-- Whatever the calls of a run and the outcomes of the writes, the store holds every committed sample
once. -/
theorem exactly_once {ls : List IngestLabel} {s : IngestState} (hrun : Lts.Run IngestStep .init ls s)
    (htime : ServerTime (prepares ls)) : ExactlyOnce ls s := by
  have hinv := ingest_inv hrun htime
  have hdeltas : ∀ d, (deltas s.metrics d).points = deltaPoints d none (committed ls) := by
    intro d
    rw [hinv.metrics]
    exact hinv.chain.deltas_points d
  refine ⟨?_, hinv.chain.increasing.1, ?_, fun w hw => hinv.madeFrom w (hinv.first w hw), hdeltas,
    fun hkeeps d => ?_, fun l s' hstep htime' hsame => ?_⟩
  · rw [hinv.metrics]
    exact hinv.chain.points.1
  · intro v hv w hw heq
    have hnodup : ((firstWrites (writes ls)).map fun w => w.points.capturedAt).Nodup := by
      have := hinv.chain.increasing.1
      rw [pairwise_map] at this
      exact pairwise_map.mpr (this.imp fun hlt => ne_of_lt hlt)
    exact inj_on_of_nodup_map hnodup (hinv.first v hv) (hinv.first w hw) heq
  · rw [hdeltas d]
    exact deltaPoints_telescope fun c hc => hinv.kept hkeeps c hc d
  · have hinv' := ingest_inv (hrun.snoc hstep) htime'
    have hstored : s'.metrics = stored (committed (ls ++ [l])) := hinv'.metrics
    rw [hstored, hsame]
    exact hinv.metrics.symm

/-! ## Samples of the traffic accounting -/

/-- The points as a sample of the traffic accounting. -/
def AgentPoints.sample (c : AgentPoints) : TrafficSample where
  receipt := c.receipt
  receivedCounter := (c.counter .received).getD 0
  sentCounter := (c.counter .sent).getD 0
  received := (c.delta .received).getD 0
  sent := (c.delta .sent).getD 0
  received_nonneg := by
    cases h : c.delta .received with
    | none => exact le_refl _
    | some v => exact c.delta_nonneg .received v h
  sent_nonneg := by
    cases h : c.delta .sent with
    | none => exact le_refl _
    | some v => exact c.delta_nonneg .sent v h

theorem putOption_getD {s : Series Rat} {t : Int} {o : Option Rat} (h : o.isSome = true) :
    putOption s t o = s.put t (o.getD 0) := by
  obtain ⟨v, rfl⟩ := Option.isSome_iff_exists.mp h
  rfl

/-- Samples in the order of time follow a store whose deltas are all before them. -/
theorem follows_of_increasing (hreceived : ∀ p ∈ m.received, ∀ c ∈ cs, p.1 < c.capturedAt)
    (hsent : ∀ p ∈ m.sent, ∀ c ∈ cs, p.1 < c.capturedAt)
    (h : cs.Pairwise fun a b => a.capturedAt < b.capturedAt) : Follows m (cs.map (·.sample)) := by
  induction cs generalizing m with
  | nil => trivial
  | cons c cs ih =>
    obtain ⟨hc, hcs⟩ := pairwise_cons.mp h
    have hput : ∀ (s : Series Rat) v, (∀ p ∈ s, ∀ x ∈ c :: cs, p.1 < x.capturedAt) →
        ∀ p ∈ s.put c.capturedAt v, ∀ x ∈ cs, p.1 < x.capturedAt := by
      intro s v hs p hp x hx
      rcases Series.mem_put.mp hp with rfl | ⟨hp, -⟩
      · exact hc x hx
      · exact hs p hp x (mem_cons_of_mem _ hx)
    exact ⟨fun p hp => hreceived p hp c mem_cons_self,
      fun p hp => hsent p hp c mem_cons_self, ih (hput _ _ hreceived) (hput _ _ hsent) hcs⟩

/-- When all reports keep the traffic, a run commits samples that follow each other, as the traffic
accounting assumes it. -/
theorem ingest_commitAll (hrun : Lts.Run IngestStep .init ls s) (htime : ServerTime (prepares ls))
    (hkeeps : ∀ call ∈ prepares ls, KeepsTraffic call) :
    s.metrics = NodeMetrics.empty.commitAll ((committed ls).map (·.sample)) ∧
      Follows NodeMetrics.empty ((committed ls).map (·.sample)) := by
  have hinv := ingest_inv hrun htime
  have hkept := hinv.kept hkeeps
  constructor
  · rw [hinv.metrics, NodeMetrics.commitAll, foldl_map]
    refine foldl_ext _ _ _ fun m c hc => ?_
    unfold writePoints NodeMetrics.commit
    simp only [putOption_getD (hkept c hc _).1, putOption_getD (hkept c hc _).2]
    rfl
  · exact follows_of_increasing (fun p hp => by cases hp) (fun p hp => by cases hp) hinv.chain.increasing.1

/-! ## Runs of given calls -/

/-- The run of some calls. -/
def runCalls (s : IngestState) : List IngestEvent → List IngestLabel × IngestState
  | [] => ([], s)
  | e :: es =>
    let rest := runCalls (ingest s e).1 es
    (⟨e, (ingest s e).2⟩ :: rest.1, rest.2)

theorem run_runCalls (s : IngestState) (es : List IngestEvent) :
    Lts.Run IngestStep s (runCalls s es).1 (runCalls s es).2 := by
  induction es generalizing s with
  | nil => exact .nil
  | cons e es ih => exact .cons rfl (ih _)

/-- A report at a time of its capture, with both counters at one value. -/
def sampleReport (sampleID : String) (capturedAt : Int) (h : capturedAt ≤ maxInt64) (counter : Nat) :
    AgentReport where
  protocolVersion := 2
  sampleID := sampleID
  capturedAt := capturedAt
  captured_le := h
  reportIntervalMS := 10000
  name := "edge"
  host := "192.0.2.1"
  port := 22
  system := []
  metrics := some ⟨fun _ => counter, fun _ => Nat.cast_nonneg _, true⟩
  customMetrics := []
  digest := some "0f"
  sources := some "\x7b\x7d"

/-- A call with a report that was captured a second ago. -/
def sampleCall (sampleID : String) (seconds : Nat) (h : seconds ≤ 9000000000) (counter : Nat)
    (policy : Option (Except IngestError EnabledBuiltins)) : PrepareCall where
  identity :=
    { nodeID := "n1"
      credentialFingerprint := "aaaaaaaaaaaaaaaaaaaaaaaaaaaaaaaaaaaaaaaaaaaaaaaaaaaaaaaaaaaaaaaa" }
  report := sampleReport sampleID (seconds * Instant.second)
    (by unfold Instant.second maxInt64; omega) counter
  now := (seconds + 1) * Instant.second
  policy := policy
  clock := (seconds + 1) * Instant.second

/-- A report, the acknowledgement of whose write is lost; its retry; and a second report. -/
def sampleCalls : List IngestEvent :=
  let first := sampleCall "5b0f9c54-31c2-4f6e-8f0a-6f6f3a9d2c11" 1768435200 (by decide) 100 none
  let second := sampleCall "0a5f8f5e-6a55-4b43-9f2d-0d2a0d6f1c77" 1768436400 (by decide) 175 none
  [.prepare first, .commit { outcome := .unacknowledged }, .close, .prepare first, .commit {}, .close,
    .prepare second, .commit {}, .close]

theorem exactly_once_sample : ExactlyOnce (runCalls .init sampleCalls).1 (runCalls .init sampleCalls).2 ∧
      (writes (runCalls .init sampleCalls).1).length = 2 :=
  ⟨exactly_once (run_runCalls _ _) (by unfold ServerTime; decide +kernel), by decide +kernel⟩

/-- A policy that leaves out the deltas of one direction: the sample is committed without its delta. -/
theorem disabled_delta_missing : let policy := some (.ok (some fun key => key ≠ .delta .received))
    let call := sampleCall "5b0f9c54-31c2-4f6e-8f0a-6f6f3a9d2c11" 1768435200 (by decide) 100 policy
    let run := runCalls .init [.prepare call, .commit {}, .close]
    Lts.Run IngestStep .init run.1 run.2 ∧ ServerTime (prepares run.1) ∧
      (committed run.1).length = 1 ∧ (deltas run.2.metrics .received).points = [] := by
  refine ⟨run_runCalls _ _, ?_⟩
  unfold ServerTime
  decide +kernel

end Beat.Ingest
