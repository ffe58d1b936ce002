import Beat.Ingest.Report

/-!
# Attempts to ingest a report

The ingestion of one node (`store/mts_agent_ingest.go`, `store/mts_agent_prepared.go`).
`PrepareAgentReport` takes the lock of the node, compares the report with the stored receipts and
prepares a plan: the points that the report will write, computed once. `Commit` writes them and
`Close` gives the lock back. A plan whose write may have been applied stays in the map of the store,
so that a retry writes the same points; the map drops it after some time.

The state holds what concerns one node: its series, its plan in the map and the open attempt, which
has the lock. A plan has a number of its own, as the pointer to it is unique in the source.

* `PrepareExit`, `CommitExit`: what a call does to the state.
-/

namespace Beat.Ingest

open Traffic (AgentReceipt NodeMetrics nonneg_put readAgentReceipt)

/-! ## State -/

/-- `preparedAgentReport`. -/
structure PreparedAgentReport where
  serial : Nat
  receipt : AgentReceipt
  points : Option AgentPoints
  admittedAt : Int
  inUse : Bool
  uncertain : Bool

/-- `AgentIngestAttempt`, while it is open. It is `prepared` when it holds the plan of the map, which
stays there as long as it is in use. -/
structure AgentIngestAttempt where
  receipt : AgentReceipt
  prepared : Bool := false
  duplicate : Bool := false

structure IngestState where
  metrics : NodeMetrics
  /-- The plan of the node in `agentPrepared`. -/
  prepared : Option PreparedAgentReport
  /-- The open attempt of the node. -/
  attempt : Option AgentIngestAttempt
  /-- The number of plans made so far. -/
  made : Nat

def IngestState.init : IngestState :=
  { metrics := .empty, prepared := none, attempt := none, made := 0 }

/-- `AgentIdentity`. -/
structure AgentIdentity where
  nodeID : String
  credentialFingerprint : String
  /-- The mode of the credential is `AgentCredentialActive`. -/
  active : Bool := true

/-- A call of `PrepareAgentReport`: its arguments, and what it finds outside the data of the node. -/
structure PrepareCall where
  identity : AgentIdentity
  report : AgentReport
  now : Int
  /-- The outcome of the policy, if the caller gives one. -/
  policy : Option (Except IngestError EnabledBuiltins) := none
  /-- The clock that the scan for the latest receipt reads. -/
  clock : Int
  /-- The shared lock of the metric operations was taken. -/
  locked : Bool := true
  /-- Another operation has the lock of the node. -/
  nodeBusy : Bool := false
  /-- The number of plans of other nodes. -/
  others : Nat := 0
  receiptsReadable : Bool := true
  countersReadable : Bool := true
  acceleratorsReadable : Bool := true

/-! ## Prepare -/

/-- `findMatchingAgentReceipt`: by the time of the capture, by the sample id, and then by order. -/
def findMatchingAgentReceipt (m : NodeMetrics) (call : PrepareCall) : Except IngestError (Option AgentReceipt) :=
  let at' := call.report.capturedAt
  if call.receiptsReadable = false then .error .unavailable
  else
    match readAgentReceipt m call.clock "" at' at' with
    | some exact => .ok (some exact)
    | none =>
      match readAgentReceipt m call.clock call.report.sampleID (call.now - maximumAgentSampleAge)
        (call.now + maximumAgentClockSkew) with
      | some byID => .ok (some byID)
      | none =>
        match readAgentReceipt m call.clock "" 0 maxInt64 with
        | none => .ok none
        | some latest => if at' ≤ latest.capturedAt then .error .sampleOrder else .ok none

def maximumPreparedAgentReports : Nat := 128

section

variable (s : IngestState)

/-- `reserveAgentPlan`. -/
def reserveAgentPlan (receipt : AgentReceipt) (now : Int) (others : Nat) :
    IngestState × Except IngestError Unit :=
  let kept := s.prepared.filter fun plan =>
    plan.inUse || decide (Instant.sub now plan.admittedAt ≤ maximumAgentSampleAge)
  match kept with
  | some plan =>
    if plan.receipt ≠ receipt then ({ s with prepared := some plan }, .error .sampleConflict)
    else ({ s with prepared := some { plan with inUse := true } }, .ok ())
  | none =>
    if maximumPreparedAgentReports ≤ others then ({ s with prepared := none }, .error .capacity)
    else
      let plan :=
        { serial := s.made, receipt := receipt, points := none, admittedAt := now, inUse := true
          uncertain := false }
      ({ s with prepared := some plan, made := s.made + 1 }, .ok ())

/-- `releaseAgentPlan`: only a plan whose write may have been applied stays. -/
def releaseAgentPlan : IngestState :=
  { s with
    prepared := (s.prepared.map fun plan => { plan with inUse := false }).filter (·.uncertain) }

/-- The builtin metrics that the report may write. -/
def PrepareCall.enabled (call : PrepareCall) : Except IngestError EnabledBuiltins :=
  match call.policy with
  | some outcome => outcome
  | none => if call.report.customMetrics = [] then .ok none else .error .metricIngestion

/-- The points of a new plan. -/
def planPoints (m : NodeMetrics) (call : PrepareCall) (receipt : AgentReceipt) : Except IngestError AgentPoints :=
  match call.enabled with
  | .error e => .error e
  | .ok enabled =>
    if call.identity.active = false ∧ (call.report.accelerators.any fun a =>
        a.state != "disabled" || a.installationEnabled) then .error .credentialRejected
    else if call.countersReadable = false then .error .unavailable
    else
      match call.report.metrics with
      | none => .error .invalid
      | some metrics =>
        match reportPoints m enabled metrics receipt with
        | .error e => .error e
        | .ok points => if call.acceleratorsReadable = false then .error .unavailable else .ok points

/-- `prepareAgentAttempt`. -/
def prepareAgentAttempt (attempt : AgentIngestAttempt) (call : PrepareCall) :
    IngestState × AgentIngestAttempt × Except IngestError Unit :=
  match findMatchingAgentReceipt s.metrics call with
  | .error e => (s, attempt, .error e)
  | .ok (some existing) =>
    if existing ≠ attempt.receipt then (s, attempt, .error .sampleConflict)
    else (s, { attempt with duplicate := true }, .ok ())
  | .ok none =>
    match reserveAgentPlan s attempt.receipt call.now call.others with
    | (s, .error e) => (s, attempt, .error e)
    | (s, .ok ()) =>
      let attempt := { attempt with prepared := true }
      match s.prepared.bind (·.points) with
      | some _ => (s, attempt, .ok ())
      | none =>
        match planPoints s.metrics call attempt.receipt with
        | .error e => (s, attempt, .error e)
        | .ok points =>
          ({ s with prepared := s.prepared.map fun plan => { plan with points := some points } },
            attempt, .ok ())

/-- `validReceiptDigest`: 64 hexadecimal digits without capitals. -/
def validReceiptDigest (value : String) : Bool :=
  value.utf8ByteSize = 64 && value.toList.all fun c => isHexDigit c && !c.isUpper

/-- The end of an attempt: it gives its plan back. -/
def closeAttempt (attempt : AgentIngestAttempt) : IngestState :=
  if attempt.prepared then releaseAgentPlan s else s

/-- The receipt of a call. -/
def PrepareCall.receipt (call : PrepareCall) : Option AgentReceipt :=
  call.report.digest.bind fun digest => call.report.sources.map fun sources =>
    { sampleID := call.report.sampleID, capturedAt := call.report.capturedAt, payloadDigest := digest
      credentialFingerprint := call.identity.credentialFingerprint
      protocolVersion := agentReportProtocol, reportIntervalMS := call.report.reportIntervalMS
      customSamplesJSON := sources }

/-- `PrepareAgentReport`. -/
def prepareAgentReport (call : PrepareCall) : IngestState × Except IngestError Bool :=
  match call.report.validate call.now with
  | .error e => (s, .error e)
  | .ok () =>
    if call.identity.nodeID = "" ∨ validReceiptDigest call.identity.credentialFingerprint = false then
      (s, .error .invalid)
    else
      match call.receipt with
      | none => (s, .error .invalid)
      | some receipt =>
        if call.locked = false then (s, .error .unavailable)
        else if s.attempt.isSome ∨ call.nodeBusy = true then (s, .error .capacity)
        else
          match prepareAgentAttempt s { receipt := receipt } call with
          | (s, attempt, .error e) => (closeAttempt s attempt, .error e)
          | (s, attempt, .ok ()) => ({ s with attempt := some attempt }, .ok attempt.duplicate)

/-! ## Commit and Close -/

/-- How a write of the engine ends. -/
inductive WriteOutcome where
  | applied
  /-- It fails without effect. -/
  | failed
  /-- It fails to the caller although it was applied. -/
  | unacknowledged
  deriving DecidableEq

/-- A call of `Commit`: what it finds outside the data of the node. -/
structure CommitCall where
  /-- The context is done or the store is closed. -/
  cancelled : Bool := false
  durable : Bool := true
  outcome : WriteOutcome := .applied
  deriving DecidableEq

/-- Write a value, if there is one. -/
def putOption {α : Type} (s : Series α) (t : Int) : Option α → Series α
  | none => s
  | some v => s.put t v

theorem nonneg_putOption {s : Series Rat} (h : ∀ p ∈ s, 0 ≤ p.2) {t : Int} {o : Option Rat}
    (ho : ∀ v ∈ o, 0 ≤ v) : ∀ p ∈ putOption s t o, 0 ≤ p.2 := by
  cases o with
  | none => exact h
  | some v => exact nonneg_put h (ho v rfl)

/-- Write the points of a plan. -/
def writePoints (m : NodeMetrics) (points : AgentPoints) : NodeMetrics where
  receipts := m.receipts.put points.capturedAt points.receipt
  receivedCounter := putOption m.receivedCounter points.capturedAt (points.counter .received)
  sentCounter := putOption m.sentCounter points.capturedAt (points.counter .sent)
  received := putOption m.received points.capturedAt (points.delta .received)
  sent := putOption m.sent points.capturedAt (points.delta .sent)
  captured := by
    intro p hp
    rcases Series.mem_put.mp hp with rfl | ⟨hp, -⟩
    · rfl
    · exact m.captured p hp
  received_nonneg := nonneg_putOption m.received_nonneg (points.delta_nonneg .received)
  sent_nonneg := nonneg_putOption m.sent_nonneg (points.delta_nonneg .sent)

/-- A write that the engine applied: the plan and its points. -/
structure Write where
  serial : Nat
  points : AgentPoints

/-- `Commit`, with the write that the engine applied. -/
def commit (call : CommitCall) : IngestState × Except IngestError Bool × Option Write :=
  match s.attempt with
  | none => (s, .error .closed, none)
  | some attempt =>
    if call.cancelled then (s, .error .unavailable, none)
    else if attempt.duplicate then
      (s, if call.durable then .ok true else .error .unavailable, none)
    else
      -- the attempt holds the plan of the map, and its points are there
      match s.prepared with
      | none => (s, .error .closed, none)
      | some plan =>
        match plan.points with
        | none => (s, .error .closed, none)
        | some points =>
          let write : Write := { serial := plan.serial, points := points }
          match call.outcome with
          | .applied =>
            ({ s with
                metrics := writePoints s.metrics points, prepared := none
                attempt := some { attempt with prepared := false, duplicate := true } }, .ok false, some write)
          | .failed =>
            ({ s with prepared := some { plan with uncertain := true } }, .error .unavailable, none)
          | .unacknowledged =>
            ({ s with
                metrics := writePoints s.metrics points
                prepared := some { plan with uncertain := true } }, .error .unavailable, some write)

/-- `Close`. -/
def close : IngestState :=
  match s.attempt with
  | none => s
  | some attempt => { closeAttempt s attempt with attempt := none }

end

/-! ## What the calls do -/

section exits

variable {s s' : IngestState} {call : PrepareCall}

/-- What `PrepareAgentReport` does to a state whose plan has its points. -/
inductive PrepareExit (s : IngestState) (call : PrepareCall) : IngestState → Prop
  /-- The call fails and changes nothing. -/
  | refused : PrepareExit s call s
  /-- The call fails; the plan of the node was dropped, or a new one was made and given up. -/
  | dropped (made : Nat) (hfree : s.attempt = none) (hmade : s.made ≤ made) :
      PrepareExit s call { s with prepared := none, made := made }
  /-- The report is stored already. -/
  | duplicate (attempt : AgentIngestAttempt) (hfree : s.attempt = none)
      (hprepared : attempt.prepared = false) (hduplicate : attempt.duplicate = true) :
      PrepareExit s call { s with attempt := some attempt }
  /-- The attempt takes the plan that an earlier attempt left. -/
  | resumed (plan : PreparedAgentReport) (attempt : AgentIngestAttempt) (hfree : s.attempt = none)
      (hplan : s.prepared = some plan) (hprepared : attempt.prepared = true)
      (hduplicate : attempt.duplicate = false) :
      PrepareExit s call
        { s with prepared := some { plan with inUse := true }, attempt := some attempt }
  /-- The attempt makes a new plan. -/
  | planned (receipt : AgentReceipt) (points : AgentPoints) (hfree : s.attempt = none)
      (hvalid : call.report.validate call.now = .ok ()) (hreceipt : call.receipt = some receipt)
      (hmatch : findMatchingAgentReceipt s.metrics call = .ok none)
      (hpoints : planPoints s.metrics call receipt = .ok points) :
      PrepareExit s call
        { s with
          prepared := some
            { serial := s.made, receipt := receipt, points := some points, admittedAt := call.now
              inUse := true, uncertain := false }
          attempt := some { receipt := receipt, prepared := true }
          made := s.made + 1 }

/-- A plan in the map that is reserved is the one of the state. -/
theorem reserveAgentPlan_cases (receipt : AgentReceipt) (now : Int) (others : Nat) :
    (∃ e, reserveAgentPlan s receipt now others = (s, .error e)) ∨
      (∃ e, reserveAgentPlan s receipt now others = ({ s with prepared := none }, .error e)) ∨
      (∃ plan, s.prepared = some plan ∧ reserveAgentPlan s receipt now others =
        ({ s with prepared := some { plan with inUse := true } }, .ok ())) ∨
      reserveAgentPlan s receipt now others =
        ({ s with
            prepared := some
              { serial := s.made, receipt := receipt, points := none, admittedAt := now
                inUse := true, uncertain := false }
            made := s.made + 1 }, .ok ()) := by
  unfold reserveAgentPlan
  simp only
  split
  · rename_i plan hkept
    have hplan : s.prepared = some plan := (Option.filter_eq_some_iff.mp hkept).1
    split_ifs with hreceipt
    · exact .inl ⟨.sampleConflict, by rw [← hplan]⟩
    · exact .inr (.inr (.inl ⟨plan, hplan, rfl⟩))
  · split_ifs
    · exact .inr (.inl ⟨.capacity, rfl⟩)
    · exact .inr (.inr (.inr rfl))

theorem prepareAgentReport_exit (hpoints : ∀ plan ∈ s.prepared, plan.points.isSome = true) :
    PrepareExit s call (prepareAgentReport s call).1 := by
  unfold prepareAgentReport
  cases hvalid : call.report.validate call.now with
  | error e => exact .refused
  | ok u =>
    by_cases hidentity : call.identity.nodeID = "" ∨
        validReceiptDigest call.identity.credentialFingerprint = false
    · rw [if_pos hidentity]
      exact .refused
    rw [if_neg hidentity]
    cases hreceipt : call.receipt with
    | none => exact .refused
    | some receipt =>
      simp only
      by_cases hlocked : call.locked = false
      · rw [if_pos hlocked]
        exact .refused
      by_cases hfree : s.attempt.isSome = true ∨ call.nodeBusy = true
      · rw [if_neg hlocked, if_pos hfree]
        exact .refused
      rw [if_neg hlocked, if_neg hfree]
      rw [not_or, Bool.not_eq_true, Option.isSome_eq_false_iff, Option.isNone_iff_eq_none] at hfree
      unfold prepareAgentAttempt
      cases hmatch : findMatchingAgentReceipt s.metrics call with
      | error e => exact .refused
      | ok existing =>
        cases existing with
        | some existing =>
          simp only
          split_ifs with hexisting
          · exact .refused
          · exact .duplicate _ hfree.1 rfl rfl
        | none =>
          rcases @reserveAgentPlan_cases s receipt call.now call.others with
            ⟨e, h⟩ | ⟨e, h⟩ | ⟨plan, hplan, h⟩ | h
          · simp only [h]
            exact .refused
          · simp only [h]
            exact .dropped s.made hfree.1 (le_refl _)
          · obtain ⟨points, hp⟩ := Option.isSome_iff_exists.mp (hpoints plan hplan)
            have hbind : (some { plan with inUse := true }).bind (·.points) = some points := hp
            simp only [h, hbind]
            exact .resumed plan { receipt := receipt, prepared := true } hfree.1 hplan rfl rfl
          · simp only [h, Option.bind_some]
            cases hplan : planPoints s.metrics call receipt with
            | error e => exact .dropped (s.made + 1) hfree.1 (Nat.le_succ _)
            | ok points => exact .planned receipt points hfree.1 hvalid hreceipt hmatch hplan

/-- What `Commit` does. -/
inductive CommitExit (s : IngestState) : IngestState → Option Write → Prop
  | unchanged : CommitExit s s none
  | applied (attempt : AgentIngestAttempt) (plan : PreparedAgentReport) (points : AgentPoints)
      (hplan : s.prepared = some plan) (hpoints : plan.points = some points) :
      CommitExit s
        { s with
          metrics := writePoints s.metrics points, prepared := none
          attempt := some { attempt with prepared := false, duplicate := true } }
        (some ⟨plan.serial, points⟩)
  | failed (plan : PreparedAgentReport) (hplan : s.prepared = some plan) :
      CommitExit s { s with prepared := some { plan with uncertain := true } } none
  | unacknowledged (plan : PreparedAgentReport) (points : AgentPoints)
      (hplan : s.prepared = some plan) (hpoints : plan.points = some points) :
      CommitExit s
        { s with
          metrics := writePoints s.metrics points
          prepared := some { plan with uncertain := true } }
        (some ⟨plan.serial, points⟩)

theorem commit_exit {call : CommitCall} {r : IngestState × Except IngestError Bool × Option Write}
    (h : commit s call = r) : CommitExit s r.1 r.2.2 := by
  unfold commit at h
  split at h
  · subst h
    exact .unchanged
  · rename_i attempt _
    by_cases hcancelled : call.cancelled = true
    · rw [if_pos hcancelled] at h
      subst h
      exact .unchanged
    by_cases hduplicate : attempt.duplicate = true
    · rw [if_neg hcancelled, if_pos hduplicate] at h
      subst h
      exact .unchanged
    rw [if_neg hcancelled, if_neg hduplicate] at h
    split at h
    · subst h
      exact .unchanged
    · rename_i plan hplan
      split at h
      · subst h
        exact .unchanged
      · rename_i points hpoints
        split at h
        · subst h
          exact .applied attempt plan points hplan hpoints
        · subst h
          exact .failed plan hplan
        · subst h
          exact .unacknowledged plan points hplan hpoints

end exits

end Beat.Ingest
