import Beat.Erasure.Model
import Beat.Lib.Instant
import Beat.Lib.Table

/-!
# The ledger of erasure jobs

The transactions on `metric_erasure_jobs` that claim a job, move it through its phases and give it
back (`store/metric_erasure_lifecycle.go`, `store/metric_erasure_admin.go`). Each one is an update
of the row with a given id in given states, and fails when there is no such row. None of them looks at
the owner of the lease.

* `transition_spec`: a transition that succeeds.
-/

namespace Beat.Erasure

open Instant

inductive ErasureError where
  | invalid
  | conflict
  | missing
  /-- The metric store holds a measurement that the catalog does not know. -/
  | inventory
  deriving DecidableEq

def metricErasureLeaseLifetime : Int := 2 * minute

def maximumMetricErasureAttempts : Nat := 6

/-- `metricErasureBackoff`. -/
def metricErasureBackoff (attempts : Nat) : Int :=
  if attempts = 0 then second
  else min (2 ^ (min attempts 20 - 1) * second) (5 * minute)

/-- `ValidMetricErasureDigest`. -/
def validMetricErasureDigest (value : String) : Bool :=
  value.utf8ByteSize = 64 && value.toList.all fun c => "0123456789abcdef".toList.contains c

/-! ## Transitions -/

section

variable (jobs : List MetricErasureJob) (id : String)

/-- `transition`: update the row with an id that is in one of some states. -/
def transition (now : Int)
    (states : MetricErasureState → Bool) (f : MetricErasureJob → MetricErasureJob) :
    Except ErasureError (List MetricErasureJob) :=
  if id = "" ∨ isZero now then .error .invalid
  else if jobs.any fun j => j.id = id && states j.state then
    .ok (Table.update jobs (fun j => j.id = id && states j.state) f)
  else .error .conflict

theorem transition_spec {jobs jobs' : List MetricErasureJob} {id : String} {now : Int}
    {states : MetricErasureState → Bool} {f : MetricErasureJob → MetricErasureJob}
    (h : transition jobs id now states f = .ok jobs') :
    jobs' = Table.update jobs (fun j => j.id = id && states j.state) f ∧
      ∃ j ∈ jobs, j.id = id ∧ states j.state = true := by
  unfold transition at h
  split_ifs at h with hinvalid hany
  cases h
  obtain ⟨j, hj, hmatch⟩ := List.any_eq_true.mp hany
  rw [Bool.and_eq_true, decide_eq_true_eq] at hmatch
  exact ⟨rfl, j, hj, hmatch⟩

/-- `BeginDeleting`: the row records the plan, and its cursor starts anew. -/
def beginDeleting (digest : String) (cutoffUnixNano : Int) (now : Int) :
    Except ErasureError (List MetricErasureJob) :=
  if validMetricErasureDigest digest = false ∨ cutoffUnixNano ≤ 0 then .error .invalid
  else
    transition jobs id now (· = .claimed) fun j =>
      { j with
        state := .deleting, catalogDigest := digest, cutoffUnixNano := some cutoffUnixNano
        measurementCursor := "", leaseExpiresAt := some (now + metricErasureLeaseLifetime) }

/-- `Advance`. -/
def advance (cursor : String) (now : Int) :
    Except ErasureError (List MetricErasureJob) :=
  transition jobs id now (· = .deleting) fun j =>
    { j with measurementCursor := cursor, leaseExpiresAt := some (now + metricErasureLeaseLifetime) }

/-- The transitions that only move on to the next phase. -/
def moveOn (before after : MetricErasureState) (jobs : List MetricErasureJob) (id : String) (now : Int) :
    Except ErasureError (List MetricErasureJob) :=
  transition jobs id now (· = before) fun j =>
    { j with state := after, leaseExpiresAt := some (now + metricErasureLeaseLifetime) }

/-- `BeginCompacting`. -/
def beginCompacting := moveOn .deleting .compacting

/-- `BeginFinalizing`. -/
def beginFinalizing := moveOn .compacting .finalizing

/-- `Complete`. -/
def complete (now : Int) : Except ErasureError (List MetricErasureJob) :=
  transition jobs id now (· = .finalizing) fun j =>
    { j with
      state := .succeeded, leaseOwner := "", leaseExpiresAt := none, nextAttemptAt := none
      lastErrorCode := "" }

/-- `Fail`. -/
def fail (code : String) (now : Int) :
    Except ErasureError (List MetricErasureJob) :=
  let code := if code = "" ∨ 64 < code.utf8ByteSize then "internal_error" else code
  transition jobs id now (·.isHeld) fun j =>
    { j with state := .failed, leaseOwner := "", leaseExpiresAt := none, lastErrorCode := code }

/-- `Release`: the cursor stays. -/
def release (now : Int) : Except ErasureError (List MetricErasureJob) :=
  transition jobs id now (·.isHeld) fun j =>
    { j with state := .queued, leaseOwner := "", leaseExpiresAt := none, nextAttemptAt := none }

/-- The change of an operator: the row is in one state, or there is a conflict. -/
def operate (now : Int) (state : MetricErasureState)
    (f : MetricErasureJob → MetricErasureJob) : Except ErasureError (List MetricErasureJob) :=
  if validUUIDShape id = false ∨ isZero now then .error .invalid
  else
    match jobs.find? (·.id = id) with
    | none => .error .missing
    | some _ => transition jobs id now (· = state) f

theorem operate_transition {jobs jobs' : List MetricErasureJob} {id : String} {now : Int} {state : MetricErasureState}
    {f : MetricErasureJob → MetricErasureJob} (h : operate jobs id now state f = .ok jobs') :
    transition jobs id now (· = state) f = .ok jobs' := by
  unfold operate at h
  split_ifs at h
  split at h
  · cases h
  · exact h

/-- `Retry`: a failed job is queued again, with its cursor. -/
def retry (now : Int) : Except ErasureError (List MetricErasureJob) :=
  operate jobs id now .failed fun j =>
    { j with
      state := .queued, attemptCount := 0, leaseOwner := "", leaseExpiresAt := none
      nextAttemptAt := none, lastErrorCode := "" }

/-- `Cancel`. -/
def cancel (now : Int) : Except ErasureError (List MetricErasureJob) :=
  operate jobs id now .queued fun j =>
    { j with state := .canceled, leaseOwner := "", leaseExpiresAt := none, nextAttemptAt := none }

/-! ## Claims -/

/-- `recoverMetricErasureExpired`: a row whose lease has expired is queued again, or fails after too
many attempts. -/
def recoverExpired (now : Int) (j : MetricErasureJob) : MetricErasureJob :=
  if j.state.isHeld && j.leaseExpiresAt.any (· ≤ now) then
    let exhausted := decide (maximumMetricErasureAttempts ≤ j.attemptCount)
    { j with
      state := if exhausted then .failed else .queued
      leaseOwner := "", leaseExpiresAt := none
      nextAttemptAt := some (now + metricErasureBackoff j.attemptCount)
      lastErrorCode := if exhausted then "lease_expired" else "" }
  else j

/-- A job that can be claimed. -/
def MetricErasureJob.due (j : MetricErasureJob) (now : Int) : Bool :=
  j.state = .queued && decide (j.attemptCount < maximumMetricErasureAttempts) &&
    j.nextAttemptAt.all (· ≤ now)

/-- The first row by the time of its request and its id. -/
def firstRequested : Option MetricErasureJob :=
  jobs.foldl (fun best j =>
    match best with
    | none => some j
    | some b =>
      if j.requestedAt < b.requestedAt ∨ j.requestedAt = b.requestedAt ∧ j.id < b.id then some j
      else some b) none

/-- The row of a claimed job. -/
def MetricErasureJob.claim (j : MetricErasureJob) (workerID : String) (now : Int) : MetricErasureJob :=
  { j with
    state := .claimed, attemptCount := j.attemptCount + 1, leaseOwner := workerID
    leaseExpiresAt := some (now + metricErasureLeaseLifetime) }

/-- `Claim`: the rows afterwards, and the claimed job. -/
def claim (workerID : String) (now : Int) :
    Except ErasureError (List MetricErasureJob × Option MetricErasureJob) :=
  if workerID = "" ∨ isZero now then .error .invalid
  else
    let jobs := jobs.map (recoverExpired now)
    match firstRequested (jobs.filter (·.due now)) with
    | none => .ok (jobs, none)
    | some job =>
      .ok (Table.update jobs (fun j => j.id = job.id && j.state = .queued) fun j =>
          { j.claim workerID now with nextAttemptAt := none },
        some (job.claim workerID now))

end

theorem due_queued {j : MetricErasureJob} {now : Int} (h : j.due now = true) : j.state = .queued := by
  simp only [MetricErasureJob.due, Bool.and_eq_true, decide_eq_true_eq] at h
  exact h.1.1

theorem mem_of_firstRequested {jobs : List MetricErasureJob} {job : MetricErasureJob}
    (h : firstRequested jobs = some job) : job ∈ jobs := by
  refine List.foldlRecOn jobs _ (motive := fun best => ∀ job, best = some job → job ∈ jobs) (by simp)
    (fun best ih j hj job h => ?_) job h
  cases best with
  | none => exact Option.some.inj h ▸ hj
  | some b =>
    simp only at h
    split_ifs at h
    · exact Option.some.inj h ▸ hj
    · exact ih job h

end Beat.Erasure
