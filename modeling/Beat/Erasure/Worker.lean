import Beat.Erasure.Plan

/-!
# Workers

Workers that carry out erasure jobs (`metricserasure/erase.go`, `metricserasure/service.go`), step by
step: each transaction of the ledger and each call of the metric store is a step of its own, and a
worker may stop for good between any two of them. A session has the exclusive lock of the metric
store from its start to the end of the deletion; samples are written while no session is open.

The world also keeps, for each job, the plan that the last `BeginDeleting` recorded in its row.

* `erasureNext`: the next world; `ErasureExit`, `erasureNext_exit`: every way in which an event happens.
-/

namespace Beat.Erasure

/-- Where a worker is in `erase`. -/
inductive WorkerPhase where
  | idle
  /-- It has a claim and is to open the session. -/
  | claimed (job : MetricErasureJob)
  /-- The session is open; `BeginDeleting` is next. -/
  | opened (job : MetricErasureJob) (plan : MetricErasurePlan)
  /-- In the loop of `deleteMeasurements`. -/
  | deleting (job : MetricErasureJob) (plan : MetricErasurePlan) (remaining : List String)
  /-- One measurement was erased; `Advance` is next. -/
  | erased (job : MetricErasureJob) (plan : MetricErasurePlan) (measurement : String)
      (remaining : List String)
  /-- After `BeginCompacting`, before the session is closed. -/
  | closing (job : MetricErasureJob)
  | compacting (job : MetricErasureJob)
  /-- After the compaction; `BeginFinalizing` is next. -/
  | compacted (job : MetricErasureJob)
  /-- `FinalizeEntity` is next. -/
  | finalizing (job : MetricErasureJob)
  /-- `Complete` is next. -/
  | finalized (job : MetricErasureJob)
  /-- `Fail` is next. -/
  | failing (job : MetricErasureJob) (code : String)

/-- The job of a worker. -/
def WorkerPhase.job : WorkerPhase → Option MetricErasureJob
  | .idle => none
  | .claimed job | .opened job _ | .deleting job _ _ | .erased job _ _ _ | .closing job
  | .compacting job | .compacted job | .finalizing job | .finalized job | .failing job _ => some job

structure World where
  jobs : List MetricErasureJob
  samples : List Sample
  catalog : List String
  workers : String → WorkerPhase
  /-- The worker that has the exclusive lock. -/
  session : Option String
  /-- The plan that the row of a job records. -/
  plans : String → Option MetricErasurePlan

namespace World

/-- The worker goes on. -/
def move (s : World) (w : String) (phase : WorkerPhase) : World :=
  { s with workers := Function.update s.workers w phase }

/-- The worker is done with its job; its session ends. -/
def leave (s : World) (w : String) : World :=
  { s with
    workers := Function.update s.workers w .idle
    session := if s.session = some w then none else s.session }

/-- A transaction of the ledger: the rows change and the worker goes on, or there is an error. -/
def commit (s : World) (result : Except ErasureError (List MetricErasureJob)) (onOk : World → World)
    (onError : ErasureError → World → World) : World :=
  match result with
  | .ok jobs => onOk { s with jobs := jobs }
  | .error e => onError e s

end World

/-- `classifyEraseError`, for the errors that are modelled. -/
def classifyEraseError : ErasureError → String
  | .inventory => "inventory_mismatch"
  | .invalid => "internal_error"
  | .conflict | .missing => "mts_delete_failed"

/-- How a deletion of the engine ends. -/
inductive EraseOutcome where
  | ok
  /-- It fails, after it deleted some of the samples. -/
  | failed (deleted : Sample → Bool)

inductive ErasureEvent where
  | claim (w : String) (now : Int)
  /-- `BeginMetricErasure`, which the engine may fail with a code. -/
  | openSession (w : String) (now : Int) (failure : Option String)
  | beginDeleting (w : String) (now : Int)
  | erase (w : String) (outcome : EraseOutcome)
  | advance (w : String) (now : Int)
  | beginCompacting (w : String) (now : Int)
  | closeSession (w : String)
  | compact (w : String) (ok : Bool)
  | beginFinalizing (w : String) (now : Int)
  | finalizeEntity (w : String) (ok : Bool)
  | complete (w : String) (now : Int)
  /-- `Fail` after an error. -/
  | fail (w : String) (now : Int)
  /-- `Fail` after a panic, wherever the worker is. -/
  | panicked (w : String) (now : Int)
  /-- The worker stops for good. -/
  | crash (w : String)
  | release (jobID : String) (now : Int)
  | retry (jobID : String) (now : Int)
  | cancel (jobID : String) (now : Int)
  | write (x : Sample)
  | catalogue (keys : List String)

/-- The next world, if the event can happen. -/
def erasureNext (digest : List String → String) (s : World) : ErasureEvent → Option World
  | .claim w now =>
    match s.workers w with
    | .idle =>
      match claim s.jobs w now with
      | .error _ => some s
      | .ok (jobs, none) => some { s with jobs := jobs }
      | .ok (jobs, some job) => some ({ s with jobs := jobs }.move w (.claimed job))
    | _ => none
  | .openSession w now failure =>
    match s.workers w with
    | .claimed job =>
      match failure with
      | some code => some (s.move w (.failing job code))
      | none =>
        if s.session.isSome then none
        else
          match metricErasurePlan digest s.samples s.catalog job now with
          | .error e => some (s.move w (.failing job (classifyEraseError e)))
          | .ok plan => some ({ s with session := some w }.move w (.opened job plan))
    | _ => none
  | .beginDeleting w now =>
    match s.workers w with
    | .opened job plan =>
      some (s.commit (beginDeleting s.jobs job.id plan.digest plan.cutoffUnixNano now) (fun s =>
          { s with plans := Function.update s.plans job.id (some plan) }.move w
            (.deleting job plan (remainingMeasurements plan.measurements job.measurementCursor)))
        (fun _ s => s.leave w))
    | _ => none
  | .erase w outcome =>
    match s.workers w with
    | .deleting job plan (measurement :: remaining) =>
      match outcome with
      | .ok =>
        some ({ s with samples := eraseMeasurement s.samples plan measurement }.move w
          (.erased job plan measurement remaining))
      | .failed deleted =>
        let kept := s.samples.filter fun x => !(plan.covers x && deleted x)
        some ({ s with samples := kept }.move w (.failing job "mts_delete_failed"))
    | _ => none
  | .advance w now =>
    match s.workers w with
    | .erased job plan measurement remaining =>
      some (s.commit (advance s.jobs job.id measurement now) (·.move w (.deleting job plan remaining))
        (fun e s => s.move w (.failing job (classifyEraseError e))))
    | _ => none
  | .beginCompacting w now =>
    match s.workers w with
    | .deleting job _ [] =>
      some (s.commit (beginCompacting s.jobs job.id now) (·.move w (.closing job)) (fun _ s => s.leave w))
    | _ => none
  | .closeSession w =>
    match s.workers w with
    | .closing job => some ((s.leave w).move w (.compacting job))
    | _ => none
  | .compact w ok =>
    match s.workers w with
    | .compacting job =>
      if ok = false then some (s.move w (.failing job "mts_compaction_failed"))
      else if s.session.isSome then none
      else some (s.move w (.compacted job))
    | _ => none
  | .beginFinalizing w now =>
    match s.workers w with
    | .compacted job =>
      some (s.commit (beginFinalizing s.jobs job.id now) (·.move w (.finalizing job)) (fun _ s => s.leave w))
    | _ => none
  | .finalizeEntity w ok =>
    match s.workers w with
    | .finalizing job =>
      some (s.move w (if ok then .finalized job else .failing job "finalize_failed"))
    | _ => none
  | .complete w now =>
    match s.workers w with
    | .finalized job => some (s.commit (complete s.jobs job.id now) (·.leave w) (fun _ s => s.leave w))
    | _ => none
  | .fail w now =>
    match s.workers w with
    | .failing job code => some (s.commit (fail s.jobs job.id code now) (·.leave w) (fun _ s => s.leave w))
    | _ => none
  | .panicked w now =>
    match (s.workers w).job with
    | some job => some (s.commit (fail s.jobs job.id "internal_error" now) (·.leave w) (fun _ s => s.leave w))
    | none => none
  | .crash w => some (s.leave w)
  | .release jobID now => some (s.commit (release s.jobs jobID now) id fun _ => id)
  | .retry jobID now => some (s.commit (retry s.jobs jobID now) id fun _ => id)
  | .cancel jobID now => some (s.commit (cancel s.jobs jobID now) id fun _ => id)
  | .write x => if s.session.isSome then none else some { s with samples := writeSample s.samples x }
  | .catalogue keys => some { s with catalog := keys }

/-- A step of the world. -/
def ErasureStep (digest : List String → String) (s : World) (e : ErasureEvent) (s' : World) : Prop :=
  erasureNext digest s e = some s'

/-- Every way in which an event happens: where the worker is, what was checked, and the next world. -/
inductive ErasureExit (digest : List String → String) (s : World) : ErasureEvent → World → Prop
  | claimRefused {w now e} (hw : s.workers w = .idle)
      (h : claim s.jobs w now = .error e) : ErasureExit digest s (.claim w now) s
  | claimNone {w now jobs} (hw : s.workers w = .idle) (h : claim s.jobs w now = .ok (jobs, none)) :
      ErasureExit digest s (.claim w now) { s with jobs := jobs }
  | claimed {w now jobs job} (hw : s.workers w = .idle) (h : claim s.jobs w now = .ok (jobs, some job)) :
      ErasureExit digest s (.claim w now) ({ s with jobs := jobs }.move w (.claimed job))
  | openFailed {w now failure job code} (hw : s.workers w = .claimed job) :
      ErasureExit digest s (.openSession w now failure) (s.move w (.failing job code))
  | opened {w now job plan} (hw : s.workers w = .claimed job) (hs : s.session = none)
      (h : metricErasurePlan digest s.samples s.catalog job now = .ok plan) :
      ErasureExit digest s (.openSession w now none) ({ s with session := some w }.move w (.opened job plan))
  | beginDeleting {w now job plan} (hw : s.workers w = .opened job plan) :
      ErasureExit digest s (.beginDeleting w now)
        (s.commit (beginDeleting s.jobs job.id plan.digest plan.cutoffUnixNano now) (fun s =>
            { s with plans := Function.update s.plans job.id (some plan) }.move w
              (.deleting job plan (remainingMeasurements plan.measurements job.measurementCursor)))
          (fun _ s => s.leave w))
  | erased {w measurement job plan remaining} (hw : s.workers w = .deleting job plan (measurement :: remaining)) :
      ErasureExit digest s (.erase w .ok)
        ({ s with samples := eraseMeasurement s.samples plan measurement }.move w
          (.erased job plan measurement remaining))
  | eraseFailed {w measurement job plan remaining deleted}
      (hw : s.workers w = .deleting job plan (measurement :: remaining)) :
      ErasureExit digest s (.erase w (.failed deleted))
        ({ s with samples := s.samples.filter fun x => !(plan.covers x && deleted x) }.move w
          (.failing job "mts_delete_failed"))
  | advance {w measurement now job plan remaining} (hw : s.workers w = .erased job plan measurement remaining) :
      ErasureExit digest s (.advance w now)
        (s.commit (advance s.jobs job.id measurement now) (·.move w (.deleting job plan remaining))
          (fun e s => s.move w (.failing job (classifyEraseError e))))
  | beginCompacting {w now job plan} (hw : s.workers w = .deleting job plan []) :
      ErasureExit digest s (.beginCompacting w now)
        (s.commit (beginCompacting s.jobs job.id now) (·.move w (.closing job)) (fun _ s => s.leave w))
  | closeSession {w job} (hw : s.workers w = .closing job) :
      ErasureExit digest s (.closeSession w) ((s.leave w).move w (.compacting job))
  | compactFailed {w job} (hw : s.workers w = .compacting job) :
      ErasureExit digest s (.compact w false) (s.move w (.failing job "mts_compaction_failed"))
  | compacted {w job} (hw : s.workers w = .compacting job)
      (hs : s.session = none) : ErasureExit digest s (.compact w true) (s.move w (.compacted job))
  | beginFinalizing {w now job} (hw : s.workers w = .compacted job) :
      ErasureExit digest s (.beginFinalizing w now)
        (s.commit (beginFinalizing s.jobs job.id now) (·.move w (.finalizing job)) (fun _ s => s.leave w))
  | finalizeEntity {w ok job} (hw : s.workers w = .finalizing job) :
      ErasureExit digest s (.finalizeEntity w ok)
        (s.move w (if ok then .finalized job else .failing job "finalize_failed"))
  | complete {w now job} (hw : s.workers w = .finalized job) : ErasureExit digest s (.complete w now)
        (s.commit (complete s.jobs job.id now) (·.leave w) (fun _ s => s.leave w))
  | fail {w code now job} (hw : s.workers w = .failing job code) : ErasureExit digest s (.fail w now)
        (s.commit (fail s.jobs job.id code now) (·.leave w) (fun _ s => s.leave w))
  | panicked {w now job} (hw : (s.workers w).job = some job) : ErasureExit digest s (.panicked w now)
        (s.commit (fail s.jobs job.id "internal_error" now) (·.leave w) (fun _ s => s.leave w))
  | crash {w} : ErasureExit digest s (.crash w) (s.leave w)
  | release {jobID now} :
      ErasureExit digest s (.release jobID now) (s.commit (release s.jobs jobID now) id fun _ => id)
  | retry {jobID now} :
      ErasureExit digest s (.retry jobID now) (s.commit (retry s.jobs jobID now) id fun _ => id)
  | cancel {jobID now} :
      ErasureExit digest s (.cancel jobID now) (s.commit (cancel s.jobs jobID now) id fun _ => id)
  | write {x} (hs : s.session = none) :
      ErasureExit digest s (.write x) { s with samples := writeSample s.samples x }
  | catalogue {keys} : ErasureExit digest s (.catalogue keys) { s with catalog := keys }

/-- An event that needs the session of no worker. -/
theorem of_no_session {o : Option String} {x : Option World} {s' : World}
    (h : (if o.isSome then none else x) = some s') : o = none ∧ x = some s' := by
  cases o with
  | none => exact ⟨rfl, h⟩
  | some w => exact nomatch h

theorem erasureNext_exit {digest : List String → String} {s s' : World} {e : ErasureEvent}
    (h : erasureNext digest s e = some s') : ErasureExit digest s e s' := by
  cases e with
  | claim w now =>
    simp only [erasureNext] at h
    split at h
    · split at h <;> cases h
      · exact .claimRefused ‹_› ‹_›
      · exact .claimNone ‹_› ‹_›
      · exact .claimed ‹_› ‹_›
    · cases h
  | openSession w now failure =>
    simp only [erasureNext] at h
    split at h
    · split at h
      · cases h
        exact .openFailed ‹_›
      · obtain ⟨hs, h⟩ := of_no_session h
        split at h <;> cases h
        · exact .openFailed ‹_›
        · exact .opened ‹_› hs ‹_›
    · cases h
  | erase w outcome =>
    simp only [erasureNext] at h
    split at h
    · split at h <;> cases h
      · exact .erased ‹_›
      · exact .eraseFailed ‹_›
    · cases h
  | compact w ok =>
    simp only [erasureNext] at h
    split at h
    · cases ok with
      | false =>
        cases h
        exact .compactFailed ‹_›
      | true =>
        obtain ⟨hs, h⟩ := of_no_session h
        cases h
        exact .compacted ‹_› hs
    · cases h
  | beginDeleting | advance | beginCompacting | closeSession | beginFinalizing | finalizeEntity | complete
  | fail | panicked =>
    -- one place of the worker, and no check of its own
    simp only [erasureNext] at h
    split at h <;> cases h
    constructor
    assumption
  | write x =>
    obtain ⟨hs, h⟩ := of_no_session h
    cases h
    exact .write hs
  | crash | release | retry | cancel | catalogue =>
    cases h
    constructor

end Beat.Erasure
