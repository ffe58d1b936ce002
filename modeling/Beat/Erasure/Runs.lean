import Beat.Erasure.Worker
import Beat.Lib.Run

/-!
# Completeness of erasure

When a job succeeds, nothing of what its recorded plan covers should be left. The deletion of a new
attempt starts after the cursor of the attempt before, but under a plan of its own, with a later
cutoff; so what was written in between to the measurements before the cursor stays. A sample from
before the cutoff that arrives after the session also stays.

The invariant speaks about the rows and the workers: a worker that deletes has the session, and if
its job is still in its hands, all that its plan covers lies in the measurements that remain.

* `RowFollows`: what the transactions do to a row, except for the start and the end of a deletion.
* `WorldOk`: the invariant; `worldOk_step`: every careful step keeps it.
* `erasure_complete`: in a run of careful steps a job that succeeds has erased its plan.
* `resumed_erasure_skips`: without care, it has not.
-/

namespace Beat.Erasure

open List Table Function

/-- The row records a plan. -/
def MetricErasureState.planned : MetricErasureState → Bool
  | .deleting | .compacting | .finalizing | .succeeded => true
  | .queued | .claimed | .failed | .canceled => false

/-- The deletion has ended, and the job has not. -/
def MetricErasureState.swept : MetricErasureState → Bool
  | .compacting | .finalizing => true
  | .queued | .claimed | .deleting | .succeeded | .failed | .canceled => false

variable {state : MetricErasureState} {p : MetricErasureJob → Bool} {states : MetricErasureState → Bool}
  {w : String} {job : Option MetricErasureJob} {now : Int} {x : Sample}

theorem MetricErasureState.planned_of_swept (h : state.swept = true) : state.planned = true := by
  cases state <;> first | rfl | cases h

/-! ## Rows -/

/-- A row after a transaction that neither starts nor ends a deletion. -/
structure RowFollows (j j' : MetricErasureJob) : Prop where
  id : j'.id = j.id
  scope : j'.scope = j.scope
  targetID : j'.targetID = j.targetID
  planned : j'.state.planned = true → j.state.planned = true ∧
    j'.cutoffUnixNano = j.cutoffUnixNano ∧ j'.catalogDigest = j.catalogDigest
  deleting : j'.state = .deleting → j.state = .deleting
  swept : j'.state.swept = true → j.state.swept = true

namespace RowFollows

variable {j j' j'' : MetricErasureJob}

theorem refl (j : MetricErasureJob) : RowFollows j j :=
  ⟨rfl, rfl, rfl, fun h => ⟨h, rfl, rfl⟩, fun h => h, fun h => h⟩

theorem trans (h : RowFollows j j') (h' : RowFollows j' j'') : RowFollows j j'' where
  id := h'.id.trans h.id
  scope := h'.scope.trans h.scope
  targetID := h'.targetID.trans h.targetID
  planned := fun hp =>
    let ⟨hp', hc', hd'⟩ := h'.planned hp
    let ⟨hp, hc, hd⟩ := h.planned hp'
    ⟨hp, hc'.trans hc, hd'.trans hd⟩
  deleting := fun hd => h.deleting (h'.deleting hd)
  swept := fun hs => h.swept (h'.swept hs)

/-- The row goes to a state without a plan. -/
theorem back (hid : j'.id = j.id) (hscope : j'.scope = j.scope) (htarget : j'.targetID = j.targetID)
    (hstate : j'.state.planned = false) : RowFollows j j' where
  id := hid
  scope := hscope
  targetID := htarget
  planned := fun hp => by rw [hstate] at hp; cases hp
  deleting := fun hd => by rw [hd] at hstate; cases hstate
  swept := fun hs => by rw [MetricErasureState.planned_of_swept hs] at hstate; cases hstate

end RowFollows

/-- No row of the second table has succeeded that is not in the first. -/
def NoSuccess (jobs jobs' : List MetricErasureJob) : Prop :=
  ∀ row ∈ jobs', row.state = .succeeded → row ∈ jobs

theorem NoSuccess.update {jobs : List MetricErasureJob} {f : MetricErasureJob → MetricErasureJob}
    (hf : ∀ j, p j = true → (f j).state ≠ .succeeded) : NoSuccess jobs (update jobs p f) := by
  intro row hrow hstate
  obtain ⟨j, hj, rfl⟩ := mem_update.mp hrow
  split_ifs at hstate ⊢ with hp
  · exact absurd hstate (hf j hp)
  · exact hj

/-- All rows follow those before. -/
def RowsFollow (jobs jobs' : List MetricErasureJob) : Prop :=
  ∃ g, jobs' = jobs.map g ∧ ∀ j ∈ jobs, RowFollows j (g j)

namespace RowsFollow

variable {jobs jobs' jobs'' : List MetricErasureJob}

theorem refl (jobs : List MetricErasureJob) : RowsFollow jobs jobs :=
  ⟨fun j => j, (map_id' jobs).symm, fun j _ => .refl j⟩

theorem trans (h : RowsFollow jobs jobs') (h' : RowsFollow jobs' jobs'') : RowsFollow jobs jobs'' := by
  obtain ⟨g, rfl, hg⟩ := h
  obtain ⟨g', rfl, hg'⟩ := h'
  refine ⟨fun j => g' (g j), by rw [map_map]; rfl, fun j hj => ?_⟩
  exact (hg j hj).trans (hg' _ (mem_map_of_mem hj))

variable {f : MetricErasureJob → MetricErasureJob} {now : Int} {id : String}

theorem update (h : ∀ j ∈ jobs, p j = true → RowFollows j (f j)) : RowsFollow jobs (update jobs p f) := by
  refine ⟨_, rfl, fun j hj => ?_⟩
  by_cases hp : p j = true
  · simp only [hp, if_true]
    exact h j hj hp
  · simp only [hp, if_false, Bool.false_eq_true]
    exact .refl j

/-- A row comes from a row before. -/
theorem mem (h : RowsFollow jobs jobs') {j' : MetricErasureJob} (hj : j' ∈ jobs') : ∃ j ∈ jobs, RowFollows j j' := by
  obtain ⟨g, rfl, hg⟩ := h
  obtain ⟨j, hmem, rfl⟩ := mem_map.mp hj
  exact ⟨j, hmem, hg j hmem⟩

theorem keyed (h : RowsFollow jobs jobs') (hk : Table.Keyed (·.id) jobs) : Table.Keyed (·.id) jobs' := by
  obtain ⟨g, rfl, hg⟩ := h
  exact hk.map fun j hj => (hg j hj).id

theorem transition (h : transition jobs id now states f = .ok jobs')
    (hf : ∀ j, states j.state = true → RowFollows j (f j)) : RowsFollow jobs jobs' := by
  obtain ⟨rfl, -⟩ := transition_spec h
  refine update fun j _ hp => hf j ?_
  rw [Bool.and_eq_true] at hp
  exact hp.2

theorem advance {cursor : String} (h : advance jobs id cursor now = .ok jobs') : RowsFollow jobs jobs' :=
  transition h fun _ _ => ⟨rfl, rfl, rfl, fun hp => ⟨hp, rfl, rfl⟩, fun hd => hd, fun hs => hs⟩

theorem beginFinalizing (h : beginFinalizing jobs id now = .ok jobs') : RowsFollow jobs jobs' := by
  unfold Erasure.beginFinalizing moveOn at h
  refine transition h fun j hj => ?_
  have hstate : j.state = .compacting := of_decide_eq_true hj
  exact ⟨rfl, rfl, rfl, fun _ => ⟨by rw [hstate]; rfl, rfl, rfl⟩, fun hd => (nomatch hd),
    fun _ => by rw [hstate]; rfl⟩

theorem complete (h : complete jobs id now = .ok jobs') : RowsFollow jobs jobs' := by
  refine transition h fun j hj => ?_
  have hstate : j.state = .finalizing := of_decide_eq_true hj
  exact ⟨rfl, rfl, rfl, fun _ => ⟨by rw [hstate]; rfl, rfl, rfl⟩, fun hd => (nomatch hd),
    fun hs => (nomatch hs)⟩

theorem fail {code : String} (h : fail jobs id code now = .ok jobs') : RowsFollow jobs jobs' :=
  transition h fun _ _ => .back rfl rfl rfl rfl

theorem release (h : release jobs id now = .ok jobs') : RowsFollow jobs jobs' :=
  transition h fun _ _ => .back rfl rfl rfl rfl

theorem operate (h : operate jobs id now state f = .ok jobs') (hf : ∀ j, RowFollows j (f j)) :
    RowsFollow jobs jobs' := by
  exact transition (operate_transition h) fun j _ => hf j

/-- `Claim` gives out a job of the table, and makes none succeed. -/
theorem claim (h : claim jobs w now = .ok (jobs', job)) :
    RowsFollow jobs jobs' ∧ NoSuccess jobs jobs' ∧ ∀ j ∈ job, ∃ row ∈ jobs', row.id = j.id ∧ row.scope = j.scope ∧
      row.targetID = j.targetID := by
  have hrow : ∀ j, recoverExpired now j = j ∨
      RowFollows j (recoverExpired now j) ∧ (recoverExpired now j).state ≠ .succeeded := by
    intro j
    unfold recoverExpired
    split_ifs
    · refine .inr ⟨.back rfl rfl rfl ?_, ?_⟩ <;> simp only <;> split_ifs <;> decide
    · exact .inl rfl
  have hrecover : RowsFollow jobs (jobs.map (recoverExpired now)) :=
    ⟨_, rfl, fun j _ => (hrow j).elim (fun heq => heq.symm ▸ .refl j) (·.1)⟩
  have hno : NoSuccess jobs (jobs.map (recoverExpired now)) := by
    intro row hmem hstate
    obtain ⟨j, hj, rfl⟩ := mem_map.mp hmem
    exact (hrow j).elim (fun heq => heq.symm ▸ hj) fun hne => absurd hstate hne.2
  unfold Erasure.claim at h
  split_ifs at h
  simp only at h
  split at h
  · cases h
    exact ⟨hrecover, hno, fun j hj => nomatch hj⟩
  · rename_i due hdue
    obtain ⟨rfl, rfl⟩ := Prod.mk.inj (Except.ok.inj h)
    have hmem := mem_filter.mp (mem_of_firstRequested hdue)
    refine ⟨hrecover.trans (update fun j _ _ => .back rfl rfl rfl rfl), fun row hrow hstate => ?_, ?_⟩
    · refine hno row (NoSuccess.update ?_ row hrow hstate) hstate
      exact fun _ _ heq => nomatch heq
    · rintro _ ⟨⟩
      have hqueued := due_queued hmem.2
      refine ⟨_, mem_update.mpr ⟨due, hmem.1, rfl⟩, ?_⟩
      rw [if_pos (by simp [hqueued])]
      exact ⟨rfl, rfl, rfl⟩

end RowsFollow

/-! ## The invariant -/

/-- What holds of a row: it records the plan, and after the deletion nothing of it is left. -/
structure RowOk (s : World) (j : MetricErasureJob) : Prop where
  recorded : j.state.planned = true → ∃ plan, s.plans j.id = some plan ∧
    j.cutoffUnixNano = some plan.cutoffUnixNano ∧ j.catalogDigest = plan.digest ∧ PlanFor j plan
  swept : j.state.swept = true → ∀ plan, s.plans j.id = some plan → Left s.samples plan []

/-- As long as the job of a worker is being deleted, it is under the plan of the worker, and all that
the plan covers is in the measurements that remain. -/
def Sweeping (s : World) (job : MetricErasureJob) (plan : MetricErasurePlan) (remaining : List String) : Prop :=
  ∀ row ∈ s.jobs, row.id = job.id → row.state = .deleting →
    s.plans row.id = some plan ∧ Left s.samples plan remaining

/-- The job of a claim has its row. -/
def Refers (jobs : List MetricErasureJob) (job : MetricErasureJob) : Prop :=
  ∃ row ∈ jobs, row.id = job.id ∧ row.scope = job.scope ∧ row.targetID = job.targetID

/-- What holds of a worker. -/
def PhaseOk (s : World) (w : String) : WorkerPhase → Prop
  | .claimed job => Refers s.jobs job
  | .opened job plan => Refers s.jobs job ∧ s.session = some w ∧ PlanFor job plan
  | .deleting job plan remaining => s.session = some w ∧ Sweeping s job plan remaining
  | .erased job plan _ remaining => s.session = some w ∧ Sweeping s job plan remaining
  | .closing _ => s.session = some w
  | _ => True

structure WorldOk (s : World) : Prop where
  keyed : Table.Keyed (·.id) s.jobs
  rows : ∀ j ∈ s.jobs, RowOk s j
  phases : ∀ w, PhaseOk s w (s.workers w)

section frame

variable {s s' : World} {w : String}

variable {remaining : List String} {plan : MetricErasurePlan} {job : MetricErasureJob}
  {jobs : List MetricErasureJob} {phase : WorkerPhase}

theorem Left.mono {samples samples' : List Sample} (h : Left samples plan remaining)
    (hsub : ∀ x ∈ samples', x ∈ samples) : Left samples' plan remaining :=
  fun x hx hcovers => h x (hsub x hx) hcovers

theorem PlanFor.congr {j j' : MetricErasureJob} (h : PlanFor j plan) (hscope : j'.scope = j.scope)
    (htarget : j'.targetID = j.targetID) : PlanFor j' plan := by
  intro x
  rw [h x]
  unfold MetricErasureJob.matches
  rw [hscope, htarget]

/-- The row of a claimed job stays. -/
theorem Refers.frame {jobs' : List MetricErasureJob} (h : Refers jobs job) (hrows : RowsFollow jobs jobs') :
    Refers jobs' job := by
  obtain ⟨g, rfl, hg⟩ := hrows
  obtain ⟨row, hrow, hid, hscope, htarget⟩ := h
  have hf := hg row hrow
  exact ⟨g row, mem_map_of_mem hrow, hf.id.trans hid, hf.scope.trans hscope, hf.targetID.trans htarget⟩

theorem Refers.update (h : Refers jobs job) {f : MetricErasureJob → MetricErasureJob}
    (hf : ∀ j, (f j).id = j.id ∧ (f j).scope = j.scope ∧ (f j).targetID = j.targetID) :
    Refers (update jobs p f) job := by
  obtain ⟨row, hrow, hid, hscope, htarget⟩ := h
  refine ⟨_, mem_update.mpr ⟨row, hrow, rfl⟩, ?_⟩
  obtain ⟨hfid, hfscope, hftarget⟩ := hf row
  split_ifs
  · exact ⟨hfid.trans hid, hfscope.trans hscope, hftarget.trans htarget⟩
  · exact ⟨hid, hscope, htarget⟩

theorem Sweeping.frame (h : Sweeping s job plan remaining) (hrows : RowsFollow s.jobs s'.jobs)
    (hsamples : ∀ x ∈ s'.samples, x ∈ s.samples) (hplans : s'.plans = s.plans) : Sweeping s' job plan remaining := by
  intro row' hrow' hid hstate
  obtain ⟨row, hrow, hf⟩ := hrows.mem hrow'
  obtain ⟨hplan, hleft⟩ := h row hrow (hf.id.symm.trans hid) (hf.deleting hstate)
  refine ⟨?_, hleft.mono hsamples⟩
  rw [hplans, hf.id]
  exact hplan

/-- What holds of a worker stays when the rows follow and no sample is added. -/
theorem PhaseOk.frame (h : PhaseOk s w phase) (hrows : RowsFollow s.jobs s'.jobs)
    (hsamples : ∀ x ∈ s'.samples, x ∈ s.samples) (hplans : s'.plans = s.plans)
    (hsession : s.session = some w → s'.session = some w) : PhaseOk s' w phase := by
  cases phase with
  | claimed job => exact Refers.frame h hrows
  | opened job plan => exact ⟨h.1.frame hrows, hsession h.2.1, h.2.2⟩
  | deleting job plan remaining => exact ⟨hsession h.1, h.2.frame hrows hsamples hplans⟩
  | erased job plan measurement remaining => exact ⟨hsession h.1, h.2.frame hrows hsamples hplans⟩
  | closing job => exact hsession h
  | _ => trivial

theorem RowOk.frame {j j' : MetricErasureJob} (h : RowOk s j) (hf : RowFollows j j')
    (hsamples : ∀ x ∈ s'.samples, x ∈ s.samples) (hplans : s'.plans = s.plans) : RowOk s' j' where
  recorded := fun hp => by
    obtain ⟨hp, hcutoff, hdigest⟩ := hf.planned hp
    obtain ⟨plan, hplan, hc, hd, htarget⟩ := h.recorded hp
    refine ⟨plan, ?_, hcutoff.trans hc, hdigest.trans hd, htarget.congr hf.scope hf.targetID⟩
    rw [hplans, hf.id]
    exact hplan
  swept := fun hs plan hplan => by
    rw [hplans, hf.id] at hplan
    exact (h.swept (hf.swept hs) plan hplan).mono hsamples

/-- A step of one worker that adds no sample and records no plan. -/
theorem WorldOk.frame (h : WorldOk s) (hrows : RowsFollow s.jobs s'.jobs)
    (hsamples : ∀ x ∈ s'.samples, x ∈ s.samples) (hplans : s'.plans = s.plans) (w : String)
    (hworkers : s'.workers = update s.workers w phase)
    (hsession : ∀ v, v ≠ w → s.session = some v → s'.session = some v) (hphase : PhaseOk s' w phase) :
    WorldOk s' where
  keyed := hrows.keyed h.keyed
  rows := fun j' hj' =>
    let ⟨j, hj, hf⟩ := hrows.mem hj'
    (h.rows j hj).frame hf hsamples hplans
  phases := fun v => by
    rw [hworkers]
    by_cases hv : v = w
    · subst hv
      rw [update_self]
      exact hphase
    · rw [update_of_ne hv]
      exact (h.phases v).frame hrows hsamples hplans (hsession v hv)

/-- The worker goes on after a transaction. -/
theorem WorldOk.move (h : WorldOk s) (hrows : RowsFollow s.jobs jobs)
    (hphase : PhaseOk { s with jobs := jobs } w phase) :
    WorldOk ({ s with jobs := jobs }.move w phase) := by
  refine h.frame hrows (fun _ hx => hx) rfl w rfl (fun _ _ hv => hv) ?_
  cases phase <;> exact hphase

/-- The worker gives up its job after a transaction. -/
theorem WorldOk.leave (h : WorldOk s) (hrows : RowsFollow s.jobs jobs) (w : String) :
    WorldOk ({ s with jobs := jobs }.leave w) := by
  refine h.frame hrows (fun _ hx => hx) rfl w rfl (fun v hv hsession => ?_) trivial
  simp only [World.leave]
  rw [hsession, if_neg fun heq => hv (Option.some.inj heq)]

/-- What holds of a worker without the session depends on the rows only. -/
theorem PhaseOk.others (h : PhaseOk s w phase) (hne : s.session ≠ some w)
    (hrefers : ∀ job, Refers s.jobs job → Refers s'.jobs job) : PhaseOk s' w phase := by
  cases phase with
  | claimed job => exact hrefers job h
  | opened job plan => exact absurd h.2.1 hne
  | deleting job plan remaining => exact absurd h.1 hne
  | erased job plan measurement remaining => exact absurd h.1 hne
  | closing job => exact absurd h hne
  | _ => trivial

/-- The phases after a step of the worker that has the session. -/
theorem phases_session (h : WorldOk s) (hsession : s.session = some w)
    (hworkers : s'.workers = update s.workers w phase)
    (hrefers : ∀ job, Refers s.jobs job → Refers s'.jobs job) (hphase : PhaseOk s' w phase) :
    ∀ v, PhaseOk s' v (s'.workers v) := by
  intro v
  rw [hworkers]
  by_cases hv : v = w
  · subst hv
    rw [update_self]
    exact hphase
  · rw [update_of_ne hv]
    refine (h.phases v).others ?_ hrefers
    rw [hsession]
    exact fun heq => hv (Option.some.inj heq).symm

/-- The worker opens its session. -/
theorem WorldOk.opened (h : WorldOk s) (hworker : s.workers w = .claimed job) (hsession : s.session = none)
    (hplan : PlanFor job plan) : WorldOk ({ s with session := some w }.move w (.opened job plan)) := by
  have hphase := h.phases w
  rw [hworker] at hphase
  refine h.frame (.refl _) (fun _ hx => hx) rfl w rfl (fun v _ hv => ?_) ⟨hphase, rfl, hplan⟩
  rw [hsession] at hv
  cases hv

/-- The start of a deletion, when what the plan covers is in the measurements that remain. -/
theorem WorldOk.beginDeleting (h : WorldOk s) (hworker : s.workers w = .opened job plan)
    (hok : beginDeleting s.jobs job.id plan.digest plan.cutoffUnixNano now = .ok jobs)
    (hleft : Left s.samples plan remaining) :
    WorldOk (({ s with jobs := jobs, plans := update s.plans job.id (some plan) } : World).move w
      (.deleting job plan remaining)) := by
  have hphase := h.phases w
  rw [hworker] at hphase
  obtain ⟨⟨row, hrow, hid, hscope, htarget⟩, hsession, hplanFor⟩ := hphase
  unfold Erasure.beginDeleting at hok
  split_ifs at hok
  obtain ⟨rfl, claimed, hclaimed, hcid, hcstate⟩ := transition_spec hok
  -- there is one row with the id, and it is claimed
  have hunique : ∀ r ∈ s.jobs, r.id = job.id → r = row := fun r hr hrid =>
    h.keyed.eq_of_key hr hrow (hrid.trans hid.symm)
  obtain rfl := hunique claimed hclaimed hcid
  refine ⟨h.keyed.update fun _ _ _ => rfl, ?_, ?_⟩
  · intro j' hj'
    obtain ⟨r, hr, rfl⟩ := mem_update.mp hj'
    by_cases hrid : r.id = job.id
    · obtain rfl := hunique r hr hrid
      rw [if_pos (by simp [hrid, hcstate])]
      refine ⟨fun _ => ⟨plan, ?_, rfl, rfl, hplanFor.congr hscope htarget⟩, fun hs => nomatch hs⟩
      simp only [World.move, hrid, update_self]
    · rw [if_neg (by simp [hrid])]
      have hplans : update s.plans job.id (some plan) r.id = s.plans r.id :=
        update_of_ne hrid _ _
      obtain ⟨hrecorded, hswept⟩ := h.rows r hr
      refine ⟨fun hp => ?_, fun hs p hp => hswept hs p (hplans.symm.trans hp)⟩
      obtain ⟨p, hplan, hrest⟩ := hrecorded hp
      exact ⟨p, hplans.trans hplan, hrest⟩
  · refine phases_session h hsession rfl (fun job hrefers => hrefers.update fun _ => ⟨rfl, rfl, rfl⟩)
      ⟨hsession, fun row _ hrid _ => ⟨?_, hleft⟩⟩
    simp only [World.move, hrid, update_self]

/-- The end of a deletion. -/
theorem WorldOk.beginCompacting (h : WorldOk s) (hworker : s.workers w = .deleting job plan [])
    (hok : beginCompacting s.jobs job.id now = .ok jobs) :
    WorldOk ({ s with jobs := jobs }.move w (.closing job)) := by
  have hphase := h.phases w
  rw [hworker] at hphase
  obtain ⟨hsession, hsweeping⟩ := hphase
  unfold Erasure.beginCompacting moveOn at hok
  obtain ⟨rfl, -⟩ := transition_spec hok
  refine ⟨h.keyed.update fun _ _ _ => rfl, ?_, ?_⟩
  · intro j' hj'
    obtain ⟨r, hr, rfl⟩ := mem_update.mp hj'
    obtain ⟨hrecorded, hswept⟩ := h.rows r hr
    split_ifs with hmatch
    · rw [Bool.and_eq_true, decide_eq_true_eq, decide_eq_true_eq] at hmatch
      obtain ⟨hplan, hleft⟩ := hsweeping r hr hmatch.1 hmatch.2
      refine ⟨fun _ => hrecorded (by rw [hmatch.2]; rfl), fun _ p hp => ?_⟩
      obtain rfl := Option.some.inj (hplan.symm.trans hp)
      exact hleft
    · exact ⟨hrecorded, hswept⟩
  · exact phases_session h hsession rfl (fun job hrefers => hrefers.update fun _ => ⟨rfl, rfl, rfl⟩)
      hsession

end frame

/-! ## Careful runs -/

/-- What the code does not ensure. When a deletion starts, the measurements before the cursor of the
claim hold nothing that its plan covers; and nothing is written that a job after its deletion covers. -/
def careful (s : World) : ErasureEvent → Bool
  | .beginDeleting w _ =>
    match s.workers w with
    | .opened job plan =>
      let remaining := remainingMeasurements plan.measurements job.measurementCursor
      s.samples.all fun x => !plan.covers x || remaining.contains x.measurement
    | _ => true
  | .write x => s.jobs.all fun j => !j.state.swept || (s.plans j.id).all fun plan => !plan.covers x
  | _ => true

variable {s : World}

/-- A write outside the sessions that no job after its deletion covers. -/
theorem WorldOk.write (h : WorldOk s) (hsession : s.session = none) (hcareful : careful s (.write x) = true) :
    WorldOk { s with samples := writeSample s.samples x } where
  keyed := h.keyed
  rows := fun j hj => by
    obtain ⟨hrecorded, hswept⟩ := h.rows j hj
    refine ⟨hrecorded, fun hs plan hplan y hy hcovers => ?_⟩
    rcases Table.mem_snoc.mp hy with hy | hy
    · exact hswept hs plan hplan y (mem_filter.mp hy).1 hcovers
    · have hkept := all_eq_true.mp hcareful j hj
      rw [hs, hplan, Bool.not_true, Bool.false_or, Option.all_some, ← hy, hcovers] at hkept
      cases hkept
  phases := fun v => (h.phases v).others (by rw [hsession]; exact fun heq => nomatch heq) fun _ hr => hr

section steps

variable {digest : List String → String} {s s' : World} {w : String}

variable {result : Except ErasureError (List MetricErasureJob)} {jobs jobs' : List MetricErasureJob}
  {f : MetricErasureJob → MetricErasureJob} {now : Int} {onOk : World → World} {e : ErasureEvent}
  {jobID : String}

/-- A transaction whose error ends the work of the worker. -/
theorem WorldOk.commit_leave (h : WorldOk s)
    (hok : ∀ jobs, result = .ok jobs → WorldOk (onOk { s with jobs := jobs })) :
    WorldOk (s.commit result onOk fun _ s => s.leave w) := by
  cases result with
  | ok jobs => exact hok jobs rfl
  | error e => exact h.leave (.refl _) w

/-- A transaction of an operator. -/
theorem WorldOk.commit_id (h : WorldOk s) (hok : ∀ jobs, result = .ok jobs → RowsFollow s.jobs jobs) :
    WorldOk (s.commit result id fun _ => id) := by
  cases result with
  | error e => exact h
  | ok jobs =>
    have hrows := hok jobs rfl
    exact ⟨hrows.keyed h.keyed, fun j' hj' =>
        let ⟨j, hj, hf⟩ := hrows.mem hj'
        (h.rows j hj).frame hf (fun _ hx => hx) rfl,
      fun v => (h.phases v).frame hrows (fun _ hx => hx) rfl fun hv => hv⟩

/-- The worker goes on without a transaction. -/
theorem WorldOk.goOn (h : WorldOk s) {phase : WorkerPhase} (hphase : PhaseOk s w phase) : WorldOk (s.move w phase) :=
  h.move (.refl _) hphase

theorem worldOk_step (h : WorldOk s) (hcareful : careful s e = true) (hstep : ErasureExit digest s e s') :
    WorldOk s' := by
  have hphase := h.phases
  cases hstep with
  | claimRefused => exact h
  | @claimNone w now jobs hw hclaim =>
    have hrows := (RowsFollow.claim hclaim).1
    have hcommit : WorldOk (s.commit (.ok jobs) id fun _ => id) :=
      h.commit_id fun _ hj => Except.ok.inj hj ▸ hrows
    exact hcommit
  | claimed hw hclaim =>
    obtain ⟨hrows, -, hrefers⟩ := RowsFollow.claim hclaim
    exact h.move hrows (hrefers _ rfl)
  | openFailed => exact h.goOn trivial
  | opened hw hsession hplan => exact h.opened hw hsession (metricErasurePlan_spec hplan)
  | beginDeleting hw =>
    refine h.commit_leave fun jobs hok => h.beginDeleting hw hok fun x hx hcovers => ?_
    simp only [careful, hw, all_eq_true] at hcareful
    have hkept := hcareful x hx
    rwa [hcovers, Bool.not_true, Bool.false_or, contains_iff_mem] at hkept
  | @erased w measurement job plan remaining hw =>
    specialize hphase w
    rw [hw] at hphase
    refine h.frame (.refl _) (fun x hx => (mem_eraseMeasurement hx).1) rfl w rfl (fun _ _ hv => hv)
      ⟨hphase.1, fun row hrow hid hstate => ?_⟩
    obtain ⟨hplan, hleft⟩ := hphase.2 row hrow hid hstate
    exact ⟨hplan, hleft.erase⟩
  | @eraseFailed w =>
    exact h.frame (.refl _) (fun x hx => (mem_filter.mp hx).1) rfl w rfl (fun _ _ hv => hv) trivial
  | @advance w measurement now job plan remaining hw =>
    specialize hphase w
    rw [hw] at hphase
    cases hok : advance s.jobs job.id measurement now with
    | error e => exact h.goOn trivial
    | ok jobs =>
      have hrows := RowsFollow.advance hok
      exact h.move hrows ⟨hphase.1, hphase.2.frame hrows (fun _ hx => hx) rfl⟩
  | beginCompacting hw => exact h.commit_leave fun jobs hok => h.beginCompacting hw hok
  | @closeSession w => exact (h.leave (.refl _) w).goOn trivial
  | compactFailed | compacted => exact h.goOn trivial
  | beginFinalizing => exact h.commit_leave fun jobs hok => h.move (.beginFinalizing hok) trivial
  | @finalizeEntity w ok =>
    refine h.goOn ?_
    cases ok <;> trivial
  | @complete w => exact h.commit_leave fun jobs hok => h.leave (.complete hok) w
  | @fail w => exact h.commit_leave fun jobs hok => h.leave (.fail hok) w
  | @panicked w => exact h.commit_leave fun jobs hok => h.leave (.fail hok) w
  | @crash w => exact h.leave (.refl _) w
  | release => exact h.commit_id fun jobs hok => .release hok
  | retry | cancel => exact h.commit_id fun jobs hok => .operate hok fun _ => .back rfl rfl rfl rfl
  | write hsession => exact h.write hsession hcareful
  | catalogue =>
    exact ⟨h.keyed, fun j hj => (h.rows j hj).frame (.refl j) (fun _ hx => hx) rfl,
      fun v => (h.phases v).frame (.refl _) (fun _ hx => hx) rfl fun hv => hv⟩

/-! ## Success -/

theorem NoSuccess.transition (h : transition jobs jobID now states f = .ok jobs')
    (hf : ∀ j, states j.state = true → (f j).state ≠ .succeeded) : NoSuccess jobs jobs' := by
  obtain ⟨rfl, -⟩ := transition_spec h
  refine .update fun j hp => hf j ?_
  rw [Bool.and_eq_true] at hp
  exact hp.2

theorem NoSuccess.operate (h : operate jobs jobID now state f = .ok jobs') (hf : ∀ j, (f j).state ≠ .succeeded) :
    NoSuccess jobs jobs' := by
  exact .transition (operate_transition h) fun j _ => hf j

theorem NoSuccess.commit {onError : ErasureError → World → World} (honOk : ∀ s, (onOk s).jobs = s.jobs)
    (honError : ∀ e s, (onError e s).jobs = s.jobs) (h : ∀ jobs, result = .ok jobs → NoSuccess s.jobs jobs) :
    NoSuccess s.jobs (s.commit result onOk onError).jobs := by
  cases result with
  | ok jobs =>
    intro row hrow hstate
    rw [World.commit, honOk] at hrow
    exact h jobs rfl row hrow hstate
  | error e =>
    intro row hrow _
    rwa [World.commit, honError] at hrow

/-- Only `Complete` makes a job succeed. -/
theorem noSuccess_step (hstep : erasureNext digest s e = some s') (hne : ∀ w now, e ≠ .complete w now) :
    NoSuccess s.jobs s'.jobs := by
  have hsame : NoSuccess s.jobs s.jobs := fun row hrow _ => hrow
  cases erasureNext_exit hstep with
  | claimRefused | openFailed | opened | erased | eraseFailed | closeSession | compactFailed | compacted
  | finalizeEntity | crash | write | catalogue => exact hsame
  | claimNone _ hclaim | claimed _ hclaim => exact (RowsFollow.claim hclaim).2.1
  | beginDeleting =>
    refine .commit (fun _ => rfl) (fun _ _ => rfl) fun jobs hok => ?_
    unfold Erasure.beginDeleting at hok
    split_ifs at hok
    exact .transition hok fun _ _ => (nomatch ·)
  | advance =>
    refine .commit (fun _ => rfl) (fun _ _ => rfl) fun jobs hok => .transition hok fun j hj => ?_
    have hstate : j.state = .deleting := of_decide_eq_true hj
    simp only [hstate, ne_eq, reduceCtorEq, not_false_eq_true]
  | beginCompacting =>
    refine .commit (fun _ => rfl) (fun _ _ => rfl) fun jobs hok => ?_
    unfold Erasure.beginCompacting moveOn at hok
    exact .transition hok fun _ _ => (nomatch ·)
  | beginFinalizing =>
    refine .commit (fun _ => rfl) (fun _ _ => rfl) fun jobs hok => ?_
    unfold Erasure.beginFinalizing moveOn at hok
    exact .transition hok fun _ _ => (nomatch ·)
  | @complete w now => exact absurd rfl (hne w now)
  | fail | panicked | release =>
    exact .commit (fun _ => rfl) (fun _ _ => rfl) fun jobs hok => .transition hok fun _ _ => (nomatch ·)
  | retry | cancel =>
    exact .commit (fun _ => rfl) (fun _ _ => rfl) fun jobs hok => .operate hok fun _ => (nomatch ·)

/-- A job is done: its row records the cutoff and the digest of a plan, and no sample of its target up
to the cutoff is left in a measurement of the plan. -/
def Erased (s : World) (row : MetricErasureJob) : Prop :=
  ∃ plan, s.plans row.id = some plan ∧ row.cutoffUnixNano = some plan.cutoffUnixNano ∧
    row.catalogDigest = plan.digest ∧
    ∀ x ∈ s.samples, x.measurement ∈ plan.measurements → row.matches x = true →
      ¬(x.timestamp : Int) ≤ plan.cutoffUnixNano

instance (s : World) (row : MetricErasureJob) : Decidable (Erased s row) :=
  inferInstanceAs (Decidable (∃ plan, s.plans row.id = some plan ∧ _))

/-- What `Complete` does to a world that is in order. -/
theorem erased_complete (h : WorldOk s) (hstep : erasureNext digest s (.complete w now) = some s')
    {row : MetricErasureJob} (hrow : row ∈ s'.jobs) (hstate : row.state = .succeeded)
    (hbefore : ∀ j ∈ s.jobs, j.id = row.id → j.state ≠ .succeeded) : Erased s' row := by
  cases erasureNext_exit hstep with | @complete w now job hworker =>
  cases hok : complete s.jobs job.id now with
  | error e =>
    rw [hok] at hrow
    exact absurd hstate (hbefore row hrow rfl)
  | ok jobs =>
    rw [hok] at hrow
    obtain ⟨rfl, -⟩ := transition_spec hok
    obtain ⟨j, hj, rfl⟩ := mem_update.mp hrow
    by_cases hmatch : (decide (j.id = job.id) && decide (j.state = .finalizing)) = true
    · rw [if_pos hmatch] at hstate hbefore ⊢
      rw [Bool.and_eq_true, decide_eq_true_eq, decide_eq_true_eq] at hmatch
      obtain ⟨plan, hplan, hcutoff, hdigest, htarget⟩ := (h.rows j hj).recorded (by rw [hmatch.2]; rfl)
      have hleft := (h.rows j hj).swept (by rw [hmatch.2]; rfl) plan hplan
      refine ⟨plan, hplan, hcutoff, hdigest, fun x hx hm hmatches htime => ?_⟩
      have hcovers : plan.covers x = true := covers_iff.mpr ⟨hm, (htarget x).trans hmatches, htime⟩
      exact absurd (hleft x hx hcovers) not_mem_nil
    · rw [if_neg hmatch] at hstate hbefore
      exact absurd hstate (hbefore j hj rfl)

end steps

/-- Before the first claim: the jobs are queued, no worker is at work. -/
structure Unclaimed (s : World) : Prop where
  keyed : Table.Keyed (·.id) s.jobs
  queued : ∀ j ∈ s.jobs, j.state = .queued
  idle : ∀ w, s.workers w = .idle
  session : s.session = none

theorem Unclaimed.worldOk (h : Unclaimed s) : WorldOk s where
  keyed := h.keyed
  rows := fun j hj => by
    have hqueued := h.queued j hj
    constructor <;> rw [hqueued] <;> exact fun hp => nomatch hp
  phases := fun w => by rw [h.idle w]; trivial

/-- A step that fulfils what the code does not ensure. -/
def CarefulErasure (digest : List String → String) (s : World) (e : ErasureEvent) (s' : World) : Prop :=
  careful s e = true ∧ ErasureStep digest s e s'

/-- In a run of careful steps, whenever a job succeeds it has erased what its recorded plan covers. -/
theorem erasure_complete {digest : List String → String} {s₀ s s' : World} {es : List ErasureEvent}
    {e : ErasureEvent} (h₀ : Unclaimed s₀) (hrun : Lts.Run (CarefulErasure digest) s₀ es s)
    (hstep : CarefulErasure digest s e s') {row : MetricErasureJob} (hrow : row ∈ s'.jobs)
    (hstate : row.state = .succeeded)
    (hbefore : ∀ j ∈ s.jobs, j.id = row.id → j.state ≠ .succeeded) : Erased s' row := by
  have hok : WorldOk s :=
    hrun.inv h₀.worldOk fun s e s' h hs => worldOk_step h hs.1 (erasureNext_exit hs.2)
  by_cases hcomplete : ∃ w now, e = .complete w now
  · obtain ⟨w, now, rfl⟩ := hcomplete
    exact erased_complete hok hstep.2 hrow hstate hbefore
  · have hne : ∀ w now, e ≠ .complete w now := fun w now heq => hcomplete ⟨w, now, heq⟩
    exact absurd hstate (hbefore row (noSuccess_step hstep.2 hne row hrow hstate) rfl)

/-! ## Runs of given events -/

/-- The next world of a careful step. -/
def carefulNext (digest : List String → String) (s : World) (e : ErasureEvent) : Option World :=
  if careful s e then erasureNext digest s e else none

theorem carefulNext_step {digest : List String → String} (s : World) (e : ErasureEvent) (s' : World)
    (h : carefulNext digest s e = some s') : CarefulErasure digest s e s' := by
  unfold carefulNext at h
  split_ifs at h with hcareful
  exact ⟨hcareful, h⟩

/-- The erasure of the history of a node that has one sample. -/
def sampleWorld : World where
  jobs := [{ id := "5b0f9c54-31c2-4f6e-8f0a-6f6f3a9d2c11", scope := .nodeHistory, targetID := "n1" }]
  samples := [{ measurement := "cpu", node := "n1", timestamp := 50 }]
  catalog := ["cpu"]
  workers := fun _ => .idle
  session := none
  plans := fun _ => none

/-- SHA-256 of the inventory of `sampleWorld`: its four measurements, one a line. -/
def sampleDigest (_ : List String) : String :=
  "ed05651484c04a8ae1ce247d9d96ba37e10ac704f201467548b6ea4f0426d847"

/-- Erase some measurements. -/
def eraseMany (n : Nat) (now : Int) : List ErasureEvent :=
  (replicate n [.erase "w1" .ok, .advance "w1" now]).flatten

/-- From the claim to the start of the deletion, with one time of the clock. -/
def startErasure (now : Int) : List ErasureEvent :=
  [.claim "w1" now, .openSession "w1" now none, .beginDeleting "w1" now]

/-- From the end of the deletion to the last step before `Complete`. -/
def finishErasure (now : Int) : List ErasureEvent :=
  [.beginCompacting "w1" now, .closeSession "w1", .compact "w1" true, .beginFinalizing "w1" now,
    .finalizeEntity "w1" true]

theorem sampleWorld_unclaimed : Unclaimed sampleWorld where
  keyed := nodup_singleton _
  queued := fun j hj => by rw [mem_singleton.mp hj]
  idle := fun _ => rfl
  session := rfl

/-- The first attempt erases three measurements and fails; a sample of the node arrives in one of them, an
operator lets the job try again, and the second attempt is about to complete. -/
def retriedRun (node : String) : List ErasureEvent :=
  startErasure 100 ++ eraseMany 3 100 ++
    [.erase "w1" (.failed fun _ => false), .fail "w1" 110,
      .write { measurement := "cpu", node, timestamp := 150 },
      .retry "5b0f9c54-31c2-4f6e-8f0a-6f6f3a9d2c11" 160] ++
    startErasure 200 ++ eraseMany 1 200 ++ finishErasure 200

def skippingRun : List ErasureEvent := retriedRun "n1" ++ [.complete "w1" 200]

set_option synthInstance.maxSize 256 in
/-- The second attempt takes the cutoff 200 and starts after the cursor: the sample of the node at 150
survives, and the job succeeds. -/
theorem resumed_erasure_skips : ∃ s, Lts.Run (ErasureStep sampleDigest) sampleWorld skippingRun s ∧
      ∃ row ∈ s.jobs, row.state = .succeeded ∧ row.cutoffUnixNano = some 200 ∧ ¬Erased s row := by
  exact Lts.Run.computed (erasureNext sampleDigest) (fun _ _ _ h => h) (by decide +kernel)

/-- An erasure with a retry, between whose attempts a sample of another node arrives. -/
theorem erasure_complete_sample : ∃ s s' row, Lts.Run (CarefulErasure sampleDigest) sampleWorld (retriedRun "n2") s ∧
    CarefulErasure sampleDigest s (.complete "w1" 200) s' ∧ row ∈ s'.jobs ∧ row.state = .succeeded ∧ Erased s' row := by
  obtain ⟨s, hs, hbefore, s', hs', row, hmem, hstate⟩ : ∃ s, Lts.Run (CarefulErasure sampleDigest) sampleWorld
      (retriedRun "n2") s ∧ (∀ j ∈ s.jobs, j.state ≠ .succeeded) ∧
      ∃ s' ∈ carefulNext sampleDigest s (.complete "w1" 200), ∃ row ∈ s'.jobs, row.state = .succeeded :=
    Lts.Run.computed (carefulNext sampleDigest) carefulNext_step (by decide +kernel)
  have hstep := carefulNext_step _ _ _ hs'
  exact ⟨s, s', row, hs, hstep, hmem, hstate, erasure_complete sampleWorld_unclaimed hs hstep hmem hstate
    fun j hj _ => hbefore j hj⟩

end Beat.Erasure
