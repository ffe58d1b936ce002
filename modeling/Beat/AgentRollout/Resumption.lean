import Beat.AgentRollout.Invariant

/-!
# Out of a pause

A rollout leaves a pause by `Promote` or by `Resume`. The two look at the reason of the pause: `Promote`
takes only a rollout that awaits its promotion, `Resume` wants an acknowledgement unless an operator
paused, and takes no rollout before its first wave. The reason is overwritten by every pause.

* A pause by an operator on top of one by the system hides it: `Resume` then asks for nothing.
  `resumption_acknowledged`: without such a pause, the acknowledgement is there.
* A pause before the first wave replaces the reason that `Promote` looks for, and `Resume` is too early:
  the rollout can only be aborted (`Stranded`). `recoverable_iff`: there is no other way to get stuck.
-/

namespace Beat.AgentRollout

open List Option Db

/-! ## What the owner's calls need -/

section calls

variable {svc : Service} {w : World} {r : Rollout} {at_ : Int} {trust : Trust} {release : Release}

theorem DbOk.rollout_eq {db : Db} (hok : DbOk db) (hr : r ∈ db.rollouts) : db.rollout r.id = .ok r := by
  unfold Db.rollout
  rw [Table.find?_eq_some_of_unique hr (by simp) fun x hx h => hok.rollouts.eq_of_key hx hr (by simpa using h)]

theorem Steps.of_transact {w' : World} {e : Event} (h : w.transact svc e = .ok w') : Steps svc w (e, none) w' := by
  unfold Steps AgentRollout.step
  rw [h]

/-- The world after a change of one rollout. -/
def World.change (w : World) (id : String) (f : Rollout → Rollout) : World :=
  { w with db := { w.db with rollouts := Table.update w.db.rollouts (·.id = id) f } }

theorem World.mem_change (hr : r ∈ w.db.rollouts) (f : Rollout → Rollout) : f r ∈ (w.change r.id f).db.rollouts :=
  Table.mem_update.mpr ⟨r, hr, by simp⟩

theorem pause_succeeds (svc : Service) (hok : DbOk w.db) (hr : r ∈ w.db.rollouts)
    (ht : r.state.isTerminal = false) : Steps svc w (.pause r.id, none)
      (w.change r.id fun r => { r with state := .paused, reason := .operatorPause }) := by
  apply Steps.of_transact
  simp only [World.transact, Db.pause, hok.rollout_eq hr, bind, Except.bind, ht]
  rfl

theorem resume_succeeds (ack : Bool) (hok : DbOk w.db) (hr : r ∈ w.db.rollouts) (hs : r.state = .paused)
    (hw : 0 ≤ r.currentWave) (hack : r.reason = .operatorPause ∨ ack = true)
    (hrel : w.db.releaseInTransaction svc r.releaseID at_ trust = .ok release) :
    Steps svc w (.resume r.id ack at_ trust, none)
      (w.change r.id fun r => { r with state := .active, reason := .none }) := by
  apply Steps.of_transact
  have hstate : ¬(r.state ≠ .paused ∨ r.currentWave < 0) := by simp [hs, hw]
  have hreason : ¬(r.reason ≠ .operatorPause ∧ ack = false) := by rcases hack with h | h <;> simp [h]
  simp only [World.transact, Db.resume, hok.rollout_eq hr, bind, Except.bind, if_neg hstate,
    if_neg hreason, hrel]
  rfl

/-- The promotion to the first wave has no gate. -/
theorem promote_succeeds (hok : DbOk w.db) (hr : r ∈ w.db.rollouts) (hp : promotable r = true)
    (hw : r.currentWave < 0) (hrel : w.db.releaseInTransaction svc r.releaseID at_ trust = .ok release) :
    Steps svc w (.promote r.id at_ trust, none) (w.change r.id promoted) := by
  apply Steps.of_transact
  have hgate : ¬(0 ≤ r.currentWave ∧ w.db.waveHealthy r release at_ = false) := by omega
  simp only [World.transact, Db.promote, hok.rollout_eq hr, bind, Except.bind, hp, hrel, if_neg hgate]
  rfl

end calls

/-! ## Acknowledgement -/

/-- Paused by the system. -/
def Rollout.SystemPaused (r : Rollout) : Prop := r.state = .paused ∧ r.reason.isSystem = true

instance (r : Rollout) : Decidable r.SystemPaused := inferInstanceAs (Decidable (_ ∧ _))

/-- A `Resume` of the rollout with the acknowledgement, that succeeded. -/
def Acknowledges (id : String) (x : Entry) : Prop := ∃ at_ trust, x = (.resume id true at_ trust, none)

/-- The steps in which no `Pause` of an operator covers a pause of the system. -/
def UncoveredSteps (svc : Service) (w : World) (x : Entry) (w' : World) : Prop :=
  Steps svc w x w' ∧ ∀ r ∈ w.db.rollouts, x = (.pause r.id, none) → ¬r.SystemPaused

variable {fs : List Entry}

section acknowledgement

variable {svc : Service} {db : Db} {e : Event} {r r' : Rollout}

/-- One move of a rollout that the system paused. -/
theorem RolloutMove.systemPaused (h : RolloutMove svc db e r r') (hp : r.SystemPaused) (hcover : e ≠ .pause r.id) :
    r'.SystemPaused ∨ r'.state = .aborted ∨ ∃ at_ trust, e = .resume r.id true at_ trust := by
  obtain ⟨hstate, hreason⟩ := hp
  cases h with
  | system h =>
    obtain rfl | ⟨-, reason, hsys, rfl⟩ := h
    · exact .inl ⟨hstate, hreason⟩
    · exact .inl ⟨rfl, hsys⟩
  | promote _ hprom =>
    -- the reason is not the one that `Promote` looks for
    cases hr : r.reason <;> simp [promotable, hstate, hr, Reason.isSystem] at hprom hreason
  | pause he => exact absurd he hcover
  | abort => exact .inr (.inl rfl)
  | resume he _ _ hack =>
    rcases hack with hop | rfl
    · rw [hop] at hreason
      cases hreason
    · exact .inr (.inr ⟨_, _, he⟩)

/-- A terminal rollout stays as it is. -/
theorem RolloutMove.terminal (h : RolloutMove svc db e r r') (ht : r.state.isTerminal = true) : r' = r := by
  cases h with
  | system h =>
    obtain rfl | ⟨hnot, -⟩ := h
    · rfl
    · rw [ht] at hnot
      cases hnot
  | promote _ hprom => cases hs : r.state <;> simp [promotable, hs, RolloutState.isTerminal] at hprom ht
  | pause _ hnot | abort _ hnot =>
    rw [ht] at hnot
    cases hnot
  | resume _ hs =>
    rw [hs] at ht
    cases ht

/-- A rollout that the system paused, after the steps `fs`: it is still paused by the system or was
aborted, or a `Resume` acknowledged it. -/
theorem systemPaused_run {w₁ w₂ : World} (hok : DbOk w₁.db) (hr : r ∈ w₁.db.rollouts) (hp : r.SystemPaused)
    (hrun : Lts.Run (UncoveredSteps svc) w₁ fs w₂) : DbOk w₂.db ∧ ((∃ x ∈ fs, Acknowledges r.id x) ∨
      ∃ r' ∈ w₂.db.rollouts, r'.id = r.id ∧ (r'.SystemPaused ∨ r'.state = .aborted)) := by
  induction hrun with
  | nil => exact ⟨hok, .inr ⟨r, hr, rfl, .inl hp⟩⟩
  | @snoc fs x w w' _ hst ih => ?_
  obtain ⟨hst, hcover⟩ := hst
  obtain ⟨hok, hack | ⟨r₁, hr₁, hid, hpaused⟩⟩ := ih
  · obtain ⟨y, hy, hack⟩ := hack
    exact ⟨hst.ok hok, .inl ⟨y, mem_append_left _ hy, hack⟩⟩
  refine ⟨hst.ok hok, ?_⟩
  obtain ⟨r₂, hr₂, rfl | ⟨hnone, hmove⟩⟩ := hst.rollout hok hr₁
  · exact .inr ⟨r₂, hr₂, hid, hpaused⟩
  obtain ⟨e, out⟩ := x
  obtain rfl : out = none := hnone
  have hid' := hmove.same.id.trans hid
  rcases hpaused with hpaused | haborted
  · have hpause : e ≠ .pause r₁.id := by
      rintro rfl
      exact hcover r₁ hr₁ rfl hpaused
    rcases hmove.systemPaused hpaused hpause with h | h | ⟨at_, trust, rfl⟩
    · exact .inr ⟨r₂, hr₂, hid', .inl h⟩
    · exact .inr ⟨r₂, hr₂, hid', .inr h⟩
    · exact .inl ⟨_, mem_concat_self, at_, trust, by rw [hid]⟩
  · obtain rfl := hmove.terminal (by rw [haborted]; rfl)
    exact .inr ⟨r₂, hr₂, hid', .inr haborted⟩

/-- A rollout that the system paused becomes active again only after a `Resume` with the acknowledgement,
as long as no `Pause` covers the pause of the system. When one does, a `Resume` without the
acknowledgement starts the rollout: from any state of a run, once its first wave has begun and while its
release may be used. -/
theorem resumption_acknowledged {es : List Entry} {w₁ : World} (hdb : db.Fresh)
    (hrun : ServiceRun svc db es w₁) (hr : r ∈ w₁.db.rollouts) (hp : r.SystemPaused) :
    (∀ fs w₂, Lts.Run (UncoveredSteps svc) w₁ fs w₂ → ∀ r' ∈ w₂.db.rollouts, r'.id = r.id →
      r'.state = .active → ∃ x ∈ fs, Acknowledges r.id x) ∧ ∀ at_ trust release, 0 ≤ r.currentWave →
      w₁.db.releaseInTransaction svc r.releaseID at_ trust = .ok release →
      ∃ w₂, Lts.Run (Steps svc) w₁ [(.pause r.id, none), (.resume r.id false at_ trust, none)] w₂ ∧
        ∃ r' ∈ w₂.db.rollouts, r'.id = r.id ∧ r'.state = .active := by
  have hok := hrun.ok hdb
  refine ⟨fun fs w₂ hfs r' hr' hid hactive => ?_, fun at_ trust release hw hrel => ?_⟩
  · obtain ⟨hok₂, hack | ⟨r₂, hr₂, hid₂, hrest⟩⟩ := systemPaused_run hok hr hp hfs
    · exact hack
    · obtain rfl := hok₂.rollouts.eq_of_key hr' hr₂ (hid.trans hid₂.symm)
      rcases hrest with ⟨hs, -⟩ | hs
      · rw [hs] at hactive
        cases hactive
      · rw [hs] at hactive
        cases hactive
  · have hpause := pause_succeeds svc hok hr (by rw [hp.1]; rfl)
    have hmem := World.mem_change hr fun r => { r with state := .paused, reason := .operatorPause }
    have hresume := resume_succeeds false (hpause.ok hok) hmem rfl hw (.inl rfl) hrel
    exact ⟨_, .cons hpause (.cons hresume .nil), _, World.mem_change hmem _, rfl, rfl⟩

end acknowledgement

/-- The first report of the first node is a failure. -/
def sampleFailure : List Entry := sampleStart 2 ++ [sampleReport "a1" 10 .failed]

/-- The health gate pauses the rollout; `Pause` and then `Resume` without an acknowledgement start it
again. -/
theorem unacknowledged_resumption : ∃ w₁ w₂, ServiceRun sampleService sampleDb sampleFailure w₁ ∧
      (∃ r ∈ w₁.db.rollouts, r.id = "r1" ∧ r.state = .paused ∧ r.reason = .healthGateFailed) ∧
      Lts.Run (Steps sampleService) w₁ [(.pause "r1", none), (.resume "r1" false (sampleTime 12) (.ok ()), none)] w₂ ∧
      ∃ r ∈ w₂.db.rollouts, r.id = "r1" ∧ r.state = .active := by
  simp only [exists_and_left]
  decide +kernel

/-- The same rollout, resumed with the acknowledgement. -/
theorem resumption_acknowledged_sample :
    ∃ w₁ w₂ r, ServiceRun sampleService sampleDb sampleFailure w₁ ∧ r ∈ w₁.db.rollouts ∧ r.SystemPaused ∧
      Lts.Run (UncoveredSteps sampleService) w₁ [(.resume "r1" true (sampleTime 12) (.ok ()), none)] w₂ ∧
      ∃ x ∈ [((.resume "r1" true (sampleTime 12) (.ok ()), none) : Entry)], Acknowledges r.id x := by
  obtain ⟨w₁, hrun, ⟨r, hr, hid, hp⟩, w₂, hw₂, r', hr', hid', hs'⟩ : ∃ w₁,
      ServiceRun sampleService sampleDb sampleFailure w₁ ∧
      (∃ r ∈ w₁.db.rollouts, r.id = "r1" ∧ r.SystemPaused) ∧
      ∃ w₂, Steps sampleService w₁ (.resume "r1" true (sampleTime 12) (.ok ()), none) w₂ ∧
      ∃ r ∈ w₂.db.rollouts, r.id = "r1" ∧ r.state = .active := by decide +kernel
  have hfs : Lts.Run (UncoveredSteps sampleService) w₁
      [(.resume "r1" true (sampleTime 12) (.ok ()), none)] w₂ := by
    refine .cons ⟨hw₂, fun r _ he => ?_⟩ .nil
    exact nomatch congrArg Prod.fst he
  exact ⟨w₁, w₂, r, hrun, hr, hp, hfs,
    (resumption_acknowledged sampleDb_fresh hrun hr hp).1 _ w₂ hfs r' hr' (hid'.trans hid.symm) hs'⟩

/-! ## Recovery -/

/-- Paused before the first wave, and not awaiting the promotion. -/
def Rollout.Stranded (r : Rollout) : Prop :=
  r.state = .paused ∧ r.currentWave < 0 ∧ r.reason ≠ .awaitingPromotion

/-- A call of an owner who acknowledges uncertainty: a `Promote` or a `Resume` of the rollout. -/
def Persists (id : String) (x : Entry) : Prop :=
  (∃ at_ trust, x.1 = .promote id at_ trust) ∨ ∃ at_ trust, x.1 = .resume id true at_ trust

section recovery

variable {svc : Service} {db : Db} {e : Event} {r r' : Rollout}

/-- Only `Abort` takes a rollout out of this state. -/
theorem RolloutMove.stranded (h : RolloutMove svc db e r r') (hs : r.Stranded) (he : e ≠ .abort r.id) :
    r'.Stranded := by
  obtain ⟨hstate, hwave, hreason⟩ := hs
  cases h with
  | system h =>
    obtain rfl | ⟨-, reason, hsys, rfl⟩ := h
    · exact ⟨hstate, hwave, hreason⟩
    · refine ⟨rfl, hwave, ?_⟩
      rintro rfl
      cases hsys
  | promote _ hprom => simp [promotable, hstate, hreason] at hprom
  | pause => exact ⟨rfl, hwave, nofun⟩
  | abort habort => exact absurd habort he
  | resume _ _ hw => omega

theorem stranded_run {w w' : World} (hok : DbOk w.db) (hr : r ∈ w.db.rollouts) (hs : r.Stranded)
    (hrun : Lts.Run (Steps svc) w fs w') (hfs : ∀ x ∈ fs, x.1 ≠ .abort r.id) :
    DbOk w'.db ∧ ∃ r' ∈ w'.db.rollouts, r'.id = r.id ∧ r'.Stranded := by
  induction hrun with
  | nil => exact ⟨hok, r, hr, rfl, hs⟩
  | @snoc fs x w w' _ hst ih => ?_
  obtain ⟨hok, r₁, hr₁, hid, hs₁⟩ := ih fun y hy => hfs y (mem_append_left _ hy)
  refine ⟨hst.ok hok, ?_⟩
  obtain ⟨r₂, hr₂, rfl | ⟨-, hmove⟩⟩ := hst.rollout hok hr₁
  · exact ⟨r₂, hr₂, hid, hs₁⟩
  · refine ⟨r₂, hr₂, hmove.same.id.trans hid, hmove.stranded hs₁ ?_⟩
    rw [hid]
    exact hfs x mem_concat_self

theorem Persists.not_abort {id : String} {x : Entry} (h : Persists id x) : x.1 ≠ .abort id := by
  rcases h with ⟨at_, trust, h⟩ | ⟨at_, trust, h⟩ <;> rw [h] <;> exact nofun

/-- The calls of an owner do not help a stranded rollout. -/
theorem stranded_persists {w w' : World} (hok : DbOk w.db) (hr : r ∈ w.db.rollouts) (hs : r.Stranded)
    (hrun : Lts.Run (Steps svc) w fs w') (hfs : ∀ x ∈ fs, Persists r.id x) (hr' : r' ∈ w'.db.rollouts)
    (hid : r'.id = r.id) : r'.state = .paused := by
  obtain ⟨hok', r₂, hr₂, hid₂, hs₂⟩ := stranded_run hok hr hs hrun fun x hx => (hfs x hx).not_abort
  rw [hok'.rollouts.eq_of_key hr' hr₂ (hid.trans hid₂.symm)]
  exact hs₂.1

/-- In every state of a run: an owner can bring a rollout that has not ended, and whose release may be
used, to an active or completed state, unless it is stranded. -/
theorem recoverable_iff {es : List Entry} {w : World} (hdb : db.Fresh) (hrun : ServiceRun svc db es w)
    (hr : r ∈ w.db.rollouts) (hterm : r.state.isTerminal = false) {at_ : Int} {trust : Trust}
    {release : Release} (hrel : w.db.releaseInTransaction svc r.releaseID at_ trust = .ok release) :
    (∃ fs w', (∀ x ∈ fs, Persists r.id x) ∧ Lts.Run (Steps svc) w fs w' ∧
      ∃ r' ∈ w'.db.rollouts, r'.id = r.id ∧ (r'.state = .active ∨ r'.state = .completed)) ↔ ¬r.Stranded := by
  have hok := hrun.ok hdb
  constructor
  · rintro ⟨fs, w', hfs, hrun', r', hr', hid, hgoal⟩ hs
    rw [stranded_persists hok hr hs hrun' hfs hr' hid] at hgoal
    simp at hgoal
  · intro hs
    cases hstate : r.state with
    | completed | aborted =>
      rw [hstate] at hterm
      cases hterm
    | active => exact ⟨[], w, by simp, .nil, r, hr, rfl, .inl hstate⟩
    | paused =>
      by_cases hw : 0 ≤ r.currentWave
      · have hresume := resume_succeeds true hok hr hstate hw (.inr rfl) hrel
        refine ⟨[(.resume r.id true at_ trust, none)], _, fun x hx => ?_, .cons hresume .nil, _,
          World.mem_change hr _, rfl, .inl rfl⟩
        rw [mem_singleton.mp hx]
        exact .inr ⟨at_, trust, rfl⟩
      · -- before the first wave it awaits its promotion
        have hreason : r.reason = .awaitingPromotion := by
          by_contra hne
          exact hs ⟨hstate, by omega, hne⟩
        have hprom : promotable r = true := by simp [promotable, hstate, hreason]
        have hpromote := promote_succeeds hok hr hprom (by omega) hrel
        refine ⟨[(.promote r.id at_ trust, none)], _, fun x hx => ?_, .cons hpromote .nil, _,
          World.mem_change hr _, ?_⟩
        · rw [mem_singleton.mp hx]
          exact .inl ⟨at_, trust, rfl⟩
        · have hwaves := (hok.rolloutOk r hr).waves
          rw [promoted, if_neg (by omega)]
          exact ⟨rfl, .inl rfl⟩

end recovery

/-- A rollout that is paused right after it was created. -/
theorem stranded_rollout : ∃ w r, ServiceRun sampleService sampleDb [sampleCreate 2, (.pause "r1", none)] w ∧
      r ∈ w.db.rollouts ∧ r.state.isTerminal = false ∧
      (∃ release, w.db.releaseInTransaction sampleService r.releaseID (sampleTime 12) (.ok ()) = .ok release) ∧
      ∀ fs w', (∀ x ∈ fs, Persists r.id x) → Lts.Run (Steps sampleService) w fs w' →
        ∀ r' ∈ w'.db.rollouts, r'.id = r.id → r'.state = .paused := by
  obtain ⟨w, hrun, r, hr, hstate, hwave, hreason, hrel⟩ : ∃ w,
      ServiceRun sampleService sampleDb [sampleCreate 2, (.pause "r1", none)] w ∧ ∃ r ∈ w.db.rollouts,
      r.state = .paused ∧ r.currentWave < 0 ∧ r.reason ≠ .awaitingPromotion ∧
      (w.db.releaseInTransaction sampleService r.releaseID (sampleTime 12) (.ok ())).toOption.isSome := by
    decide +kernel
  simp only [isSome_iff_exists, Fallible.toOption_eq_some] at hrel
  exact ⟨w, r, hrun, hr, by rw [hstate]; rfl, hrel, fun fs w' hfs hrun' r' hr' hid =>
    stranded_persists (ServiceRun.ok sampleDb_fresh hrun) hr ⟨hstate, hwave, hreason⟩ hrun' hfs hr' hid⟩

/-- A rollout that has not been paused can be promoted. -/
theorem recoverable_sample : ∃ w r, ServiceRun sampleService sampleDb [sampleCreate 2] w ∧ r ∈ w.db.rollouts ∧
      ∃ fs w', (∀ x ∈ fs, Persists r.id x) ∧ Lts.Run (Steps sampleService) w fs w' ∧
        ∃ r' ∈ w'.db.rollouts, r'.id = r.id ∧ (r'.state = .active ∨ r'.state = .completed) := by
  obtain ⟨w, hrun, r, hr, hstate, hreason, hrel⟩ : ∃ w,
      ServiceRun sampleService sampleDb [sampleCreate 2] w ∧ ∃ r ∈ w.db.rollouts,
      r.state = .paused ∧ r.reason = .awaitingPromotion ∧
      (w.db.releaseInTransaction sampleService r.releaseID (sampleTime 12) (.ok ())).toOption.isSome := by
    decide +kernel
  obtain ⟨release, hrel⟩ := isSome_iff_exists.mp hrel
  exact ⟨w, r, hrun, hr, (recoverable_iff sampleDb_fresh hrun hr (by rw [hstate]; rfl)
    (Fallible.toOption_eq_some.mp hrel)).mpr fun hs => hs.2.2 hreason⟩

end Beat.AgentRollout
