import Beat.AgentRollout.Invariant

/-!
# The waves of a rollout, one after the other

An attempt is made only for a target of the current wave of an active rollout, and the current wave goes
up only by a `Promote` that finds every target of it healthy. So a target of a later wave is offered only
after every target of every wave before it has passed.

* `Passed`: a target that passes the gate of its wave; `passed_of_waveHealthy`.
* `Db.plan`: the targets of a rollout, with their nodes and waves. `plan_run`: it never changes.
* `WavePassed`: the promotion of a run at which a wave passed; `gates_run`: each wave before the current
  one has such a promotion.
* `planned_run`: the plan is the one that `Create` made of the nodes that it selected.
* `staged_rollout`: the whole.
-/

namespace Beat.AgentRollout

open List Fallible Instant Db

/-! ## The gate of a wave -/

/-- A target that passes at an instant: healthy for long enough, with a recent report, on a node that runs
the release and was seen recently. -/
structure Passed (db : Db) (r : Rollout) (release : Release) (at_ : Int) (t : Target) : Prop where
  healthy : t.state = .healthy
  observed : ∃ since, t.healthySince = some since ∧
    r.policy.observationSeconds * second ≤ at_ - since
  reported : ∃ report, t.lastReportAt = some report ∧
    at_ - report ≤ r.policy.reportFreshnessSeconds * second
  node : ∃ n ∈ db.nodes, t.nodeID = some n.id ∧
    sameReleaseVersion n.version release.manifest.version = true ∧
    ∃ seen, n.lastSeen = some seen ∧ at_ - seen ≤ r.policy.reportFreshnessSeconds * second

variable {t : Target} {id : String} {nodes : List Node}

section gate

variable {svc : Service} {db db' : Db} {e : Event} {r r' : Rollout}

theorem passed_of_waveHealthy {release : Release} {at_ : Int} (hok : RolloutOk r)
    (h : db.waveHealthy r release at_ = true) (ht : t ∈ db.targets) (hid : t.rolloutID = r.id)
    (hw : t.wave = r.currentWave) : Passed db r release at_ t := by
  have hpolicy := hok.health
  simp only [validPolicyHealth, Bool.and_eq_true, decide_eq_true_eq] at hpolicy
  have hobserve : 0 ≤ r.policy.observationSeconds * second := by
    unfold second
    omega
  have hfresh := freshness_lt hok.health
  simp only [waveHealthy, Bool.and_eq_true, all_eq_true] at h
  have hpass := h.2 t (mem_filter.mpr ⟨ht, by simp [hid, hw]⟩)
  simp only [validWaveHealth, Bool.and_eq_true, Option.any_eq_true, beq_iff_eq, decide_eq_true_eq] at hpass
  obtain ⟨⟨⟨⟨n, hn, hversion, seen, hseen, hrecent⟩, hhealthy⟩, since, hsince, hlong⟩, report, hreport, hlast⟩ := hpass
  obtain ⟨nodeID, hnode, hfind⟩ := Option.bind_eq_some_iff.mp hn
  have hnid : n.id = nodeID := by simpa using find?_some hfind
  exact ⟨hhealthy, ⟨since, hsince, le_of_le_sub hobserve hlong⟩,
    ⟨report, hreport, le_of_sub_le hfresh hlast⟩, n, mem_of_find?_eq_some hfind,
    hnid ▸ hnode, hversion, seen, hseen, le_of_sub_le hfresh hrecent⟩

/-- The current wave goes up by a promotion, and the wave before it passed. -/
theorem RolloutMove.wave (h : RolloutMove svc db e r r') :
    r'.currentWave = r.currentWave ∨ r'.currentWave = r.currentWave + 1 ∧
      ∃ at_ trust release, e = .promote r.id at_ trust ∧ release ∈ db.releases ∧
        release.id = r.releaseID ∧ (0 ≤ r.currentWave → db.waveHealthy r release at_ = true) := by
  cases h with
  | system h => obtain rfl | ⟨-, reason, -, rfl⟩ := h <;> exact .inl rfl
  | pause | abort | resume => exact .inl rfl
  | promote he _ hr hw =>
    obtain ⟨hmem, hid⟩ := releaseInTransaction_ok hr
    unfold promoted
    split
    · exact .inl rfl
    · exact .inr ⟨rfl, _, _, _, he, hmem, hid, hw⟩

end gate

/-! ## The plan of a rollout -/

/-- The targets of a rollout. -/
def Db.targetsOf (db : Db) (rolloutID : String) : List Target :=
  db.targets.filter (·.rolloutID = rolloutID)

def Db.plan (db : Db) (rolloutID : String) : List Place := (db.targetsOf rolloutID).map Target.place

section plan

variable {svc : Service} {db db' : Db} {e : Event} {r r' : Rollout} {w w' : World} {fs : List Entry}

theorem plan_eq (db : Db) (id : String) : db.plan id = (db.targets.map Target.place).filter (·.rolloutID = id) := by
  rw [Db.plan, Db.targetsOf, filter_map]
  rfl

theorem plannedPlaces_filter {id' : String} (ids : Nat → String) (policy : Policy) (nodes : List Node) (h : id ≠ id') :
    (plannedPlaces id ids policy nodes).filter (·.rolloutID = id') = [] := by
  rw [filter_eq_nil_iff]
  intro p hp
  obtain ⟨n, -, rfl⟩ := mem_map.mp hp
  simpa using h

/-- The plan of a rollout stays. -/
theorem DbStep.plan (h : DbStep svc db e db') (hr : r ∈ db.rollouts) : db'.plan r.id = db.plan r.id := by
  rw [plan_eq, plan_eq]
  rcases h.places with ⟨hplaces, -⟩ | ⟨input, id, ids, now, at_, trust, policy, nodes, -, -, hfresh, -, hplaces⟩
  · rw [hplaces]
  · rw [hplaces, filter_append, plannedPlaces_filter _ _ _ (Ne.symm (hfresh r hr)), append_nil]

theorem plan_run (hok : DbOk w.db) (hr : r ∈ w.db.rollouts) (hrun : Lts.Run (Steps svc) w fs w') :
    w'.db.plan r.id = w.db.plan r.id := by
  have h := hrun.inv (I := fun w' => DbOk w'.db ∧ (∃ r' ∈ w'.db.rollouts, r'.id = r.id) ∧
    w'.db.plan r.id = w.db.plan r.id) ⟨hok, ⟨r, hr, rfl⟩, rfl⟩ ?_
  · exact h.2.2
  rintro w₁ x w₂ ⟨hok, ⟨r₁, hr₁, hid⟩, hplan⟩ hst
  refine ⟨hst.ok hok, ?_⟩
  rcases hst.cases hok with ⟨-, hstep, -⟩ | ⟨-, hsame⟩
  · obtain ⟨r₂, hr₂, hmove⟩ := hstep.rollout hr₁
    refine ⟨⟨r₂, hr₂, hmove.same.id.trans hid⟩, ?_⟩
    rw [← hid, hstep.plan hr₁, hid, hplan]
  · rw [hsame]
    exact ⟨⟨r₁, hr₁, hid⟩, hplan⟩

/-- A target has a target of the same id before, if its rollout was there. -/
theorem target_before (hok : DbOk w.db) (hr : r ∈ w.db.rollouts) (hrun : Lts.Run (Steps svc) w fs w')
    (ht : t ∈ w'.db.targets) (hid : t.rolloutID = r.id) : ∃ t₁ ∈ w.db.targets, t₁.place = t.place := by
  have hmem : t.place ∈ w'.db.plan r.id :=
    mem_map_of_mem (mem_filter.mpr ⟨ht, by simpa using hid⟩)
  rw [plan_run hok hr hrun] at hmem
  obtain ⟨t₁, ht₁, hplace⟩ := mem_map.mp hmem
  exact ⟨t₁, (mem_filter.mp ht₁).1, hplace⟩

end plan

/-! ## The waves that passed -/

/-- In a run from `w₀` to `w`: the promotion of the rollout out of the wave, and the gate it passed. -/
def GatePassed (svc : Service) (w₀ : World) (es : List Entry) (w : World) (id : String) (wave : Int) : Prop :=
  ∃ fs at_ trust gs u, es = fs ++ (.promote id at_ trust, none) :: gs ∧ Lts.Run (Steps svc) w₀ fs u ∧
    Lts.Run (Steps svc) u ((.promote id at_ trust, none) :: gs) w ∧
    ∃ r ∈ u.db.rollouts, r.id = id ∧ r.currentWave = wave ∧
      ∃ release ∈ u.db.releases, release.id = r.releaseID ∧ u.db.waveHealthy r release at_ = true

/-- In a run from `w₀` to `w`: the promotion of the rollout out of the wave, at an instant at which every
target of the wave passed. -/
def WavePassed (svc : Service) (w₀ : World) (es : List Entry) (w : World) (id : String) (wave : Int) : Prop :=
  ∃ fs at_ trust gs u, es = fs ++ (.promote id at_ trust, none) :: gs ∧ Lts.Run (Steps svc) w₀ fs u ∧
    Lts.Run (Steps svc) u ((.promote id at_ trust, none) :: gs) w ∧
    ∃ r ∈ u.db.rollouts, r.id = id ∧ r.currentWave = wave ∧
      ∃ release ∈ u.db.releases, release.id = r.releaseID ∧
        ∀ t ∈ w.db.targets, t.rolloutID = id → t.wave = wave →
          ∃ t₁ ∈ u.db.targets, t₁.id = t.id ∧ Passed u.db r release at_ t₁

section gates

variable {svc : Service} {db : Db} {r : Rollout} {w₀ w w' : World} {es : List Entry} {wave : Int}

theorem GatePassed.snoc {x : Entry} (h : GatePassed svc w₀ es w id wave) (hst : Steps svc w x w') :
    GatePassed svc w₀ (es ++ [x]) w' id wave := by
  obtain ⟨fs, at_, trust, gs, u, rfl, hfs, hgs, hgate⟩ := h
  exact ⟨fs, at_, trust, gs ++ [x], u, by simp, hfs, hgs.snoc hst, hgate⟩

/-- The targets of the wave are those that the gate looked at. -/
theorem GatePassed.wavePassed (hdb : db.Fresh) (h : GatePassed svc ⟨db, fun _ => none⟩ es w id wave) :
    WavePassed svc ⟨db, fun _ => none⟩ es w id wave := by
  obtain ⟨fs, at_, trust, gs, u, hes, hfs, hgs, r, hr, hid, hwave, release, hrel, hrid, hgate⟩ := h
  have hok := ServiceRun.ok hdb hfs
  refine ⟨fs, at_, trust, gs, u, hes, hfs, hgs, r, hr, hid, hwave, release, hrel, hrid, ?_⟩
  intro t ht hrollout htwave
  obtain ⟨t₁, ht₁, hplace⟩ := target_before hok hr hgs ht (hrollout.trans hid.symm)
  refine ⟨t₁, ht₁, congrArg Place.id hplace, passed_of_waveHealthy (hok.rolloutOk r hr) hgate ht₁ ?_ ?_⟩
  · exact (congrArg Place.rolloutID hplace).trans (hrollout.trans hid.symm)
  · exact (congrArg Place.wave hplace).trans (htwave.trans hwave.symm)

/-- Every wave before the current one has passed its gate. -/
theorem gates_run (hdb : db.Fresh) (hrun : ServiceRun svc db es w) :
    ∀ r ∈ w.db.rollouts, ∀ wave, 0 ≤ wave → wave < r.currentWave →
      GatePassed svc ⟨db, fun _ => none⟩ es w r.id wave := by
  induction hrun with
  | nil => simp [hdb.rollouts]
  | @snoc es x w w' hrun hst ih => ?_
  intro r' hr' wave h0 hlt
  have hok := ServiceRun.ok hdb hrun
  rcases hst.cases hok with ⟨hnone, hstep, -⟩ | ⟨-, hsame⟩
  · rcases hstep.rollout_back hr' with ⟨r, hr, hmove⟩ | ⟨hnew, -⟩
    · rw [hmove.same.id]
      by_cases hold : wave < r.currentWave
      · exact (ih r hr wave h0 hold).snoc hst
      · -- the wave that this step leaves
        rcases hmove.wave with heq | ⟨heq, at_, trust, release, he, hrel, hrid, hgate⟩
        · omega
        · obtain rfl : wave = r.currentWave := by omega
          obtain ⟨e, out⟩ := x
          obtain rfl : out = none := hnone
          obtain rfl : e = _ := he
          exact ⟨es, at_, trust, [], w, rfl, hrun, .cons hst .nil, r, hr, rfl, rfl, release, hrel, hrid,
            hgate h0⟩
    · omega
  · rw [hsame] at hr'
    exact (ih r' hr' wave h0 hlt).snoc hst

end gates

/-! ## The plan that was made -/

/-- The nodes of a new rollout: those that the input selects. -/
theorem snapshotTargets_ok {db : Db} {input : CreateInput} (h : db.snapshotTargets input = .ok nodes) :
    0 < nodes.length ∧ nodes.Perm (db.nodes.filter (selects input)) := by
  obtain ⟨-, h⟩ := of_guard h
  obtain ⟨-, -, h⟩ := bind_eq_ok h
  obtain ⟨-, -, h⟩ := bind_eq_ok h
  obtain ⟨-, h⟩ := of_guard h
  obtain ⟨hsize, h⟩ := of_guard h
  cases h
  rw [not_or, Nat.not_lt] at hsize
  refine ⟨length_pos_of_ne_nil hsize.1, ?_⟩
  -- no node is cut off
  have hall : ((db.nodes.filter (selects input)).insertionSort (·.id ≤ ·.id)).length ≤ maximumTargets + 1 := by
    have := hsize.2
    rw [length_take] at this
    omega
  rw [take_of_length_le hall]
  exact perm_insertionSort _ _

/-- The creation of a rollout in a run, and the plan it made. -/
def Planned (svc : Service) (db : Db) (es : List Entry) (w : World) (r : Rollout) : Prop :=
  ∃ fs input ids now at_ trust gs u nodes, es = fs ++ (.create input r.id ids now at_ trust, none) :: gs ∧
    ServiceRun svc db fs u ∧ u.db.snapshotTargets input = .ok nodes ∧
    w.db.plan r.id = plannedPlaces r.id ids r.policy nodes ∧ r.totalWaves = totalWaves r.policy nodes.length

section planned

variable {svc : Service} {db : Db} {r r' : Rollout} {w w' : World} {es : List Entry} {x : Entry}

theorem Planned.snoc (h : Planned svc db es w r) (hsame : r'.Same r)
    (hplan : w'.db.plan r.id = w.db.plan r.id) : Planned svc db (es ++ [x]) w' r' := by
  obtain ⟨fs, input, ids, now, at_, trust, gs, u, nodes, rfl, hu, hnodes, hplan₀, htotal⟩ := h
  refine ⟨fs, input, ids, now, at_, trust, gs ++ [x], u, nodes, ?_, hu, hnodes, ?_, ?_⟩
  · rw [hsame.id]
    simp
  · rw [hsame.id, hsame.policy, hplan, hplan₀]
  · rw [hsame.totalWaves, hsame.policy, htotal]

/-- A new rollout had no targets before. -/
theorem plan_created {db' : Db} {ids : Nat → String} {policy : Policy} (hok : DbOk db)
    (hfresh : ∀ r ∈ db.rollouts, r.id ≠ id) (hplaces : db'.targets.map Target.place =
      db.targets.map Target.place ++ plannedPlaces id ids policy nodes) :
    db'.plan id = plannedPlaces id ids policy nodes := by
  have hnone : (db.targets.map Target.place).filter (·.rolloutID = id) = [] := by
    rw [filter_eq_nil_iff]
    intro p hp hid
    obtain ⟨t, ht, rfl⟩ := mem_map.mp hp
    obtain ⟨r, hr, hrid⟩ := hok.foreign t ht
    exact hfresh r hr (hrid.trans (of_decide_eq_true hid))
  rw [plan_eq, hplaces, filter_append, hnone, nil_append, filter_eq_self]
  intro p hp
  obtain ⟨n, -, rfl⟩ := mem_map.mp hp
  exact decide_eq_true rfl

theorem planned_run (hdb : db.Fresh) (hrun : ServiceRun svc db es w) :
    ∀ r ∈ w.db.rollouts, Planned svc db es w r := by
  induction hrun with
  | nil => simp [hdb.rollouts]
  | @snoc es x w w' hrun hst ih => ?_
  intro r' hr'
  have hok := ServiceRun.ok hdb hrun
  rcases hst.cases hok with ⟨hnone, hstep, -⟩ | ⟨-, hsame⟩
  · rcases hstep.places with ⟨-, hback⟩ |
      ⟨input, id, ids, now, at_, trust, policy, nodes, he, hnodes, hfresh, hrollouts, hplaces⟩
    · obtain ⟨r, hr, hmove⟩ := Table.exists_of_mem_right hback hr'
      exact (ih r hr).snoc hmove.same (hstep.plan hr)
    · obtain hr' | rfl := Table.mem_snoc.mp (hrollouts ▸ hr')
      · exact (ih r' hr').snoc ⟨rfl, rfl, rfl, rfl⟩ (hstep.plan hr')
      · obtain ⟨e, out⟩ := x
        obtain rfl : out = none := hnone
        obtain rfl : e = _ := he
        exact ⟨es, input, ids, now, at_, trust, [], w, nodes, rfl, hrun, hnodes,
          plan_created hok hfresh hplaces, rfl⟩
  · rw [hsame] at hr'
    exact (ih r' hr').snoc ⟨rfl, rfl, rfl, rfl⟩ (by rw [hsame])

end planned

section attempts

variable {svc : Service} {db db' : Db} {e : Event}

/-- An attempt is made for a target of the current wave of an active rollout. -/
theorem DbStep.attempt (h : DbStep svc db e db') {a : Attempt} (ha : a ∈ db'.attempts)
    (hnew : a.id ∉ db.attempts.map (·.id)) :
    ∃ t ∈ db.targets, ∃ r ∈ db.rollouts, a.targetID = t.id ∧ t.rolloutID = r.id ∧ r.state = .active ∧
      r.currentWave = t.wave := by
  have hmem : a.id ∈ db'.attempts.map (·.id) := mem_map_of_mem ha
  cases h with
  | quiet _ _ hids => exact absurd (hids ▸ hmem) hnew
  | created _ _ _ _ _ _ hsame _ => exact absurd (hsame ▸ hmem) hnew
  | observed _ h => exact absurd (h.attempts ▸ hmem) hnew
  | offered _ hc _ _ _ hattempts _ =>
    rw [hattempts] at ha
    rcases Table.mem_snoc.mp ha with ha | ha
    · exact absurd (mem_map_of_mem ha) hnew
    · rw [ha]
      obtain ⟨hr, ht, hid, -, hactive, hwave, -⟩ := waitingFor_mem hc.waiting
      exact ⟨_, ht, _, hr, rfl, hid, hactive, hwave⟩

end attempts

/-- In every run:

* an attempt is made only for a target of the current wave of an active rollout, after every target of
  every wave before it has passed in a promotion;
* the current wave changes only by one, by a `Promote` at an instant at which every target of the wave
  that is left passes;
* no wave of a rollout is empty, the first has at most `CanaryCount` targets and each other one at most
  `WaveSize`; and each node that the `Create` selected has exactly one target, the others have none. -/
theorem staged_rollout {svc : Service} {db : Db} {es : List Entry} {w : World} (hdb : db.Fresh)
    (hrun : ServiceRun svc db es w) :
    (∀ x w', Steps svc w x w' → ∀ a ∈ w'.db.attempts, a.id ∉ w.db.attempts.map (·.id) →
      ∃ t ∈ w.db.targets, ∃ r ∈ w.db.rollouts, a.targetID = t.id ∧ t.rolloutID = r.id ∧
        r.state = .active ∧ r.currentWave = t.wave ∧
        ∀ wave, 0 ≤ wave → wave < t.wave → WavePassed svc ⟨db, fun _ => none⟩ es w r.id wave) ∧
    (∀ x w', Steps svc w x w' → ∀ r ∈ w.db.rollouts, ∀ r' ∈ w'.db.rollouts, r'.id = r.id →
      r'.currentWave ≠ r.currentWave → r'.currentWave = r.currentWave + 1 ∧
        ∃ at_ trust, x = (.promote r.id at_ trust, none) ∧
          ∃ release ∈ w.db.releases, release.id = r.releaseID ∧ (0 ≤ r.currentWave →
            ∀ t ∈ w.db.targets, t.rolloutID = r.id → t.wave = r.currentWave → Passed w.db r release at_ t)) ∧
    ∀ r ∈ w.db.rollouts, WavePlan r.policy r.totalWaves ((w.db.targetsOf r.id).map (·.wave)) ∧
      ∃ fs input ids now at_ trust gs u, es = fs ++ (.create input r.id ids now at_ trust, none) :: gs ∧
        ServiceRun svc db fs u ∧ (∀ n ∈ u.db.nodes, selects input n = true →
          (w.db.targetsOf r.id).countP (·.nodeSnapshotID = n.id) = 1) ∧
        ∀ t ∈ w.db.targetsOf r.id, ∃ n ∈ u.db.nodes, selects input n = true ∧ n.id = t.nodeSnapshotID := by
  have hok := hrun.ok hdb
  refine ⟨fun x w' hst a ha hnew => ?_, fun x w' hst r hr r' hr' hid hne => ?_, fun r hr => ?_⟩
  · rcases hst.cases hok with ⟨-, hstep, -⟩ | ⟨-, hsame⟩
    · obtain ⟨t, ht, r, hr, htid, hrid, hactive, hwave⟩ := hstep.attempt ha hnew
      exact ⟨t, ht, r, hr, htid, hrid, hactive, hwave, fun wave h0 hlt =>
        (gates_run hdb hrun r hr wave h0 (hwave ▸ hlt)).wavePassed hdb⟩
    · exact absurd (mem_map_of_mem (hsame ▸ ha)) hnew
  · have hok' := hst.ok hok
    obtain ⟨r₁, hr₁, hmove⟩ := hst.rollout hok hr
    obtain rfl : r₁ = r' := by
      refine hok'.rollouts.eq_of_key hr₁ hr' ?_
      rcases hmove with rfl | ⟨-, hmove⟩
      · exact hid.symm
      · exact hmove.same.id.trans hid.symm
    rcases hmove with rfl | ⟨hnone, hmove⟩
    · exact absurd rfl hne
    rcases hmove.wave with heq | ⟨heq, at_, trust, release, he, hrel, hrid, hgate⟩
    · exact absurd heq hne
    · exact ⟨heq, at_, trust, Prod.ext he hnone, release, hrel, hrid, fun h0 t ht htid hwave =>
        passed_of_waveHealthy (hok.rolloutOk r hr) (hgate h0) ht htid hwave⟩
  · obtain ⟨fs, input, ids, now, at_, trust, gs, u, nodes, hes, hu, hnodes, hplan, htotal⟩ :=
      planned_run hdb hrun r hr
    obtain ⟨hpos, hperm⟩ := snapshotTargets_ok hnodes
    have hwaves : (w.db.targetsOf r.id).map (·.wave) = (range nodes.length).map (waveOf r.policy) := by
      have := congrArg (map Place.wave) hplan
      rw [Db.plan, plannedPlaces, map_map, map_map] at this
      rw [range_eq_range', ← zipIdx_map_snd, map_map]
      exact this
    have hsnap : (w.db.targetsOf r.id).map (·.nodeSnapshotID) = nodes.map (·.id) := by
      have := congrArg (map Place.node) hplan
      rw [Db.plan, plannedPlaces, map_map, map_map] at this
      rw [← zipIdx_map_fst 0 nodes, map_map]
      exact this
    have hkeyed : (nodes.map (·.id)).Nodup :=
      (hperm.map _).nodup_iff.mpr ((ServiceRun.ok hdb hu).nodes.filter _)
    refine ⟨?_, fs, input, ids, now, at_, trust, gs, u, hes, hu, fun n hn hsel => ?_, fun t ht => ?_⟩
    · rw [hwaves, htotal]
      exact wavePlan (hok.rolloutOk r hr).concurrency hpos
    · have hmem : n.id ∈ nodes.map (·.id) :=
        mem_map_of_mem (hperm.mem_iff.mpr (mem_filter.mpr ⟨hn, hsel⟩))
      have hone := count_eq_one_of_mem hkeyed hmem
      rw [← hsnap, count, countP_map] at hone
      rw [← hone]
      refine countP_congr fun t _ => ?_
      simp
    · have hmem : t.nodeSnapshotID ∈ nodes.map (·.id) := hsnap ▸ mem_map_of_mem ht
      obtain ⟨n, hn, hid⟩ := mem_map.mp hmem
      obtain ⟨hn, hsel⟩ := mem_filter.mp (hperm.mem_iff.mp hn)
      exact ⟨n, hn, hsel, hid⟩

/-- The canary becomes healthy, the second wave begins, and the second node asks for its assignment. -/
def sampleStaged : List Entry :=
  sampleStart 1 ++
    [(.putNode (sampleNode "n1" "1.1.0" 10), none), sampleReport "a1" 10 .healthy,
      (.putNode (sampleNode "n1" "1.1.0" 40), none), sampleReport "a1" 40 .healthy,
      (.promote "r1" (sampleTime 41) (.ok ()), none)] ++ (sampleLease 1 "n2" "a2" 42).take 1

/-- The second transaction of that `Lease`. -/
def sampleOffer : Entry :=
  (.leaseOffer 1 "a2" sampleNonce (sampleTime 42) false (.ok ()) (sampleTime 42) (.ok ()), none)

theorem staged_rollout_sample :
    ∃ w w', ServiceRun sampleService sampleDb sampleStaged w ∧ Steps sampleService w sampleOffer w' ∧
      ∃ a ∈ w'.db.attempts, ∃ t ∈ w.db.targets, a.targetID = t.id ∧ t.wave = 1 ∧
        WavePassed sampleService ⟨sampleDb, fun _ => none⟩ sampleStaged w "r1" 0 := by
  obtain ⟨w, hrun, hwave, hrollout, hattempts, w', hw', a, ha, haid, htarget⟩ : ∃ w,
      ServiceRun sampleService sampleDb sampleStaged w ∧ (∀ t ∈ w.db.targets, t.id ≠ "t1" ∨ t.wave = 1) ∧
      (∀ r ∈ w.db.rollouts, r.id = "r1") ∧ (∀ a ∈ w.db.attempts, a.id ≠ "a2") ∧
      ∃ w', Steps sampleService w sampleOffer w' ∧ ∃ a ∈ w'.db.attempts, a.id = "a2" ∧ a.targetID = "t1" := by
    decide +kernel
  have hnew : a.id ∉ w.db.attempts.map (·.id) := by
    intro hmem
    obtain ⟨b, hb, hid⟩ := mem_map.mp hmem
    exact hattempts b hb (hid.trans haid)
  obtain ⟨t, ht, r, hr, htid, -, -, -, hpassed⟩ :=
    (staged_rollout sampleDb_fresh hrun).1 sampleOffer w' hw' a ha hnew
  have hone : t.wave = 1 := (hwave t ht).resolve_left (fun hne => hne (htid.symm.trans htarget))
  refine ⟨w, w', hrun, hw', a, ha, t, ht, htid, hone, ?_⟩
  rw [← hrollout r hr]
  exact hpassed 0 (Int.le_refl 0) (by rw [hone]; decide)

end Beat.AgentRollout
