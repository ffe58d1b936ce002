import Beat.AgentRollout.Invariant

/-!
# How many updates are under way

`MaxConcurrent` is compared when a target is offered. `Observe` computes the state of a target anew from
each report, and a healthy target that reports again may go back to `observing`: the count goes up
without a comparison.

* `DbStep.active`: when the number of active targets of a rollout goes up, and what was checked.
* `Reopens`: a report by which `observationState` takes a healthy target back while its rollout has no room;
  `Steps.overfills_iff`: these are the steps that do so.
* `concurrency_limits`: a node never has two active targets, and a rollout stays within its limit in all
  states of a run exactly when no step of it reopens a target.
-/

namespace Beat.AgentRollout

open List Db

/-- The number of targets of a rollout that are offered or observing. -/
def Db.active (db : Db) (rolloutID : String) : Nat := db.targets.countP (isActiveOf rolloutID)

/-- No rollout has more active targets than its policy allows. -/
def Db.WithinLimits (db : Db) : Prop := ∀ r ∈ db.rollouts, (db.active r.id : Int) ≤ r.policy.maxConcurrent

/-- A healthy target of the rollout is observed again. -/
def Reobserved (db db' : Db) (rolloutID : String) : Prop :=
  ∃ t ∈ db.targets, ∃ t' ∈ db'.targets, t'.id = t.id ∧ t.rolloutID = rolloutID ∧ t.state = .healthy ∧
    t'.state = .observing

/-- A healthy target is observed again, while its rollout has as many active targets as it may. -/
def Overfills (db db' : Db) : Prop :=
  ∃ r ∈ db.rollouts, Reobserved db db' r.id ∧ r.policy.maxConcurrent ≤ db.active r.id

/-- By the rows that it meets, the report takes a healthy target of the rollout back to `observing`: no other
target of the node is active. -/
def TakesBack (svc : Service) (db : Db) (nodeID : String) (input : Observation) (now at_ : Int) (r : Rollout) :
    Prop :=
  validObservation input now = true ∧ nodeID ∉ db.targets.filterMap activeNode ∧ ∃ node t reason since,
    db.agent nodeID = .ok node ∧ db.observedTarget svc nodeID input at_ = .ok t ∧
    db.rollout t.rolloutID = .ok r ∧ t.state = .healthy ∧
    observationState t r.policy ((db.releases.find? (·.id = r.releaseID)).map (·.manifest)) node input at_ =
      .ok (.observing, reason, since)

/-- The call takes a healthy target back while its rollout has as many active targets as it may. -/
def Reopens (svc : Service) (db : Db) : Event → Prop
  | .observe nodeID input now at_ =>
      ∃ r, TakesBack svc db nodeID input now at_ r ∧ r.policy.maxConcurrent ≤ db.active r.id
  | _ => False

section step

variable {svc : Service} {db db' : Db} {e : Event} {id : String}

variable {t : Target} {verdict : Verdict} {nodeID : String} {input : Observation}

theorem isActiveOf_iff : isActiveOf id t = true ↔ t.rolloutID = id ∧ t.state.isActive = true := by
  rw [isActiveOf, Bool.and_eq_true, decide_eq_true_eq]

/-- The count after a change of one target. -/
theorem active_update (hok : DbOk db) (ht : t ∈ db.targets) {p : Target → Bool} {f : Target → Target}
    (hp : ∀ x ∈ db.targets, p x = true ↔ x = t) (hf : (f t).rolloutID = t.rolloutID)
    (hdb' : db'.targets = Table.update db.targets p f) (id : String) :
    db'.active id + (if t.rolloutID = id ∧ t.state.isActive = true then 1 else 0) =
      db.active id + if t.rolloutID = id ∧ (f t).state.isActive = true then 1 else 0 := by
  have h := Table.countP_update_one (f := f) (q := isActiveOf id) (List.Nodup.of_map _ hok.targets) ht hp
  rw [← hdb'] at h
  simp only [isActiveOf_iff, hf] at h
  exact h

/-- The target that a report is about, by its id. -/
theorem Observed.unique (h : Observed db nodeID input db' t verdict) (hok : DbOk db) :
    ∀ x ∈ db.targets, decide (x.id = t.id) = true ↔ x = t := by
  intro x hx
  rw [decide_eq_true_eq]
  exact ⟨fun hid => hok.targets.eq_of_key hx h.mem hid, fun heq => by rw [heq]⟩

/-- A target that takes reports and is not active is decided. -/
theorem Observed.state (h : Observed db nodeID input db' t verdict) (hok : DbOk db)
    (hv : verdict = .observing) (ha : t.state.isActive = false) : t.state = .healthy := by
  obtain ⟨hwait, haborted⟩ := hok.nonce t h.mem h.nonce
  have hfailed : t.state ≠ .failed := by
    intro hf
    rw [h.failed hf] at hv
    cases hv
  cases hs : t.state <;> simp_all [TargetState.isActive, TargetState.isWaiting]

/-- An offer: one more for the rollout of the target, which had room. -/
theorem Db.LeaseCandidate.Ok.active {c : LeaseCandidate} {node : Node} {attemptID : String} {hash : Hash}
    {expiry : Int} (hc : c.Ok db node) (hok : DbOk db)
    (ht : db'.targets = Table.update db.targets (fun t => t.id = c.target.id && t.state.isWaiting)
      (offeredTarget c attemptID hash expiry)) (id : String) :
    db'.active id = db.active id ∨ db'.active id = db.active id + 1 ∧
      ∃ r ∈ db.rollouts, r.id = id ∧ (db.active id : Int) < r.policy.maxConcurrent := by
  have hwaiting := waitingFor_mem hc.waiting
  obtain ⟨hr, htmem, hrollout, -, -, -, hwait⟩ := hwaiting
  have hinactive : c.target.state.isActive = false := by
    cases hs : c.target.state <;> rw [hs] at hwait <;> first | rfl | exact nomatch hwait
  have hone : ∀ x ∈ db.targets,
      (decide (x.id = c.target.id) && x.state.isWaiting) = true ↔ x = c.target := by
    intro x hx
    rw [Bool.and_eq_true, decide_eq_true_eq]
    refine ⟨fun hx' => hok.targets.eq_of_key hx htmem hx'.1, ?_⟩
    rintro rfl
    exact ⟨rfl, hwait⟩
  have hcount := active_update hok htmem hone rfl ht id
  have hroom := assignmentCapacity_room hc.capacity
  by_cases hid : c.target.rolloutID = id
  · rw [if_neg (by simp [hinactive]), if_pos ⟨hid, rfl⟩] at hcount
    exact .inr ⟨hcount, c.rollout, hr, hrollout.symm.trans hid, by rwa [← hid, hrollout]⟩
  · rw [if_neg fun h => hid h.1, if_neg fun h => hid h.1] at hcount
    exact .inl hcount

/-- A report: one more for the rollout of a healthy target that is observed again. -/
theorem Observed.active (h : Observed db nodeID input db' t verdict) (hok : DbOk db) (id : String) :
    db'.active id ≤ db.active id ∨ db'.active id = db.active id + 1 ∧ Reobserved db db' id := by
  obtain ⟨reason, since, ht⟩ := h.targets
  have hcount : db'.active id + (if t.rolloutID = id ∧ t.state.isActive = true then 1 else 0) =
      db.active id + if t.rolloutID = id ∧ verdict.target.isActive = true then 1 else 0 :=
    active_update hok h.mem (h.unique hok) rfl ht id
  by_cases hback : t.rolloutID = id ∧ t.state.isActive = false ∧ verdict = .observing
  · obtain ⟨hid, ha, rfl⟩ := hback
    have hrow : observedRow .observing reason since input.reportAt t ∈ db'.targets := by
      rw [ht]
      exact Table.mem_update.mpr ⟨t, h.mem, (if_pos (by simp)).symm⟩
    rw [if_neg (by simp [ha]), if_pos ⟨hid, rfl⟩] at hcount
    exact .inr ⟨hcount, t, h.mem, _, hrow, rfl, hid, h.state hok rfl ha, rfl⟩
  · -- the target does not start to count
    have hstart : t.rolloutID = id ∧ verdict.target.isActive = true →
        t.rolloutID = id ∧ t.state.isActive = true := by
      rintro ⟨hid, hverdict⟩
      by_contra hne
      refine hback ⟨hid, by simpa [hid] using hne, ?_⟩
      cases verdict <;> first | rfl | exact nomatch hverdict
    refine .inl ?_
    by_cases hafter : t.rolloutID = id ∧ verdict.target.isActive = true
    · rw [if_pos (hstart hafter), if_pos hafter] at hcount
      omega
    · rw [if_neg hafter] at hcount
      omega

/-- A rollout gets one more active target by an offer, for which there was room, or by a report of a
healthy target. -/
theorem DbStep.active (hok : DbOk db) (h : DbStep svc db e db') (id : String) :
    db'.active id ≤ db.active id ∨ db'.active id = db.active id + 1 ∧
      ((∃ r ∈ db.rollouts, r.id = id ∧ (db.active id : Int) < r.policy.maxConcurrent) ∨ Reobserved db db' id) := by
  cases h with
  | quiet _ ht _ =>
    refine .inl (Table.countP_le ht fun _ _ hquiet ha => ?_)
    rw [isActiveOf_iff] at ha ⊢
    exact ⟨hquiet.rolloutID ▸ ha.1, hquiet.state ha.2 ▸ ha.2⟩
  | @created input id' ids now at_ trust policy nodes _ _ _ _ _ ht _ _ =>
    have hnone : (nodes.zipIdx.map (plannedTarget (createdRollout input id' policy nodes at_) ids)).countP
        (isActiveOf id) = 0 := by
      rw [countP_eq_zero]
      intro t ht
      obtain ⟨n, -, rfl⟩ := mem_map.mp ht
      rw [isActiveOf_iff]
      exact fun ha => nomatch ha.2
    refine .inl (Nat.le_of_eq ?_)
    rw [Db.active, ht, countP_append, hnone]
    rfl
  | offered _ hc _ _ ht _ _ =>
    rcases hc.active hok ht id with heq | ⟨heq, hroom⟩
    · exact .inl (Nat.le_of_eq heq)
    · exact .inr ⟨heq, .inl hroom⟩
  | observed _ h =>
    rcases h.active hok id with hle | ⟨heq, hre⟩
    · exact .inl hle
    · exact .inr ⟨heq, .inr hre⟩

/-- A healthy target is observed again by a report only, which makes one more. -/
theorem DbStep.reobserved (hok : DbOk db) (h : DbStep svc db e db') (hre : Reobserved db db' id) :
    db'.active id = db.active id + 1 ∧ ∃ nodeID input now at_, e = .observe nodeID input now at_ := by
  obtain ⟨t, ht, t', ht', htid, hid, hhealthy, hobserving⟩ := hre
  have hkept : t'.state ≠ t.state := by
    rw [hhealthy, hobserving]
    exact nofun
  cases h with
  | quiet _ hts _ =>
    obtain ⟨t₁, ht₁, hmove⟩ := Table.exists_of_mem_right hts ht'
    obtain rfl := hok.targets.eq_of_key ht₁ ht (hmove.id.symm.trans htid)
    exact absurd (hmove.state (by rw [hobserving]; rfl)) hkept
  | created _ _ _ _ _ hts _ hkeyed =>
    rw [hkeyed.eq_of_key ht' (hts ▸ mem_append_left _ ht) htid] at hkept
    exact absurd rfl hkept
  | offered _ _ _ _ hts _ _ =>
    rw [hts] at ht'
    rw [hok.targets.eq_of_mem_update ht ht' htid fun _ _ _ => rfl] at hkept hobserving
    split at hobserving
    · cases hobserving
    · exact absurd (hobserving.symm.trans hhealthy) nofun
  | @observed nodeID input now at_ t₀ verdict he h =>
    refine ⟨?_, nodeID, input, now, at_, he⟩
    obtain ⟨reason, since, hts⟩ := h.targets
    have ht'' := ht'
    rw [hts] at ht''
    rw [hok.targets.eq_of_mem_update ht ht'' htid fun _ _ _ => rfl] at hkept hobserving
    split at hobserving
    case isFalse => exact absurd (hobserving.symm.trans hhealthy) nofun
    rename_i hone
    obtain rfl := (h.unique hok t ht).mp hone
    have hcount := active_update hok h.mem (h.unique hok) rfl hts id
    rwa [if_neg (by rw [hhealthy]; exact fun ha => nomatch ha.2),
      if_pos ⟨hid, by rw [hobserving]; rfl⟩] at hcount

/-- A step keeps the limits unless it takes a healthy target back to a rollout without room. -/
theorem DbStep.withinLimits (hok : DbOk db) (hok' : DbOk db') (h : DbStep svc db e db')
    (hlim : db.WithinLimits) : db'.WithinLimits ↔ ¬Overfills db db' := by
  constructor
  · rintro hlim' ⟨r, hr, hre, hfull⟩
    obtain ⟨r', hr', hmove⟩ := h.rollout hr
    have := hlim' r' hr'
    rw [hmove.same.id, hmove.same.policy, (h.reobserved hok hre).1] at this
    omega
  · intro hno r' hr'
    rcases h.rollout_back hr' with ⟨r, hr, hmove⟩ | ⟨-, hnew⟩
    · rw [hmove.same.id, hmove.same.policy]
      have hle := hlim r hr
      rcases h.active hok r.id with hact | ⟨hact, ⟨r₁, hr₁, hid, hroom⟩ | hre⟩
      · omega
      · rw [hok.rollouts.eq_of_key hr₁ hr hid] at hroom
        omega
      · have : ¬r.policy.maxConcurrent ≤ db.active r.id := fun hfull => hno ⟨r, hr, hre, hfull⟩
        omega
    · -- a new rollout had no targets before
      have hzero : db.active r'.id = 0 := by
        unfold Db.active
        rw [countP_eq_zero]
        intro t ht ha
        obtain ⟨r, hr, hid⟩ := hok.foreign t ht
        exact hnew r hr (hid.trans (isActiveOf_iff.mp ha).1)
      have hmax := (hok'.rolloutOk r' hr').concurrency
      simp only [validPolicyConcurrency, Bool.and_eq_true, decide_eq_true_eq] at hmax
      rcases h.active hok r'.id with hact | ⟨hact, -⟩ <;> omega

/-- The index admits that an inactive target of the node becomes active if no other one is. -/
theorem DbOk.index_update (hok : DbOk db) (ht : t ∈ db.targets) (ha : t.state.isActive = false) {f : Target → Target}
    (hf : activeNode (f t) = some nodeID) :
    ((Table.update db.targets (·.id = t.id) f).filterMap activeNode).Nodup ↔
      nodeID ∉ db.targets.filterMap activeNode := by
  obtain ⟨pre, post, hsplit⟩ := append_of_mem ht
  have hkeyed := hok.targets
  have hindex := hok.index
  have hnone : activeNode t = none := by rw [activeNode, if_neg (by simp [ha])]
  rw [hsplit] at hkeyed hindex ⊢
  rw [Table.Keyed, map_append, map_cons, nodup_middle, nodup_cons, ← map_append] at hkeyed
  have hother (x : Target) (hx : x ∈ pre ++ post) : decide (x.id = t.id) = false :=
    decide_eq_false fun hid => hkeyed.1 (hid ▸ mem_map_of_mem hx)
  rw [Table.update_middle (by simp) (fun x hx => hother x (mem_append_left _ hx))
    fun x hx => hother x (mem_append_right _ hx)]
  simp only [filterMap_append, filterMap_cons, hnone, hf] at hindex ⊢
  rw [nodup_middle, nodup_cons, and_iff_left hindex]

theorem TakesBack.rollout_mem {now at_ : Int} {r : Rollout} (h : TakesBack svc db nodeID input now at_ r) :
    r ∈ db.rollouts := by
  obtain ⟨-, -, _, _, _, _, -, -, hr, -⟩ := h
  exact (rollout_ok hr).1

/-- What a report of the step does, told from the rows before it. -/
theorem observe_reobserved (hok : DbOk db) {now at_ : Int} :
    (∃ db', db.observe svc nodeID input now at_ = .ok db' ∧ Reobserved db db' id) ↔
      ∃ r, TakesBack svc db nodeID input now at_ r ∧ r.id = id := by
  constructor
  · rintro ⟨db', h, t, ht, t', ht', htid, rfl, hhealthy, hobserving⟩
    obtain ⟨hvalid, node, t₀, r, verdict, reason, since, hnode, ht₀, hr, hstate, rfl, hindex⟩ := observe_ok h
    obtain ⟨-, hmem, ⟨hnodeID, -⟩, -⟩ := observedTarget_ok ht₀
    rw [hok.targets.eq_of_mem_update ht ht' htid fun _ _ _ => rfl] at hobserving
    split at hobserving
    case isFalse => exact absurd (hobserving.symm.trans hhealthy) nofun
    rename_i hone
    obtain rfl := hok.targets.eq_of_key ht hmem (of_decide_eq_true hone)
    obtain rfl : verdict = .observing := by
      cases verdict <;> first | rfl | exact nomatch hobserving
    refine ⟨r, ⟨hvalid, ?_, node, t, reason, since, hnode, ht₀, hr, hhealthy, hstate⟩, (rollout_ok hr).2⟩
    have hactive : activeNode (observedRow .observing reason since input.reportAt t) = some nodeID := hnodeID
    exact (hok.index_update hmem (by rw [hhealthy]; rfl) hactive).mp hindex
  · rintro ⟨r, ⟨hvalid, hfree, node, t, reason, since, hnode, ht, hr, hhealthy, hstate⟩, rfl⟩
    obtain ⟨-, hmem, ⟨hnodeID, -⟩, -⟩ := observedTarget_ok ht
    have hactive : activeNode (observedRow .observing reason since input.reportAt t) = some nodeID := hnodeID
    have hwrite : writeTarget db.targets (·.id = t.id) (observedRow .observing reason since input.reportAt) =
        .ok (Table.update db.targets (·.id = t.id) (observedRow .observing reason since input.reportAt)) :=
      if_pos ((hok.index_update hmem (by rw [hhealthy]; rfl) hactive).mpr hfree)
    have hrow : observedRow .observing reason since input.reportAt t ∈
        Table.update db.targets (·.id = t.id) (observedRow .observing reason since input.reportAt) :=
      Table.mem_update.mpr ⟨t, hmem, (if_pos (decide_eq_true rfl)).symm⟩
    let attempts := updateAttemptState db.attempts input.assignmentID .observing t.state at_
    refine ⟨{ db with targets := _, attempts }, ?_, t, hmem, _, hrow, rfl, (rollout_ok hr).2.symm, hhealthy, rfl⟩
    unfold observedRow at hwrite
    rw [Db.observe, if_neg (by simp [hvalid]), hnode, ht]
    simp only [bind, Except.bind, hr, Db.recordObservation, hstate, hwrite]
    rfl

theorem not_overfills_self (hok : DbOk db) : ¬Overfills db db := by
  rintro ⟨r, -, ⟨t, ht, t', ht', hid, -, hhealthy, hobserving⟩, -⟩
  rw [hok.targets.eq_of_key ht' ht hid, hhealthy] at hobserving
  cases hobserving

theorem Steps.observe {w w' : World} {now at_ : Int} (h : Steps svc w (.observe nodeID input now at_, none) w') :
    ∃ db', w.db.observe svc nodeID input now at_ = .ok db' ∧ w' = { w with db := db' } := by
  unfold Steps AgentRollout.step at h
  split at h
  · rename_i w₁ htx
    obtain ⟨db', hdb', rfl⟩ := Fallible.map_eq_ok htx
    cases h
    exact ⟨db', hdb', rfl⟩
  · cases h

/-- The steps that overfill a rollout are the reports that reopen a target. -/
theorem Steps.overfills_iff {w w' : World} {x : Entry} (hok : DbOk w.db) (h : Steps svc w x w') :
    Overfills w.db w'.db ↔ Reopens svc w.db x.1 := by
  obtain ⟨e, err⟩ := x
  constructor
  · rintro ⟨r, hr, hre, hfull⟩
    rcases h.cases hok with ⟨hnone, hstep, -, -⟩ | ⟨-, hsame⟩
    · obtain ⟨-, nodeID, input, now, at_, rfl⟩ := hstep.reobserved hok hre
      obtain rfl : err = none := hnone
      obtain ⟨db', hdb', rfl⟩ := h.observe
      obtain ⟨r', htakes, hid⟩ := (observe_reobserved hok).mp ⟨_, hdb', hre⟩
      obtain rfl := hok.rollouts.eq_of_key htakes.rollout_mem hr hid
      exact ⟨_, htakes, hfull⟩
    · exact absurd ⟨r, hr, hsame ▸ hre, hfull⟩ (not_overfills_self hok)
  · intro hre
    cases e with
    | observe nodeID input now at_ =>
      obtain ⟨r, htakes, hfull⟩ := hre
      obtain ⟨db', hdb', hre⟩ := (observe_reobserved hok).mpr ⟨r, htakes, rfl⟩
      simp only [Steps, AgentRollout.step, World.transact, hdb', Except.map] at h
      cases h
      exact ⟨r, htakes.rollout_mem, hre, hfull⟩
    | _ => exact hre.elim

theorem Steps.withinLimits {w w' : World} {x : Entry} (hok : DbOk w.db) (h : Steps svc w x w')
    (hlim : w.db.WithinLimits) : w'.db.WithinLimits ↔ ¬Reopens svc w.db x.1 := by
  rw [← h.overfills_iff hok]
  rcases h.cases hok with ⟨-, hstep, hok', -⟩ | ⟨-, hsame⟩
  · exact hstep.withinLimits hok hok' hlim
  · rw [hsame]
    exact iff_of_true hlim (not_overfills_self hok)

/-- A node has at most one active target. -/
theorem DbOk.active_node (hok : DbOk db) (n : String) :
    db.targets.countP (fun t => t.nodeID = some n && t.state.isActive) ≤ 1 := by
  have hcount := nodup_iff_count_le_one.mp hok.index n
  rw [count, countP_filterMap] at hcount
  refine Nat.le_trans (Nat.le_of_eq (countP_congr fun t _ => ?_)) hcount
  unfold activeNode
  cases t.state.isActive <;> cases t.nodeID <;> simp

end step

/-- In every state of a run a node has at most one active target. Every rollout stays within its limit in
all states of the run exactly when no call is a report that takes a healthy target back to `observing` while
its rollout has no room. -/
theorem concurrency_limits {svc : Service} {db : Db} {es : List Entry} {w : World} (hdb : db.Fresh)
    (hrun : ServiceRun svc db es w) :
    (∀ n, w.db.targets.countP (fun t => t.nodeID = some n && t.state.isActive) ≤ 1) ∧
    ((∀ fs gs u, es = fs ++ gs → ServiceRun svc db fs u → u.db.WithinLimits) ↔
      ∀ fs x gs u u', es = fs ++ x :: gs → ServiceRun svc db fs u → Steps svc u x u' → ¬Reopens svc u.db x.1) := by
  refine ⟨(hrun.ok hdb).active_node, fun hlim fs x gs u u' hes hu hst => ?_, fun hno fs gs u hes hu => ?_⟩
  · refine (hst.withinLimits (ServiceRun.ok hdb hu) (hlim fs _ u hes hu)).mp ?_
    exact hlim (fs ++ [x]) gs u' (by rw [hes, append_assoc]; rfl) (hu.snoc hst)
  · -- along the prefixes of the run
    refine Lts.Run.hist (I := fun fs u => ∀ gs, es = fs ++ gs → u.db.WithinLimits) hu ?_ ?_ gs hes
    · intro gs _ r hr
      rw [hdb.rollouts] at hr
      cases hr
    · intro fs u x u' hu ih hst gs hes
      rw [append_assoc] at hes
      exact (hst.withinLimits (ServiceRun.ok hdb hu) (ih _ hes)).mpr (hno fs x gs u u' hes hu hst)

/-- The first node is healthy; the second gets its assignment; the first reports again, before it was
seen. -/
def sampleReopened : List Entry :=
  sampleStart 2 ++
    [(.putNode (sampleNode "n1" "1.1.0" 10), none), sampleReport "a1" 10 .healthy,
      (.putNode (sampleNode "n1" "1.1.0" 40), none), sampleReport "a1" 40 .healthy] ++
    sampleLease 1 "n2" "a2" 41 ++ [sampleReport "a1" 50 .healthy]

theorem sampleReopened_run : ∃ w, ServiceRun sampleService sampleDb sampleReopened w ∧
      ∃ r ∈ w.db.rollouts, r.policy.maxConcurrent = 1 ∧ w.db.active r.id = 2 := by
  decide +kernel

/-- Two targets are active in a rollout that allows one. -/
theorem limit_exceeded : ∃ w, ServiceRun sampleService sampleDb sampleReopened w ∧
      ∃ r ∈ w.db.rollouts, r.policy.maxConcurrent < w.db.active r.id := by
  obtain ⟨w, hrun, r, hr, hmax, hactive⟩ := sampleReopened_run
  exact ⟨w, hrun, r, hr, by rw [hmax, hactive]; decide⟩

/-- In that run no node has two active targets, and a step reopens a target. -/
theorem concurrency_limits_sample : ∃ w, ServiceRun sampleService sampleDb sampleReopened w ∧
      (∀ n, w.db.targets.countP (fun t => t.nodeID = some n && t.state.isActive) ≤ 1) ∧
      ∃ fs x gs u u', sampleReopened = fs ++ x :: gs ∧ ServiceRun sampleService sampleDb fs u ∧
        Steps sampleService u x u' ∧ Reopens sampleService u.db x.1 := by
  obtain ⟨w, hrun, r, hr, hmax, hactive⟩ := sampleReopened_run
  obtain ⟨hnode, hiff⟩ := concurrency_limits sampleDb_fresh hrun
  refine ⟨w, hrun, hnode, ?_⟩
  by_contra hno
  have hlim := hiff.mpr (fun fs x gs u u' hes hu hst hre =>
    hno ⟨fs, x, gs, u, u', hes, hu, hst, hre⟩) sampleReopened [] w (append_nil _).symm hrun r hr
  rw [hmax, hactive] at hlim
  exact absurd hlim (by decide)

end Beat.AgentRollout
