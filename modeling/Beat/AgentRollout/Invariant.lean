import Beat.AgentRollout.Moves
import Beat.AgentRollout.Waves

/-!
# The invariant of the rollout tables

* `RolloutOk`: a rollout before its first wave is paused or aborted, and its policy was accepted.
* `DbOk`: the keys of the tables, the targets belong to rollouts, a target that waits has no nonce, and a
  node has at most one active target.
* `DbOk.step`: every step keeps it; `ServiceRun.ok`: it holds in every run.
* `Steps.rollout`: what a step does to one rollout.
-/

namespace Beat.AgentRollout

open List Table Fallible Instant Db

/-- A rollout before its first wave has not started, and its policy is one that was accepted. -/
structure RolloutOk (r : Rollout) : Prop where
  lower : -1 ≤ r.currentWave
  started : r.currentWave < 0 → r.state = .paused ∨ r.state = .aborted
  waves : 1 ≤ r.totalWaves
  concurrency : validPolicyConcurrency r.policy = true
  health : validPolicyHealth r.policy = true

/-- The keys of the tables, the targets of the rollouts, and the index of the active targets. -/
structure DbOk (db : Db) : Prop where
  nodes : Table.Keyed (·.id) db.nodes
  rollouts : Table.Keyed (·.id) db.rollouts
  targets : Table.Keyed (·.id) db.targets
  rolloutOk : ∀ r ∈ db.rollouts, RolloutOk r
  foreign : ∀ t ∈ db.targets, ∃ r ∈ db.rollouts, r.id = t.rolloutID
  nonce : ∀ t ∈ db.targets, NonceOk t
  index : (db.targets.filterMap activeNode).Nodup

variable {w : World} {x : Entry} {es : List Entry} {svc : Service}

section invariant

variable {svc : Service} {db db' : Db} {e : Event} {r r' : Rollout}

theorem RolloutMove.ok (h : RolloutMove svc db e r r') (hok : RolloutOk r) : RolloutOk r' := by
  have hsame := h.same
  have hrest : -1 ≤ r'.currentWave ∧ (r'.currentWave < 0 → r'.state = .paused ∨ r'.state = .aborted) := by
    have hlow := hok.lower
    cases h with
    | system h =>
      obtain rfl | ⟨-, reason, -, rfl⟩ := h
      · exact ⟨hlow, hok.started⟩
      · exact ⟨hlow, fun _ => .inl rfl⟩
    | promote he hp _ hw =>
      unfold promoted
      split
      · rename_i hlast
        refine ⟨hlow, fun hneg => ?_⟩
        -- a rollout that has not started has a wave before it
        have := hok.waves
        simp only at hneg
        omega
      · exact ⟨by simp only; omega, fun hneg => by simp only at hneg; omega⟩
    | pause | abort => exact ⟨hlow, fun _ => by simp⟩
    | resume _ _ hw => exact ⟨hlow, fun hneg => by simp only at hneg; omega⟩
  exact ⟨hrest.1, hrest.2, hsame.totalWaves ▸ hok.waves, hsame.policy ▸ hok.concurrency,
    hsame.policy ▸ hok.health⟩

theorem normalizePolicy_ok {policy policy' : Policy} {now : Int} (h : normalizePolicy policy now = .ok policy') :
    validPolicyConcurrency policy' = true ∧ validPolicyHealth policy' = true := by
  obtain ⟨hvalid, h⟩ := of_guard h
  cases h
  simp only [Bool.or_eq_true, Bool.not_eq_true', not_or, Bool.not_eq_false] at hvalid
  exact hvalid.1

/-- The freshness of an accepted policy is far below the bounds of a duration. -/
theorem freshness_lt {policy : Policy} (h : validPolicyHealth policy = true) :
    policy.reportFreshnessSeconds * second < maxDuration := by
  simp only [validPolicyHealth, Bool.and_eq_true, decide_eq_true_eq] at h
  unfold second maxDuration
  omega

theorem QuietMove.activeNode {t t' : Target} (h : QuietMove t t') {n : String}
    (hn : Db.activeNode t' = some n) : Db.activeNode t = some n := by
  unfold Db.activeNode at hn ⊢
  split at hn
  · rename_i ha
    rw [← h.state ha, if_pos ha]
    exact h.nodeID n hn
  · cases hn

namespace DbOk

theorem start (h : db.Fresh) : DbOk db := by
  refine ⟨h.nodes, ?_, ?_, ?_, ?_, ?_, ?_⟩
  · rw [h.rollouts]; exact .nil
  · rw [h.targets]; exact .nil
  · rw [h.rollouts]; simp
  · rw [h.targets]; simp
  · rw [h.targets]; simp
  · rw [h.targets]; simp

/-- The targets keep their names, and a nonce that is in order. -/
theorem moved (hok : DbOk db) (hn : Table.Keyed (·.id) db'.nodes)
    (hr : List.Forall₂ (RolloutMove svc db e) db.rollouts db'.rollouts)
    (ht : List.Forall₂ (fun t t' => t'.id = t.id ∧ t'.rolloutID = t.rolloutID ∧ (NonceOk t → NonceOk t'))
      db.targets db'.targets) (hindex : (db'.targets.filterMap activeNode).Nodup) : DbOk db' where
  nodes := hn
  rollouts := hok.rollouts.forall₂ hr fun _ _ h => h.same.id
  targets := hok.targets.forall₂ ht fun _ _ h => h.1
  rolloutOk r' hr' := by
    obtain ⟨r, hmem, hmove⟩ := exists_of_mem_right hr hr'
    exact hmove.ok (hok.rolloutOk r hmem)
  foreign t' ht' := by
    obtain ⟨t, hmem, hmove⟩ := exists_of_mem_right ht ht'
    obtain ⟨r, hrmem, hid⟩ := hok.foreign t hmem
    obtain ⟨r', hr', hmove'⟩ := exists_of_mem_left hr hrmem
    exact ⟨r', hr', hmove'.same.id.trans (hid.trans hmove.2.1.symm)⟩
  nonce t' ht' := by
    obtain ⟨t, hmem, hmove⟩ := exists_of_mem_right ht ht'
    exact hmove.2.2 (hok.nonce t hmem)
  index := hindex

/-- An update of the targets. -/
theorem targets_update (hok : DbOk db) {p : Target → Bool} {f : Target → Target}
    (hn : Table.Keyed (·.id) db'.nodes) (ht : db'.targets = update db.targets p f)
    (hr : List.Forall₂ (RolloutMove svc db e) db.rollouts db'.rollouts)
    (hf : ∀ t, (f t).id = t.id ∧ (f t).rolloutID = t.rolloutID ∧ NonceOk (f t))
    (hindex : (db'.targets.filterMap activeNode).Nodup) : DbOk db' := by
  refine hok.moved hn hr ?_ hindex
  rw [ht]
  exact forall₂_update (fun t _ _ => ⟨(hf t).1, (hf t).2.1, fun _ => (hf t).2.2⟩) fun _ _ => ⟨rfl, rfl, id⟩

theorem step (hok : DbOk db) (hn : Table.Keyed (·.id) db'.nodes) (h : DbStep svc db e db') : DbOk db' := by
  cases h with
  | quiet hr ht =>
    exact hok.moved hn hr (ht.imp fun _ _ h => ⟨h.id, h.rolloutID, h.nonce⟩)
      (hok.index.sublist (filterMap_sublist ht fun _ _ _ h hn => h.activeNode hn))
  | @created input id ids now at_ trust policy nodes he hpolicy hnodes hfresh hr ht ha hkeyed =>
    obtain ⟨hconc, hhealth⟩ := normalizePolicy_ok hpolicy
    have hnew : ∀ t ∈ nodes.zipIdx.map (plannedTarget (createdRollout input id policy nodes at_) ids),
        t.rolloutID = id ∧ t.state = .pending ∧ t.nonceHash = none := by
      intro t ht
      obtain ⟨n, -, rfl⟩ := mem_map.mp ht
      exact ⟨rfl, rfl, rfl⟩
    refine ⟨hn, hr ▸ hok.rollouts.append hfresh, hkeyed, fun r hr' => ?_, fun t ht' => ?_,
      fun t ht' => ?_, ?_⟩
    · rw [hr] at hr'
      rcases mem_append.mp hr' with hr' | hr'
      · exact hok.rolloutOk r hr'
      · rw [mem_singleton.mp hr']
        exact ⟨Int.le_refl _, fun _ => .inl rfl, totalWaves_pos hconc nodes.length, hconc, hhealth⟩
    · rw [ht] at ht'
      rw [hr]
      rcases mem_append.mp ht' with ht' | ht'
      · obtain ⟨r, hr', hid⟩ := hok.foreign t ht'
        exact ⟨r, mem_append_left _ hr', hid⟩
      · exact ⟨_, mem_concat_self, (hnew t ht').1.symm⟩
    · rw [ht] at ht'
      rcases mem_append.mp ht' with ht' | ht'
      · exact hok.nonce t ht'
      · intro hs
        rw [(hnew t ht').2.2] at hs
        cases hs
    · -- no new target is active
      have hnone : (nodes.zipIdx.map (plannedTarget (createdRollout input id policy nodes at_) ids)).filterMap
          activeNode = [] := by
        rw [filterMap_eq_nil_iff]
        intro t ht'
        rw [activeNode, (hnew t ht').2.1]
        rfl
      rw [ht, filterMap_append, hnone, append_nil]
      exact hok.index
  | offered he hc hfresh hr ht ha hindex =>
    have hmoves : List.Forall₂ (RolloutMove svc db e) db.rollouts db'.rollouts :=
      hr ▸ forall₂_same.mpr fun _ _ => .system (.inl rfl)
    exact hok.targets_update hn ht hmoves (fun _ => ⟨rfl, rfl, fun _ => ⟨rfl, nofun⟩⟩) hindex
  | @observed nodeID input now at_ t verdict he h =>
    obtain ⟨reason, since, ht⟩ := h.targets
    have hmoves : List.Forall₂ (RolloutMove svc db e) db.rollouts db'.rollouts :=
      h.rollouts.imp fun _ _ => .system
    refine hok.targets_update hn ht hmoves (fun _ => ⟨rfl, rfl, fun _ => ?_⟩) h.index
    cases verdict <;> exact ⟨rfl, nofun⟩

end DbOk

/-! ## Runs -/

theorem World.failed_db (w : World) (e : Event) : (w.failed e).db = w.db := by cases e <;> rfl

/-- A step is a transaction that succeeded, or changes no table. -/
theorem Steps.cases {w' : World} (hok : DbOk w.db) (h : Steps svc w x w') :
    (x.2 = none ∧ DbStep svc w.db x.1 w'.db ∧ DbOk w'.db ∧ TargetStep svc w.db x.1 w'.db) ∨
      x.2 ≠ none ∧ w'.db = w.db := by
  obtain ⟨e, err⟩ := x
  unfold Steps AgentRollout.step at h
  split at h
  · rename_i w₁ htx
    cases h
    obtain ⟨hstep, hnodes, htarget⟩ := transact_step hok.nodes hok.rollouts hok.targets htx
    exact .inl ⟨rfl, hstep, hok.step hnodes hstep, htarget⟩
  · cases h
    exact .inr ⟨nofun, w.failed_db e⟩

theorem Steps.ok {w' : World} (hok : DbOk w.db) (h : Steps svc w x w') : DbOk w'.db := by
  rcases h.cases hok with ⟨-, -, hok', -⟩ | ⟨-, hsame⟩
  · exact hok'
  · exact hsame ▸ hok

theorem ServiceRun.ok (hdb : db.Fresh) (h : ServiceRun svc db es w) : DbOk w.db :=
  Lts.Run.inv (I := fun w => DbOk w.db) h (.start hdb) fun _ _ _ hok hst => hst.ok hok

/-! ## A rollout in a step -/

/-- A target, as far as it never changes. -/
structure Place where
  id : String
  rolloutID : String
  node : String
  wave : Int

def Target.place (t : Target) : Place := ⟨t.id, t.rolloutID, t.nodeSnapshotID, t.wave⟩

/-- The plan of a new rollout. -/
def plannedPlaces (id : String) (ids : Nat → String) (policy : Policy) (nodes : List Node) : List Place :=
  nodes.zipIdx.map fun n => ⟨ids n.2, id, n.1.id, waveOf policy n.2⟩

theorem places_of_update {targets : List Target} {p : Target → Bool} {f : Target → Target}
    (hf : ∀ t, (f t).place = t.place) : (Table.update targets p f).map Target.place = targets.map Target.place :=
  Table.map_update fun t _ _ => hf t

/-- A step keeps the places of the targets, and each rollout makes one move; `Create` adds its own. -/
theorem DbStep.places (h : DbStep svc db e db') : (db'.targets.map Target.place = db.targets.map Target.place ∧
      List.Forall₂ (RolloutMove svc db e) db.rollouts db'.rollouts) ∨
    ∃ input id ids now at_ trust policy nodes, e = .create input id ids now at_ trust ∧
      db.snapshotTargets input = .ok nodes ∧ (∀ r ∈ db.rollouts, r.id ≠ id) ∧
      db'.rollouts = db.rollouts ++ [createdRollout input id policy nodes at_] ∧
      db'.targets.map Target.place = db.targets.map Target.place ++ plannedPlaces id ids policy nodes := by
  cases h with
  | quiet hr ht _ =>
    refine .inl ⟨map_eq_of_forall₂ ht fun t t' hm => ?_, hr⟩
    rw [Target.place, hm.id, hm.rolloutID, hm.nodeSnapshotID, hm.wave]
    rfl
  | created he _ hnodes hfresh hr ht _ _ =>
    refine .inr ⟨_, _, _, _, _, _, _, _, he, hnodes, hfresh, hr, ?_⟩
    rw [ht, map_append, map_map]
    rfl
  | offered _ _ _ hr ht _ _ =>
    rw [ht, hr]
    exact .inl ⟨places_of_update fun _ => rfl, forall₂_same.mpr fun _ _ => .system (.inl rfl)⟩
  | observed _ h =>
    obtain ⟨reason, since, ht⟩ := h.targets
    rw [ht]
    exact .inl ⟨places_of_update fun _ => rfl, h.rollouts.imp fun _ _ => .system⟩

/-- A rollout stays, and makes one move. -/
theorem DbStep.rollout (h : DbStep svc db e db') (hr : r ∈ db.rollouts) :
    ∃ r' ∈ db'.rollouts, RolloutMove svc db e r r' := by
  rcases h.places with ⟨-, hrs⟩ | ⟨_, _, _, _, _, _, _, _, -, -, -, hrs, -⟩
  · exact exists_of_mem_left hrs hr
  · exact ⟨r, hrs ▸ mem_append_left _ hr, .system (.inl rfl)⟩

/-- A rollout was there before, or it is new. -/
theorem DbStep.rollout_back (h : DbStep svc db e db') (hr' : r' ∈ db'.rollouts) :
    (∃ r ∈ db.rollouts, RolloutMove svc db e r r') ∨ r'.currentWave = -1 ∧ ∀ r ∈ db.rollouts, r.id ≠ r'.id := by
  rcases h.places with ⟨-, hrs⟩ | ⟨_, _, _, _, _, _, _, _, -, -, hfresh, hrs, -⟩
  · exact .inl (exists_of_mem_right hrs hr')
  · obtain hr' | rfl := Table.mem_snoc.mp (hrs ▸ hr')
    · exact .inl ⟨r', hr', .system (.inl rfl)⟩
    · exact .inr ⟨rfl, hfresh⟩

theorem Steps.rollout {w' : World} (hok : DbOk w.db) (h : Steps svc w x w') (hr : r ∈ w.db.rollouts) :
    ∃ r' ∈ w'.db.rollouts, r' = r ∨ x.2 = none ∧ RolloutMove svc w.db x.1 r r' := by
  rcases h.cases hok with ⟨hnone, hstep, -⟩ | ⟨-, hsame⟩
  · obtain ⟨r', hr', hmove⟩ := hstep.rollout hr
    exact ⟨r', hr', .inr ⟨hnone, hmove⟩⟩
  · exact ⟨r, hsame ▸ hr, .inl rfl⟩

end invariant

/-! ## A small rollout -/

/-- The world after a step with this outcome. -/
def stepTo (svc : Service) (w : World) (x : Entry) : Option World :=
  if (step svc w x.1).2 = x.2 then some (step svc w x.1).1 else none

instance (svc : Service) : Lts.Computed (Steps svc) where
  next := stepTo svc
  next_iff _ _ _ := by
    rw [stepTo, Option.ite_none_right_eq_some, Option.some.injEq, Steps, Prod.ext_iff, and_comm]

def sampleService : Service := ⟨1, 1, fun s => BitVec.ofNat 256 s.length⟩

def sampleTime (seconds : Int) : Int := (1700000000 + seconds) * second

def sampleNode (id version : String) (seen : Int) : Node :=
  { id, version, os := "linux", arch := "x86_64", lastSeen := some (sampleTime seen) }

/-- Two nodes, and a release that is ready for them. -/
def sampleDb : Db where
  nodes := [sampleNode "n1" "1.0.0" 0, sampleNode "n2" "1.0.0" 0]
  releases :=
    [{ id := "rel", signingKeyID := "k"
       manifest :=
        { version := "1.1.0", builtAt := sampleTime (-100), expiresAt := sampleTime 1000000
          minimumServerSchema := 1, minimumProtocol := 1, maximumProtocol := 1
          artifacts := [⟨"a", "linux", "amd64", "binary", 10, "h", "supported"⟩] } }]
  artifacts := [⟨"rel", "a", true⟩]

theorem sampleDb_fresh : sampleDb.Fresh := ⟨by decide, rfl, rfl, rfl⟩

def sampleCapabilities : Capabilities := ⟨"1.0.0", "linux", "amd64", "systemd", true, 100, 1⟩

def sampleNonce : String := "0123456789012345678901234567890123456789012345678901234567890123"

def sampleReport (assignmentID : String) (at_ : Int) (outcome : Outcome) : Entry :=
  (.observe "n1"
    { assignmentID, nonce := sampleNonce, version := "1.1.0", reportAt := sampleTime at_, outcome }
    (sampleTime at_) (sampleTime at_), none)

/-- A rollout to both nodes, one at a time, with so many canaries. -/
def sampleCreate (canaryCount : Int) : Entry :=
  (.create
    { name := "r", releaseID := "rel", nodeIDs := ["n1", "n2"]
      policy := { canaryCount, waveSize := 1, observationSeconds := 30 } }
    "r1" (fun n => if n = 0 then "t0" else "t1") (sampleTime 0) (sampleTime 0) (.ok ()), none)

/-- The two transactions of a `Lease` that gets an assignment. -/
def sampleLease (call : Nat) (nodeID attemptID : String) (at_ : Int) : List Entry :=
  [(.leaseCheck call nodeID sampleCapabilities (sampleTime at_) false (.ok ()), none),
    (.leaseOffer call attemptID sampleNonce (sampleTime at_) false (.ok ()) (sampleTime at_) (.ok ()), none)]

/-- The first wave starts, and the first node gets its assignment. -/
def sampleStart (canaryCount : Int) : List Entry :=
  [sampleCreate canaryCount, (.promote "r1" (sampleTime 1) (.ok ()), none)] ++ sampleLease 0 "n1" "a1" 2

end Beat.AgentRollout
