import Beat.AgentRollout.Service
import Beat.Lib.RowWise

/-!
# What a transaction does to the rollouts

One inversion lemma for the whole system. A transaction takes every rollout to one of a few moves
(`RolloutMove`), it creates a rollout with its targets, offers one target, records one report, or changes
the targets in ways that start nothing (`QuietMove`).

* `Retreat`: what the system does on its own.
* `DbStep`: the cases, with what was checked; `TargetStep`: what they do to the targets and the attempts;
  `transact_step`: every transaction is one of them.
-/

namespace Beat.AgentRollout

open List Table Fallible Db

/-- The reasons of the pauses that no operator made. -/
def Reason.isSystem : Reason → Bool
  | .healthGateFailed | .assignmentUnknown | .releaseRevoked | .releaseExpired | .restored
  | .signingKeyRevoked | .trustPolicyChanged => true
  | _ => false

/-- What the system may do to a rollout on its own: nothing, or a pause. -/
def SystemMove (r r' : Rollout) : Prop :=
  r' = r ∨ r.state.isTerminal = false ∧
    ∃ reason : Reason, reason.isSystem = true ∧ r' = { r with state := .paused, reason }

theorem SystemMove.trans {r r' r'' : Rollout} (h : SystemMove r r') (h' : SystemMove r' r'') : SystemMove r r'' := by
  rcases h with rfl | ⟨ht, reason, hsys, rfl⟩
  · exact h'
  · rcases h' with rfl | ⟨-, reason', hsys', rfl⟩
    · exact .inr ⟨ht, reason, hsys, rfl⟩
    · exact .inr ⟨ht, reason', hsys', rfl⟩

/-- What an event may do to a rollout. -/
inductive RolloutMove (svc : Service) (db : Db) (e : Event) (r : Rollout) : Rollout → Prop where
  | system {r'} (h : SystemMove r r') : RolloutMove svc db e r r'
  | promote {at_ trust release} (he : e = .promote r.id at_ trust) (hp : promotable r = true)
      (hr : db.releaseInTransaction svc r.releaseID at_ trust = .ok release)
      (hw : 0 ≤ r.currentWave → db.waveHealthy r release at_ = true) :
      RolloutMove svc db e r (promoted r)
  | pause (he : e = .pause r.id) (ht : r.state.isTerminal = false) :
      RolloutMove svc db e r { r with state := .paused, reason := .operatorPause }
  | abort (he : e = .abort r.id) (ht : r.state.isTerminal = false) :
      RolloutMove svc db e r { r with state := .aborted, reason := .operatorAbort }
  | resume {ack at_ trust} (he : e = .resume r.id ack at_ trust)
      (hs : r.state = .paused) (hw : 0 ≤ r.currentWave)
      (hack : r.reason = .operatorPause ∨ ack = true) :
      RolloutMove svc db e r { r with state := .active, reason := .none }

/-- What a rollout keeps for good. -/
structure Rollout.Same (r' r : Rollout) : Prop where
  id : r'.id = r.id
  releaseID : r'.releaseID = r.releaseID
  policy : r'.policy = r.policy
  totalWaves : r'.totalWaves = r.totalWaves

variable {e : Event} {t : Target} {caps : Capabilities} {attemptID : String}

theorem RolloutMove.same {svc : Service} {db : Db} {r r' : Rollout} (h : RolloutMove svc db e r r') : r'.Same r := by
  cases h with
  | pause | abort | resume => exact ⟨rfl, rfl, rfl, rfl⟩
  | system h => obtain rfl | ⟨-, reason, -, rfl⟩ := h <;> exact ⟨rfl, rfl, rfl, rfl⟩
  | promote =>
    unfold promoted
    split <;> exact ⟨rfl, rfl, rfl, rfl⟩

/-- A target that has a nonce has an attempt: it is not waiting, and not given up. -/
def NonceOk (t : Target) : Prop :=
  t.nonceHash.isSome → t.state.isWaiting = false ∧ t.state ≠ .aborted

/-- A change of a target that starts nothing. -/
structure QuietMove (t t' : Target) : Prop where
  id : t'.id = t.id
  rolloutID : t'.rolloutID = t.rolloutID
  nodeSnapshotID : t'.nodeSnapshotID = t.nodeSnapshotID
  wave : t'.wave = t.wave
  nodeID : ∀ n, t'.nodeID = some n → t.nodeID = some n
  state : t'.state.isActive = true → t'.state = t.state
  nonce : NonceOk t → NonceOk t'

namespace QuietMove

theorem refl (t : Target) : QuietMove t t := ⟨rfl, rfl, rfl, rfl, fun _ h => h, fun _ => rfl, fun h => h⟩

theorem trans {t' t'' : Target} (h : QuietMove t t') (h' : QuietMove t' t'') : QuietMove t t'' :=
  ⟨h'.id.trans h.id, h'.rolloutID.trans h.rolloutID, h'.nodeSnapshotID.trans h.nodeSnapshotID,
    h'.wave.trans h.wave, fun n hn => h.nodeID n (h'.nodeID n hn),
    fun ha => (h'.state ha).trans (h.state (h'.state ha ▸ ha)), fun hn => h'.nonce (h.nonce hn)⟩

/-- A target that waits gets another state in which it is not active. -/
theorem waiting {state : TargetState} {reason : TargetReason} (hw : t.state.isWaiting = true)
    (ha : state.isActive = false) : QuietMove t { t with state, reason } := by
  refine ⟨rfl, rfl, rfl, rfl, fun _ h => h, fun h => ?_, fun hn hs => ?_⟩
  · rw [ha] at h
    cases h
  · rw [(hn hs).1] at hw
    cases hw

end QuietMove

/-! ## Functions -/

section functions

variable {svc : Service} {db db' : Db}

variable {id nodeID : String} {at_ now : Int} {trust : Trust} {rollout : Rollout} {input : Observation}
  {reason : Reason} {ids : Nat → String} {node : Node}

theorem rollout_ok {r : Rollout} (h : db.rollout id = .ok r) : r ∈ db.rollouts ∧ r.id = id := by
  unfold Db.rollout at h
  split at h
  · cases h
  rename_i hr
  cases h
  exact ⟨mem_of_find?_eq_some hr, by simpa using find?_some hr⟩

theorem releaseInTransaction_ok {release : Release} (h : db.releaseInTransaction svc id at_ trust = .ok release) :
    release ∈ db.releases ∧ release.id = id := by
  unfold releaseInTransaction at h
  split at h
  · cases h
  rename_i hr
  obtain ⟨-, h⟩ := of_guard h
  split at h
  · cases h
  obtain ⟨-, h⟩ := of_guard h
  obtain ⟨-, h⟩ := of_guard h
  cases h
  exact ⟨mem_of_find?_eq_some hr, by simpa using find?_some hr⟩

/-- The update of the one rollout that was read. -/
theorem rollouts_update {f : Rollout → Rollout} (hk : Table.Keyed (·.id) db.rollouts)
    (hr : db.rollout id = .ok rollout) (hf : RolloutMove svc db e rollout (f rollout)) :
    List.Forall₂ (RolloutMove svc db e) db.rollouts (update db.rollouts (·.id = id) f) := by
  obtain ⟨hmem, hid⟩ := rollout_ok hr
  refine forall₂_update (fun r hr' hp => ?_) fun _ _ => .system (.inl rfl)
  rw [hk.eq_of_key hr' hmem ((of_decide_eq_true hp).trans hid.symm)]
  exact hf

/-- A pause of rollouts by the system. -/
theorem rollouts_system {rollouts : List Rollout} {p : Rollout → Bool}
    (hp : ∀ r, p r = true → r.state.isTerminal = false) (hsys : reason.isSystem = true) :
    List.Forall₂ SystemMove rollouts (update rollouts p fun r => { r with state := .paused, reason }) :=
  forall₂_update (fun r _ hr => .inr ⟨hp r hr, reason, hsys, rfl⟩) fun _ _ => .inl rfl

theorem writeTarget_ok {targets targets' : List Target} {p : Target → Bool} {f : Target → Target}
    (h : writeTarget targets p f = .ok targets') :
    targets' = update targets p f ∧ (targets'.filterMap activeNode).Nodup := by
  unfold writeTarget at h
  simp only at h
  split_ifs at h with hn
  cases h
  exact ⟨rfl, hn⟩

/-! ## Create -/

/-- The row of the target at a place of the list. -/
def plannedTarget (rollout : Rollout) (ids : Nat → String) (n : Node × Nat) : Target :=
  { id := ids n.2, rolloutID := rollout.id, nodeID := some n.1.id, nodeSnapshotID := n.1.id
    version := n.1.version, wave := waveOf rollout.policy n.2 }

theorem insertTargets_ok {targets targets' : List Target} {nodes : List Node}
    (h : insertTargets targets rollout ids nodes = .ok targets') (hk : Table.Keyed (·.id) targets) :
    targets' = targets ++ nodes.zipIdx.map (plannedTarget rollout ids) ∧ Table.Keyed (·.id) targets' := by
  unfold insertTargets at h
  generalize nodes.zipIdx = l at h
  induction l generalizing targets with
  | nil =>
    cases h
    simp [hk]
  | cons n l ih =>
    obtain ⟨rows, hrow, hrest⟩ := foldlM_cons_ok h
    simp only at hrow
    split_ifs at hrow with hdup
    cases hrow
    have hnew : ∀ t ∈ targets, t.id ≠ ids n.2 := by
      intro t ht he
      exact hdup (any_eq_true.mpr ⟨t, ht, by simp [he]⟩)
    obtain ⟨h1, h2⟩ := ih (hk.append hnew) hrest
    exact ⟨by rw [h1, append_assoc]; rfl, h2⟩

/-- The rollout that `Create` inserts. -/
def createdRollout (input : CreateInput) (id : String) (policy : Policy) (nodes : List Node) (at_ : Int) : Rollout :=
  { action := input.action, id, releaseID := input.releaseID, state := .paused
    reason := .awaitingPromotion, policy, currentWave := -1
    totalWaves := totalWaves policy nodes.length, createdAt := at_ }

theorem create_exit {input : CreateInput} (hk : Table.Keyed (·.id) db.targets)
    (h : db.create svc input id ids now at_ trust = .ok db') :
    ∃ policy nodes, normalizePolicy input.policy now = .ok policy ∧ db.snapshotTargets input = .ok nodes ∧
      (∀ r ∈ db.rollouts, r.id ≠ id) ∧ db' = { db with
        rollouts := db.rollouts ++ [createdRollout input id policy nodes at_]
        targets := db.targets ++
          nodes.zipIdx.map (plannedTarget (createdRollout input id policy nodes at_) ids) } ∧
      Table.Keyed (·.id) db'.targets := by
  obtain ⟨-, h⟩ := of_guard h
  obtain ⟨-, h⟩ := of_guard h
  obtain ⟨policy, hpolicy, h⟩ := bind_eq_ok h
  obtain ⟨release, -, h⟩ := bind_eq_ok h
  obtain ⟨-, h⟩ := of_guard h
  obtain ⟨nodes, hnodes, h⟩ := bind_eq_ok h
  obtain ⟨hfresh, h⟩ := of_guard h
  obtain ⟨targets, htargets, h⟩ := bind_eq_ok h
  split at h
  case isFalse => exact nomatch h
  cases h
  obtain ⟨rfl, hkeyed⟩ := insertTargets_ok htargets hk
  refine ⟨policy, nodes, hpolicy, hnodes, fun r hr he => ?_, rfl, hkeyed⟩
  exact hfresh (any_eq_true.mpr ⟨r, hr, by simp [he]⟩)

/-! ## Lease -/

theorem waitingFor_mem {x : Rollout × Target} (h : x ∈ db.waitingFor nodeID) :
    x.1 ∈ db.rollouts ∧ x.2 ∈ db.targets ∧ x.2.rolloutID = x.1.id ∧ x.2.nodeID = some nodeID ∧
      x.1.state = .active ∧ x.1.currentWave = x.2.wave ∧ x.2.state.isWaiting = true := by
  obtain ⟨t, ht, hx⟩ := mem_flatMap.mp h
  obtain ⟨r, hr, rfl⟩ := mem_map.mp hx
  obtain ⟨hr, hp⟩ := mem_filter.mp hr
  simp only [Bool.and_eq_true, decide_eq_true_eq] at hp
  obtain ⟨⟨⟨⟨hid, hn⟩, hs⟩, hw⟩, hwait⟩ := hp
  exact ⟨hr, ht, hid.symm, hn, hs, hw, hwait⟩

/-- What `candidate` checked of its result. -/
structure Db.LeaseCandidate.Ok (db : Db) (node : Node) (c : LeaseCandidate) : Prop where
  waiting : (c.rollout, c.target) ∈ db.waitingFor node.id
  capacity : db.assignmentCapacity c.target c.rollout c.artifact = .ok none

theorem candidate_exit {busy : Bool} {found : Option LeaseCandidate}
    (h : db.candidate svc node caps at_ busy trust = .ok (db', found)) :
    ((db' = db ∨ ∃ id reason, db' = db.hold id reason) ∧ found = none) ∨
      ∃ c, found = some c ∧ db' = db ∧ c.Ok db node := by
  unfold candidate at h
  split at h
  · cases h
    exact .inl ⟨.inl rfl, rfl⟩
  · rename_i rollout target hhead
    have hmem := (mem_insertionSort _).mp (mem_of_head? hhead)
    obtain ⟨release, -, h⟩ := bind_eq_ok h
    split at h
    · cases h
      exact .inl ⟨.inr ⟨_, _, rfl⟩, rfl⟩
    · rename_i artifact _
      obtain ⟨capacity, hcap, h⟩ := bind_eq_ok h
      split at h
      · cases h
        exact .inl ⟨.inr ⟨_, _, rfl⟩, rfl⟩
      · cases h
        exact .inr ⟨_, rfl, rfl, hmem, hcap⟩

/-- The active targets of a rollout. -/
def isActiveOf (rolloutID : String) (t : Target) : Bool := t.rolloutID = rolloutID && t.state.isActive

/-- A rollout with room for one more assignment. -/
theorem assignmentCapacity_room {target : Target} {artifact : Artifact}
    (h : db.assignmentCapacity target rollout artifact = .ok none) :
    (db.targets.countP (isActiveOf rollout.id) : Int) < rollout.policy.maxConcurrent := by
  unfold assignmentCapacity at h
  split at h
  · cases h
  simp only at h
  split_ifs at h with hready hown hfull
  · cases h
  · cases h
  · cases h
  have hle : db.targets.countP (isActiveOf rollout.id) ≤
      (db.activeTargets rollout.id target.nodeSnapshotID).length := by
    unfold activeTargets
    rw [← countP_eq_length_filter]
    refine countP_mono_left fun t _ ht => ?_
    simp only [isActiveOf, Bool.and_eq_true, decide_eq_true_eq] at ht
    simp [ht.1, ht.2]
  omega

/-- The row of a target that is offered. -/
def offeredTarget (c : LeaseCandidate) (attemptID : String) (hash : Hash) (expiry : Int) (t : Target) : Target :=
  { t with
    state := .offered, reason := .none, currentAttemptID := attemptID, artifactID := c.artifact.id
    nonceHash := some hash, leaseExpiresAt := some expiry, healthySince := none, lastReportAt := none }

theorem offer_exit {c : LeaseCandidate} {nonce : String} (h : db.offer svc c attemptID nonce at_ = .ok db') :
    (∀ a ∈ db.attempts, a.id ≠ attemptID) ∧ ∃ expiry, db' = { db with
        targets := update db.targets (fun t => t.id = c.target.id && t.state.isWaiting)
          (offeredTarget c attemptID (svc.sha256 nonce) expiry)
        attempts := db.attempts ++
          [{ id := attemptID, targetID := c.target.id, nonceHash := some (svc.sha256 nonce)
             createdAt := at_ }] } ∧
      (db'.targets.filterMap activeNode).Nodup := by
  unfold offer at h
  simp only at h
  split_ifs at h with hdup hone
  obtain ⟨targets, htargets, h⟩ := bind_eq_ok h
  cases h
  obtain ⟨rfl, hn⟩ := writeTarget_ok htargets
  exact ⟨fun a ha he => hdup (any_eq_true.mpr ⟨a, ha, by simp [he]⟩), _, rfl, hn⟩

/-! ## Observe -/

/-- The row of a target after a report. -/
def observedRow (verdict : Verdict) (reason : TargetReason) (since : Option Int) (reportAt : Int)
    (t : Target) : Target :=
  { t with state := verdict.target, reason, healthySince := since, lastReportAt := some reportAt }

theorem observedTarget_ok (h : db.observedTarget svc nodeID input at_ = .ok t) :
    (db.targets.find? fun t => t.nodeID = some nodeID && t.currentAttemptID = input.assignmentID) = some t ∧
      t ∈ db.targets ∧ (t.nodeID = some nodeID ∧ t.currentAttemptID = input.assignmentID) ∧
      t.nonceHash.isSome = true := by
  unfold observedTarget at h
  split at h
  · cases h
  rename_i t' hfind
  split_ifs at h with hbad
  cases h
  have hp := find?_some hfind
  simp only [Bool.and_eq_true, decide_eq_true_eq] at hp
  refine ⟨hfind, mem_of_find?_eq_some hfind, hp, ?_⟩
  by_contra hnone
  simp only [Option.not_isSome_iff_eq_none] at hnone
  exact hbad (.inl (by simp [hnone]))

/-- A failure is final. -/
theorem observationState_failed {policy : Policy} {manifest : Option Manifest}
    {x : Verdict × TargetReason × Option Int} (h : observationState t policy manifest node input at_ = .ok x)
    (hf : t.state = .failed) : x.1 = .failed := by
  unfold observationState at h
  rw [if_pos hf] at h
  cases h
  rfl

/-- What `Observe` checked, and what it wrote. -/
structure Observed (db : Db) (nodeID : String) (input : Observation) (db' : Db) (t : Target)
    (verdict : Verdict) : Prop where
  mem : t ∈ db.targets
  node : t.nodeID = some nodeID
  nonce : t.nonceHash.isSome = true
  failed : t.state = .failed → verdict = .failed
  targets : ∃ reason since, db'.targets =
    update db.targets (·.id = t.id) (observedRow verdict reason since input.reportAt)
  index : (db'.targets.filterMap activeNode).Nodup
  attempts : db'.attempts.map (·.id) = db.attempts.map (·.id)
  rollouts : List.Forall₂ SystemMove db.rollouts db'.rollouts

/-- Everything that `Observe` reads and writes. -/
theorem observe_ok (h : db.observe svc nodeID input now at_ = .ok db') :
    validObservation input now = true ∧ ∃ node t rollout verdict reason since,
      db.agent nodeID = .ok node ∧ db.observedTarget svc nodeID input at_ = .ok t ∧
      db.rollout t.rolloutID = .ok rollout ∧ observationState t rollout.policy
        ((db.releases.find? (·.id = rollout.releaseID)).map (·.manifest)) node input at_ =
          .ok (verdict, reason, since) ∧ db' = { db with
        targets := update db.targets (·.id = t.id) (observedRow verdict reason since input.reportAt)
        attempts := updateAttemptState db.attempts input.assignmentID verdict t.state at_
        rollouts :=
          if verdict = .failed then
            update db.rollouts (fun r => r.id = rollout.id && !r.state.isTerminal) fun r =>
              { r with state := .paused, reason := .healthGateFailed }
          else db.rollouts } ∧
      (db'.targets.filterMap activeNode).Nodup := by
  obtain ⟨hvalid, h⟩ := of_guard h
  obtain ⟨node, hnode, h⟩ := bind_eq_ok h
  obtain ⟨t, ht, h⟩ := bind_eq_ok h
  obtain ⟨rollout, hrollout, h⟩ := bind_eq_ok h
  obtain ⟨⟨verdict, reason, since⟩, hstate, h⟩ := bind_eq_ok h
  obtain ⟨targets, htargets, h⟩ := bind_eq_ok h
  cases h
  obtain ⟨rfl, hindex⟩ := writeTarget_ok htargets
  exact ⟨by simpa using hvalid, node, t, rollout, verdict, reason, since, hnode, ht, hrollout, hstate, rfl,
    hindex⟩

theorem observe_exit (h : db.observe svc nodeID input now at_ = .ok db') :
    db'.nodes = db.nodes ∧ ∃ t verdict, Observed db nodeID input db' t verdict := by
  obtain ⟨-, node, t, rollout, verdict, reason, since, -, ht, -, hstate, rfl, hindex⟩ := observe_ok h
  obtain ⟨-, hmem, ⟨hnode, -⟩, hnonce⟩ := observedTarget_ok ht
  refine ⟨rfl, t, verdict, hmem, hnode, hnonce, observationState_failed hstate, ⟨reason, since, rfl⟩,
    hindex, map_update fun _ _ _ => rfl, ?_⟩
  split
  · refine rollouts_system (fun r hr => ?_) rfl
    simp only [Bool.and_eq_true, Bool.not_eq_true'] at hr
    exact hr.2
  · exact forall₂_same.mpr fun _ _ => .inl rfl

/-! ## Recover and restore -/

/-- What the system does on its own: it pauses rollouts and starts nothing. -/
structure Retreat (db db' : Db) : Prop where
  nodes : db'.nodes = db.nodes
  rollouts : List.Forall₂ SystemMove db.rollouts db'.rollouts
  targets : List.Forall₂ QuietMove db.targets db'.targets
  attempts : db'.attempts.map (·.id) = db.attempts.map (·.id)

namespace Retreat

theorem refl (db : Db) : Retreat db db :=
  ⟨rfl, forall₂_same.mpr fun _ _ => .inl rfl, forall₂_same.mpr fun t _ => .refl t, rfl⟩

theorem trans {db'' : Db} (h : Retreat db db') (h' : Retreat db' db'') : Retreat db db'' :=
  ⟨h'.nodes.trans h.nodes, forall₂_trans h.rollouts h'.rollouts fun _ _ _ => .trans,
    forall₂_trans h.targets h'.targets fun _ _ _ => .trans, h'.attempts.trans h.attempts⟩

theorem pauseAutomatically (db : Db) (id : String) (hsys : reason.isSystem = true) :
    Retreat db (db.pauseAutomatically id reason) := by
  refine ⟨rfl, rollouts_system (fun r hr => ?_) hsys, forall₂_same.mpr fun t _ => .refl t, rfl⟩
  simp only [Bool.and_eq_true, Bool.not_eq_true'] at hr
  exact hr.1.2

/-- The pause of the active rollouts of some releases, after a change of the releases. -/
theorem pauseReleases {d : Db} {p : Release → Bool} (hsys : reason.isSystem = true) (hn : d.nodes = db.nodes)
    (hr : d.rollouts = db.rollouts) (ht : d.targets = db.targets) (ha : d.attempts = db.attempts) :
    Retreat db (d.pauseReleases p reason) := by
  refine ⟨hn, ?_, ht ▸ forall₂_same.mpr fun t _ => .refl t, by rw [Db.pauseReleases, ha]⟩
  rw [Db.pauseReleases, hr]
  refine rollouts_system (fun r hactive => ?_) hsys
  simp only [Bool.and_eq_true, decide_eq_true_eq] at hactive
  rw [hactive.1]
  rfl

theorem expireAssignment (db : Db) (at_ : Int) (t : Target) : Retreat db (db.expireAssignment at_ t) := by
  unfold Db.expireAssignment
  refine Retreat.trans ?_ (pauseAutomatically _ t.rolloutID rfl)
  refine ⟨rfl, ?_, ?_, ?_⟩
  · exact forall₂_same.mpr fun _ _ => .inl rfl
  · refine forall₂_update (fun t _ _ => ?_) fun t _ => .refl t
    exact ⟨rfl, rfl, rfl, rfl, fun _ h => h, fun h => (nomatch h), fun _ h => (nomatch h)⟩
  · exact map_update fun _ _ _ => rfl

theorem expireReleases (db : Db) (at_ : Int) : Retreat db (db.expireReleases at_) := by
  refine foldlRecOn _ _ (refl db) fun db' h x hx => h.trans (pauseAutomatically db' x.1 ?_)
  obtain ⟨r, -, hr⟩ := mem_filterMap.mp (mem_of_mem_take hx)
  split at hr
  · cases hr
  obtain ⟨reason, hreason, rfl⟩ := Option.map_eq_some_iff.mp hr
  unfold releaseEnded at hreason
  split at hreason
  · cases hreason
  · split_ifs at hreason <;> (cases hreason; rfl)

theorem recover (db : Db) (at_ : Int) : Retreat db (db.recover at_) :=
  (foldlRecOn _ _ (refl db) fun db' h t _ => h.trans (expireAssignment db' at_ t)).trans (expireReleases _ at_)

theorem restored (db : Db) (at_ : Int) : Retreat db (db.restored at_) := by
  refine ⟨rfl, rollouts_system (fun r hr => by simpa using hr) rfl, ?_, ?_⟩
  · simp only [Db.restored, update, map_map]
    rw [forall₂_map_right_iff, forall₂_same]
    intro t _
    simp only [Function.comp_apply]
    split
    · exact ⟨rfl, rfl, rfl, rfl, fun _ h => h, fun h => (nomatch h), fun _ h => (nomatch h)⟩
    · exact ⟨rfl, rfl, rfl, rfl, fun _ h => h, fun _ => rfl, fun _ h => (nomatch h)⟩
  · simp only [Db.restored, update, map_map]
    refine map_congr_left fun a _ => ?_
    simp only [Function.comp_apply]
    split <;> rfl

end Retreat

end functions

/-! ## What the targets keep -/

variable {state : TargetState} {f : Release → Release}

/-- What a transaction leaves of a target that it neither offers nor observes. -/
structure Kept (t t' : Target) : Prop where
  id : t'.id = t.id
  rolloutID : t'.rolloutID = t.rolloutID
  attempt : t'.currentAttemptID = t.currentAttemptID
  since : ∀ since, t'.healthySince = some since → t.healthySince = some since
  lastReport : t'.lastReportAt = t.lastReportAt
  healthy : t'.state = .healthy → t.state = .healthy

namespace Kept

theorem refl (t : Target) : Kept t t := ⟨rfl, rfl, rfl, fun _ h => h, rfl, fun h => h⟩

theorem trans {t t' t'' : Target} (h : Kept t t') (h' : Kept t' t'') : Kept t t'' :=
  ⟨h'.id.trans h.id, h'.rolloutID.trans h.rolloutID, h'.attempt.trans h.attempt,
    fun since hs => h.since since (h'.since since hs), h'.lastReport.trans h.lastReport,
    fun hs => h.healthy (h'.healthy hs)⟩

theorem same (ts : List Target) : List.Forall₂ Kept ts ts := forall₂_same.mpr fun t _ => refl t

/-- A state that is not `healthy`, and another reason. -/
theorem ofState (t : Target) {reason : TargetReason} (hs : state ≠ .healthy) :
    Kept t { t with state, reason } := ⟨rfl, rfl, rfl, fun _ h => h, rfl, fun h => absurd h hs⟩

end Kept

/-- An attempt keeps its id and its target. -/
def SameAttempt (a a' : Attempt) : Prop := a'.id = a.id ∧ a'.targetID = a.targetID

theorem SameAttempt.same (as : List Attempt) : List.Forall₂ SameAttempt as as :=
  forall₂_same.mpr fun _ _ => ⟨rfl, rfl⟩

/-- The manifest of a release. -/
def Db.manifest? (db : Db) (id : String) : Option Manifest :=
  (db.releases.find? (·.id = id)).map (·.manifest)

/-- The releases keep their ids and manifests. -/
theorem manifest?_map {db db' : Db} (h : db'.releases = db.releases.map f) (hf : ∀ r, (f r).id = r.id)
    (hm : ∀ r, (f r).manifest = r.manifest) (id : String) : db'.manifest? id = db.manifest? id := by
  unfold manifest?
  rw [h, find?_map, Option.map_map]
  simp only [Function.comp_def, hf, hm]

/-- Some columns of some releases change. -/
theorem manifest?_update {db db' : Db} {p : Release → Bool} (h : db'.releases = update db.releases p f)
    (hf : ∀ r, (f r).id = r.id) (hm : ∀ r, (f r).manifest = r.manifest) (id : String) :
    db'.manifest? id = db.manifest? id := by
  refine manifest?_map h (fun r => ?_) (fun r => ?_) id
  · split
    · exact hf r
    · rfl
  · split
    · exact hm r
    · rfl

/-- The rows of the three tables are kept. -/
structure RowsKept (db db' : Db) : Prop where
  targets : List.Forall₂ Kept db.targets db'.targets
  attempts : List.Forall₂ SameAttempt db.attempts db'.attempts
  manifest : ∀ id m, db.manifest? id = some m → db'.manifest? id = some m

namespace RowsKept

theorem refl (db : Db) : RowsKept db db := ⟨Kept.same _, SameAttempt.same _, fun _ _ h => h⟩

theorem ofEq {db db' : Db} (ht : db'.targets = db.targets) (ha : db'.attempts = db.attempts)
    (hr : ∀ id, db'.manifest? id = db.manifest? id) : RowsKept db db' :=
  ⟨ht ▸ Kept.same _, ha ▸ SameAttempt.same _, fun id _ h => (hr id).trans h⟩

theorem trans {db db' db'' : Db} (h : RowsKept db db') (h' : RowsKept db' db'') : RowsKept db db'' :=
  ⟨forall₂_trans h.targets h'.targets fun _ _ _ => .trans,
    forall₂_trans h.attempts h'.attempts fun _ _ _ h h' => ⟨h'.1.trans h.1, h'.2.trans h.2⟩,
    fun id m hm => h'.manifest id m (h.manifest id m hm)⟩

theorem expireAssignment (db : Db) (at_ : Int) (t : Target) : RowsKept db (db.expireAssignment at_ t) := by
  refine ⟨forall₂_update (fun t _ _ => ?_) fun t _ => .refl t,
    forall₂_update (fun _ _ _ => ⟨rfl, rfl⟩) fun _ _ => ⟨rfl, rfl⟩, fun _ _ h => h⟩
  exact ⟨rfl, rfl, rfl, fun _ h => (nomatch h), rfl, fun h => (nomatch h)⟩

theorem recover (db : Db) (at_ : Int) : RowsKept db (db.recover at_) :=
  (foldlRecOn _ _ (refl db) fun db' h t _ => h.trans (expireAssignment db' at_ t)).trans
    (foldlRecOn _ _ (refl _) fun _ h _ _ => h.trans (ofEq rfl rfl fun _ => rfl))

theorem restored (db : Db) (at_ : Int) : RowsKept db (db.restored at_) := by
  have hrel : (db.restored at_).releases = db.releases.map fun r => { r with verified := false } := rfl
  refine ⟨?_, ?_, fun id _ h => (manifest?_map hrel (fun _ => rfl) (fun _ => rfl) id).trans h⟩
  · simp only [Db.restored, update, map_map]
    rw [forall₂_map_right_iff, forall₂_same]
    intro t _
    simp only [Function.comp_apply]
    split
    · exact ⟨rfl, rfl, rfl, (fun _ h => by cases h), rfl, fun h => by cases h⟩
    · exact ⟨rfl, rfl, rfl, fun _ h => h, rfl, fun h => h⟩
  · simp only [Db.restored, update, map_map]
    rw [forall₂_map_right_iff, forall₂_same]
    intro a _
    simp only [Function.comp_apply]
    split <;> exact ⟨rfl, rfl⟩

end RowsKept

def Event.isObserve : Event → Bool
  | .observe .. => true
  | _ => false

/-- What a transaction does to the targets and the attempts. -/
inductive TargetStep (svc : Service) (db : Db) (e : Event) (db' : Db) : Prop where
  | kept (rows : RowsKept db db') (he : e.isObserve = false)
  | created (new : List Target) (targets : db'.targets = db.targets ++ new)
      (fresh : ∀ t ∈ new, t.state = .pending ∧ t.currentAttemptID = "" ∧ t.healthySince = none)
      (attempts : db'.attempts = db.attempts) (releases : db'.releases = db.releases)
      (he : e.isObserve = false)
  | offered {node c attemptID nonce at_ expiry}
      (hc : c.Ok db node) (hfresh : ∀ a ∈ db.attempts, a.id ≠ attemptID)
      (targets : db'.targets = update db.targets (fun t => t.id = c.target.id && t.state.isWaiting)
        (offeredTarget c attemptID (svc.sha256 nonce) expiry))
      (attempts : db'.attempts = db.attempts ++
        [{ id := attemptID, targetID := c.target.id, nonceHash := some (svc.sha256 nonce)
           createdAt := at_ }])
      (releases : db'.releases = db.releases) (he : e.isObserve = false)
  | observed {nodeID input now at_}
      (he : e = .observe nodeID input now at_) (h : db.observe svc nodeID input now at_ = .ok db')

/-! ## One transaction -/

/-- What a transaction of the system does to the tables. -/
inductive DbStep (svc : Service) (db : Db) (e : Event) (db' : Db) : Prop where
  | quiet (rollouts : List.Forall₂ (RolloutMove svc db e) db.rollouts db'.rollouts)
      (targets : List.Forall₂ QuietMove db.targets db'.targets)
      (attempts : db'.attempts.map (·.id) = db.attempts.map (·.id))
  | created {input id ids now at_ trust policy nodes} (he : e = .create input id ids now at_ trust)
      (hpolicy : normalizePolicy input.policy now = .ok policy)
      (hnodes : db.snapshotTargets input = .ok nodes) (hfresh : ∀ r ∈ db.rollouts, r.id ≠ id)
      (rollouts : db'.rollouts = db.rollouts ++ [createdRollout input id policy nodes at_])
      (targets : db'.targets = db.targets ++
        nodes.zipIdx.map (plannedTarget (createdRollout input id policy nodes at_) ids))
      (attempts : db'.attempts = db.attempts) (keyed : Table.Keyed (·.id) db'.targets)
  | offered {n attemptID nonce at_ busy trust end_ trust' node c expiry}
      (he : e = .leaseOffer n attemptID nonce at_ busy trust end_ trust') (hc : c.Ok db node)
      (hfresh : ∀ a ∈ db.attempts, a.id ≠ attemptID) (rollouts : db'.rollouts = db.rollouts)
      (targets : db'.targets = update db.targets (fun t => t.id = c.target.id && t.state.isWaiting)
        (offeredTarget c attemptID (svc.sha256 nonce) expiry))
      (attempts : db'.attempts = db.attempts ++
        [{ id := attemptID, targetID := c.target.id, nonceHash := some (svc.sha256 nonce)
           createdAt := at_ }])
      (index : (db'.targets.filterMap activeNode).Nodup)
  | observed {nodeID input now at_ t verdict}
      (he : e = .observe nodeID input now at_) (h : Observed db nodeID input db' t verdict)

section step

variable {svc : Service} {db db' : Db} {w w' : World} {e : Event}

/-- A step, with what it does to the targets; the nodes stay. -/
structure Stepped (svc : Service) (db : Db) (e : Event) (db' : Db) : Prop where
  step : DbStep svc db e db'
  nodes : db'.nodes = db.nodes
  targets : TargetStep svc db e db'

theorem Retreat.stepped (h : Retreat db db') (hk : RowsKept db db') (he : e.isObserve = false) :
    Stepped svc db e db' :=
  ⟨.quiet (h.rollouts.imp fun _ _ => .system) h.targets h.attempts, h.nodes, .kept hk he⟩

theorem targets_same (ts : List Target) : List.Forall₂ (fun t t' => QuietMove t t' ∧ Kept t t') ts ts :=
  forall₂_same.mpr fun t _ => ⟨.refl t, .refl t⟩

theorem rollouts_same (rs : List Rollout) : List.Forall₂ (RolloutMove svc db e) rs rs :=
  forall₂_same.mpr fun _ _ => .system (.inl rfl)

/-- A transaction on the rollouts and quietly on the targets. -/
theorem Stepped.quiet (rollouts : List.Forall₂ (RolloutMove svc db e) db.rollouts db'.rollouts)
    (targets : List.Forall₂ (fun t t' => QuietMove t t' ∧ Kept t t') db.targets db'.targets)
    (ha : db'.attempts = db.attempts) (hn : db'.nodes = db.nodes) (hr : ∀ id, db'.manifest? id = db.manifest? id)
    (he : e.isObserve = false) : Stepped svc db e db' :=
  ⟨.quiet rollouts (targets.imp fun _ _ h => h.1) (by rw [ha]), hn,
    .kept ⟨targets.imp fun _ _ h => h.2, ha ▸ SameAttempt.same _, fun id _ h => (hr id).trans h⟩ he⟩

theorem hold_quiet (id : String) (reason : TargetReason) :
    List.Forall₂ (fun t t' => QuietMove t t' ∧ Kept t t') db.targets (db.hold id reason).targets := by
  refine forall₂_update (fun t _ hp => ?_) fun t _ => ⟨.refl t, .refl t⟩
  simp only [Bool.and_eq_true] at hp
  exact ⟨.waiting hp.2 rfl, .ofState t nofun⟩

variable {trust : Trust} {id : String} {at_ : Int} {busy : Bool} {n : Nat} {end_ : Int} {trust' : Trust}

section

variable (hk : Table.Keyed (·.id) db.rollouts)

include hk

theorem promote_step (h : db.promote svc id at_ trust = .ok db') :
    Stepped svc db (.promote id at_ trust) db' := by
  obtain ⟨rollout, hr, h⟩ := bind_eq_ok h
  obtain ⟨hp, h⟩ := of_guard h
  obtain ⟨release, hrel, h⟩ := bind_eq_ok h
  obtain ⟨hw, h⟩ := of_guard h
  cases h
  refine .quiet (rollouts_update hk hr ?_) (targets_same _) rfl rfl (fun _ => rfl) rfl
  refine .promote (by rw [(rollout_ok hr).2]) (by simpa using hp) hrel fun h0 => ?_
  simpa [h0] using hw

theorem pause_step (h : db.pause id = .ok db') : Stepped svc db (.pause id) db' := by
  obtain ⟨rollout, hr, h⟩ := bind_eq_ok h
  obtain ⟨ht, h⟩ := of_guard h
  cases h
  refine .quiet (rollouts_update hk hr ?_) (targets_same _) rfl rfl (fun _ => rfl) rfl
  exact .pause (by rw [(rollout_ok hr).2]) (by simpa using ht)

theorem abort_step (h : db.abort id = .ok db') : Stepped svc db (.abort id) db' := by
  obtain ⟨rollout, hr, h⟩ := bind_eq_ok h
  obtain ⟨ht, h⟩ := of_guard h
  cases h
  refine .quiet (rollouts_update hk hr ?_) ?_ rfl rfl (fun _ => rfl) rfl
  · exact .abort (by rw [(rollout_ok hr).2]) (by simpa using ht)
  · refine forall₂_update (fun t _ hp => ?_) fun t _ => ⟨.refl t, .refl t⟩
    simp only [Bool.and_eq_true] at hp
    exact ⟨.waiting hp.2 rfl, .ofState t nofun⟩

theorem resume_step {ack : Bool} (h : db.resume svc id ack at_ trust = .ok db') :
    Stepped svc db (.resume id ack at_ trust) db' := by
  obtain ⟨rollout, hr, h⟩ := bind_eq_ok h
  obtain ⟨hs, h⟩ := of_guard h
  obtain ⟨hack, h⟩ := of_guard h
  obtain ⟨release, -, h⟩ := bind_eq_ok h
  cases h
  refine .quiet (rollouts_update hk hr ?_) (targets_same _) rfl rfl (fun _ => rfl) rfl
  simp only [not_or, not_not, Int.not_lt] at hs
  refine .resume (by rw [(rollout_ok hr).2]) hs.1 hs.2 ?_
  by_cases hop : rollout.reason = .operatorPause
  · exact .inl hop
  · exact .inr (by simpa [hop] using hack)

end

theorem leaseCheck_step {nodeID : String} (he : e.isObserve = false)
    (h : w.leaseCheck svc n nodeID caps at_ busy trust = .ok w') : Stepped svc w.db e w'.db := by
  obtain ⟨-, h⟩ := of_guard h
  obtain ⟨node, -, h⟩ := bind_eq_ok h
  obtain ⟨⟨db, found⟩, hc, h⟩ := bind_eq_ok h
  cases h
  rcases candidate_exit hc with ⟨rfl | ⟨id, reason, rfl⟩, rfl⟩ | ⟨c, rfl, rfl, -⟩
  · exact .quiet (rollouts_same _) (targets_same _) rfl rfl (fun _ => rfl) he
  · exact .quiet (rollouts_same _) (hold_quiet id reason) rfl rfl (fun _ => rfl) he
  · exact .quiet (rollouts_same _) (targets_same _) rfl rfl (fun _ => rfl) he

theorem leaseMissing_step (he : e.isObserve = false) (h : w.leaseMissing n = .ok w') : Stepped svc w.db e w'.db := by
  unfold World.leaseMissing at h
  split at h
  · cases h
  rename_i call _
  obtain ⟨node, -, h⟩ := bind_eq_ok h
  cases h
  refine .quiet (rollouts_same _) ?_ rfl rfl (fun _ => rfl) he
  exact @hold_quiet (w.db.setArtifact call.releaseID call.artifactID false) _ _

theorem leaseOffer_exit {nonce : String} (h : w.leaseOffer svc n attemptID nonce at_ busy trust end_ trust' = .ok w') :
    ∃ (node : Node) (c : LeaseCandidate), c.Ok w.db node ∧ w.db.offer svc c attemptID nonce at_ = .ok w'.db := by
  unfold World.leaseOffer at h
  split at h
  · cases h
  obtain ⟨node, -, h⟩ := bind_eq_ok h
  obtain ⟨⟨db, found⟩, hc, h⟩ := bind_eq_ok h
  simp only at h
  split at h
  · cases h
  obtain ⟨-, h⟩ := of_guard h
  obtain ⟨db', hoffer, h⟩ := bind_eq_ok h
  obtain ⟨release, -, h⟩ := bind_eq_ok h
  cases h
  obtain ⟨-, hnone⟩ | ⟨c, hc', rfl, hok⟩ := candidate_exit hc
  · cases hnone
  cases hc'
  exact ⟨node, _, hok, hoffer⟩

theorem leaseOffer_step {nonce : String} (h : w.leaseOffer svc n attemptID nonce at_ busy trust end_ trust' = .ok w') :
    Stepped svc w.db (.leaseOffer n attemptID nonce at_ busy trust end_ trust') w'.db := by
  obtain ⟨node, c, hok, hoffer⟩ := leaseOffer_exit h
  obtain ⟨hfresh, expiry, hdb, hindex⟩ := offer_exit hoffer
  rw [hdb] at hindex ⊢
  exact ⟨.offered rfl hok hfresh rfl rfl rfl hindex, rfl, .offered hok hfresh rfl rfl rfl rfl⟩

/-- Every transaction is one of the steps, and the ids of the nodes stay a key. -/
theorem transact_step (hn : Table.Keyed (·.id) w.db.nodes) (hr : Table.Keyed (·.id) w.db.rollouts)
    (ht : Table.Keyed (·.id) w.db.targets) (h : w.transact svc e = .ok w') :
    DbStep svc w.db e w'.db ∧ Table.Keyed (·.id) w'.db.nodes ∧ TargetStep svc w.db e w'.db := by
  have hsame : Stepped svc w.db e w'.db →
      DbStep svc w.db e w'.db ∧ Table.Keyed (·.id) w'.db.nodes ∧ TargetStep svc w.db e w'.db :=
    fun h => ⟨h.step, h.nodes ▸ hn, h.targets⟩
  cases e with
  | create input id ids now at_ trust =>
    obtain ⟨db, hdb, rfl⟩ := map_eq_ok h
    obtain ⟨policy, nodes, hpolicy, hnodes, hfresh, rfl, hkeyed⟩ := create_exit ht hdb
    refine ⟨.created rfl hpolicy hnodes hfresh rfl rfl rfl hkeyed, hn, .created _ rfl (fun t ht => ?_) rfl rfl rfl⟩
    obtain ⟨n, -, rfl⟩ := mem_map.mp ht
    exact ⟨rfl, rfl, rfl⟩
  | promote id at_ trust =>
    obtain ⟨db, hdb, rfl⟩ := map_eq_ok h
    exact hsame (promote_step hr hdb)
  | pause id =>
    obtain ⟨db, hdb, rfl⟩ := map_eq_ok h
    exact hsame (pause_step hr hdb)
  | abort id =>
    obtain ⟨db, hdb, rfl⟩ := map_eq_ok h
    exact hsame (abort_step hr hdb)
  | resume id ack at_ trust =>
    obtain ⟨db, hdb, rfl⟩ := map_eq_ok h
    exact hsame (resume_step hr hdb)
  | leaseCheck n nodeID caps at_ busy trust => exact hsame (leaseCheck_step rfl h)
  | leaseMissing n => exact hsame (leaseMissing_step rfl h)
  | leaseOffer n attemptID nonce at_ busy trust end_ trust' => exact hsame (leaseOffer_step h)
  | observe nodeID input now at_ =>
    obtain ⟨db, hdb, rfl⟩ := map_eq_ok h
    obtain ⟨hnodes, t, verdict, hobs⟩ := observe_exit hdb
    exact hsame ⟨.observed rfl hobs, hnodes, .observed rfl hdb⟩
  | recover at_ =>
    cases h
    exact hsame ((Retreat.recover w.db at_).stepped (.recover w.db at_) rfl)
  | restorePause at_ =>
    obtain ⟨db, hdb, rfl⟩ := map_eq_ok h
    unfold Db.restorePause at hdb
    simp only at hdb
    split_ifs at hdb
    cases hdb
    exact hsame ((Retreat.restored w.db at_).stepped (.restored w.db at_) rfl)
  | revokeRelease id at_ =>
    obtain ⟨db, hdb, rfl⟩ := map_eq_ok h
    obtain ⟨-, hdb⟩ := of_guard hdb
    cases hdb
    refine hsame (Retreat.stepped (.pauseReleases ?_ rfl rfl rfl rfl)
      (.ofEq rfl rfl (manifest?_update rfl (fun _ => rfl) fun _ => rfl)) rfl)
    rfl
  | revokeKey keyID at_ =>
    cases h
    refine hsame (Retreat.stepped (.pauseReleases ?_ rfl rfl rfl rfl)
      (.ofEq rfl rfl (manifest?_update rfl (fun _ => rfl) fun _ => rfl)) rfl)
    rfl
  | activateSignaturePolicy =>
    cases h
    refine hsame (Retreat.stepped ⟨rfl, rollouts_system (fun r hr => ?_) rfl, ?_, rfl⟩
      (.ofEq rfl rfl (manifest?_map rfl (fun _ => rfl) fun _ => rfl)) rfl)
    · simpa using hr
    · exact forall₂_same.mpr fun t _ => .refl t
  | importRelease release =>
    obtain ⟨db, hdb, rfl⟩ := map_eq_ok h
    obtain ⟨-, hdb⟩ := of_guard hdb
    obtain ⟨-, hdb⟩ := of_guard hdb
    simp only at hdb
    split at hdb
    · cases hdb
      refine ⟨.quiet (rollouts_same _) (forall₂_same.mpr fun t _ => .refl t) rfl, hn,
        .kept ⟨Kept.same _, SameAttempt.same _, fun id m hm => ?_⟩ rfl⟩
      by_cases hthere : w.db.releases.any (·.id = release.id) = true
      · rw [if_pos hthere]
        refine Eq.trans ?_ hm
        exact manifest?_update (p := (·.id = release.id)) (f := fun r => { r with verified := true }) rfl
          (fun _ => rfl) (fun _ => rfl) id
      · -- a new release comes last
        rw [if_neg hthere]
        obtain ⟨r, hr, hrm⟩ := Option.map_eq_some_iff.mp hm
        rw [manifest?, find?_append, hr]
        exact congrArg some hrm
    · cases hdb
  | setArtifact =>
    cases h
    exact hsame (.quiet (rollouts_same _) (targets_same _) rfl rfl (fun _ => rfl) rfl)
  | putNode node =>
    cases h
    refine ⟨.quiet (rollouts_same _) (forall₂_same.mpr fun t _ => .refl t) rfl, ?_, .kept (.ofEq rfl rfl fun _ => rfl) rfl⟩
    unfold Db.putNode
    split
    · exact hn.update fun r _ hp => (of_decide_eq_true hp).symm
    · rename_i hnew
      refine hn.append fun x hx he => hnew (any_eq_true.mpr ⟨x, hx, ?_⟩)
      simpa using he
  | deleteNode id =>
    cases h
    refine ⟨.quiet (rollouts_same _) (forall₂_update (fun t _ _ => ?_) fun t _ => .refl t) rfl, hn.filter _,
      .kept ⟨forall₂_update (fun t _ _ => ?_) fun t _ => .refl t, SameAttempt.same _, fun _ _ h => h⟩ rfl⟩
    · exact ⟨rfl, rfl, rfl, rfl, fun _ h => (nomatch h), fun _ => rfl, fun h => h⟩
    · exact ⟨rfl, rfl, rfl, fun _ h => h, rfl, fun h => h⟩

end step

end Beat.AgentRollout
