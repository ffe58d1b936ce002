import Beat.AgentRollout.Model
import Beat.Lib.Fallible
import Beat.Lib.Run
import Beat.Lib.Table
import Mathlib.Data.List.Sort

/-!
# The transactions of a rollout

The tables of `internal/agentrollout` and its transactions: the actions of an owner (`Create`,
`Promote`, `Pause`, `Resume`, `Abort`, the revocations), the calls of an agent (`Lease`, `Observe`), the
periodic `Recover`, and `restorePause`, which runs on a restored database. A transaction is a function to
`Except`: an error is a rollback.

A `Lease` is two transactions with a look at the artifact file between them. A call between its two
transactions is kept in `World.calls`.

* `Db`: the tables; `Service`: what the process is configured with.
* `Event`, `transact`: one transaction of the system, with the readings of the clock and what other
  tables and the file system decide.
* `Steps`: a transaction with its outcome. A failed one changes no table; a failed second half of a
  `Lease` ends the call.

The rights of the caller are checked at the start and at the end of every transaction; a call without
them is no step. The signature, the key and the policy of a release are checked against tables that are
not modelled: `Trust` is the outcome.
-/

namespace Beat.AgentRollout

open Table

/-- A row of `agent_release_artifacts`. -/
structure ArtifactRow where
  releaseID : String
  artifactID : String
  ready : Bool
  deriving DecidableEq

structure Db where
  nodes : List Node := []
  groups : List String := []
  releases : List Release := []
  artifacts : List ArtifactRow := []
  rollouts : List Rollout := []
  targets : List Target := []
  attempts : List Attempt := []
  deriving DecidableEq

/-- What the service is configured with. -/
structure Service where
  schema : Int
  protocol : Int
  sha256 : String → Hash

/-- The outcome of the checks of signature, key and signature policy. -/
abbrev Trust := Except RolloutError Unit

namespace Db

/-! ## Reads -/

variable (db : Db)

/-- `tx.rollout`. -/
def rollout (id : String) : Except RolloutError Rollout :=
  match db.rollouts.find? (·.id = id) with
  | none => .error .notFound
  | some r => .ok r

/-- `tx.agent`: the node of an agent. -/
def agent (nodeID : String) : Except RolloutError Node :=
  match db.nodes.find? (·.id = nodeID) with
  | none => .error .forbidden
  | some n => .ok n

/-- `releaseInTransaction`: the release, if it may be used at this time. -/
def releaseInTransaction (svc : Service) (id : String) (at_ : Int) (trust : Trust) :
    Except RolloutError Release :=
  match db.releases.find? (·.id = id) with
  | none => .error .notFound
  | some release =>
    if validManifest release.manifest at_ = false then .error .manifest
    else
      match trust with
      | .error e => .error e
      | .ok () =>
        if release.revokedAt.isSome ∨ release.verified = false then .error .conflict
        else if svc.schema < release.manifest.minimumServerSchema ∨
            svc.protocol < release.manifest.minimumProtocol ∨
            release.manifest.maximumProtocol < svc.protocol then .error .manifest
        else .ok release

/-! ## Create -/

structure CreateInput where
  name : String
  releaseID : String
  nodeIDs : List String := []
  groupIDs : List String := []
  tags : List String := []
  policy : Policy := {}
  action : AssignmentAction := .upgrade
  acknowledgeRollback : Bool := false
  deriving DecidableEq

/-- `requireTargets`: the ids are well formed, distinct and there. -/
def requireTargets (there : List String) : List String → List String → Except RolloutError Unit
  | _, [] => .ok ()
  | seen, id :: ids =>
    if id = "" ∨ maximumIdentifierBytes < id.utf8ByteSize ∨ id ∈ seen then .error .invalid
    else if id ∉ there then .error .notFound
    else requireTargets there (id :: seen) ids

/-- The filter of `targetFilter`: by id, by group or by tag. -/
def selects (input : CreateInput) (n : Node) : Bool :=
  input.nodeIDs.contains n.id || input.groupIDs.contains n.groupID ||
    n.tags.any fun tag => input.tags.contains tag

/-- `snapshotTargets`: the nodes of a new rollout, by id. -/
def snapshotTargets (input : CreateInput) : Except RolloutError (List Node) := do
  let count := input.nodeIDs.length + input.groupIDs.length + input.tags.length
  if count = 0 ∨ maximumTargets < count then .error .invalid
  else
    requireTargets (db.nodes.map (·.id)) [] input.nodeIDs
    requireTargets db.groups [] input.groupIDs
    if input.tags.any fun tag => tag = "" || maximumIdentifierBytes < tag.utf8ByteSize then
      .error .invalid
    else
      let nodes := ((db.nodes.filter (selects input)).insertionSort (·.id ≤ ·.id)).take (maximumTargets + 1)
      if nodes = [] ∨ maximumTargets < nodes.length then .error .invalid else .ok nodes

/-- `insertTargets`. `ids` draws the ids of the rows. -/
def insertTargets (targets : List Target) (rollout : Rollout) (ids : Nat → String) (nodes : List Node) :
    Except RolloutError (List Target) :=
  nodes.zipIdx.foldlM (fun rows (n, index) =>
    if rows.any fun t => t.id = ids index ||
        (t.rolloutID = rollout.id && t.nodeSnapshotID = n.id) then .error .unavailable
    else
      .ok (rows ++
        [{ id := ids index, rolloutID := rollout.id, nodeID := some n.id, nodeSnapshotID := n.id
           version := n.version, wave := waveOf rollout.policy index }])) targets

/-- `Create`. `now` is the reading before the transaction. -/
def create (svc : Service) (input : CreateInput) (id : String) (ids : Nat → String)
    (now at_ : Int) (trust : Trust) : Except RolloutError Db := do
  if input.action = .rollback ∧ input.acknowledgeRollback = false then .error .invalid
  else if input.name = "" ∨ maximumIdentifierBytes < input.name.utf8ByteSize then .error .invalid
  else
    let policy ← normalizePolicy input.policy now
    let release ← db.releaseInTransaction svc input.releaseID at_ trust
    if svc.schema < release.manifest.minimumServerSchema then .error .manifest
    else
      let nodes ← db.snapshotTargets input
      let rollout : Rollout :=
        { action := input.action, id, releaseID := input.releaseID, state := .paused
          reason := .awaitingPromotion, policy, currentWave := -1
          totalWaves := totalWaves policy nodes.length, createdAt := at_ }
      if db.rollouts.any (·.id = id) then .error .unavailable
      else
        let targets ← insertTargets db.targets rollout ids nodes
        if targets.countP (·.rolloutID = id) = nodes.length then
          .ok { db with rollouts := db.rollouts ++ [rollout], targets }
        else .error .unavailable

/-! ## The actions of an owner -/

/-- The targets of the current wave (`waveHealthy`). -/
def currentTargets (rollout : Rollout) : List Target :=
  db.targets.filter fun t => t.rolloutID = rollout.id && t.wave = rollout.currentWave

/-- `waveHealthy`: the wave is not empty and every target of it passes. -/
def waveHealthy (rollout : Rollout) (release : Release) (at_ : Int) : Bool :=
  let wave := db.currentTargets rollout
  !wave.isEmpty && wave.all fun t =>
    validWaveHealth t (t.nodeID.bind fun id => db.nodes.find? (·.id = id)) release.manifest.version
      rollout.policy at_

/-- The row that `Promote` writes. -/
def promoted (rollout : Rollout) : Rollout :=
  if rollout.totalWaves ≤ rollout.currentWave + 1 then
    { rollout with state := .completed, reason := .none }
  else { rollout with state := .active, reason := .none, currentWave := rollout.currentWave + 1 }

/-- `Promote`. -/
def promote (svc : Service) (id : String) (at_ : Int) (trust : Trust) : Except RolloutError Db := do
  let rollout ← db.rollout id
  if promotable rollout = false then .error .conflict
  else
    let release ← db.releaseInTransaction svc rollout.releaseID at_ trust
    if 0 ≤ rollout.currentWave ∧ db.waveHealthy rollout release at_ = false then .error .conflict
    else .ok { db with rollouts := update db.rollouts (·.id = id) promoted }

/-- `Pause`. -/
def pause (id : String) : Except RolloutError Db := do
  let rollout ← db.rollout id
  if rollout.state.isTerminal then .error .conflict
  else
    .ok
      { db with
        rollouts := update db.rollouts (·.id = id) fun r =>
          { r with state := .paused, reason := .operatorPause } }

/-- `Abort`: the targets that wait are given up; an assignment that was made keeps its nonce, so that
its last report is accepted. -/
def abort (id : String) : Except RolloutError Db := do
  let rollout ← db.rollout id
  if rollout.state.isTerminal then .error .conflict
  else
    .ok
      { db with
        rollouts := update db.rollouts (·.id = id) fun r =>
          { r with state := .aborted, reason := .operatorAbort }
        targets := update db.targets (fun t => t.rolloutID = id && t.state.isWaiting) fun t =>
          { t with state := .aborted, reason := .operatorAbort } }

/-- `Resume`. -/
def resume (svc : Service) (id : String) (acknowledgeUncertainty : Bool) (at_ : Int)
    (trust : Trust) : Except RolloutError Db := do
  let rollout ← db.rollout id
  if rollout.state ≠ .paused ∨ rollout.currentWave < 0 then .error .conflict
  else if rollout.reason ≠ .operatorPause ∧ acknowledgeUncertainty = false then .error .conflict
  else
    let _ ← db.releaseInTransaction svc rollout.releaseID at_ trust
    .ok
      { db with
        rollouts := update db.rollouts (·.id = id) fun r =>
          { r with state := .active, reason := .none } }

/-! ## Lease -/

/-- `hold`. -/
def hold (targetID : String) (reason : TargetReason) : Db :=
  { db with
    targets := update db.targets (fun t => t.id = targetID && t.state.isWaiting) fun t =>
      { t with state := .held, reason } }

structure LeaseCandidate where
  target : Target
  rollout : Rollout
  release : Release
  artifact : Artifact

/-- `ORDER BY r.created_at,t.id`. -/
def CandidateLe (a b : Rollout × Target) : Prop :=
  a.1.createdAt < b.1.createdAt ∨ (a.1.createdAt = b.1.createdAt ∧ a.2.id ≤ b.2.id)

instance : DecidableRel CandidateLe := fun _ _ => inferInstanceAs (Decidable (_ ∨ _ ∧ _))

/-- The targets that a node may get: waiting, in the current wave of an active rollout. -/
def waitingFor (nodeID : String) : List (Rollout × Target) :=
  db.targets.flatMap fun t => (db.rollouts.filter fun r => r.id = t.rolloutID && t.nodeID = some nodeID &&
    r.state = .active && r.currentWave = t.wave && t.state.isWaiting).map fun r => (r, t)

/-- The targets that count against the limits of a rollout and of a node. -/
def activeTargets (rolloutID nodeID : String) : List Target :=
  db.targets.filter fun t => (t.rolloutID = rolloutID || t.nodeID = some nodeID) && t.state.isActive

/-- `assignmentCapacity`: the reason to hold the target, if any. -/
def assignmentCapacity (target : Target) (rollout : Rollout) (artifact : Artifact) :
    Except RolloutError (Option TargetReason) :=
  match db.artifacts.find? fun a => a.releaseID = rollout.releaseID && a.artifactID = artifact.id with
  | none => .error .unavailable
  | some row =>
    let active := db.activeTargets rollout.id target.nodeSnapshotID
    if row.ready = false then .ok (some .artifactMissing)
    else if active.any fun t => t.nodeID = some target.nodeSnapshotID then .ok (some .nodeUpdateActive)
    else if rollout.policy.maxConcurrent ≤ active.length then .ok (some .assignmentCapacity)
    else .ok none

/-- `candidate`: the target to offer to an agent. A target that must wait is held, and there is no
candidate. -/
def candidate (svc : Service) (node : Node) (caps : Capabilities) (at_ : Int) (busy : Bool)
    (trust : Trust) : Except RolloutError (Db × Option LeaseCandidate) :=
  match ((db.waitingFor node.id).insertionSort CandidateLe).head? with
  | none => .ok (db, none)
  | some (rollout, target) => do
    let release ← db.releaseInTransaction svc rollout.releaseID at_ trust
    match eligible target rollout release node caps at_ busy with
    | .error reason => .ok (db.hold target.id reason, none)
    | .ok artifact =>
      match ← db.assignmentCapacity target rollout artifact with
      | some reason => .ok (db.hold target.id reason, none)
      | none => .ok (db, some ⟨target, rollout, release, artifact⟩)

def assignmentLifetime : Int := 15 * Instant.minute

/-- The node of a target that is offered or observing (`idx_agent_rollout_active_node`). -/
def activeNode (t : Target) : Option String := if t.state.isActive then t.nodeID else none

/-- The rows with this change of one target, unless it breaks the index: a node has at most one active
target. -/
def writeTarget (targets : List Target) (p : Target → Bool) (f : Target → Target) :
    Except RolloutError (List Target) :=
  let rows := update targets p f
  if (rows.filterMap activeNode).Nodup then .ok rows
  else .error .unavailable

/-- `offer`: a new attempt, of which the target gets the nonce. -/
def offer (svc : Service) (c : LeaseCandidate) (attemptID nonce : String) (at_ : Int) :
    Except RolloutError Db := do
  let hash := svc.sha256 nonce
  let expiry := min (min (at_ + (assignmentLifetime + c.rollout.policy.observationSeconds * Instant.second))
    c.release.manifest.expiresAt) c.rollout.policy.windowEnd
  if db.attempts.any (·.id = attemptID) then .error .unavailable
  else
    let p := fun t : Target => t.id = c.target.id && t.state.isWaiting
    if db.targets.countP p ≠ 1 then .error .unavailable
    else
      let targets ← writeTarget db.targets p fun t =>
        { t with
          state := .offered, reason := .none, currentAttemptID := attemptID
          artifactID := c.artifact.id, nonceHash := some hash, leaseExpiresAt := some expiry
          healthySince := none, lastReportAt := none }
      .ok
        { db with
          targets
          attempts := db.attempts ++
            [{ id := attemptID, targetID := c.target.id, nonceHash := some hash, createdAt := at_ }] }

/-! ## Observe -/

/-- `observedTarget`: the target of a report. A target that is decided still takes reports after its
lease. -/
def observedTarget (svc : Service) (nodeID : String) (input : Observation) (at_ : Int) :
    Except RolloutError Target :=
  match db.targets.find? fun t => t.nodeID = some nodeID && t.currentAttemptID = input.assignmentID with
  | none => .error .notFound
  | some t =>
    if t.nonceHash ≠ some (svc.sha256 input.nonce) ∨ t.leaseExpiresAt = none ∨
        (t.state ≠ .healthy ∧ t.state ≠ .failed ∧ (t.leaseExpiresAt.any fun e => at_ < e) = false) then
      .error .forbidden
    else if t.lastReportAt.any fun last => input.reportAt < last then .error .conflict
    else .ok t

/-- `updateAttemptState`: the end of an attempt is written when its state changes. -/
def updateAttemptState (attempts : List Attempt) (id : String) (verdict : Verdict) (before : TargetState)
    (at_ : Int) : List Attempt :=
  update attempts (·.id = id) fun a =>
    { a with
      state := verdict.attempt
      endedAt := if verdict.target = before then a.endedAt
        else if verdict = .observing then none else some at_ }

/-- `recordObservation`: a failure pauses the rollout. -/
def recordObservation (target : Target) (rollout : Rollout) (node : Node)
    (input : Observation) (at_ : Int) : Except RolloutError Db := do
  let manifest := (db.releases.find? (·.id = rollout.releaseID)).map (·.manifest)
  let (verdict, reason, since) ← observationState target rollout.policy manifest node input at_
  let targets ← writeTarget db.targets (·.id = target.id) fun t =>
    { t with state := verdict.target, reason, healthySince := since, lastReportAt := some input.reportAt }
  .ok
    { db with
      targets
      attempts := updateAttemptState db.attempts input.assignmentID verdict target.state at_
      rollouts :=
        if verdict = .failed then
          update db.rollouts (fun r => r.id = rollout.id && !r.state.isTerminal) fun r =>
            { r with state := .paused, reason := .healthGateFailed }
        else db.rollouts }

/-- `Observe`. `now` is the reading before the transaction. -/
def observe (svc : Service) (nodeID : String) (input : Observation) (now at_ : Int) :
    Except RolloutError Db := do
  if validObservation input now = false then .error .invalid
  else
    let node ← db.agent nodeID
    let target ← db.observedTarget svc nodeID input at_
    let rollout ← db.rollout target.rolloutID
    db.recordObservation target rollout node input at_

/-! ## Recover -/

def recoveryBatchSize : Nat := 1000

/-- `pauseAutomatically`. -/
def pauseAutomatically (id : String) (reason : Reason) : Db :=
  { db with
    rollouts := update db.rollouts
      (fun r => r.id = id && !r.state.isTerminal && r.reason != reason) fun r =>
        { r with state := .paused, reason } }

/-- The loop of `expireAssignments`: the outcome of the attempt is not known. -/
def expireAssignment (at_ : Int) (target : Target) : Db :=
  let lost := (db.targets.find? (·.id = target.id)).map (·.currentAttemptID)
  { db with
    attempts := update db.attempts (fun a => lost == some a.id) fun a =>
      { a with state := .unknown, endedAt := some at_ }
    targets := update db.targets (·.id = target.id) fun t =>
      { t with
        state := .held, reason := .assignmentUnknown, nonceHash := none, leaseExpiresAt := none
        healthySince := none } }.pauseAutomatically target.rolloutID .assignmentUnknown

/-- `expireAssignments`. -/
def expireAssignments (at_ : Int) : Db :=
  let expired := db.targets.filter fun t => t.state.isActive && t.leaseExpiresAt.any (· ≤ at_)
  (expired.take recoveryBatchSize).foldl (·.expireAssignment at_ ·) db

/-- The reason that `expireReleases` gives to a rollout, if its release is revoked or has expired. -/
def releaseEnded (rollout : Rollout) (at_ : Int) : Option Reason :=
  match db.releases.find? (·.id = rollout.releaseID) with
  | none => none
  | some release =>
    if release.revokedAt.isSome then some .releaseRevoked
    else if release.manifest.expiresAt ≤ at_ then some .releaseExpired
    else none

/-- `expireReleases`. -/
def expireReleases (at_ : Int) : Db :=
  let ended := db.rollouts.filterMap fun r =>
    if r.state.isTerminal ∨ r.reason ∈ [.releaseRevoked, .releaseExpired, .signingKeyRevoked] then none
    else (db.releaseEnded r at_).map fun reason => (r.id, reason)
  (ended.take recoveryBatchSize).foldl (fun db (id, reason) => db.pauseAutomatically id reason) db

/-- `Recover`. -/
def recover (at_ : Int) : Db := (db.expireAssignments at_).expireReleases at_

/-! ## Restore -/

/-- The rollout is paused by a restore. -/
def isRestored (id : String) : Bool :=
  db.rollouts.any fun r => r.id = id && r.state = .paused && r.reason = .restored

/-- The target is in the current wave of its rollout or in a later one. -/
def isAhead (t : Target) : Bool :=
  db.rollouts.any fun r => r.id = t.rolloutID && decide (r.currentWave ≤ t.wave)

/-- The updates of `restorePause`. -/
def restored (at_ : Int) : Db :=
  let rollouts := update db.rollouts (!·.state.isTerminal) fun r =>
    { r with state := .paused, reason := .restored }
  let paused := { db with rollouts }
  { paused with
    attempts := (update db.attempts (fun a => a.state = .offered || a.state = .observing)
      fun a => { a with state := .unknown, endedAt := some at_ }).map fun a => { a with nonceHash := none }
    targets := (update db.targets (fun t => paused.isRestored t.rolloutID && paused.isAhead t)
      fun t => { t with state := .held, reason := .restored, healthySince := none }).map fun t =>
        { t with nonceHash := none, leaseExpiresAt := none }
    releases := db.releases.map fun r => { r with verified := false }
    artifacts := db.artifacts.map fun a => { a with ready := false } }

/-- `verifyRestoredState`: nothing that was valid before the restore is left. -/
def verifyRestoredState : Bool :=
  db.releases.all (!·.verified) && db.artifacts.all (!·.ready) &&
    (db.targets.all fun t => t.nonceHash.isNone && t.leaseExpiresAt.isNone) &&
    (db.attempts.all fun a => a.nonceHash.isNone && a.state != .offered && a.state != .observing) &&
    (db.rollouts.all fun r => r.state.isTerminal || (r.state == .paused && r.reason == .restored)) &&
    db.targets.all fun t => !(db.isRestored t.rolloutID && db.isAhead t) ||
      (t.state == .held && t.reason == .restored && t.healthySince.isNone)

/-- `restorePause`. -/
def restorePause (at_ : Int) : Except RolloutError Db :=
  let db := db.restored at_
  if db.verifyRestoredState then .ok db else .error .unavailable

/-! ## Releases -/

/-- Every rollout of the releases that is active is paused. -/
def pauseReleases (p : Release → Bool) (reason : Reason) : Db :=
  { db with
    rollouts := update db.rollouts
      (fun r => r.state = .active && db.releases.any fun release => release.id = r.releaseID && p release)
      fun r => { r with state := .paused, reason } }

/-- `RevokeRelease`. -/
def revokeRelease (id : String) (at_ : Int) : Except RolloutError Db :=
  if db.releases.countP (·.id = id) ≠ 1 then .error .unavailable
  else
    .ok
      ({ db with
        releases := update db.releases (·.id = id) fun r =>
          { r with revokedAt := some at_ } }.pauseReleases (·.id = id) .releaseRevoked)

/-- `RevokeKey`, apart from the row of the key. -/
def revokeKey (keyID : String) (at_ : Int) : Db :=
  { db with
    releases := update db.releases (·.signingKeyID = keyID) fun r =>
      { r with revokedAt := some at_ } }.pauseReleases (·.signingKeyID = keyID) .signingKeyRevoked

/-- `activateSignaturePolicy` with a new policy, apart from the rows of the policy. -/
def activateSignaturePolicy : Db :=
  { db with
    releases := db.releases.map fun r => { r with verified := false }
    rollouts := update db.rollouts (!·.state.isTerminal) fun r =>
      { r with state := .paused, reason := .trustPolicyChanged } }

/-- `persistRelease` of `Import`, after the signature was verified. A release that is there already
is verified again, unless it is revoked; the rows of its artifacts stay. -/
def importRelease (release : Release) : Except RolloutError Db :=
  let m := release.manifest
  if db.releases.any fun r => r.manifest.version = m.version && r.manifest.channel = m.channel &&
      r.id != release.id then .error .conflict
  else if db.releases.any fun r => r.id = release.id && r.revokedAt.isSome then .error .conflict
  else
    let releases :=
      if db.releases.any (·.id = release.id) then
        update db.releases (·.id = release.id) fun r => { r with verified := true }
      else db.releases ++ [{ release with verified := true, revokedAt := none }]
    let missing := m.artifacts.filter fun a =>
      (db.artifacts.any fun row => row.releaseID = release.id && row.artifactID = a.id) = false
    let artifacts := db.artifacts ++ missing.map fun a => ⟨release.id, a.id, false⟩
    if artifacts.countP (·.releaseID = release.id) = m.artifacts.length then
      .ok { db with releases, artifacts }
    else .error .unavailable

/-- The file of an artifact is stored, or found missing. -/
def setArtifact (releaseID artifactID : String) (ready : Bool) : Db :=
  { db with
    artifacts := update db.artifacts
      (fun a => a.releaseID = releaseID && a.artifactID = artifactID) fun a => { a with ready } }

/-! ## Nodes -/

/-- A node is registered, or its row changes. -/
def putNode (node : Node) : Db :=
  { db with
    nodes := if db.nodes.any (·.id = node.id) then update db.nodes (·.id = node.id) fun _ => node
      else db.nodes ++ [node] }

/-- A node is deleted (`ON DELETE SET NULL`). -/
def deleteNode (id : String) : Db :=
  { db with
    nodes := db.nodes.filter (·.id ≠ id)
    targets := update db.targets (·.nodeID = some id) fun t => { t with nodeID := none } }

end Db

/-! ## The system -/

/-- A `Lease` between its two transactions. -/
structure LeaseCall where
  nodeID : String
  caps : Capabilities
  targetID : String
  releaseID : String
  artifactID : String
  deriving DecidableEq

/-- The tables, and the calls of `Lease` that are under way, by number. -/
structure World where
  db : Db
  calls : Nat → Option LeaseCall

inductive Event where
  | create (input : Db.CreateInput) (id : String) (ids : Nat → String) (now at_ : Int) (trust : Trust)
  | promote (id : String) (at_ : Int) (trust : Trust)
  | pause (id : String)
  | abort (id : String)
  | resume (id : String) (acknowledgeUncertainty : Bool) (at_ : Int) (trust : Trust)
  /-- The first transaction of `Lease`. -/
  | leaseCheck (call : Nat) (nodeID : String) (caps : Capabilities) (at_ : Int) (busy : Bool)
      (trust : Trust)
  /-- `Lease` finds the file of the artifact missing or wrong. -/
  | leaseMissing (call : Nat)
  /-- The second transaction of `Lease`; `end_` and `trust'` are for the check after the offer. -/
  | leaseOffer (call : Nat) (attemptID nonce : String) (at_ : Int) (busy : Bool) (trust : Trust)
      (end_ : Int) (trust' : Trust)
  | observe (nodeID : String) (input : Observation) (now at_ : Int)
  | recover (at_ : Int)
  | restorePause (at_ : Int)
  | revokeRelease (id : String) (at_ : Int)
  | revokeKey (keyID : String) (at_ : Int)
  | activateSignaturePolicy
  | importRelease (release : Release)
  | setArtifact (releaseID artifactID : String) (ready : Bool)
  | putNode (node : Node)
  | deleteNode (id : String)

namespace World

variable (w : World)

def setCall (n : Nat) (call : Option LeaseCall) : World :=
  { w with calls := Function.update w.calls n call }

/-- The first transaction of `Lease`. A call without a candidate is over. -/
def leaseCheck (svc : Service) (n : Nat) (nodeID : String) (caps : Capabilities) (at_ : Int)
    (busy : Bool) (trust : Trust) : Except RolloutError World := do
  if (w.calls n).isSome then .error .conflict
  else
    let node ← w.db.agent nodeID
    let (db, found) ← w.db.candidate svc node caps at_ busy trust
    let call := found.map fun c => ⟨nodeID, caps, c.target.id, c.release.id, c.artifact.id⟩
    .ok ({ w with db }.setCall n call)

/-- The transaction of a `Lease` that found no good file. -/
def leaseMissing (n : Nat) : Except RolloutError World :=
  match w.calls n with
  | none => .error .notFound
  | some call => do
    let _ ← w.db.agent call.nodeID
    let db := (w.db.setArtifact call.releaseID call.artifactID false).hold call.targetID .artifactMissing
    .ok ({ w with db }.setCall n none)

/-- The second transaction of `Lease`: everything is checked again. -/
def leaseOffer (svc : Service) (n : Nat) (attemptID nonce : String) (at_ : Int) (busy : Bool)
    (trust : Trust) (end_ : Int) (trust' : Trust) : Except RolloutError World :=
  match w.calls n with
  | none => .error .notFound
  | some call => do
    let node ← w.db.agent call.nodeID
    let (db, found) ← w.db.candidate svc node call.caps at_ busy trust
    match found with
    | none => .error .conflict
    | some c =>
      if c.target.id ≠ call.targetID then .error .conflict
      else
        let db ← db.offer svc c attemptID nonce at_
        let _ ← db.releaseInTransaction svc c.release.id end_ trust'
        .ok ({ w with db }.setCall n none)

/-- A transaction that succeeds. -/
def transact (svc : Service) (w : World) : Event → Except RolloutError World
  | .create input id ids now at_ trust =>
    (w.db.create svc input id ids now at_ trust).map fun db => { w with db }
  | .promote id at_ trust => (w.db.promote svc id at_ trust).map fun db => { w with db }
  | .pause id => (w.db.pause id).map fun db => { w with db }
  | .abort id => (w.db.abort id).map fun db => { w with db }
  | .resume id ack at_ trust => (w.db.resume svc id ack at_ trust).map fun db => { w with db }
  | .leaseCheck n nodeID caps at_ busy trust => w.leaseCheck svc n nodeID caps at_ busy trust
  | .leaseMissing n => w.leaseMissing n
  | .leaseOffer n attemptID nonce at_ busy trust end_ trust' =>
    w.leaseOffer svc n attemptID nonce at_ busy trust end_ trust'
  | .observe nodeID input now at_ =>
    (w.db.observe svc nodeID input now at_).map fun db => { w with db }
  | .recover at_ => .ok { w with db := w.db.recover at_ }
  | .restorePause at_ => (w.db.restorePause at_).map fun db => { w with db }
  | .revokeRelease id at_ => (w.db.revokeRelease id at_).map fun db => { w with db }
  | .revokeKey keyID at_ => .ok { w with db := w.db.revokeKey keyID at_ }
  | .activateSignaturePolicy => .ok { w with db := w.db.activateSignaturePolicy }
  | .importRelease release => (w.db.importRelease release).map fun db => { w with db }
  | .setArtifact releaseID artifactID ready =>
    .ok { w with db := w.db.setArtifact releaseID artifactID ready }
  | .putNode node => .ok { w with db := w.db.putNode node }
  | .deleteNode id => .ok { w with db := w.db.deleteNode id }

/-- The world after a transaction that failed: a `Lease` in its second half is over. -/
def failed : Event → World
  | .leaseMissing n => w.setCall n none
  | .leaseOffer n .. => w.setCall n none
  | _ => w

end World

/-- An event and its outcome. -/
abbrev Entry := Event × Option RolloutError

/-- One step of the system. -/
def step (svc : Service) (w : World) (e : Event) : World × Option RolloutError :=
  match w.transact svc e with
  | .ok w' => (w', none)
  | .error err => (w.failed e, some err)

def Steps (svc : Service) (w : World) (x : Entry) (w' : World) : Prop := step svc w x.1 = (w', x.2)

/-- A database without rollouts. -/
structure Db.Fresh (db : Db) : Prop where
  nodes : Table.Keyed (·.id) db.nodes
  rollouts : db.rollouts = []
  targets : db.targets = []
  attempts : db.attempts = []

/-- The runs from a database without rollouts. -/
abbrev ServiceRun (svc : Service) (db : Db) : List Entry → World → Prop :=
  Lts.Run (Steps svc) ⟨db, fun _ => none⟩

end Beat.AgentRollout
