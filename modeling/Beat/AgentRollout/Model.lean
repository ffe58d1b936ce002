import Beat.AgentRollout.Version
import Beat.Lib.Instant

/-!
# Rollouts, targets and policies

The rows and the inputs of `internal/agentrollout`, and the decisions that need no table: which
policies are accepted, which wave a target belongs to, whether an agent may be updated now, and what
a report says about an update.

* `normalizePolicy`: defaults and bounds of a policy.
* `eligible`: the artifact for an agent, or the reason why it is held back.
* `thresholdFailure`, `observationState`: the verdict on a report.

Times are nanoseconds. Columns and fields that none of these functions reads (names, platforms of a
target, the stored report, audit and event rows) are left out.
-/

namespace Beat.AgentRollout

open Instant

/-- The errors of the service. -/
inductive RolloutError where
  | forbidden | manifest | signature | unavailable | conflict | notFound | invalid
  deriving DecidableEq

/-! ## Rollouts -/

inductive AssignmentAction where
  | upgrade | rollback
  deriving DecidableEq

inductive RolloutState where
  | paused | active | completed | aborted
  deriving DecidableEq

/-- `terminalRolloutState`. -/
def RolloutState.isTerminal : RolloutState → Bool
  | .completed | .aborted => true
  | _ => false

/-- The reason of a rollout; `none` is the empty text. -/
inductive Reason where
  | none | awaitingPromotion | operatorPause | operatorAbort | healthGateFailed | assignmentUnknown
  | releaseRevoked | releaseExpired | restored | signingKeyRevoked | trustPolicyChanged
  deriving DecidableEq

structure Policy where
  canaryCount : Int := 0
  waveSize : Int := 0
  maxConcurrent : Int := 0
  observationSeconds : Int := 0
  reportFreshnessSeconds : Int := 0
  maxRestarts : Int := 0
  maxProtocolErrors : Int := 0
  maxMetricErrors : Int := 0
  maxTaskFailures : Int := 0
  allowPreview : Bool := false
  windowStart : Int := zero
  windowEnd : Int := zero
  deriving DecidableEq

/-- A row of `agent_rollouts`. -/
structure Rollout where
  action : AssignmentAction
  id : String
  releaseID : String
  state : RolloutState
  reason : Reason
  policy : Policy
  currentWave : Int
  totalWaves : Int
  createdAt : Int
  deriving DecidableEq

def maximumTargets : Nat := 1000

def defaultPolicy (policy : Policy) (now : Int) : Policy :=
  { policy with
    canaryCount := if policy.canaryCount = 0 then 1 else policy.canaryCount
    waveSize := if policy.waveSize = 0 then 10 else policy.waveSize
    maxConcurrent := if policy.maxConcurrent = 0 then 1 else policy.maxConcurrent
    observationSeconds := if policy.observationSeconds = 0 then 300 else policy.observationSeconds
    reportFreshnessSeconds :=
      if policy.reportFreshnessSeconds = 0 then 60 else policy.reportFreshnessSeconds
    windowStart := if isZero policy.windowStart then now else policy.windowStart
    windowEnd :=
      if isZero policy.windowEnd then now + 7 * 24 * hour else policy.windowEnd }

def validPolicyConcurrency (p : Policy) : Bool :=
  1 ≤ p.canaryCount && p.canaryCount ≤ maximumTargets && 1 ≤ p.waveSize &&
    p.waveSize ≤ maximumTargets && 1 ≤ p.maxConcurrent && p.maxConcurrent ≤ 100

def validPolicyHealth (p : Policy) : Bool :=
  30 ≤ p.observationSeconds && p.observationSeconds ≤ 3600 && 5 ≤ p.reportFreshnessSeconds &&
    p.reportFreshnessSeconds ≤ 3600 && 0 ≤ p.maxRestarts && 0 ≤ p.maxProtocolErrors &&
    0 ≤ p.maxMetricErrors && 0 ≤ p.maxTaskFailures

def validPolicyWindow (p : Policy) (now : Int) : Bool :=
  p.windowStart < p.windowEnd && now < p.windowEnd &&
    sub p.windowEnd p.windowStart ≤ 30 * 24 * hour

def normalizePolicy (policy : Policy) (now : Int) : Except RolloutError Policy :=
  let policy := defaultPolicy policy now
  if !validPolicyConcurrency policy || !validPolicyHealth policy || !validPolicyWindow policy now then
    .error .invalid
  else .ok policy

/-- The wave of the target at a place of the list (`insertTargets`). -/
def waveOf (policy : Policy) (index : Nat) : Int :=
  if policy.canaryCount ≤ index then 1 + (index - policy.canaryCount).tdiv policy.waveSize else 0

/-- The number of waves of so many targets (`createRollout`). -/
def totalWaves (policy : Policy) (count : Nat) : Int :=
  if policy.canaryCount < count then
    1 + (count - policy.canaryCount + policy.waveSize - 1).tdiv policy.waveSize
  else 1

/-- `promotable`. -/
def promotable (rollout : Rollout) : Bool :=
  rollout.state != .completed && rollout.state != .aborted &&
    (rollout.state != .paused || rollout.reason == .awaitingPromotion)

/-! ## Targets -/

/-- A SHA-256 digest. -/
abbrev Hash := BitVec 256

inductive TargetState where
  | pending | held | offered | observing | healthy | failed | aborted
  deriving DecidableEq

namespace TargetState

/-- `state IN('pending','held')`. -/
def isWaiting : TargetState → Bool
  | .pending | .held => true
  | _ => false

/-- `state IN('offered','observing')`. -/
def isActive : TargetState → Bool
  | .offered | .observing => true
  | _ => false

end TargetState

/-- The reason of a target; `none` is the empty text. -/
inductive TargetReason where
  | none
  -- held back by `eligible`
  | unsupportedPlatform | externalManager | manualOnly | platformChanged | unknownVersion
  | versionChanged | downgradeOrUnknownVersion | staleHeartbeat | protocolIncompatible
  | platformNotSupported | insufficientSpace | maintenanceWindow | remoteOperationsActive
  -- held back by `assignmentCapacity`
  | artifactMissing | nodeUpdateActive | assignmentCapacity
  | assignmentUnknown | restored | operatorAbort
  -- verdicts on a report
  | agentRolledBack | agentFailed | restartThreshold | protocolErrorThreshold
  | metricErrorThreshold | taskFailureThreshold | waitingForValidReport
  deriving DecidableEq

/-- A row of `agent_rollout_targets`. The node is unset when the node is deleted. -/
structure Target where
  id : String
  rolloutID : String
  nodeID : Option String
  nodeSnapshotID : String
  version : String
  wave : Int
  state : TargetState := .pending
  reason : TargetReason := .none
  currentAttemptID : String := ""
  artifactID : String := ""
  nonceHash : Option Hash := none
  leaseExpiresAt : Option Int := none
  healthySince : Option Int := none
  lastReportAt : Option Int := none
  deriving DecidableEq

inductive AttemptState where
  | offered | observing | healthy | failed | unknown
  deriving DecidableEq

/-- A row of `agent_rollout_attempts`; `none` is the empty hash. -/
structure Attempt where
  id : String
  targetID : String
  nonceHash : Option Hash
  state : AttemptState := .offered
  createdAt : Int
  endedAt : Option Int := none
  deriving DecidableEq

/-! ## Releases and nodes -/

structure Artifact where
  id : String
  os : String
  arch : String
  kind : String
  size : Int
  sha256 : String
  support : String
  deriving DecidableEq

structure Manifest where
  version : String
  channel : String := "stable"
  builtAt : Int
  expiresAt : Int
  minimumServerSchema : Int
  minimumProtocol : Int
  maximumProtocol : Int
  revoked : Bool := false
  artifacts : List Artifact
  deriving DecidableEq

/-- `validManifestDates`, and the numbers that `ValidateManifest` compares. -/
def validManifest (m : Manifest) (now : Int) : Bool :=
  !isZero m.builtAt && m.builtAt ≤ now + minute && now < m.expiresAt &&
    m.builtAt < m.expiresAt && !m.revoked && 1 ≤ m.minimumServerSchema && 1 ≤ m.minimumProtocol &&
    m.minimumProtocol ≤ m.maximumProtocol

/-- A row of `agent_releases` with its manifest. -/
structure Release where
  id : String
  signingKeyID : String
  manifest : Manifest
  verified : Bool := true
  revokedAt : Option Int := none
  deriving DecidableEq

/-- The columns of `nodes` that are read here. -/
structure Node where
  id : String
  version : String
  os : String
  arch : String
  lastSeen : Option Int := none
  groupID : String := ""
  tags : List String := []
  deriving DecidableEq

/-! ## Eligibility -/

structure Capabilities where
  currentVersion : String
  os : String
  arch : String
  manager : String
  updateEnabled : Bool
  availableBytes : Int
  protocolVersion : Int
  deriving DecidableEq

/-- `normalizeArchitecture`; an unknown architecture has no name. -/
def normalizeArchitecture (value : String) : Option String :=
  let space (c : Char) : Bool := c.isWhitespace
  let name := (((value.toList.dropWhile space).reverse.dropWhile space).reverse.map Char.toLower)
  if name ∈ ["amd64".toList, "x86_64".toList, "x64".toList] then some "amd64"
  else if name ∈ ["arm64".toList, "aarch64".toList] then some "arm64"
  else if name ∈ ["386".toList, "i386".toList, "i486".toList, "i586".toList, "i686".toList,
    "x86".toList] then some "386"
  else if name ∈ ["arm".toList, "armv6l".toList, "armv7l".toList] then some "arm"
  else if name ∈ ["loong64".toList, "loongarch64".toList] then some "loong64"
  else none

/-- `sameArchitecture`: two unknown architectures count as the same. -/
def sameArchitecture (left right : String) : Bool :=
  normalizeArchitecture left == normalizeArchitecture right

def platformArtifact (manifest : Manifest) (caps : Capabilities) : Option Artifact :=
  manifest.artifacts.find? fun a =>
    a.os = caps.os && a.arch = caps.arch && a.kind != "external_manager"

/-- The service manager of a system that updates itself. -/
def managerOf (os : String) : String :=
  if os = "linux" then "systemd"
  else if os = "windows" then "windows_service"
  else if os = "darwin" then "launchd"
  else if os = "freebsd" then "rc.d"
  else ""

def capabilityReason (node : Node) (caps : Capabilities) : Option TargetReason :=
  if caps.manager = "external_manager" then some .externalManager
  else if managerOf caps.os ≠ caps.manager ∨ caps.updateEnabled = false then some .manualOnly
  else if caps.os ≠ node.os ∨ sameArchitecture caps.arch node.arch = false then some .platformChanged
  else none

/-- `allowedDirection`: an upgrade goes up, a rollback goes down. -/
def allowedDirection (action : AssignmentAction) (comparison : Ordering) : Bool :=
  match action with
  | .rollback => comparison == .lt
  | .upgrade => comparison == .gt

def sourceVersionReason (target : Target) (rollout : Rollout) (release : Release) (node : Node)
    (caps : Capabilities) (now : Int) : Option TargetReason :=
  if target.version = "" ∨ caps.currentVersion = "" then some .unknownVersion
  else if sameReleaseVersion node.version target.version = false ∨
      sameReleaseVersion caps.currentVersion node.version = false then some .versionChanged
  else if ((compareVersions release.manifest.version node.version).any
      (allowedDirection rollout.action)) = false then some .downgradeOrUnknownVersion
  else if (node.lastSeen.any fun seen =>
      sub now seen ≤ rollout.policy.reportFreshnessSeconds * second) = false then
    some .staleHeartbeat
  else none

def requiredArtifactCopies : Int := 2

def artifactPolicyReason (artifact : Artifact) (rollout : Rollout) (release : Release)
    (caps : Capabilities) : Option TargetReason :=
  if caps.protocolVersion < release.manifest.minimumProtocol ∨
      release.manifest.maximumProtocol < caps.protocolVersion then some .protocolIncompatible
  else if artifact.support ≠ "supported" ∧
      (artifact.support ≠ "preview" ∨ rollout.policy.allowPreview = false) then
    some .platformNotSupported
  else if caps.availableBytes < artifact.size * requiredArtifactCopies then some .insufficientSpace
  else none

/-- `eligible`: the artifact, or why the target is held. `busy` says that a remote operation of the
node is under way. -/
def eligible (target : Target) (rollout : Rollout) (release : Release) (node : Node)
    (caps : Capabilities) (at_ : Int) (busy : Bool) : Except TargetReason Artifact :=
  match platformArtifact release.manifest caps with
  | none => .error .unsupportedPlatform
  | some artifact =>
    match (capabilityReason node caps).or ((sourceVersionReason target rollout release node caps at_).or
      (artifactPolicyReason artifact rollout release caps)) with
    | some reason => .error reason
    | none =>
      if at_ < rollout.policy.windowStart ∨ rollout.policy.windowEnd ≤ at_ then
        .error .maintenanceWindow
      else if busy then .error .remoteOperationsActive
      else .ok artifact

/-! ## Reports -/

inductive Outcome where
  | healthy | failed | rolledBack | other
  deriving DecidableEq

structure Observation where
  assignmentID : String
  nonce : String
  version : String
  reportAt : Int
  restarts : Int := 0
  protocolErrors : Int := 0
  metricErrors : Int := 0
  taskFailures : Int := 0
  outcome : Outcome
  deriving DecidableEq

def assignmentNonceBytes : Nat := 32

def maximumObservationCounter : Int := 1000000

def validObservation (input : Observation) (now : Int) : Bool :=
  input.assignmentID != "" && input.assignmentID.utf8ByteSize ≤ maximumIdentifierBytes &&
    input.nonce.utf8ByteSize == 2 * assignmentNonceBytes &&
    input.version.utf8ByteSize ≤ maximumIdentifierBytes && !isZero input.reportAt &&
    input.reportAt ≤ now + second && input.outcome != .other &&
    [input.restarts, input.protocolErrors, input.metricErrors, input.taskFailures].all fun count =>
      0 ≤ count && count ≤ maximumObservationCounter

/-- `restartBudget`: the restart of the update itself is not counted. -/
def restartBudget (policy : Policy) : Int :=
  if 1000000 ≤ policy.maxRestarts then 1000000 else policy.maxRestarts + 1

/-- `thresholdFailure`: why a report fails its target, if it does. -/
def thresholdFailure (input : Observation) (policy : Policy) (budget : Int) : Option TargetReason :=
  if input.outcome = .rolledBack then some .agentRolledBack
  else if input.outcome = .failed then some .agentFailed
  else if restartBudget policy + budget < input.restarts then some .restartThreshold
  else if policy.maxProtocolErrors + budget < input.protocolErrors then some .protocolErrorThreshold
  else if policy.maxMetricErrors + budget < input.metricErrors then some .metricErrorThreshold
  else if policy.maxTaskFailures + budget < input.taskFailures then some .taskFailureThreshold
  else none

/-- `transientErrorBudget`: a healthy target may exceed a threshold once. -/
def transientErrorBudget (state : TargetState) : Int := if state = .healthy then 1 else 0

/-- `reportReady`: the node runs the release, and was seen since the report, which is recent. -/
def reportReady (manifest : Manifest) (node : Node) (input : Observation) (policy : Policy) (at_ : Int) : Bool :=
  sameReleaseVersion node.version manifest.version && sameReleaseVersion input.version manifest.version &&
    (node.lastSeen.any fun seen => input.reportAt ≤ seen) &&
    sub at_ input.reportAt ≤ policy.reportFreshnessSeconds * second

/-- The states that a report can lead to. -/
inductive Verdict where
  | observing | healthy | failed
  deriving DecidableEq

def Verdict.target : Verdict → TargetState
  | .observing => .observing
  | .healthy => .healthy
  | .failed => .failed

def Verdict.attempt : Verdict → AttemptState
  | .observing => .observing
  | .healthy => .healthy
  | .failed => .failed

/-- The last part of `observationState`: the time since when the target has been healthy starts again
after a gap in the reports. -/
def observedSince (target : Target) (policy : Policy) (at_ : Int) : Verdict × TargetReason × Option Int :=
  let gap := target.lastReportAt.any fun last =>
    policy.reportFreshnessSeconds * second < sub at_ last
  let since := (if gap then none else target.healthySince).getD at_
  (if policy.observationSeconds * second ≤ sub at_ since then .healthy else .observing,
    .none, some since)

/-- `observationState`: the verdict, its reason and the time since when the target is healthy. The
first failure of a target stays. `manifest` is the one of the release, if the release is there. -/
def observationState (target : Target) (policy : Policy) (manifest : Option Manifest) (node : Node)
    (input : Observation) (at_ : Int) : Except RolloutError (Verdict × TargetReason × Option Int) :=
  if target.state = .failed then .ok (.failed, target.reason, none)
  else
    match thresholdFailure input policy (transientErrorBudget target.state) with
    | some reason => .ok (.failed, reason, none)
    | none =>
      match manifest with
      | none => .error .unavailable
      | some manifest =>
        if reportReady manifest node input policy at_ then .ok (observedSince target policy at_)
        else .ok (.observing, .waitingForValidReport, none)

/-! ## The health of a wave -/

/-- `validWaveHealth`: a target that passes the gate of its wave. `node` is the row of its node, if
there is one, `expected` the version of the release. -/
def validWaveHealth (target : Target) (node : Option Node) (expected : String) (policy : Policy) (at_ : Int) : Bool :=
  (node.any fun n => sameReleaseVersion n.version expected && n.lastSeen.any fun seen =>
    sub at_ seen ≤ policy.reportFreshnessSeconds * second) &&
    target.state == .healthy &&
    (target.healthySince.any fun since =>
      policy.observationSeconds * second ≤ sub at_ since) &&
    target.lastReportAt.any fun report =>
      sub at_ report ≤ policy.reportFreshnessSeconds * second

end Beat.AgentRollout
