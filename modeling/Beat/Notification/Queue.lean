import Beat.Lib.Instant
import Beat.Lib.Fallible
import Beat.Lib.Table
import Mathlib.Data.List.Sort

/-!
# The notification queue

The transactions of `notificationqueue` on the tables `notification_messages`,
`notification_deliveries`, `notification_delivery_attempts`, `notification_channel_health` and
`alert_channels`: enqueue (`enqueue.go`, `enqueue_batch.go`, `test_delivery.go`), claim and recovery of
expired leases (`lease.go`), completion (`complete.go`), the operations of the operator
(`delivery_operations.go`, `channel_operations.go`), failure messages (`failure_reconciliation.go`),
retention (`maintenance.go`, `retention_chains.go`) and the recovery of a restored snapshot
(`restore.go`).

A transaction that returns an error is rolled back. The service reads its clock several times in a
transaction; the readings are arguments, each on its own. The identifiers and lease tokens that the
service draws are the lists `ids` and `tokens` of the state, in the order in which they are drawn; a
lease that a claim has returned is kept in `issued`.
-/

namespace Beat.Notification

open Table Instant

/-! ## Rows -/

/-- `enabledEventKinds`. -/
inductive EventKind where
  | alertTriggered
  | alertAcknowledged
  | alertResolved
  | alertNoData
  | alertEvaluationError
  | alertEvaluationRecovered
  | availabilityOffline
  | availabilityRecovered
  | trafficQuota
  | trafficReport
  | fleetStatusSummary
  | notificationDeliveryFailed
  | notificationTest
  | operationCompleted
  | operationFailed
  | nodeExpiring
  | nodeExpired
  | nodeRenewed
  | securityLoginSucceeded
  | securityLoginSuspicious
  deriving DecidableEq

/-- The SHA-256 of a lease token. -/
abbrev TokenHash := BitVec 256

/-- `lease_token_hash`, `lease_expires_at` and `worker_id`. -/
structure LeaseColumns where
  tokenHash : TokenHash
  expiresAt : Int
  workerID : String
  deriving DecidableEq

/-- `state`. By the check of the table the columns of the lease are set in the rows that are leased and
in no others. -/
inductive DeliveryState where
  | pending
  | leased (lease : LeaseColumns)
  | succeeded
  | dead
  | cancelled
  deriving DecidableEq

/-- A row of `notification_deliveries`. -/
structure Delivery where
  id : String
  messageID : String
  channelID : String
  channelRevision : Int
  state : DeliveryState := .pending
  attemptCount : Nat := 0
  nextAttemptAt : Int
  errorCode : String := ""
  retryOf : Option String := none
  createdAt : Int
  completedAt : Option Int := none
  deriving DecidableEq

inductive AttemptOutcome where
  | inProgress
  | succeeded
  | retryable
  | permanent
  | cancelled
  | leaseExpired
  deriving DecidableEq

/-- A row of `notification_delivery_attempts`. -/
structure Attempt where
  deliveryID : String
  number : Nat
  outcome : AttemptOutcome
  deriving DecidableEq

/-- A row of `notification_messages`. -/
structure Message where
  id : String
  sourceKey : String
  eventKind : EventKind
  routed : Bool
  createdAt : Int
  retainUntil : Int
  deriving DecidableEq

/-- A row of `alert_channels`. -/
structure Channel where
  id : String
  currentRevision : Int
  eventKinds : List EventKind
  enabled : Bool
  deleted : Bool := false
  deriving DecidableEq

/-- A row of `notification_channel_health`. -/
structure ChannelHealth where
  channelID : String
  currentRevision : Int
  consecutiveFailures : Nat := 0
  openUntil : Option Int := none
  deriving DecidableEq

/-- The row of `notification_settings`. -/
structure Settings where
  successRetentionDays : Nat
  deadRetentionDays : Nat
  maximumWorkers : Nat
  deriving DecidableEq

/-- `deliveryLease`. -/
structure DeliveryLease where
  id : String
  messageID : String
  channelID : String
  eventKind : EventKind
  revision : Int
  attempt : Nat
  hash : TokenHash
  expiresAt : Int
  deriving DecidableEq

/-- The tables, the values that the service draws next, the leases that it has returned, and the
deliveries whose failure message it leaves to `ReconcileFailures`: it has logged that the message awaits
queue capacity, or a restore has ended the delivery. -/
structure Queue where
  settings : Settings
  channels : List Channel
  health : List ChannelHealth
  messages : List Message
  deliveries : List Delivery
  attempts : List Attempt
  ids : List String
  tokens : List TokenHash
  issued : List DeliveryLease
  deferred : List String := []
  deriving DecidableEq

inductive QueueError where
  | invalidRequest
  | queueUnavailable
  | queueCapacity
  | notFound
  | conflict
  | leaseLost
  deriving DecidableEq

/-- `state='leased'`. -/
def DeliveryState.isLeased : DeliveryState → Bool
  | .leased _ => true
  | _ => false

/-- `state IN ('pending','leased')`. -/
def DeliveryState.isActive : DeliveryState → Bool
  | .pending | .leased _ => true
  | _ => false

/-- `state='leased' AND lease_expires_at<=now`. -/
def Delivery.isExpired (d : Delivery) (now : Int) : Bool :=
  match d.state with
  | .leased lease => lease.expiresAt ≤ now
  | _ => false

/-- `exactlyOne`: an update that must find one row. -/
def updateOne {α : Type} (rows : List α) (p : α → Bool) (f : α → α) (err : QueueError) : Except QueueError (List α) :=
  if rows.countP p = 1 then .ok (update rows p f) else .error err

/-- `ORDER BY time,id`. -/
def TimeLe {α : Type} (time : α → Int) (id : α → String) (a b : α) : Prop :=
  time a < time b ∨ (time a = time b ∧ id a ≤ id b)

instance {α : Type} (time : α → Int) (id : α → String) : DecidableRel (TimeLe time id) :=
  fun _ _ => inferInstanceAs (Decidable (_ ∨ _ ∧ _))

namespace Queue

/-- `newID`. -/
def newID (q : Queue) : Except QueueError (String × Queue) :=
  match q.ids with
  | [] => .error .queueUnavailable
  | id :: ids => .ok (id, { q with ids })

def message? (q : Queue) (id : String) : Option Message := q.messages.find? (·.id = id)

def channel? (q : Queue) (id : String) : Option Channel := q.channels.find? (·.id = id)

end Queue

/-! ## Enqueue -/

def maximumChannels : Nat := 256

def maximumPendingDeliveries : Nat := 100000

def day : Int := 24 * hour

/-- `Request`: the fields that route a message. -/
structure Request where
  sourceKey : String
  eventKind : EventKind
  channelIDs : List String := []
  useSubscriptions : Bool := false
  deriving DecidableEq

structure SelectedChannel where
  id : String
  revision : Int
  deriving DecidableEq

structure EnqueueInput where
  request : Request
  excludeChannel : String := ""
  forceChannel : Option SelectedChannel := none

namespace Queue

variable (q : Queue)

/-- `sourceReceipt` finds a message. -/
def hasSource (sourceKey : String) : Bool := q.messages.any (·.sourceKey = sourceKey)

/-- `selectChannels`. -/
def selectChannels (input : EnqueueInput) : Except QueueError (List SelectedChannel) :=
  match input.forceChannel with
  | some channel => .ok [channel]
  | none =>
    let rows := (q.channels.filter fun c => c.enabled && !c.deleted).insertionSort (·.id ≤ ·.id)
    let allowed (c : Channel) : Bool :=
      input.request.channelIDs.contains c.id ||
        (input.request.useSubscriptions && c.eventKinds.contains input.request.eventKind)
    let selected := rows.filter fun c => allowed c && c.id ≠ input.excludeChannel
    if maximumChannels < selected.length then .error .queueCapacity
    else .ok (selected.map fun c => ⟨c.id, c.currentRevision⟩)

/-- `checkQueueCapacity`. -/
def checkQueueCapacity (added : Nat) : Except QueueError Unit :=
  if maximumPendingDeliveries < q.deliveries.countP (·.state.isActive) + added then
    .error .queueCapacity
  else .ok ()

/-- `insertDelivery`. The id is the key of the table. -/
def insertDelivery (messageID : String) (channel : SelectedChannel)
    (retryOf : Option String) (now : Int) : Except QueueError Queue := do
  let (id, q) ← q.newID
  if q.deliveries.any (·.id = id) then .error .queueUnavailable
  else
    let at_ := unixMilli now
    .ok { q with deliveries := q.deliveries ++
      [{ id, messageID, channelID := channel.id, channelRevision := channel.revision
         nextAttemptAt := at_, retryOf, createdAt := at_ }] }

/-- `enqueueTx`: reading 0 of the clock is for the message, the others are for its deliveries. -/
def enqueueTx (input : EnqueueInput) (clock : Nat → Int) : Except QueueError Queue := do
  let channels ← q.selectChannels input
  q.checkQueueCapacity channels.length
  let (id, q) ← q.newID
  if q.messages.any (fun m => m.id = id || m.sourceKey = input.request.sourceKey) then
    .error .queueUnavailable
  else
    let now := clock 0
    let message : Message :=
      { id, sourceKey := input.request.sourceKey, eventKind := input.request.eventKind
        routed := !channels.isEmpty, createdAt := unixMilli now
        retainUntil := unixMilli (now + q.settings.deadRetentionDays * day) }
    channels.zipIdx.foldlM (fun q (channel, i) => q.insertDelivery id channel none (clock (i + 1)))
      { q with messages := q.messages ++ [message] }

/-- `Enqueue` and `EnqueueOperation`, past the check of the request and the caller's own writes. -/
def enqueue (request : Request) (clock : Nat → Int) : Except QueueError Queue :=
  if q.hasSource request.sourceKey then .ok q else q.enqueueTx { request } clock

/-- `preflightBatchCapacity`. -/
def preflightBatchCapacity (requests : List Request) : Except QueueError Unit := do
  let channels ← requests.mapM fun request => q.selectChannels { request }
  q.checkQueueCapacity (channels.map List.length).sum

/-- `EnqueueBatch`: nothing is written when some of the messages are there already. -/
def enqueueBatch (requests : List Request) (clock : Nat → Nat → Int) : Except QueueError Queue :=
  let count := requests.countP fun request => q.hasSource request.sourceKey
  if count = requests.length then .ok q
  else if count ≠ 0 then .error .conflict
  else do
    q.preflightBatchCapacity requests
    requests.zipIdx.foldlM (fun q (request, i) => q.enqueueTx { request } (clock i)) q

/-- `currentChannel`. -/
def currentChannel (id : String) : Except QueueError SelectedChannel :=
  match q.channels.find? fun c => c.id = id && !c.deleted with
  | none => .error .notFound
  | some c => if c.currentRevision < 1 then .error .queueUnavailable else .ok ⟨id, c.currentRevision⟩

/-- `TestChannel`, with the source key of the request. -/
def testChannel (id sourceKey : String) (clock : Nat → Int) : Except QueueError Queue :=
  if q.hasSource sourceKey then .ok q
  else do
    let channel ← q.currentChannel id
    q.enqueueTx { request := { sourceKey, eventKind := .notificationTest }, forceChannel := channel }
      clock

end Queue

/-! ## Failure messages -/

def failureWindowSeconds : Int := 15 * 60

/-- The source key of the message about a failed channel. -/
def failureKey (channelID errorCode : String) (window : Int) : String :=
  "notification-failure:" ++ channelID ++ ":" ++ errorCode ++ ":" ++ toString window

/-- The window of a time. -/
def failureWindow (observedAt : Int) : Int := (unix observedAt).tdiv failureWindowSeconds

/-- The window of a stored time, in the arithmetic of the database. -/
def storedWindow (completedAt : Int) : Int := completedAt.tdiv (failureWindowSeconds * 1000)

/-- A failure without a time of its own has happened now. -/
def observedTime (observedAt now : Int) : Int := if isZero observedAt then now else observedAt

namespace Queue

variable (q : Queue)

/-- `failureMessage`. -/
def failureMessage (channelID errorCode : String) (observedAt : Int)
    (clock : Nat → Int) : Except QueueError Queue :=
  let key := failureKey channelID errorCode (failureWindow (observedTime observedAt (clock 0)))
  if q.hasSource key then .ok q
  else
    q.enqueueTx
      { request := { sourceKey := key, eventKind := .notificationDeliveryFailed, useSubscriptions := true }
        excludeChannel := channelID }
      fun k => clock (k + 1)

/-- `deferCapacityFailure`: a full queue does not undo the transaction. -/
def deferCapacityFailure (deliveryID channelID errorCode : String) (clock : Nat → Int) :
    Except QueueError Queue :=
  match q.failureMessage channelID errorCode zero clock with
  | .error .queueCapacity => .ok { q with deferred := q.deferred ++ [deliveryID] }
  | result => result

/-- `missingFailureMessages`: channel, error code and time of the failures without a message. -/
def missingFailureMessages : List (String × String × Int) :=
  let missing (d : Delivery) : Option (Delivery × Int) :=
    match q.message? d.messageID, d.state, d.completedAt with
    | some m, .dead, some completed =>
      if m.eventKind ≠ .notificationDeliveryFailed ∧
          !q.hasSource (failureKey d.channelID d.errorCode (storedWindow completed)) then
        some (d, completed)
      else none
    | _, _, _ => none
  (((q.deliveries.filterMap missing).insertionSort (TimeLe (·.2) (·.1.id))).take 64).map fun (d, completed) =>
    (d.channelID, d.errorCode, completed)

/-- The loop of `ReconcileFailures`: it ends at the first message for which there is no room. -/
def reconcileAll (clock : Nat → Nat → Int) : List ((String × String × Int) × Nat) → Queue → Except QueueError Queue
  | [], q => .ok q
  | ((channelID, errorCode, completed), i) :: rest, q =>
    match q.failureMessage channelID errorCode (completed * millisecond) (clock i) with
    | .error .queueCapacity => .ok q
    | .error err => .error err
    | .ok q => reconcileAll clock rest q

/-- `ReconcileFailures`. -/
def reconcileFailures (clock : Nat → Nat → Int) : Except QueueError Queue :=
  reconcileAll clock q.missingFailureMessages.zipIdx q

end Queue

/-! ## Claim -/

def deliveryLeaseLifetime : Int := 90 * second

def maximumAttempts : Nat := 6

/-- What `recoverExpiredTx` reads of a delivery. -/
structure ExpiredLease where
  id : String
  attempt : Nat
  channelID : String
  eventKind : EventKind
  expiresAt : Int

/-- Tests come first, then the oldest. -/
def DueLe (a b : Delivery × EventKind) : Prop :=
  (a.2 = .notificationTest ∧ b.2 ≠ .notificationTest) ∨
    ((a.2 = .notificationTest ↔ b.2 = .notificationTest) ∧ TimeLe (·.1.createdAt) (·.1.id) a b)

instance : DecidableRel DueLe := fun _ _ => inferInstanceAs (Decidable ((_ ∧ _) ∨ (_ ∧ _)))

/-- The readings of the clock in `claimTx`. -/
structure ClaimClock where
  recover : Int
  failure : Nat → Nat → Int
  select : Int
  lease : Int

namespace Queue

variable (q : Queue)

/-- The expired leases, the oldest first, at most 64. -/
def expiredLeases (now : Int) : List ExpiredLease :=
  let expired (d : Delivery) : Option ExpiredLease :=
    match d.state, q.message? d.messageID with
    | .leased lease, some m =>
      if lease.expiresAt ≤ now then some ⟨d.id, d.attemptCount, d.channelID, m.eventKind, lease.expiresAt⟩
      else none
    | _, _ => none
  ((q.deliveries.filterMap expired).insertionSort (·.expiresAt ≤ ·.expiresAt)).take 64

/-- `expireOneLease`. -/
def expireOneLease (lease : ExpiredLease) (now : Int) : Except QueueError Queue := do
  let attempts := update q.attempts
    (fun a => a.deliveryID = lease.id && a.number = lease.attempt && a.outcome = .inProgress)
    fun a => { a with outcome := .leaseExpired }
  let last := maximumAttempts ≤ lease.attempt
  let deliveries ← updateOne q.deliveries (fun d => d.id = lease.id && d.isExpired now)
    (fun d => { d with
      state := if last then .dead else .pending
      nextAttemptAt := now, completedAt := if last then some now else none
      errorCode := "lease_expired" })
    .queueUnavailable
  .ok { q with attempts, deliveries }

/-- `recoverExpiredTx`. The failure message of the lease at place `i` has the readings `failure i`. -/
def recoverExpiredTx (reading : Int) (failure : Nat → Nat → Int) : Except QueueError Queue :=
  let now := unixMilli reading
  (q.expiredLeases now).zipIdx.foldlM (fun q (lease, i) => do
    let q ← q.expireOneLease lease now
    if maximumAttempts ≤ lease.attempt ∧ lease.eventKind ≠ .notificationDeliveryFailed then
      q.deferCapacityFailure lease.id lease.channelID "lease_expired" (failure i)
    else .ok q) q

/-- `claimCapacity`. -/
def claimCapacity : Bool :=
  q.deliveries.countP (·.state.isLeased) < q.settings.maximumWorkers

/-- The channel is not held back by its circuit (`h.current_revision<>d.channel_revision OR
COALESCE(h.open_until,0)<=now`, over a left join). -/
def circuitAllows (d : Delivery) (now : Int) : Bool :=
  match q.health.find? (·.channelID = d.channelID) with
  | some h => h.currentRevision ≠ d.channelRevision || h.openUntil.getD 0 ≤ now
  | none => 0 ≤ now

/-- A delivery of the same channel stands before this one. -/
def hasPrevious (d : Delivery) : Bool :=
  q.deliveries.any fun previous => previous.channelID = d.channelID && previous.state.isActive &&
    (previous.createdAt < d.createdAt || (previous.createdAt = d.createdAt && previous.id < d.id))

/-- The rows that `selectDueLease` chooses from, with the kind of their event. -/
def due (now : Int) (d : Delivery) : Option (Delivery × EventKind) :=
  match q.message? d.messageID, q.channel? d.channelID with
  | some m, some c =>
    let test := m.eventKind = .notificationTest
    if d.state = .pending ∧ d.attemptCount < maximumAttempts ∧ d.nextAttemptAt ≤ now ∧ c.deleted = false ∧
        (c.enabled ∨ test) ∧
        (q.deliveries.any fun active => active.channelID = d.channelID && active.state.isLeased) = false ∧
        (test ∨ (q.circuitAllows d now ∧ q.hasPrevious d = false)) then
      some (d, m.eventKind)
    else none
  | _, _ => none

/-- `selectDueLease`. -/
def selectDueLease (now : Int) : Option (Delivery × EventKind) :=
  ((q.deliveries.filterMap (q.due now)).insertionSort DueLe).head?

/-- The last part of `claimTx`: the chosen delivery is leased under a new token. -/
def leaseDelivery (d : Delivery) (eventKind : EventKind) (workerID : String)
    (reading : Int) : Except QueueError (Option DeliveryLease × Queue) :=
  match q.tokens with
  | [] => .error .queueUnavailable
  | hash :: tokens => do
    let expiresAt := unixMilli (reading + deliveryLeaseLifetime)
    let attempt := d.attemptCount + 1
    let deliveries ← updateOne q.deliveries
      (fun r => r.id = d.id && r.state = .pending && r.attemptCount = d.attemptCount)
      (fun r => { r with state := .leased ⟨hash, expiresAt, workerID⟩, attemptCount := attempt })
      .queueUnavailable
    if q.attempts.any (fun a => a.deliveryID = d.id && a.number = attempt) then
      .error .queueUnavailable
    else
      .ok (some ⟨d.id, d.messageID, d.channelID, eventKind, d.channelRevision, attempt, hash, expiresAt⟩,
        { q with deliveries, tokens, attempts := q.attempts ++ [⟨d.id, attempt, .inProgress⟩] })

/-- `claimTx`. -/
def claimTx (workerID : String) (clock : ClaimClock) :
    Except QueueError (Option DeliveryLease × Queue) := do
  let q ← q.recoverExpiredTx clock.recover clock.failure
  if !q.claimCapacity then .ok (none, q)
  else
    match q.selectDueLease (unixMilli clock.select) with
    | none => .ok (none, q)
    | some (d, eventKind) => q.leaseDelivery d eventKind workerID clock.lease

end Queue

/-! ## Completion -/

/-- `model.NotificationSendResult`: the fields that the completion reads. -/
structure SendResult where
  success : Bool := false
  retryable : Bool := false
  retryAfter : Int := 0
  errorCode : String := ""

/-- The delays before the attempts after the first. -/
def retryDelays : List Int :=
  [5 * second, 30 * second, 2 * minute, 10 * minute, 30 * minute]

/-- `retryDelay`. The draw of the jitter may fail. -/
def retryDelay (attempt : Nat) (retryAfter : Int) (jitter : Option Nat) : Except QueueError Int :=
  if attempt < 1 then .error .invalidRequest
  else
    match retryDelays[attempt - 1]? with
    | none => .error .invalidRequest
    | some base =>
      let delay := if base < retryAfter then min retryAfter hour else base
      match jitter with
      | none => .error .queueUnavailable
      | some j => .ok (delay + (j : Int) % (delay / 10 + 1))

/-- The readings of the clock in `complete`. -/
structure CompleteClock where
  now : Int
  openUntil : Int
  failure : Nat → Int

/-- The state, the outcome and the time of the next attempt that `completeTx` writes. -/
def completion (lease : DeliveryLease) (result : SendResult) (now : Int) (jitter : Option Nat) :
    Except QueueError (DeliveryState × AttemptOutcome × Int) :=
  if result.success then .ok (.succeeded, .succeeded, now)
  else if result.retryable then
    if lease.attempt < maximumAttempts then do
      let delay ← retryDelay lease.attempt result.retryAfter jitter
      .ok (.pending, .retryable, now + delay)
    else .ok (.dead, .retryable, now)
  else .ok (.dead, .permanent, now)

/-- `state='leased' AND lease_token_hash=? AND lease_expires_at>?` of the row with the id of the lease. -/
def Delivery.isCurrent (d : Delivery) (lease : DeliveryLease) (now : Int) : Bool :=
  d.id = lease.id &&
    match d.state with
    | .leased held => held.tokenHash = lease.hash && now < held.expiresAt
    | _ => false

namespace Queue

variable (q : Queue)

/-- `updateHealth`. -/
def updateHealth (lease : DeliveryLease) (result : SendResult) (reading : Int) : Queue :=
  let ofLease (h : ChannelHealth) : Bool :=
    h.channelID = lease.channelID && h.currentRevision = lease.revision
  if result.success then
    { q with health := update q.health ofLease fun h =>
        { h with consecutiveFailures := 0, openUntil := none } }
  else if result.retryable then
    { q with health := update q.health ofLease fun h =>
        { h with
          consecutiveFailures := h.consecutiveFailures + 1
          openUntil :=
            if 5 ≤ h.consecutiveFailures + 1 then some (unixMilli (reading + 5 * minute))
            else h.openUntil } }
  else q

/-- `completeTx`. -/
def completeTx (lease : DeliveryLease) (result : SendResult) (clock : CompleteClock)
    (jitter : Option Nat) : Except QueueError (DeliveryState × Queue) := do
  let now := unixMilli clock.now
  let (state, outcome, next) ← completion lease result clock.now jitter
  let deliveries ← updateOne q.deliveries (·.isCurrent lease now)
    (fun d => { d with
      state, nextAttemptAt := unixMilli next
      completedAt := if state = .pending then none else some now
      errorCode := result.errorCode })
    .leaseLost
  let attempts ← updateOne q.attempts
    (fun a => a.deliveryID = lease.id && a.number = lease.attempt && a.outcome = .inProgress)
    (fun a => { a with outcome }) .queueUnavailable
  .ok (state, updateHealth { q with deliveries, attempts } lease result clock.openUntil)

/-- `complete`. -/
def complete (lease : DeliveryLease) (result : SendResult) (clock : CompleteClock)
    (jitter : Option Nat) : Except QueueError Queue := do
  let (state, q) ← q.completeTx lease result clock jitter
  if state = .dead ∧ lease.eventKind ≠ .notificationDeliveryFailed then
    q.deferCapacityFailure lease.id lease.channelID result.errorCode clock.failure
  else .ok q

/-! ## Operations of the operator -/

/-- `CancelDelivery`. -/
def cancelDelivery (id : String) (reading : Int) : Except QueueError Queue :=
  match q.deliveries.find? (·.id = id) with
  | none => .error .notFound
  | some d =>
    if !d.state.isActive then .error .conflict
    else do
      let now := unixMilli reading
      let attempts := update q.attempts
        (fun a => a.deliveryID = id && a.outcome = .inProgress) fun a => { a with outcome := .cancelled }
      let deliveries ← updateOne q.deliveries (fun d => d.id = id && d.state.isActive)
        (fun d => { d with
          state := .cancelled, completedAt := some now, errorCode := "operator_cancelled" })
        .conflict
      .ok { q with attempts, deliveries }

/-- `RetryDelivery`. -/
def retryDelivery (id : String) (confirmDuplicate : Bool) (now : Int) : Except QueueError Queue :=
  if !confirmDuplicate then .error .invalidRequest
  else
    match q.deliveries.find? (·.id = id) with
    | none => .error .notFound
    | some source =>
      if source.state ≠ .dead then .error .conflict
      else if q.deliveries.any (·.retryOf = some id) then .ok q
      else do
        let selected ← q.currentChannel source.channelID
        q.checkQueueCapacity 1
        q.insertDelivery source.messageID selected (some id) now

/-- `cancelChannelDeliveries`. -/
def cancelChannelDeliveries (id : String) (reading : Int) : Queue :=
  let now := unixMilli reading
  let leased (deliveryID : String) : Bool := q.deliveries.any fun d =>
    d.id = deliveryID && d.channelID = id && d.state.isLeased
  { q with
    attempts := update q.attempts (fun a => a.outcome = .inProgress && leased a.deliveryID)
      fun a => { a with outcome := .cancelled }
    deliveries := update q.deliveries (fun d => d.channelID = id && d.state.isActive)
      fun d => { d with
        state := .cancelled, completedAt := some now, errorCode := "channel_deleted" } }

/-- `changeChannelState`: the change of the channel. -/
def changeChannelState (id : String) (f : Channel → Channel) : Except QueueError Queue :=
  match q.channels.find? fun c => c.id = id && !c.deleted with
  | none => .error .notFound
  | some _ => do
    let channels ← updateOne q.channels (·.id = id) f .queueUnavailable
    .ok { q with channels }

/-- `SetEnabled`. -/
def setEnabled (id : String) (enabled : Bool) : Except QueueError Queue :=
  q.changeChannelState id fun c => { c with enabled }

/-- `DeleteChannel`. -/
def deleteChannel (id : String) (reading : Int) : Except QueueError Queue := do
  let q ← q.changeChannelState id fun c => { c with enabled := false, deleted := true }
  .ok (q.cancelChannelDeliveries id reading)

/-! ## Restore and retention -/

/-- `ReconcileRestore`. -/
def reconcileRestore (reading : Int) : Queue :=
  let now := unixMilli reading
  let expired (deliveryID : String) : Bool := q.deliveries.any fun d => d.id = deliveryID && d.isExpired now
  { q with
    attempts := update q.attempts (fun a => a.outcome = .inProgress && expired a.deliveryID)
      fun a => { a with outcome := .leaseExpired }
    deliveries := update q.deliveries (·.isExpired now)
      fun d => { d with
        state := if maximumAttempts ≤ d.attemptCount then .dead else .pending
        nextAttemptAt := now
        completedAt := if maximumAttempts ≤ d.attemptCount then some now else none
        errorCode := "restore_recovery" } }

/-- The deliveries that `ReconcileRestore` ends. -/
def restoreDead (reading : Int) : List String :=
  (q.deliveries.filter fun d => d.isExpired (unixMilli reading) && maximumAttempts ≤ d.attemptCount).map (·.id)

end Queue

def maximumPrunedDeliveries : Nat := 128

structure RetentionCutoffs where
  success : Int
  dead : Int

/-- The first delivery of a chain of retries is final and older than its cutoff. -/
def Delivery.isExpiredRoot (d : Delivery) (cutoffs : RetentionCutoffs) : Bool :=
  d.retryOf = none &&
    match d.completedAt with
    | none => false
    | some completed =>
      ((d.state = .succeeded || d.state = .cancelled) && completed < cutoffs.success) ||
        (d.state = .dead && completed < cutoffs.dead)

namespace Queue

variable (q : Queue)

/-- `expiredDeliveryRoots`: the roots, each with its direct successor. -/
def expiredDeliveryRoots (cutoffs : RetentionCutoffs) (limit : Nat) : List (String × Option String) :=
  let roots := (q.deliveries.filter (·.isExpiredRoot cutoffs)).insertionSort
    (TimeLe (·.completedAt.getD 0) (·.id))
  (roots.take limit).map fun d => (d.id, (q.deliveries.find? (·.retryOf = some d.id)).map (·.id))

/-- `pruneDeliveryRoot`: the attempts go with the delivery. -/
def pruneDeliveryRoot (root : String × Option String) : Except QueueError Queue :=
  let isRoot (d : Delivery) : Bool := d.id = root.1 && d.retryOf = none
  if q.deliveries.countP isRoot ≠ 1 then .error .queueUnavailable
  else
    let q' := { q with
      deliveries := q.deliveries.filter fun d => !isRoot d
      attempts := q.attempts.filter fun a => a.deliveryID ≠ root.1 }
    match root.2 with
    | none => .ok q'
    | some child => do
      let deliveries ← updateOne q'.deliveries (fun d => d.id = child && d.retryOf = some root.1)
        (fun d => { d with retryOf := none }) .queueUnavailable
      .ok { q' with deliveries }

/-- The loop of `pruneDeliveryChains`. Each round removes a delivery, so there are no more rounds than
deliveries that may go. -/
def pruneRounds (cutoffs : RetentionCutoffs) : Nat → Nat → Queue → Except QueueError Queue
  | 0, _, q => .ok q
  | rounds + 1, remaining, q =>
    if remaining = 0 then .ok q
    else
      let roots := q.expiredDeliveryRoots cutoffs remaining
      if roots.isEmpty then .ok q
      else do
        let q ← roots.foldlM pruneDeliveryRoot q
        pruneRounds cutoffs rounds (remaining - roots.length) q

/-- `pruneDeliveryChains`. -/
def pruneDeliveryChains (cutoffs : RetentionCutoffs) : Except QueueError Queue :=
  pruneRounds cutoffs maximumPrunedDeliveries maximumPrunedDeliveries q

/-- The messages that `Prune` deletes: without deliveries, not the message of a failure that is still
there, and routed or past their time. -/
def expiredMessages (now : Int) : List String :=
  let ofFailure (m : Message) : Bool := q.deliveries.any fun source =>
    source.state = .dead && source.completedAt.any fun completed =>
      m.sourceKey = failureKey source.channelID source.errorCode (storedWindow completed)
  let expired (m : Message) : Bool :=
    !(q.deliveries.any (·.messageID = m.id)) && !ofFailure m && (m.routed || m.retainUntil < now)
  (((q.messages.filter expired).insertionSort (·.createdAt ≤ ·.createdAt)).take 128).map (·.id)

/-- `Prune`. -/
def prune (now : Int) : Except QueueError Queue := do
  let cutoffs : RetentionCutoffs :=
    ⟨unixMilli (now - q.settings.successRetentionDays * day),
      unixMilli (now - q.settings.deadRetentionDays * day)⟩
  let q ← q.pruneDeliveryChains cutoffs
  let gone := q.expiredMessages (unixMilli now)
  .ok { q with messages := q.messages.filter fun m => !gone.contains m.id }

end Queue

/-! ## Steps -/

/-- One transaction of the queue, with its inputs. -/
inductive QueueEvent where
  | enqueue (request : Request) (clock : Nat → Int)
  | enqueueBatch (requests : List Request) (clock : Nat → Nat → Int)
  | testChannel (id sourceKey : String) (clock : Nat → Int)
  | reconcileFailures (clock : Nat → Nat → Int)
  | claim (workerID : String) (clock : ClaimClock)
  | complete (lease : DeliveryLease) (result : SendResult) (clock : CompleteClock)
      (jitter : Option Nat)
  | cancelDelivery (id : String) (now : Int)
  | retryDelivery (id : String) (confirmDuplicate : Bool) (now : Int)
  | setEnabled (id : String) (enabled : Bool)
  | deleteChannel (id : String) (now : Int)
  | reconcileRestore (now : Int)
  | prune (now : Int)
  /-- The other operations on channels and settings, which do not touch the deliveries. -/
  | configure (settings : Settings) (channels : List Channel) (health : List ChannelHealth)

namespace Queue

/-- `claim`: the lease goes to the worker. -/
def claim (q : Queue) (workerID : String) (clock : ClaimClock) : Except QueueError Queue := do
  let (lease, q) ← q.claimTx workerID clock
  .ok { q with issued := q.issued ++ lease.toList }

/-- A transaction that commits. A worker completes a lease that a claim has returned. -/
def next (q : Queue) : QueueEvent → Except QueueError Queue
  | .enqueue request clock => q.enqueue request clock
  | .enqueueBatch requests clock => q.enqueueBatch requests clock
  | .testChannel id sourceKey clock => q.testChannel id sourceKey clock
  | .reconcileFailures clock => q.reconcileFailures clock
  | .claim workerID clock => q.claim workerID clock
  | .complete lease result clock jitter =>
    if lease ∈ q.issued then q.complete lease result clock jitter else .error .invalidRequest
  | .cancelDelivery id now => q.cancelDelivery id now
  | .retryDelivery id confirmDuplicate now => q.retryDelivery id confirmDuplicate now
  | .setEnabled id enabled => q.setEnabled id enabled
  | .deleteChannel id now => q.deleteChannel id now
  | .reconcileRestore now => .ok { q.reconcileRestore now with deferred := q.deferred ++ q.restoreDead now }
  | .prune now => q.prune now
  | .configure settings channels health => .ok { q with settings, channels, health }

end Queue

end Beat.Notification
