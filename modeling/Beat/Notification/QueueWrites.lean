import Beat.Notification.Queue
import Beat.Lib.Leases

/-!
# The transactions of the notification queue as writes on leased items

The tables of deliveries and attempts are a ledger of leased items (`Beat.Lib.Leases`): a delivery is an
item in the lane of its channel, an attempt is a try. All transactions but one are *quiet*: they are a
run of writes without a hold, and the deliveries that they add have ids that were drawn on the way. The
one that is not is the last part of a claim, which is one hold under the next token.

* `settle_write`: the common form of expiry, completion, cancellation and recovery. An update of
  deliveries and the update of their open attempts are one settlement.
* `Settlement`: a transaction that ends or gives back deliveries.
* `Quiet`, `Quiet.trans`; `enqueueTx_exit`, `recoverExpiredTx_quiet`, `complete_quiet`, `prune_quiet` and the others.
* `leaseDelivery_exit`: what a claim does to the delivery that it leases.
-/

namespace Beat.Notification

open List Table Fallible Instant

open Leases (Write Label Stage Item Entry Ledger)

/-- The states in which a delivery ends. -/
inductive Final where
  | succeeded
  | dead
  | cancelled
  deriving DecidableEq

def DeliveryState.stage : DeliveryState → Stage LeaseColumns Final
  | .pending => .waiting
  | .leased lease => .held lease
  | .succeeded => .done .succeeded
  | .dead => .done .dead
  | .cancelled => .done .cancelled

def Delivery.item (d : Delivery) : Item String String LeaseColumns Final :=
  ⟨d.id, d.channelID, d.state.stage, d.attemptCount⟩

def Attempt.entry (a : Attempt) : Entry String := ⟨a.deliveryID, a.number, a.outcome = .inProgress⟩

/-- The deliveries and attempts as a ledger. -/
def Queue.ledger (q : Queue) : Ledger String String LeaseColumns Final :=
  ⟨q.deliveries.map Delivery.item, q.attempts.map Attempt.entry⟩

abbrev Queue.Ok (q : Queue) : Prop := q.ledger.Ok maximumAttempts

/-! ## States and stages -/

namespace DeliveryState

variable {s : DeliveryState}

theorem stage_isHeld : s.stage.IsHeld ↔ s.isLeased = true := by
  cases s <;> simp [stage, isLeased, Stage.IsHeld]

theorem stage_isDone : s.stage.IsDone ↔ s.isActive = false := by
  cases s <;> simp [stage, isActive, Stage.IsDone]

theorem stage_eq_waiting : s.stage = .waiting ↔ s = .pending := by
  cases s <;> simp [stage]

theorem stage_eq_held {lease : LeaseColumns} : s.stage = .held lease ↔ s = .leased lease := by
  cases s <;> simp [stage]

theorem isLeased_iff : s.isLeased = true ↔ ∃ lease, s = .leased lease := by
  cases s <;> simp [isLeased]

theorem stage_injective : Function.Injective stage := by
  intro s t h
  cases s <;> cases t <;> simp_all [stage]

end DeliveryState

variable {d : Delivery} {q : Queue} {now : Int} {p : Delivery → Bool} {f : Delivery → Delivery}
  {pa : Attempt → Bool} {fa : Attempt → Attempt}

theorem Delivery.leased_of_isExpired (h : d.isExpired now = true) :
    ∃ lease, d.state = .leased lease ∧ lease.expiresAt ≤ now := by
  unfold Delivery.isExpired at h
  split at h
  · next lease hs => exact ⟨lease, hs, of_decide_eq_true h⟩
  · cases h

theorem Delivery.leased_of_isCurrent {lease : DeliveryLease} (h : d.isCurrent lease now = true) :
    d.id = lease.id ∧ ∃ held, d.state = .leased held ∧ held.tokenHash = lease.hash ∧ now < held.expiresAt := by
  obtain ⟨hid, h⟩ := Bool.and_eq_true _ _ ▸ h
  refine ⟨of_decide_eq_true hid, ?_⟩
  split at h
  · next held hs =>
    simp only [Bool.and_eq_true, decide_eq_true_eq] at h
    exact ⟨held, hs, h⟩
  · cases h

theorem Queue.mem_items (h : d ∈ q.deliveries) : d.item ∈ q.ledger.items :=
  mem_map_of_mem h

theorem Queue.exists_of_mem_items {x : Item String String LeaseColumns Final} (h : x ∈ q.ledger.items) :
    ∃ d ∈ q.deliveries, d.item = x :=
  mem_map.mp h

/-- The id is the key of the table of deliveries. -/
theorem Queue.eq_of_id (hok : q.Ok) {d' : Delivery} (hd : d ∈ q.deliveries)
    (hd' : d' ∈ q.deliveries) (hid : d.id = d'.id) : d = d' := by
  have hkeyed : Table.Keyed Delivery.id q.deliveries := by
    have := hok.keyed
    unfold Table.Keyed Queue.ledger at this
    rwa [map_map] at this
  exact hkeyed.eq_of_key hd hd' hid

/-- An attempt in progress is the last attempt of a delivery that is leased. -/
theorem Queue.of_inProgress (hok : q.Ok) {a : Attempt} (ha : a ∈ q.attempts)
    (ho : a.outcome = .inProgress) :
    ∃ d ∈ q.deliveries, d.id = a.deliveryID ∧ d.state.isLeased = true ∧ a.number = d.attemptCount := by
  have hentry : a.entry ∈ q.ledger.entries := mem_map_of_mem ha
  obtain ⟨x, hx, hid, hheld, hn⟩ := hok.of_open hentry (decide_eq_true ho)
  obtain ⟨d, hd, rfl⟩ := Queue.exists_of_mem_items hx
  exact ⟨d, hd, hid, DeliveryState.stage_isHeld.mp hheld, hn⟩

theorem updateOne_eq_ok {α : Type} {rows rows' : List α} {p : α → Bool} {f : α → α} {err : QueueError}
    (h : updateOne rows p f err = .ok rows') : rows' = update rows p f ∧ ∃ r ∈ rows, p r = true := by
  unfold updateOne at h
  split at h
  · next hc =>
    cases h
    exact ⟨rfl, countP_pos_iff.mp (by omega)⟩
  · cases h

/-! ## Settlements -/

/-- What an update of deliveries may do: it ends or gives back deliveries that are active. -/
structure Settles (q : Queue) (p : Delivery → Bool) (f : Delivery → Delivery) : Prop where
  active : ∀ d ∈ q.deliveries, p d = true → d.state.isActive = true
  id : ∀ d, (f d).id = d.id
  channelID : ∀ d, (f d).channelID = d.channelID
  attemptCount : ∀ d, (f d).attemptCount = d.attemptCount
  released : ∀ d ∈ q.deliveries, p d = true → (f d).state.isLeased = false
  pending : ∀ d ∈ q.deliveries, p d = true → (f d).state = .pending → d.attemptCount < maximumAttempts

/-- What the update of the attempts may do: it closes those of the deliveries that are settled, and
leaves none of them open. -/
structure Closes (q : Queue) (p : Delivery → Bool) (pa : Attempt → Bool) (fa : Attempt → Attempt) :
    Prop where
  of_settled : ∀ a ∈ q.attempts, pa a = true → ∃ d ∈ q.deliveries, p d = true ∧ d.id = a.deliveryID
  all : ∀ a ∈ q.attempts, a.outcome = .inProgress → ∀ d ∈ q.deliveries, p d = true →
    d.id = a.deliveryID → pa a = true
  deliveryID : ∀ a, (fa a).deliveryID = a.deliveryID
  number : ∀ a, (fa a).number = a.number
  closed : ∀ a, (fa a).outcome ≠ .inProgress

theorem settle_write (hok : q.Ok) (hs : Settles q p f) (hc : Closes q p pa fa) :
    Write maximumAttempts q.ledger .settle
      ⟨(update q.deliveries p f).map Delivery.item, (update q.attempts pa fa).map Attempt.entry⟩ := by
  let next (id : String) : Option (Stage LeaseColumns Final) :=
    (q.deliveries.find? fun d => d.id = id && p d).map fun d => (f d).state.stage
  have hsome : ∀ d ∈ q.deliveries, p d = true → next d.id = some (f d).state.stage := by
    intro d hd hp
    have hfind : q.deliveries.find? (fun r => r.id = d.id && p r) = some d := by
      refine find?_eq_some_of_unique hd (by simp [hp]) fun r hr h => ?_
      simp only [Bool.and_eq_true, decide_eq_true_eq] at h
      exact Queue.eq_of_id hok hr hd h.1
    simp only [next, hfind, Option.map_some]
  have hnone : ∀ id, (∀ d ∈ q.deliveries, d.id = id → p d = false) → next id = none := by
    intro id h
    simp only [next, Option.map_eq_none_iff, find?_eq_none]
    intro d hd hmatch
    simp only [Bool.and_eq_true, decide_eq_true_eq] at hmatch
    rw [h d hd hmatch.1] at hmatch
    exact Bool.false_ne_true hmatch.2
  have hitems : (update q.deliveries p f).map Delivery.item =
      (q.ledger.settle next).items := by
    simp only [Ledger.settle, Queue.ledger, update, map_map]
    refine map_congr_left fun d hd => ?_
    by_cases hp : p d = true
    · simp [Delivery.item, hp, hs.id, hs.channelID, hs.attemptCount, hsome d hd hp]
    · have hfalse : ∀ r ∈ q.deliveries, r.id = d.id → p r = false := by
        intro r hr hid
        rw [Queue.eq_of_id hok hr hd hid]
        exact Bool.eq_false_iff.mpr hp
      simp [Delivery.item, hp, hnone d.id hfalse]
  have hentries : (update q.attempts pa fa).map Attempt.entry =
      (q.ledger.settle next).entries := by
    simp only [Ledger.settle, Queue.ledger, update, map_map]
    refine map_congr_left fun a ha => ?_
    by_cases hp : pa a = true
    · obtain ⟨d, hd, hpd, hid⟩ := hc.of_settled a ha hp
      have hn : next a.deliveryID = some (f d).state.stage := hid ▸ hsome d hd hpd
      simp [Attempt.entry, hp, hc.deliveryID, hc.number, hc.closed, hn]
    · by_cases ho : a.outcome = .inProgress
      · have hfalse : ∀ d ∈ q.deliveries, d.id = a.deliveryID → p d = false := by
          intro d hd hid
          exact Bool.eq_false_iff.mpr fun hpd => hp (hc.all a ha ho d hd hpd hid)
        simp [Attempt.entry, hp, hnone a.deliveryID hfalse]
      · simp [Attempt.entry, hp, ho]
  rw [hitems, hentries]
  refine .settle fun x hx s hnx => ?_
  obtain ⟨d, hd, rfl⟩ := Queue.exists_of_mem_items hx
  have hp : p d = true := by
    by_contra hp
    have hfalse : ∀ r ∈ q.deliveries, r.id = d.id → p r = false := by
      intro r hr hid
      rw [Queue.eq_of_id hok hr hd hid]
      exact Bool.eq_false_iff.mpr hp
    rw [show next d.item.id = none from hnone d.id hfalse] at hnx
    cases hnx
  rw [show next d.item.id = some (f d).state.stage from hsome d hd hp] at hnx
  cases hnx
  refine ⟨fun hdone => ?_, fun hheld => ?_, fun hw => ?_⟩
  · have := DeliveryState.stage_isDone.mp hdone
    rw [hs.active d hd hp] at this
    cases this
  · have := DeliveryState.stage_isHeld.mp hheld
    rw [hs.released d hd hp] at this
    cases this
  · exact hs.pending d hd hp (DeliveryState.stage_eq_waiting.mp hw)

/-! ## Quiet transactions -/

/-- The ledger changes by writes without a hold; the new deliveries have ids that were drawn. -/
structure Quiet (q q' : Queue) : Prop where
  run : ∃ ws, Lts.Run (Write maximumAttempts) q.ledger ws q'.ledger ∧
    (∀ id lease, .hold id lease ∉ ws) ∧ ∃ drawn, q.ids = drawn ++ q'.ids ∧ ∀ id, .add id ∈ ws → id ∈ drawn
  tokens : q'.tokens = q.tokens
  issued : q'.issued = q.issued

namespace Quiet

variable {q q₁ q₂ q' : Queue}

theorem trans (h : Quiet q q₁) (h' : Quiet q₁ q₂) : Quiet q q₂ := by
  obtain ⟨ws, hr, hhold, drawn, hids, hadd⟩ := h.run
  obtain ⟨ws', hr', hhold', drawn', hids', hadd'⟩ := h'.run
  refine ⟨⟨ws ++ ws', hr.append hr', fun id lease hm => ?_, drawn ++ drawn', ?_, fun id hm => ?_⟩,
    h'.tokens.trans h.tokens, h'.issued.trans h.issued⟩
  · exact (mem_append.mp hm).elim (hhold id lease) (hhold' id lease)
  · rw [hids, hids', append_assoc]
  · exact mem_append.mpr ((mem_append.mp hm).imp (hadd id) (hadd' id))

/-- The ledger is not touched. -/
theorem of_ledger (hl : q'.ledger = q.ledger) (drawn : List String) (hids : q.ids = drawn ++ q'.ids)
    (ht : q'.tokens = q.tokens) (hi : q'.issued = q.issued) : Quiet q q' :=
  ⟨⟨[], by rw [hl]; exact .nil, fun _ _ h => (nomatch h), drawn, hids, fun _ h => (nomatch h)⟩, ht, hi⟩

theorem refl (q : Queue) : Quiet q q := of_ledger rfl [] rfl rfl rfl

theorem of_write {w : Label String LeaseColumns} (hw : Write maximumAttempts q.ledger w q'.ledger)
    (hhold : ∀ id lease, w ≠ .hold id lease) (drawn : List String) (hids : q.ids = drawn ++ q'.ids)
    (hadd : ∀ id, w = .add id → id ∈ drawn) (ht : q'.tokens = q.tokens) (hi : q'.issued = q.issued) :
    Quiet q q' := by
  refine ⟨⟨[w], .cons hw .nil, fun id lease hm => ?_, drawn, hids, fun id hm => ?_⟩, ht, hi⟩
  · exact hhold id lease (mem_singleton.mp hm).symm
  · exact hadd id (mem_singleton.mp hm).symm

/-- Quiet writes keep the invariant of the ledger. -/
theorem ok (h : Quiet q q') (hok : q.Ok) : q'.Ok := by
  obtain ⟨ws, hr, -⟩ := h.run
  exact hok.run (by decide) hr

/-- A quiet transaction leaves the lease of a delivery and its attempt, or ends the lease. -/
theorem lease_stays (h : Quiet q q') (hok : q.Ok) {id : String}
    {Q : LeaseColumns → Nat → Prop}
    (h0 : ∀ d ∈ q.deliveries, d.id = id → ∀ lease, d.state = .leased lease → Q lease d.attemptCount) :
    ∀ d ∈ q'.deliveries, d.id = id → ∀ lease, d.state = .leased lease → Q lease d.attemptCount := by
  obtain ⟨ws, hr, hhold, -⟩ := h.run
  have hitems := Leases.held_stays id (Q := Q) hok (by decide) hr
    (fun x hx hid lease hheld => by
      obtain ⟨d, hd, rfl⟩ := Queue.exists_of_mem_items hx
      exact h0 d hd hid lease (DeliveryState.stage_eq_held.mp hheld))
    fun lease n hm => absurd hm (hhold id lease)
  intro d hd hid lease hleased
  exact hitems d.item (Queue.mem_items hd) hid lease (DeliveryState.stage_eq_held.mpr hleased)

end Quiet

/-- A transaction that settles the deliveries `p` by `f`, and their attempts with them. -/
structure Settlement (q : Queue) (p : Delivery → Bool) (f : Delivery → Delivery) (q' : Queue) : Prop where
  closes : ∃ pa fa, Closes q p pa fa ∧ q' = { q with
    health := q'.health, deliveries := update q.deliveries p f, attempts := update q.attempts pa fa }
  settles : Settles q p f
  messageID : ∀ d, (f d).messageID = d.messageID

theorem Settlement.quiet {q' : Queue} (h : Settlement q p f q') (hok : q.Ok) : Quiet q q' := by
  obtain ⟨pa, fa, hc, hq'⟩ := h.closes
  rw [hq']
  exact .of_write (w := .settle) (settle_write hok h.settles hc) (fun _ _ h => nomatch h) [] rfl
    (fun _ h => nomatch h) rfl rfl

namespace Queue

variable {q q' : Queue}

/-! ## Enqueue -/

variable {id errorCode channelID : String} {now reading : Int} {clock : Nat → Int} {lease : DeliveryLease}
  {jitter : Option Nat} {result : SendResult} {root : String × Option String} {deliveryID workerID : String}
  {failure : Nat → Nat → Int} {eventKind : EventKind} {state : DeliveryState} {cutoffs : RetentionCutoffs}

theorem newID_exit (h : q.newID = .ok (id, q')) : q.ids = id :: q'.ids ∧ q' = { q with ids := q'.ids } := by
  unfold newID at h
  split at h
  · cases h
  rename_i ids hids
  cases h
  exact ⟨hids, rfl⟩

theorem insertDelivery_exit {messageID : String} {channel : SelectedChannel} {retryOf : Option String}
    (h : q.insertDelivery messageID channel retryOf now = .ok q') : Quiet q q' ∧
      ∃ d, q' = { q with ids := q'.ids, deliveries := q.deliveries ++ [d] } ∧ d.state = .pending ∧
        d.messageID = messageID ∧ q.ids = d.id :: q'.ids := by
  obtain ⟨⟨id, q₁⟩, hnew, h⟩ := bind_eq_ok h
  obtain ⟨hids, hq₁⟩ := newID_exit hnew
  dsimp only at h
  split at h
  · cases h
  rename_i hany
  cases h
  have hfresh := any_false (Bool.eq_false_iff.mpr hany)
  rw [hq₁] at hfresh ⊢
  refine ⟨Quiet.of_write (w := .add id) ?_ (fun _ _ h => nomatch h) [id] hids (fun i hi => ?_) rfl rfl,
    _, rfl, rfl, rfl, hids⟩
  · let x : Item String String LeaseColumns Final := ⟨id, channel.id, .waiting, 0⟩
    have hw : Write maximumAttempts q.ledger (.add x.id) (q.ledger.add x) := by
      refine .add (fun y hy => ?_) rfl rfl
      obtain ⟨d, hd, rfl⟩ := exists_of_mem_items hy
      exact of_decide_eq_false (hfresh d hd)
    simpa [x, Ledger.add, ledger, map_append, Delivery.item, DeliveryState.stage] using hw
  · cases hi
    exact mem_singleton_self id

/-- What `enqueueTx` adds: a message with a new key, and pending deliveries of it. -/
structure Enqueued (q : Queue) (key : String) (q' : Queue) (m : Message) (new : List Delivery) : Prop where
  messages : q'.messages = q.messages ++ [m]
  key : m.sourceKey = key
  fresh : ∀ x ∈ q.messages, x.id ≠ m.id ∧ x.sourceKey ≠ m.sourceKey
  deliveries : q'.deliveries = q.deliveries ++ new
  pending : ∀ d ∈ new, d.state = .pending ∧ d.messageID = m.id ∧ d.id ∈ q.ids
  issued : q'.issued = q.issued
  deferred : q'.deferred = q.deferred
  ids : q'.ids <:+ q.ids

theorem enqueueTx_exit {input : EnqueueInput} (h : q.enqueueTx input clock = .ok q') :
    Quiet q q' ∧ ∃ m new, Enqueued q input.request.sourceKey q' m new := by
  obtain ⟨channels, -, h⟩ := bind_eq_ok h
  obtain ⟨-, -, h⟩ := bind_eq_ok h
  obtain ⟨⟨id, q₁⟩, hnew, h⟩ := bind_eq_ok h
  obtain ⟨hids, hq₁⟩ := newID_exit hnew
  dsimp only at h
  split at h
  · cases h
  rename_i hany
  have hfresh := any_false (Bool.eq_false_iff.mpr hany)
  have hmessages : q₁.messages = q.messages := by rw [hq₁]
  have hsuffix : q₁.ids <:+ q.ids := ⟨[id], hids.symm⟩
  generalize hm : ({ id, sourceKey := input.request.sourceKey, eventKind := _, routed := _, createdAt := _,
                     retainUntil := _ } : Message) = m at h
  have hquiet : Quiet q { q₁ with messages := q₁.messages ++ [m] } := by
    rw [hq₁]
    exact Quiet.of_ledger rfl [id] hids rfl rfl
  -- the loop appends pending deliveries of the message
  have hloop := foldlM_inv (I := fun b => Quiet q b ∧ ∃ new,
    b = { q₁ with messages := q₁.messages ++ [m], ids := b.ids, deliveries := q₁.deliveries ++ new } ∧
      (∀ d ∈ new, d.state = .pending ∧ d.messageID = m.id ∧ d.id ∈ q.ids) ∧ b.ids <:+ q.ids) h
    ⟨hquiet, [], by simp, fun _ hd => (nomatch hd), hsuffix⟩ ?_
  · obtain ⟨hquiet, new, hq', hpending, hids'⟩ := hloop
    refine ⟨hquiet, m, new, ?_, ?_, fun x hx => ?_, ?_, hpending, ?_, ?_, hids'⟩
    · rw [hq', hmessages]
    · rw [← hm]
    · rw [← hmessages] at hx
      have := hfresh x hx
      simp only [Bool.or_eq_false_iff, decide_eq_false_iff_not] at this
      rw [← hm]
      exact this
    · rw [hq', hq₁]
    · rw [hq', hq₁]
    · rw [hq', hq₁]
  · rintro x - b c ⟨hquiet, new, hb, hpending, hids'⟩ hstep
    obtain ⟨hinsert, d, hc, hstate, hmid, hcids⟩ := insertDelivery_exit hstep
    refine ⟨hquiet.trans hinsert, new ++ [d], ?_, fun r hr => ?_, ?_⟩
    · rw [hc, hb]
      simp
    · obtain hr | hr := Table.mem_snoc.mp hr
      · exact hpending r hr
      · rw [hr]
        refine ⟨hstate, hmid.trans (by rw [← hm]), hids'.subset ?_⟩
        rw [hcids]
        exact mem_cons_self
    · exact (suffix_cons d.id c.ids).trans (hcids ▸ hids')

theorem enqueue_quiet {request : Request} (h : q.enqueue request clock = .ok q') : Quiet q q' := by
  unfold enqueue at h
  split at h
  · cases h
    exact Quiet.refl q
  · exact (enqueueTx_exit h).1

theorem enqueueBatch_quiet {requests : List Request} {clock : Nat → Nat → Int}
    (h : q.enqueueBatch requests clock = .ok q') : Quiet q q' := by
  unfold enqueueBatch at h
  dsimp only at h
  split_ifs at h with hall hsome
  · cases h
    exact Quiet.refl q
  · obtain ⟨-, -, h⟩ := bind_eq_ok h
    exact foldlM_inv (I := Quiet q) h (Quiet.refl q) fun _ _ b c hb hstep =>
      hb.trans (enqueueTx_exit hstep).1

theorem testChannel_quiet {sourceKey : String} (h : q.testChannel id sourceKey clock = .ok q') :
    Quiet q q' := by
  unfold testChannel at h
  split at h
  · cases h
    exact Quiet.refl q
  · obtain ⟨channel, -, h⟩ := bind_eq_ok h
    exact (enqueueTx_exit h).1

/-! ## Failure messages -/

theorem failureMessage_quiet {observedAt : Int}
    (h : q.failureMessage channelID errorCode observedAt clock = .ok q') : Quiet q q' := by
  unfold failureMessage at h
  dsimp only at h
  split at h
  · cases h
    exact Quiet.refl q
  · exact (enqueueTx_exit h).1

/-- The message is there, or the queue is full and it is put off. -/
theorem deferCapacityFailure_exit (h : q.deferCapacityFailure deliveryID channelID errorCode clock = .ok q') :
    q.failureMessage channelID errorCode zero clock = .ok q' ∨
      q' = { q with deferred := q.deferred ++ [deliveryID] } := by
  unfold deferCapacityFailure at h
  split at h
  · cases h
    exact .inr rfl
  · exact .inl h

theorem deferCapacityFailure_quiet (h : q.deferCapacityFailure deliveryID channelID errorCode clock = .ok q') :
    Quiet q q' := by
  obtain h | rfl := deferCapacityFailure_exit h
  · exact failureMessage_quiet h
  · exact Quiet.of_ledger rfl [] rfl rfl rfl

theorem reconcileAll_quiet {clock : Nat → Nat → Int} {missing : List ((String × String × Int) × Nat)}
    (h : reconcileAll clock missing q = .ok q') : Quiet q q' := by
  induction missing generalizing q with
  | nil =>
    cases h
    exact Quiet.refl _
  | cons m rest ih =>
    obtain ⟨⟨channelID, errorCode, completed⟩, i⟩ := m
    unfold reconcileAll at h
    split at h
    · cases h
      exact Quiet.refl _
    · cases h
    · next q₁ hm => exact (failureMessage_quiet hm).trans (ih h)

/-! ## Recovery and claim -/

/-- A delivery that is read as expired. -/
theorem mem_expiredLeases {lease : ExpiredLease} (h : lease ∈ q.expiredLeases now) :
    ∃ d ∈ q.deliveries, d.id = lease.id ∧ d.attemptCount = lease.attempt ∧ d.channelID = lease.channelID ∧
      d.isExpired now = true ∧ ∃ m, q.message? d.messageID = some m ∧ m.eventKind = lease.eventKind := by
  have h := (mem_insertionSort _).mp (mem_of_mem_take h)
  obtain ⟨d, hd, hm⟩ := mem_filterMap.mp h
  split at hm
  · next held m hstate hmessage =>
    split at hm
    · next hexp =>
      cases hm
      refine ⟨d, hd, rfl, rfl, rfl, ?_, m, hmessage, rfl⟩
      unfold Delivery.isExpired
      rw [hstate]
      exact decide_eq_true hexp
    · cases hm
  · cases hm

/-- The row of a delivery after the expiry of its lease. -/
def expired (lease : ExpiredLease) (now : Int) (d : Delivery) : Delivery :=
  let last := maximumAttempts ≤ lease.attempt
  { d with
    state := if last then .dead else .pending
    nextAttemptAt := now, completedAt := if last then some now else none
    errorCode := "lease_expired" }

/-- `expireOneLease` settles the delivery of the lease. -/
def Expires (lease : ExpiredLease) (now : Int) (q q' : Queue) : Prop :=
  Settlement q (fun d => d.id = lease.id && d.isExpired now) (expired lease now) q' ∧
    ∃ d ∈ q.deliveries, d.id = lease.id ∧ d.isExpired now = true

/-- `expireOneLease` of a lease with the attempt that the delivery has. -/
theorem expireOneLease_exit (hok : q.Ok) {lease : ExpiredLease}
    (hattempt : ∀ d ∈ q.deliveries, d.id = lease.id → ∀ held, d.state = .leased held →
      d.attemptCount = lease.attempt) (h : q.expireOneLease lease now = .ok q') : Expires lease now q q' := by
  unfold expireOneLease at h
  obtain ⟨deliveries, hd, h⟩ := bind_eq_ok h
  obtain ⟨rfl, row, hrow, hmatch⟩ := updateOne_eq_ok hd
  cases h
  simp only [Bool.and_eq_true, decide_eq_true_eq] at hmatch
  refine ⟨⟨⟨_, _, ?_, rfl⟩, ?_, fun _ => rfl⟩, row, hrow, hmatch⟩
  · refine ⟨fun a ha hpa => ?_, fun a ha ho d hd hp hid => ?_, fun _ => rfl, fun _ => rfl,
      fun _ h => nomatch h⟩
    · simp only [Bool.and_eq_true, decide_eq_true_eq] at hpa
      exact ⟨row, hrow, by simpa using hmatch, hmatch.1.trans hpa.1.1.symm⟩
    · simp only [Bool.and_eq_true, decide_eq_true_eq] at hp ⊢
      obtain ⟨d', hd', hid', hleased, hn⟩ := of_inProgress hok ha ho
      obtain ⟨held, hheld⟩ := DeliveryState.isLeased_iff.mp hleased
      have := hattempt d' hd' (hid'.trans (hid.symm.trans hp.1)) held hheld
      exact ⟨⟨hid.symm.trans hp.1, hn.trans this⟩, ho⟩
  · refine ⟨fun d _ hp => ?_, fun _ => rfl, fun _ => rfl, fun _ => rfl, fun d _ _ => ?_,
      fun d hd hp hpending => ?_⟩
    · simp only [Bool.and_eq_true, decide_eq_true_eq] at hp
      obtain ⟨held, hheld, -⟩ := Delivery.leased_of_isExpired hp.2
      rw [hheld]
      rfl
    · dsimp only [expired]
      split <;> rfl
    · simp only [Bool.and_eq_true, decide_eq_true_eq] at hp
      obtain ⟨held, hheld, -⟩ := Delivery.leased_of_isExpired hp.2
      rw [hattempt d hd hp.1 held hheld]
      by_contra hlast
      dsimp only [expired] at hpending
      rw [if_pos (by omega)] at hpending
      cases hpending

/-- The expired leases are settled one after the other; what is left of them keeps its attempt. An
invariant of the single recoveries holds at the end. -/
theorem recoverExpiredTx_inv (hok : q.Ok) {I : Queue → Prop} (h0 : I q)
    (hstep : ∀ lease ∈ q.expiredLeases (unixMilli reading), ∀ i b b₁ c, I b → b₁.Ok →
      Expires lease (unixMilli reading) b b₁ →
      (if maximumAttempts ≤ lease.attempt ∧ lease.eventKind ≠ .notificationDeliveryFailed then
        b₁.deferCapacityFailure lease.id lease.channelID "lease_expired" (failure i) else .ok b₁) = .ok c → I c)
    (h : q.recoverExpiredTx reading failure = .ok q') : Quiet q q' ∧ I q' := by
  have hstart : ∀ lease ∈ q.expiredLeases (unixMilli reading), ∀ d ∈ q.deliveries,
      d.id = lease.id → ∀ held, d.state = .leased held → d.attemptCount = lease.attempt := by
    intro lease hl d hd hid _ _
    obtain ⟨d', hd', hid', hattempt, -⟩ := mem_expiredLeases hl
    rw [eq_of_id hok hd hd' (hid.trans hid'.symm)]
    exact hattempt
  refine foldlM_inv (I := fun b => Quiet q b ∧ I b) h ⟨Quiet.refl q, h0⟩ fun x hx b c hb hrest => ?_
  obtain ⟨lease, i⟩ := x
  have hlease : lease ∈ q.expiredLeases (unixMilli reading) := fst_mem_of_mem_zipIdx hx
  obtain ⟨b₁, hexpire, hrest⟩ := bind_eq_ok hrest
  have hexit := expireOneLease_exit (hb.1.ok hok)
    (hb.1.lease_stays hok (Q := fun _ n => n = lease.attempt) (hstart lease hlease)) hexpire
  have hb₁ := hb.1.trans (hexit.1.quiet (hb.1.ok hok))
  refine ⟨?_, hstep lease hlease i b b₁ c hb.2 (hb₁.ok hok) hexit hrest⟩
  split at hrest
  · exact hb₁.trans (deferCapacityFailure_quiet hrest)
  · cases hrest
    exact hb₁

theorem recoverExpiredTx_quiet (hok : q.Ok) (h : q.recoverExpiredTx reading failure = .ok q') :
    Quiet q q' :=
  (recoverExpiredTx_inv (I := fun _ => True) hok trivial (fun _ _ _ _ _ _ _ _ _ _ => trivial) h).1

/-- A delivery that may be leased now. -/
structure Due (q : Queue) (now : Int) (d : Delivery) (eventKind : EventKind) : Prop where
  mem : d ∈ q.deliveries
  message : ∃ m, q.message? d.messageID = some m ∧ m.eventKind = eventKind
  pending : d.state = .pending
  attempt_lt : d.attemptCount < maximumAttempts
  time : d.nextAttemptAt ≤ now
  channel : ∃ c, q.channel? d.channelID = some c ∧ c.deleted = false ∧
    (c.enabled = true ∨ eventKind = .notificationTest)
  free : ∀ active ∈ q.deliveries, active.channelID = d.channelID → active.state.isLeased = false
  first : eventKind = .notificationTest ∨ (q.circuitAllows d now = true ∧ q.hasPrevious d = false)

theorem selectDueLease_spec (h : q.selectDueLease now = some (d, eventKind)) : q.Due now d eventKind := by
  have hmem := (mem_insertionSort _).mp (mem_of_head? h)
  obtain ⟨d', hd', hdue⟩ := mem_filterMap.mp hmem
  unfold due at hdue
  split at hdue
  · next m c hm hc =>
    dsimp only at hdue
    split at hdue
    · next hcond =>
      cases hdue
      obtain ⟨hpending, hlt, htime, hdeleted, henabled, hfree, hfirst⟩ := hcond
      refine ⟨hd', ⟨m, hm, rfl⟩, hpending, hlt, htime, ⟨c, hc, hdeleted, henabled⟩,
        fun active ha hid => ?_, hfirst⟩
      have := any_false hfree active ha
      simpa [hid] using this
    · cases hdue
  · cases hdue

/-- The hold of a claim: the delivery, the lease that is returned and the new tables. -/
theorem leaseDelivery_exit (hok : q.Ok) (hdue : q.Due now d eventKind)
    {lease : Option DeliveryLease} (h : q.leaseDelivery d eventKind workerID reading = .ok (lease, q')) :
    ∃ hash expiresAt,
      lease = some ⟨d.id, d.messageID, d.channelID, eventKind, d.channelRevision, d.attemptCount + 1, hash,
        expiresAt⟩ ∧ q.tokens = hash :: q'.tokens ∧ q' = { q with
        tokens := q'.tokens
        deliveries := update q.deliveries (·.id = d.id) fun r =>
          { r with state := .leased ⟨hash, expiresAt, workerID⟩, attemptCount := d.attemptCount + 1 }
        attempts := q.attempts ++ [⟨d.id, d.attemptCount + 1, .inProgress⟩] } ∧
      Write maximumAttempts q.ledger (.hold d.id ⟨hash, expiresAt, workerID⟩) q'.ledger := by
  unfold leaseDelivery at h
  split at h
  · cases h
  rename_i hash tokens htokens
  obtain ⟨deliveries, hd, h⟩ := bind_eq_ok h
  obtain ⟨hrows, -⟩ := updateOne_eq_ok hd
  -- the conditions of the update hold of the row with the id of `d`, which is `d`
  have hrows : deliveries = update q.deliveries (·.id = d.id) fun r =>
      { r with
        state := .leased ⟨hash, unixMilli (reading + deliveryLeaseLifetime), workerID⟩
        attemptCount := d.attemptCount + 1 } := by
    rw [hrows]
    refine map_congr_left fun r hr => ?_
    by_cases hid : r.id = d.id
    · rw [eq_of_id hok hr hdue.mem hid]
      simp [hdue.pending]
    · simp [hid]
  split at h
  · cases h
  cases h
  refine ⟨hash, _, rfl, htokens, by rw [hrows], ?_⟩
  have hledger : Queue.ledger { q with
      tokens, deliveries, attempts := q.attempts ++ [⟨d.id, d.attemptCount + 1, .inProgress⟩] } =
      q.ledger.hold d.item
        ⟨hash, unixMilli (reading + deliveryLeaseLifetime), workerID⟩ := by
    unfold ledger Ledger.hold
    rw [hrows, map_append]
    congr 1
    refine map_update_comm (fun r _ => rfl) fun r hr hid => ?_
    rw [eq_of_id hok hr hdue.mem (of_decide_eq_true hid)]
    rfl
  rw [hledger]
  refine Write.hold (mem_items hdue.mem) (DeliveryState.stage_eq_waiting.mpr hdue.pending)
    hdue.attempt_lt fun y hy hlane hheld => ?_
  obtain ⟨r, hr, rfl⟩ := exists_of_mem_items hy
  have := hdue.free r hr hlane
  rw [DeliveryState.stage_isHeld.mp hheld] at this
  cases this

/-- A claim recovers, and then leases nothing or the delivery that is due. -/
theorem claimTx_exit {clock : ClaimClock} {lease : Option DeliveryLease}
    (h : q.claimTx workerID clock = .ok (lease, q')) :
    ∃ q₁, q.recoverExpiredTx clock.recover clock.failure = .ok q₁ ∧ ((lease = none ∧ q' = q₁) ∨
        ∃ d eventKind, q₁.Due (unixMilli clock.select) d eventKind ∧
          q₁.leaseDelivery d eventKind workerID clock.lease = .ok (lease, q')) := by
  obtain ⟨q₁, hrecover, h⟩ := bind_eq_ok h
  refine ⟨q₁, hrecover, ?_⟩
  split at h
  · cases h
    exact .inl ⟨rfl, rfl⟩
  · split at h
    · cases h
      exact .inl ⟨rfl, rfl⟩
    · next d eventKind hselect => exact .inr ⟨d, eventKind, selectDueLease_spec hselect, h⟩

/-! ## Completion -/

/-- `updateHealth` changes the health only. -/
theorem updateHealth_eq (lease : DeliveryLease) (result : SendResult) (reading : Int) :
    q.updateHealth lease result reading =
      { q with health := (q.updateHealth lease result reading).health } := by
  unfold updateHealth
  split_ifs <;> rfl

/-- The state that a completion writes is not a lease, and it is `pending` below the last attempt only;
the outcome closes the attempt. -/
theorem completion_exit {outcome : AttemptOutcome} {next : Int}
    (h : completion lease result now jitter = .ok (state, outcome, next)) :
    state.isLeased = false ∧ (state = .pending → lease.attempt < maximumAttempts) ∧
      outcome ≠ .inProgress := by
  unfold completion at h
  split_ifs at h with hsuccess hretryable hlt
  · cases h
    exact ⟨rfl, fun h => (nomatch h), fun h => nomatch h⟩
  · obtain ⟨delay, -, h⟩ := bind_eq_ok h
    cases h
    exact ⟨rfl, fun _ => hlt, fun h => nomatch h⟩
  · cases h
    exact ⟨rfl, fun h => (nomatch h), fun h => nomatch h⟩
  · cases h
    exact ⟨rfl, fun h => (nomatch h), fun h => nomatch h⟩

/-- The lease has the attempt of the delivery that is leased under its token. -/
def AttemptMatches (q : Queue) (lease : DeliveryLease) : Prop :=
  ∀ d ∈ q.deliveries, d.id = lease.id → ∀ held, d.state = .leased held →
    held.tokenHash = lease.hash → d.attemptCount = lease.attempt

/-- `completeTx` writes the state, the error code and the time of the end into the delivery. -/
theorem completeTx_exit (hok : q.Ok) {clock : CompleteClock} (hlease : q.AttemptMatches lease)
    (h : q.completeTx lease result clock jitter = .ok (state, q')) :
    ∃ next, Settlement q (·.isCurrent lease (unixMilli clock.now)) (fun d => { d with
        state, nextAttemptAt := next, completedAt := if state = .pending then none else some (unixMilli clock.now)
        errorCode := result.errorCode }) q' ∧
      ∃ d ∈ q.deliveries, d.isCurrent lease (unixMilli clock.now) = true := by
  obtain ⟨⟨state', outcome, next⟩, hcompletion, h⟩ := bind_eq_ok h
  obtain ⟨hreleased, hpending, houtcome⟩ := completion_exit hcompletion
  obtain ⟨deliveries, hd, h⟩ := bind_eq_ok h
  obtain ⟨rfl, row, hrow, hcurrent⟩ := updateOne_eq_ok hd
  obtain ⟨attempts, ha, h⟩ := bind_eq_ok h
  obtain ⟨rfl, -⟩ := updateOne_eq_ok ha
  cases h
  rw [updateHealth_eq]
  refine ⟨_, ⟨⟨_, _, ?_, rfl⟩, ?_, fun _ => rfl⟩, row, hrow, hcurrent⟩
  · obtain ⟨hid, held, hheld, hhash, -⟩ := Delivery.leased_of_isCurrent hcurrent
    refine ⟨fun a ha hpa => ?_, fun a ha ho d hd hp hida => ?_, fun _ => rfl, fun _ => rfl,
      fun _ => houtcome⟩
    · simp only [Bool.and_eq_true, decide_eq_true_eq] at hpa
      exact ⟨row, hrow, hcurrent, hid.trans hpa.1.1.symm⟩
    · -- the attempt in progress is the last one of the delivery, which is the one of the lease
      obtain ⟨hid', held', hheld', hhash', -⟩ := Delivery.leased_of_isCurrent hp
      obtain ⟨d', hd', hidd', -, hn⟩ := of_inProgress hok ha ho
      rw [eq_of_id hok hd' hd (hidd'.trans hida.symm), hlease d hd hid' held' hheld' hhash'] at hn
      simp only [Bool.and_eq_true, decide_eq_true_eq]
      exact ⟨⟨hida.symm.trans hid', hn⟩, ho⟩
  · refine ⟨fun d _ hp => ?_, fun _ => rfl, fun _ => rfl, fun _ => rfl, fun _ _ _ => hreleased,
      fun d hd hp hstate => ?_⟩
    · obtain ⟨-, held, hheld, -⟩ := Delivery.leased_of_isCurrent hp
      rw [hheld]
      rfl
    · obtain ⟨hid, held, hheld, hhash, -⟩ := Delivery.leased_of_isCurrent hp
      rw [hlease d hd hid held hheld hhash]
      exact hpending hstate

theorem complete_quiet (hok : q.Ok) {clock : CompleteClock}
    (hlease : q.AttemptMatches lease) (h : q.complete lease result clock jitter = .ok q') : Quiet q q' := by
  obtain ⟨⟨state, q₁⟩, htx, h⟩ := bind_eq_ok h
  obtain ⟨next, hs, -⟩ := completeTx_exit hok hlease htx
  have hquiet := hs.quiet hok
  dsimp only at h
  split at h
  · exact hquiet.trans (deferCapacityFailure_quiet h)
  · cases h
    exact hquiet

/-! ## Operations of the operator -/

theorem cancelDelivery_exit (h : q.cancelDelivery id reading = .ok q') :
    ∃ p f, Settlement q p f q' ∧ ∀ d, (f d).state ≠ .dead := by
  unfold cancelDelivery at h
  split at h
  · cases h
  split at h
  · cases h
  obtain ⟨deliveries, hd, h⟩ := bind_eq_ok h
  obtain ⟨rfl, row, hrow, hmatch⟩ := updateOne_eq_ok hd
  cases h
  refine ⟨_, _, ⟨⟨_, _, ?_, rfl⟩, ?_, fun _ => rfl⟩, fun _ h => nomatch h⟩
  · simp only [Bool.and_eq_true, decide_eq_true_eq] at hmatch
    refine ⟨fun a ha hpa => ?_, fun a ha ho d hd hp hid => ?_, fun _ => rfl, fun _ => rfl,
      fun _ h => nomatch h⟩
    · simp only [Bool.and_eq_true, decide_eq_true_eq] at hpa
      exact ⟨row, hrow, by simpa using hmatch, hmatch.1.trans hpa.1.symm⟩
    · simp only [Bool.and_eq_true, decide_eq_true_eq] at hp ⊢
      exact ⟨hid.symm.trans hp.1, ho⟩
  · refine ⟨fun d _ hp => ?_, fun _ => rfl, fun _ => rfl, fun _ => rfl, fun _ _ _ => rfl,
      fun _ _ _ h => nomatch h⟩
    exact (Bool.and_eq_true _ _ ▸ hp).2

theorem retryDelivery_quiet {confirmDuplicate : Bool} (h : q.retryDelivery id confirmDuplicate now = .ok q') :
    Quiet q q' := by
  unfold retryDelivery at h
  split at h
  · cases h
  split at h
  · cases h
  split_ifs at h
  · cases h
    exact Quiet.refl _
  · obtain ⟨selected, -, h⟩ := bind_eq_ok h
    obtain ⟨-, -, h⟩ := bind_eq_ok h
    exact (insertDelivery_exit h).1

/-- Attempts of the deliveries that are chosen by their rows. -/
theorem closes_any (hok : q.Ok) (pl : Delivery → Bool) (fa : Attempt → Attempt)
    (hpl : ∀ d ∈ q.deliveries, pl d = true → p d = true)
    (hp : ∀ d ∈ q.deliveries, p d = true → d.state.isLeased = true → pl d = true)
    (hid : ∀ a, (fa a).deliveryID = a.deliveryID) (hnumber : ∀ a, (fa a).number = a.number)
    (hclosed : ∀ a, (fa a).outcome ≠ .inProgress) :
    Closes q p (fun a => a.outcome = .inProgress && q.deliveries.any fun d => d.id = a.deliveryID && pl d) fa := by
  refine ⟨fun a _ hpa => ?_, fun a ha ho d hd hpd hida => ?_, hid, hnumber, hclosed⟩
  · simp only [Bool.and_eq_true, decide_eq_true_eq, any_eq_true] at hpa
    obtain ⟨-, d, hd, hida, hpld⟩ := hpa
    exact ⟨d, hd, hpl d hd hpld, hida⟩
  · obtain ⟨d', hd', hid', hleased, -⟩ := of_inProgress hok ha ho
    have hd'' := eq_of_id hok hd' hd (hid'.trans hida.symm)
    simp only [Bool.and_eq_true, decide_eq_true_eq, any_eq_true]
    exact ⟨ho, d, hd, hida, hp d hd hpd (hd'' ▸ hleased)⟩

theorem cancelChannelDeliveries_exit (hok : q.Ok) (id : String) (reading : Int) :
    ∃ p f, Settlement q p f (q.cancelChannelDeliveries id reading) ∧ ∀ d, (f d).state ≠ .dead := by
  refine ⟨fun d => d.channelID = id && d.state.isActive,
    fun d => { d with state := .cancelled, completedAt := some (unixMilli reading), errorCode := "channel_deleted" },
    ⟨⟨_, _, closes_any hok (fun d => d.channelID = id && d.state.isLeased)
      (fun a => { a with outcome := .cancelled }) ?_ ?_ (fun _ => rfl) (fun _ => rfl) fun _ h => (by cases h), ?_⟩,
      ⟨fun d _ hp => (Bool.and_eq_true _ _ ▸ hp).2, fun _ => rfl, fun _ => rfl, fun _ => rfl, fun _ _ _ => rfl,
        fun _ _ _ h => (by cases h)⟩, fun _ => rfl⟩, fun _ h => (by cases h)⟩
  · intro d _ h
    simp only [Bool.and_eq_true, decide_eq_true_eq] at h ⊢
    obtain ⟨held, hheld⟩ := DeliveryState.isLeased_iff.mp h.2
    exact ⟨h.1, by rw [hheld]; rfl⟩
  · intro d _ h hleased
    simp only [Bool.and_eq_true, decide_eq_true_eq] at h ⊢
    exact ⟨h.1, hleased⟩
  · simp only [cancelChannelDeliveries, Bool.and_assoc]

theorem changeChannelState_exit {f : Channel → Channel} (h : q.changeChannelState id f = .ok q') :
    ∃ channels, q' = { q with channels } := by
  unfold changeChannelState at h
  split at h
  · cases h
  obtain ⟨channels, -, h⟩ := bind_eq_ok h
  cases h
  exact ⟨channels, rfl⟩

theorem changeChannelState_quiet {f : Channel → Channel} (h : q.changeChannelState id f = .ok q') :
    Quiet q q' := by
  obtain ⟨channels, rfl⟩ := changeChannelState_exit h
  exact Quiet.of_ledger rfl [] rfl rfl rfl

theorem deleteChannel_quiet (hok : q.Ok) (h : q.deleteChannel id reading = .ok q') :
    Quiet q q' := by
  obtain ⟨q₁, hchange, h⟩ := bind_eq_ok h
  cases h
  have hquiet := changeChannelState_quiet hchange
  obtain ⟨p, f, hs, -⟩ := cancelChannelDeliveries_exit (hquiet.ok hok) id reading
  exact hquiet.trans (hs.quiet (hquiet.ok hok))

/-! ## Restore and retention -/

theorem reconcileRestore_exit (hok : q.Ok) (reading : Int) :
    ∃ p f, Settlement q p f (q.reconcileRestore reading) ∧ ∀ d ∈ q.deliveries, p d = true → (f d).state = .dead →
      (f d).completedAt = some (unixMilli reading) ∧ (f d).id ∈ q.restoreDead reading := by
  refine ⟨_, _, ⟨⟨_, _, closes_any hok (·.isExpired (unixMilli reading))
    (fun a => { a with outcome := .leaseExpired }) (fun _ _ h => h) (fun _ _ h _ => h)
    (fun _ => rfl) (fun _ => rfl) fun _ h => (by cases h), rfl⟩, ?_, fun _ => rfl⟩, fun d hd hp hdead => ?_⟩
  · refine ⟨fun d _ hp => ?_, fun _ => rfl, fun _ => rfl, fun _ => rfl, fun d _ _ => ?_,
      fun d _ _ hpending => ?_⟩
    · obtain ⟨held, hheld, -⟩ := Delivery.leased_of_isExpired hp
      rw [hheld]
      rfl
    · dsimp only
      split <;> rfl
    · by_contra hlast
      rw [if_pos (by omega)] at hpending
      cases hpending
  · have hlast : maximumAttempts ≤ d.attemptCount := by
      by_contra hlast
      rw [if_neg hlast] at hdead
      cases hdead
    exact ⟨if_pos hlast, mem_map.mpr ⟨d, mem_filter.mpr ⟨hd, by simp [hp, hlast]⟩, rfl⟩⟩

/-- Only deliveries that are final are roots to remove. -/
theorem mem_expiredDeliveryRoots {limit : Nat} (h : root ∈ q.expiredDeliveryRoots cutoffs limit) :
    ∃ d ∈ q.deliveries, d.id = root.1 ∧ d.state.isActive = false := by
  obtain ⟨d, hd, rfl⟩ := mem_map.mp h
  have hd := (mem_insertionSort _).mp (mem_of_mem_take hd)
  obtain ⟨hd, hroot⟩ := mem_filter.mp hd
  refine ⟨d, hd, rfl, ?_⟩
  obtain ⟨-, hroot⟩ := Bool.and_eq_true _ _ ▸ hroot
  split at hroot
  · cases hroot
  · simp only [Bool.or_eq_true, Bool.and_eq_true, decide_eq_true_eq] at hroot
    obtain ⟨h | h, -⟩ | ⟨h, -⟩ := hroot <;> rw [h] <;> rfl

/-- What a transaction that removes deliveries leaves of the tables. -/
structure Thins (q q' : Queue) : Prop where
  quiet : Quiet q q'
  rows : ∀ d' ∈ q'.deliveries, ∃ d ∈ q.deliveries, d' = { d with retryOf := d'.retryOf }
  rest : q' = { q with deliveries := q'.deliveries, attempts := q'.attempts }

theorem Thins.refl (q : Queue) : Thins q q := ⟨Quiet.refl q, fun d hd => ⟨d, hd, rfl⟩, rfl⟩

theorem Thins.trans {q₁ : Queue} (h : Thins q q₁) (h' : Thins q₁ q') : Thins q q' := by
  refine ⟨h.quiet.trans h'.quiet, fun d' hd' => ?_, ?_⟩
  · obtain ⟨d₁, hd₁, he₁⟩ := h'.rows d' hd'
    obtain ⟨d, hd, he⟩ := h.rows d₁ hd₁
    refine ⟨d, hd, ?_⟩
    rw [he₁, he]
  · rw [h'.rest, h.rest]

/-- A delivery that is final is removed, with its attempts; a link to it is cut. -/
theorem pruneDeliveryRoot_thins (hok : q.Ok)
    (hfinal : ∀ d ∈ q.deliveries, d.id = root.1 → d.state.isActive = false)
    (h : q.pruneDeliveryRoot root = .ok q') : Thins q q' := by
  unfold pruneDeliveryRoot at h
  dsimp only at h
  split at h
  · cases h
  rename_i hone
  rw [not_not] at hone
  obtain ⟨d₀, hd₀, hroot₀⟩ := countP_pos_iff.mp (show 0 < q.deliveries.countP _ by rw [hone]; decide)
  simp only [Bool.and_eq_true, decide_eq_true_eq] at hroot₀
  -- the id alone names the row
  have hrows : q.deliveries.filter (fun d => !(d.id = root.1 && d.retryOf = none)) =
      q.deliveries.filter (fun d => d.id ≠ root.1) := by
    refine filter_congr fun d hd => ?_
    by_cases hid : d.id = root.1
    · rw [eq_of_id hok hd hd₀ (hid.trans hroot₀.1.symm)]
      simp [hroot₀]
    · simp [hid]
  let q₁ : Queue := { q with
    deliveries := q.deliveries.filter fun d => !(d.id = root.1 && d.retryOf = none)
    attempts := q.attempts.filter fun a => a.deliveryID ≠ root.1 }
  have hremove : Thins q q₁ := by
    refine ⟨.of_write (w := .remove root.1) ?_ (fun _ _ h => nomatch h) [] rfl
      (fun _ h => nomatch h) rfl rfl, fun d hd => ⟨d, (mem_filter.mp hd).1, rfl⟩, rfl⟩
    have hledger : q₁.ledger = q.ledger.remove root.1 := by
      simp only [q₁, ledger, Ledger.remove, hrows, filter_map]
      rfl
    rw [hledger]
    refine .remove fun x hx hid => ?_
    obtain ⟨d, hd, rfl⟩ := exists_of_mem_items hx
    exact DeliveryState.stage_isDone.mpr (hfinal d hd hid)
  split at h
  · cases h
    exact hremove
  · obtain ⟨deliveries, hd, h⟩ := bind_eq_ok h
    obtain ⟨rfl, -⟩ := updateOne_eq_ok hd
    cases h
    refine hremove.trans ⟨.of_ledger ?_ [] rfl rfl rfl, fun d' hd' => ?_, rfl⟩
    · unfold ledger
      congr 1
      exact map_update fun _ _ _ => rfl
    · obtain ⟨d, hd, rfl⟩ := mem_update.mp hd'
      refine ⟨d, hd, ?_⟩
      split <;> rfl

theorem pruneRoots_thins (hok : q.Ok) {roots : List (String × Option String)}
    (hfinal : ∀ root ∈ roots, ∀ d ∈ q.deliveries, d.id = root.1 → d.state.isActive = false)
    (h : roots.foldlM pruneDeliveryRoot q = .ok q') : Thins q q' := by
  refine foldlM_inv (I := Thins q) h (Thins.refl q) fun root hroot b c hb hstep => ?_
  refine hb.trans (pruneDeliveryRoot_thins (hb.quiet.ok hok) (fun d hd hid => ?_) hstep)
  obtain ⟨d₀, hd₀, he⟩ := hb.rows d hd
  rw [he] at hid ⊢
  exact hfinal root hroot d₀ hd₀ hid

theorem pruneRounds_thins (hok : q.Ok) {rounds remaining : Nat}
    (h : pruneRounds cutoffs rounds remaining q = .ok q') : Thins q q' := by
  induction rounds generalizing q remaining with
  | zero =>
    cases h
    exact Thins.refl _
  | succ rounds ih =>
    unfold pruneRounds at h
    dsimp only at h
    split_ifs at h
    · cases h
      exact Thins.refl _
    · cases h
      exact Thins.refl _
    · obtain ⟨q₁, hroots, h⟩ := bind_eq_ok h
      have hthin := pruneRoots_thins hok (fun root hroot d hd hid => by
        obtain ⟨d₀, hd₀, hid₀, hfinal⟩ := mem_expiredDeliveryRoots hroot
        rw [eq_of_id hok hd hd₀ (hid.trans hid₀.symm)]
        exact hfinal) hroots
      exact hthin.trans (ih (hthin.quiet.ok hok) h)

theorem prune_quiet (hok : q.Ok) (h : q.prune now = .ok q') : Quiet q q' := by
  obtain ⟨q₁, hchains, h⟩ := bind_eq_ok h
  cases h
  exact (pruneRounds_thins hok hchains).quiet.trans (Quiet.of_ledger rfl [] rfl rfl rfl)

end Queue

end Beat.Notification
