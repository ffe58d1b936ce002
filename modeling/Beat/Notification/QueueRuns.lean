import Beat.Notification.QueueWrites

/-!
# Runs of the notification queue

Runs of the transactions of the queue in any order, with any readings of the clock, from a queue without
deliveries. What the service draws at random does not repeat: the ids and the lease tokens that are drawn
in a run are pairwise different.

* `QueueOk`: the ledger of deliveries and attempts is in order, ids that are still to be drawn are not in
  use, and a lease that was returned has the token, the expiry and the attempt of the delivery that is
  leased under it. `queueOk_run`: every run keeps it.
* `next_exit`: a transaction is quiet, or it is a claim that leases a delivery.
* `state_stays`: a delivery that is final keeps its state; `lost_stays`: a lease that is lost stays lost.
* `delivery_state_machine`: the state machine of a delivery.
-/

namespace Beat.Notification

open List Fallible Instant

open Leases (Write Label Stage Item Entry Ledger)

/-- One transaction that commits. -/
def QueueStep (q : Queue) (e : QueueEvent) (q' : Queue) : Prop := q.next e = .ok q'

/-- A queue without deliveries; the random values do not repeat. -/
structure QueueStart (q : Queue) : Prop where
  deliveries : q.deliveries = []
  attempts : q.attempts = []
  issued : q.issued = []
  ids : q.ids.Nodup
  tokens : q.tokens.Nodup

instance (q : Queue) : Decidable (QueueStart q) :=
  decidable_of_iff (q.deliveries = [] ∧ q.attempts = [] ∧ q.issued = [] ∧ q.ids.Nodup ∧ q.tokens.Nodup)
    ⟨fun ⟨h1, h2, h3, h4, h5⟩ => ⟨h1, h2, h3, h4, h5⟩, fun ⟨h1, h2, h3, h4, h5⟩ => ⟨h1, h2, h3, h4, h5⟩⟩

/-- What is known of a lease that a claim has returned. -/
structure LeaseOk (q : Queue) (lease : DeliveryLease) : Prop where
  spent : lease.hash ∉ q.tokens
  attempt_pos : 0 < lease.attempt
  current : ∀ d ∈ q.deliveries, d.id = lease.id → ∀ held, d.state = .leased held →
    held.tokenHash = lease.hash → held.expiresAt = lease.expiresAt ∧ d.attemptCount = lease.attempt

structure QueueOk (q : Queue) : Prop where
  ledger : q.ledger.Ok maximumAttempts
  ids : q.ids.Nodup
  tokens : q.tokens.Nodup
  known : ∀ d ∈ q.deliveries, d.id ∉ q.ids
  issued : ∀ lease ∈ q.issued, LeaseOk q lease

variable {q q' q₁ : Queue} {lease : DeliveryLease} {clock : ClaimClock} {workerID : String} {e : QueueEvent}
  {d : Delivery} {es : List QueueEvent} {id : String} {state : DeliveryState}

theorem QueueStart.ok (h : QueueStart q) : QueueOk q where
  ledger := by
    unfold Queue.ledger
    rw [h.deliveries, h.attempts]
    exact Ledger.Ok.empty
  ids := h.ids
  tokens := h.tokens
  known := by
    rw [h.deliveries]
    exact fun _ hd => nomatch hd
  issued := by
    rw [h.issued]
    exact fun _ hl => nomatch hl

/-! ## Steps -/

/-- A claim that leases the delivery `d`: after the recovery, from `q₁`. -/
structure Leasing (q : Queue) (e : QueueEvent) (q₁ : Queue) (d : Delivery) (lease : DeliveryLease)
    (q' : Queue) : Prop where
  quiet : Quiet q q₁
  claim : ∃ workerID clock expiresAt,
    e = .claim workerID clock ∧ q₁.Due (unixMilli clock.select) d lease.eventKind ∧
      lease = ⟨d.id, d.messageID, d.channelID, lease.eventKind, d.channelRevision, d.attemptCount + 1,
        lease.hash, expiresAt⟩ ∧
      q₁.tokens = lease.hash :: q'.tokens ∧
      q' = { q₁ with
        tokens := q'.tokens
        issued := q₁.issued ++ [lease]
        deliveries := Table.update q₁.deliveries (·.id = d.id) fun r =>
          { r with state := .leased ⟨lease.hash, expiresAt, workerID⟩, attemptCount := d.attemptCount + 1 }
        attempts := q₁.attempts ++ [⟨d.id, d.attemptCount + 1, .inProgress⟩] } ∧
      Write maximumAttempts q₁.ledger (.hold d.id ⟨lease.hash, expiresAt, workerID⟩) q'.ledger

theorem claimTx_leasing (hok : q.Ok) (h : q.claimTx workerID clock = .ok (some lease, q')) :
    ∃ q₁ d, Leasing q (.claim workerID clock) q₁ d lease { q' with issued := q'.issued ++ [lease] } := by
  obtain ⟨q₁, hrecover, ⟨hnone, -⟩ | ⟨d, eventKind, hdue, hlease⟩⟩ := Queue.claimTx_exit h
  · cases hnone
  · have hquiet := Queue.recoverExpiredTx_quiet hok hrecover
    obtain ⟨hash, expiresAt, heq, htokens, hq', hwrite⟩ :=
      Queue.leaseDelivery_exit (hquiet.ok hok) hdue hlease
    cases heq
    have hissued : q'.issued = q₁.issued := by rw [hq']
    refine ⟨q₁, d, hquiet, workerID, clock, expiresAt, rfl, hdue, rfl, htokens, ?_, hwrite⟩
    rw [hissued, hq']

theorem claim_exit (hok : q.Ok) (h : q.claim workerID clock = .ok q') :
    Quiet q q' ∨ ∃ q₁ d lease, Leasing q (.claim workerID clock) q₁ d lease q' := by
  obtain ⟨⟨lease, q₂⟩, htx, h⟩ := bind_eq_ok h
  cases h
  cases lease with
  | some lease =>
    obtain ⟨q₁, d, hleasing⟩ := claimTx_leasing hok htx
    exact .inr ⟨q₁, d, lease, hleasing⟩
  | none =>
    refine .inl ?_
    obtain ⟨q₁, hrecover, ⟨-, rfl⟩ | ⟨d, eventKind, hdue, hlease⟩⟩ := Queue.claimTx_exit htx
    · simpa using Queue.recoverExpiredTx_quiet hok hrecover
    · have hquiet := Queue.recoverExpiredTx_quiet hok hrecover
      obtain ⟨hash, expiresAt, heq, -⟩ := Queue.leaseDelivery_exit (hquiet.ok hok) hdue hlease
      cases heq

/-- A transaction is quiet, or it is a claim that leases a delivery. -/
theorem next_exit (hok : QueueOk q) (h : QueueStep q e q') :
    Quiet q q' ∨ ∃ q₁ d lease, Leasing q e q₁ d lease q' := by
  unfold QueueStep Queue.next at h
  cases e with
  | enqueue request clock => exact .inl (Queue.enqueue_quiet h)
  | enqueueBatch requests clock => exact .inl (Queue.enqueueBatch_quiet h)
  | testChannel id sourceKey clock => exact .inl (Queue.testChannel_quiet h)
  | reconcileFailures clock => exact .inl (Queue.reconcileAll_quiet h)
  | claim workerID clock => exact claim_exit hok.ledger h
  | complete lease result clock jitter =>
    dsimp only at h
    split at h
    · next hissued =>
      refine .inl (Queue.complete_quiet hok.ledger ?_ h)
      intro d hd hid held hheld hhash
      exact ((hok.issued lease hissued).current d hd hid held hheld hhash).2
    · cases h
  | cancelDelivery id now =>
    obtain ⟨p, f, hs, -⟩ := Queue.cancelDelivery_exit h
    exact .inl (hs.quiet hok.ledger)
  | retryDelivery id confirmDuplicate now => exact .inl (Queue.retryDelivery_quiet h)
  | setEnabled id enabled => exact .inl (Queue.changeChannelState_quiet h)
  | deleteChannel id now => exact .inl (Queue.deleteChannel_quiet hok.ledger h)
  | reconcileRestore now =>
    cases h
    obtain ⟨p, f, hs, -⟩ := Queue.reconcileRestore_exit hok.ledger now
    exact .inl ((hs.quiet hok.ledger).trans (Quiet.of_ledger rfl [] rfl rfl rfl))
  | prune now => exact .inl (Queue.prune_quiet hok.ledger h)
  | configure settings channels health =>
    cases h
    exact .inl (Quiet.of_ledger rfl [] rfl rfl rfl)

/-! ## The invariant -/

theorem LeaseOk.quiet (h : LeaseOk q lease) (hok : q.Ok) (hq : Quiet q q') :
    LeaseOk q' lease where
  spent := hq.tokens ▸ h.spent
  attempt_pos := h.attempt_pos
  current := hq.lease_stays hok
    (Q := fun held n => held.tokenHash = lease.hash → held.expiresAt = lease.expiresAt ∧ n = lease.attempt)
    h.current

theorem QueueOk.quiet (h : QueueOk q) (hq : Quiet q q') : QueueOk q' := by
  obtain ⟨ws, hr, hhold, drawn, hids, hadd⟩ := hq.run
  have hnodup := h.ids
  rw [hids] at hnodup
  refine ⟨hq.ok h.ledger, (nodup_append.mp hnodup).2.1, hq.tokens ▸ h.tokens, fun d hd => ?_,
    fun lease hl => ?_⟩
  · -- an id was not to be drawn before, or was drawn now
    refine Leases.forall_items (P := fun x => x.id ∉ q'.ids) h.ledger (by decide) hr (fun x hx => ?_)
      (fun x hx _ hmem => ?_) (fun x token hx _ _ => absurd hx (hhold x.id token))
      (fun _ _ _ _ hx => hx) d.item (Queue.mem_items hd)
    · obtain ⟨d₀, hd₀, rfl⟩ := Queue.exists_of_mem_items hx
      intro hmem
      exact h.known d₀ hd₀ (hids ▸ mem_append_right _ hmem)
    · exact (nodup_append.mp hnodup).2.2 x.id (hadd x.id hx) x.id hmem rfl
  · rw [hq.issued] at hl
    exact (h.issued lease hl).quiet h.ledger hq

/-- The row that a claim has leased, or another row as it was. -/
theorem Leasing.mem_deliveries {r' : Delivery} (h : Leasing q e q₁ d lease q')
    (hok : q₁.Ok) (hr' : r' ∈ q'.deliveries) : (∃ workerID, r' = { d with
        state := .leased ⟨lease.hash, lease.expiresAt, workerID⟩, attemptCount := d.attemptCount + 1 }) ∨
      (r' ∈ q₁.deliveries ∧ r'.id ≠ d.id) := by
  obtain ⟨workerID, clock, expiresAt, -, hdue, hlease, -, hq', -⟩ := h.claim
  rw [hq'] at hr'
  obtain ⟨r, hr, rfl⟩ := Table.mem_update.mp hr'
  by_cases hid : r.id = d.id
  · rw [Queue.eq_of_id hok hr hdue.mem hid, if_pos (by simp)]
    refine .inl ⟨workerID, ?_⟩
    rw [hlease]
  · rw [if_neg (by simpa using hid)]
    exact .inr ⟨hr, hid⟩

theorem QueueOk.leasing (h : QueueOk q) (hl : Leasing q e q₁ d lease q') : QueueOk q' := by
  have h₁ := h.quiet hl.quiet
  have hmem := fun {r'} (hr' : r' ∈ q'.deliveries) => hl.mem_deliveries h₁.ledger hr'
  obtain ⟨workerID, clock, expiresAt, -, hdue, hlease, htokens, hq', hwrite⟩ := hl.claim
  have hnodup := h₁.tokens
  rw [htokens] at hnodup
  obtain ⟨hfresh, hrest⟩ := nodup_cons.mp hnodup
  have hids : q'.ids = q₁.ids := by rw [hq']
  refine ⟨h₁.ledger.write (by decide) hwrite, hids ▸ h₁.ids, hrest, fun r' hr' => ?_, fun ℓ hℓ => ?_⟩
  · rw [hids]
    obtain ⟨worker, rfl⟩ | ⟨hr', -⟩ := hmem hr'
    · exact h₁.known d hdue.mem
    · exact h₁.known r' hr'
  · have hissued : q'.issued = q₁.issued ++ [lease] := by rw [hq']
    rw [hissued] at hℓ
    obtain hℓ | rfl := Table.mem_snoc.mp hℓ
    · have hold := h₁.issued ℓ hℓ
      have hspent := hold.spent
      rw [htokens] at hspent
      refine ⟨fun hmem => hspent (mem_cons_of_mem _ hmem), hold.attempt_pos,
        fun r' hr' hid held hheld hhash => ?_⟩
      obtain ⟨worker, rfl⟩ | ⟨hr', -⟩ := hmem hr'
      · -- the delivery is leased under the new token, which is not the one of `ℓ`
        cases hheld
        exact absurd (hhash ▸ mem_cons_self) hspent
      · exact hold.current r' hr' hid held hheld hhash
    · have hattempt : ℓ.attempt = d.attemptCount + 1 := by rw [hlease]
      have hid : ℓ.id = d.id := by rw [hlease]
      refine ⟨hfresh, by omega, fun r' hr' hidr held hheld _ => ?_⟩
      obtain ⟨worker, rfl⟩ | ⟨-, hne⟩ := hmem hr'
      · cases hheld
        exact ⟨rfl, hattempt.symm⟩
      · exact absurd (hidr.trans hid) hne

theorem queueOk_step (h : QueueOk q) (hst : QueueStep q e q') : QueueOk q' := by
  obtain hq | ⟨q₁, d, lease, hl⟩ := next_exit h hst
  · exact h.quiet hq
  · exact h.leasing hl

theorem queueOk_run (h : QueueOk q) (hr : Lts.Run QueueStep q es q') : QueueOk q' :=
  hr.inv h fun _ _ _ hok hst => queueOk_step hok hst

/-! ## Final states and lost leases -/

/-- Every delivery with the id has the state, and the id is not drawn again. -/
def Settled (id : String) (state : DeliveryState) (q : Queue) : Prop :=
  id ∉ q.ids ∧ ∀ d ∈ q.deliveries, d.id = id → d.state = state

theorem Settled.quiet (h : Settled id state q) (hfinal : state.isActive = false) (hok : QueueOk q) (hq : Quiet q q') :
    Settled id state q' := by
  obtain ⟨ws, hr, -, drawn, hids, hadd⟩ := hq.run
  obtain ⟨result, hresult⟩ := DeliveryState.stage_isDone.mpr hfinal
  refine ⟨fun hmem => h.1 (hids ▸ mem_append_right _ hmem), fun d hd hid => ?_⟩
  have hstage := Leases.done_stays id result hok.ledger (by decide) hr
    (fun x hx hidx => by
      obtain ⟨d₀, hd₀, rfl⟩ := Queue.exists_of_mem_items hx
      have hstate : d₀.state = state := h.2 d₀ hd₀ hidx
      change d₀.state.stage = _
      rw [hstate, hresult])
    (fun hm => h.1 (hids ▸ mem_append_left _ (hadd id hm))) d.item (Queue.mem_items hd) hid
  exact DeliveryState.stage_injective (hstage.trans hresult.symm)

theorem Settled.leasing (h : Settled id state q) (hfinal : state.isActive = false) (hok : QueueOk q)
    (hl : Leasing q e q₁ d lease q') : Settled id state q' := by
  have h₁ := h.quiet hfinal hok hl.quiet
  have hok₁ := hok.quiet hl.quiet
  obtain ⟨workerID, clock, expiresAt, -, hdue, -, -, hq', -⟩ := hl.claim
  have hids : q'.ids = q₁.ids := by rw [hq']
  refine ⟨hids ▸ h₁.1, fun r' hr' hid => ?_⟩
  obtain ⟨worker, rfl⟩ | ⟨hr', -⟩ := hl.mem_deliveries hok₁.ledger hr'
  · -- the delivery was pending, so it is not the one that is final
    have hstate := h₁.2 d hdue.mem hid
    rw [← hstate, hdue.pending] at hfinal
    cases hfinal
  · exact h₁.2 r' hr' hid

/-- A delivery that is final keeps its state as long as it is there. -/
theorem state_stays (hok : QueueOk q) (hr : Lts.Run QueueStep q es q') (hd : d ∈ q.deliveries)
    (hfinal : d.state.isActive = false) : Settled d.id d.state q' := by
  have hstart : QueueOk q ∧ Settled d.id d.state q :=
    ⟨hok, hok.known d hd, fun r hr hid => by rw [Queue.eq_of_id hok.ledger hr hd hid]⟩
  refine (hr.inv (I := fun q => QueueOk q ∧ Settled d.id d.state q) hstart ?_).2
  rintro s e s' ⟨hok, hs⟩ hst
  refine ⟨queueOk_step hok hst, ?_⟩
  obtain hq | ⟨q₁, r, lease, hl⟩ := next_exit hok hst
  · exact hs.quiet hfinal hok hq
  · exact hs.leasing hfinal hok hl

/-- The delivery of the lease is leased under the token of the lease. -/
def Held (q : Queue) (lease : DeliveryLease) : Prop :=
  ∃ d ∈ q.deliveries, d.id = lease.id ∧ ∃ held, d.state = .leased held ∧ held.tokenHash = lease.hash

/-- A lease that was returned and is lost: its token does not come back. -/
def Lost (q : Queue) (lease : DeliveryLease) : Prop := lease.hash ∉ q.tokens ∧ ¬ Held q lease

theorem Lost.quiet (h : Lost q lease) (hok : q.Ok) (hq : Quiet q q') : Lost q' lease := by
  refine ⟨hq.tokens ▸ h.1, ?_⟩
  rintro ⟨d, hd, hid, held, hheld, hhash⟩
  exact hq.lease_stays hok (Q := fun held _ => held.tokenHash ≠ lease.hash)
    (fun r hr hidr t ht hhash => h.2 ⟨r, hr, hidr, t, ht, hhash⟩) d hd hid held hheld hhash

/-- A claim takes another token. -/
theorem Lost.leasing {ℓ : DeliveryLease} (h : Lost q lease) (hok : QueueOk q) (hl : Leasing q e q₁ d ℓ q') :
    Lost q' lease := by
  have h₁ := h.quiet hok.ledger hl.quiet
  obtain ⟨workerID, clock, expiresAt, -, -, -, htokens, -, -⟩ := hl.claim
  have hspent := h₁.1
  rw [htokens] at hspent
  refine ⟨fun hmem => hspent (mem_cons_of_mem _ hmem), ?_⟩
  rintro ⟨r', hr', hid, held, hheld, hhash⟩
  obtain ⟨worker, rfl⟩ | ⟨hr', -⟩ := hl.mem_deliveries (hok.quiet hl.quiet).ledger hr'
  · cases hheld
    exact hspent (hhash ▸ mem_cons_self)
  · exact h₁.2 ⟨r', hr', hid, held, hheld, hhash⟩

theorem lost_stays (hok : QueueOk q) (hr : Lts.Run QueueStep q es q') (h : Lost q lease) : Lost q' lease := by
  refine (hr.inv (I := fun q => QueueOk q ∧ Lost q lease) ⟨hok, h⟩ ?_).2
  rintro s e s' ⟨hok, hs⟩ hst
  refine ⟨queueOk_step hok hst, ?_⟩
  obtain hq | ⟨q₁, d, ℓ, hl⟩ := next_exit hok hst
  · exact hs.quiet hok.ledger hq
  · exact hs.leasing hok hl

/-- `complete` with a lease writes nothing; it returns `ErrLeaseLost`, unless the random source fails
first. -/
def Rejects (q : Queue) (lease : DeliveryLease) (clock : CompleteClock) : Prop :=
  ∀ result, (∀ j, q.complete lease result clock (some j) = .error .leaseLost) ∧
    ∀ q', q.complete lease result clock none ≠ .ok q'

theorem retryDelay_ok {attempt : Nat} (hpos : 0 < attempt) (hlt : attempt < maximumAttempts)
    (retryAfter : Int) (j : Nat) : ∃ delay, retryDelay attempt retryAfter (some j) = .ok delay := by
  unfold maximumAttempts at hlt
  unfold retryDelay
  rw [if_neg (by omega)]
  have hlen : attempt - 1 < retryDelays.length := by
    change attempt - 1 < 5
    omega
  rw [getElem?_eq_getElem hlen]
  exact ⟨_, rfl⟩

theorem completion_ok (hpos : 0 < lease.attempt) (result : SendResult) (now : Int) (j : Nat) :
    ∃ c, completion lease result now (some j) = .ok c := by
  unfold completion
  split_ifs with hsuccess hretryable hlt
  · exact ⟨_, rfl⟩
  · obtain ⟨delay, hdelay⟩ := retryDelay_ok hpos hlt result.retryAfter j
    exact ⟨_, by rw [hdelay]; rfl⟩
  · exact ⟨_, rfl⟩
  · exact ⟨_, rfl⟩

theorem rejects_of_not_current {clock : CompleteClock} (hpos : 0 < lease.attempt)
    (h : ∀ d ∈ q.deliveries, d.isCurrent lease (unixMilli clock.now) = false) : Rejects q lease clock := by
  have hcount : q.deliveries.countP (·.isCurrent lease (unixMilli clock.now)) ≠ 1 := by
    rw [countP_eq_zero.mpr fun d hd => by simp [h d hd]]
    decide
  intro result
  constructor
  · intro j
    obtain ⟨⟨state, outcome, next⟩, hc⟩ := completion_ok hpos result clock.now j
    simp only [Queue.complete, Queue.completeTx, hc, updateOne, if_neg hcount]
    rfl
  · intro q' hq'
    obtain ⟨⟨state, q₁⟩, htx, -⟩ := bind_eq_ok hq'
    obtain ⟨⟨state', outcome, next⟩, -, htx⟩ := bind_eq_ok htx
    obtain ⟨deliveries, hd, -⟩ := bind_eq_ok htx
    obtain ⟨-, d, hd, hcurrent⟩ := updateOne_eq_ok hd
    rw [h d hd] at hcurrent
    cases hcurrent

/-- A claim of the same delivery takes the lease away. -/
theorem QueueOk.not_held_of_claimTx (hok : QueueOk q) {lease' : DeliveryLease} (hl : lease ∈ q.issued)
    (htx : q.claimTx workerID clock = .ok (some lease', q')) (hid : lease'.id = lease.id) : ¬ Held q' lease := by
  obtain ⟨q₁, d, hleasing⟩ := claimTx_leasing hok.ledger htx
  have hspent := ((hok.issued lease hl).quiet hok.ledger hleasing.quiet).spent
  obtain ⟨_, _, _, -, -, hlease, htokens, -, -⟩ := hleasing.claim
  have hidd : lease'.id = d.id := by rw [hlease]
  rintro ⟨r, hr, hidr, held, hheld, hhash⟩
  obtain ⟨worker, rfl⟩ | ⟨-, hne⟩ := hleasing.mem_deliveries (hok.quiet hleasing.quiet).ledger hr
  · cases hheld
    rw [htokens] at hspent
    exact hspent (hhash ▸ mem_cons_self)
  · exact hne (hidr.trans (hid.symm.trans hidd))

/-! ## The state machine of a delivery -/

/-- The attempts of a delivery. -/
def Queue.attemptsOf (q : Queue) (id : String) : List Attempt := q.attempts.filter (·.deliveryID = id)

/-- The attempts of a delivery, and how many there may be. -/
structure DeliveryOk (q : Queue) (d : Delivery) : Prop where
  numbered : (q.attemptsOf d.id).map Attempt.number = range' 1 d.attemptCount
  inProgress_iff : ∀ a ∈ q.attemptsOf d.id,
    (a.outcome = .inProgress ↔ d.state.isLeased = true ∧ a.number = d.attemptCount)
  leased : d.state.isLeased = true → ∃ a ∈ q.attemptsOf d.id, a.number = d.attemptCount
  bounded : d.attemptCount ≤ 6
  pending : d.state = .pending → d.attemptCount < 6

theorem QueueOk.deliveryOk (hok : QueueOk q) (hd : d ∈ q.deliveries) : DeliveryOk q d := by
  have hitem := Queue.mem_items hd
  have hentries : q.ledger.entriesOf d.id = (q.attemptsOf d.id).map Attempt.entry := by
    unfold Ledger.entriesOf Queue.ledger Queue.attemptsOf
    rw [filter_map]
    rfl
  have hnumbered : (q.attemptsOf d.id).map Attempt.number = range' 1 d.attemptCount := by
    have := hok.ledger.numbered d.item hitem
    rw [show d.item.id = d.id from rfl, hentries, map_map] at this
    exact this
  refine ⟨hnumbered, fun a ha => ?_, fun hleased => ?_, hok.ledger.bounded d.item hitem, fun hp => ?_⟩
  · have hmem : a.entry ∈ q.ledger.entriesOf d.item.id := by
      rw [show d.item.id = d.id from rfl, hentries]
      exact mem_map_of_mem ha
    have := hok.ledger.open_iff d.item hitem a.entry hmem
    rw [show d.item.stage = d.state.stage from rfl, DeliveryState.stage_isHeld] at this
    exact decide_eq_true_iff.symm.trans this
  · have hpos := hok.ledger.held_pos d.item hitem (DeliveryState.stage_isHeld.mpr hleased)
    have hlast : d.attemptCount ∈ (q.attemptsOf d.id).map Attempt.number := by
      rw [hnumbered, mem_range'_1]
      change 0 < d.attemptCount at hpos
      omega
    exact mem_map.mp hlast
  · exact hok.ledger.waiting_lt d.item hitem (DeliveryState.stage_eq_waiting.mpr hp)

/-- In every state of a run: the attempts of a delivery are numbered from one without a gap, the last one
is in progress iff the delivery is leased, and there are at most six of them, less while it is pending; a
channel has one leased delivery; a delivery that is final keeps its state; and a lease that has expired,
or under which its delivery is not held any more, is refused from then on. -/
theorem delivery_state_machine {q₀ q : Queue} {es : List QueueEvent} (hstart : QueueStart q₀)
    (hrun : Lts.Run QueueStep q₀ es q) : (∀ d ∈ q.deliveries, DeliveryOk q d) ∧
    (∀ d ∈ q.deliveries, ∀ d' ∈ q.deliveries, d.state.isLeased = true → d'.state.isLeased = true →
      d.channelID = d'.channelID → d = d') ∧
    (∀ d ∈ q.deliveries, d.state.isActive = false → ∀ fs q', Lts.Run QueueStep q fs q' →
      ∀ d' ∈ q'.deliveries, d'.id = d.id → d'.state = d.state) ∧
    (∀ lease ∈ q.issued, ∀ clock, lease.expiresAt ≤ unixMilli clock.now → Rejects q lease clock) ∧
    (∀ lease ∈ q.issued, ¬ Held q lease → ∀ fs q', Lts.Run QueueStep q fs q' → ∀ clock, Rejects q' lease clock) ∧
    (∀ lease ∈ q.issued, ∀ workerID clock lease' q', q.claimTx workerID clock = .ok (some lease', q') →
      lease'.id = lease.id → ¬ Held q' lease) := by
  have hok := queueOk_run hstart.ok hrun
  refine ⟨fun d hd => hok.deliveryOk hd, fun d hd d' hd' hl hl' hchannel => ?_,
    fun d hd hfinal fs q' hfs d' hd' hid => (state_stays hok hfs hd hfinal).2 d' hd' hid,
    fun lease hl clock hexp => ?_,
    fun lease hl hlost fs q' hfs clock => ?_, fun lease hl workerID clock lease' q' htx hid => ?_⟩
  · have := hok.ledger.lanes d.item (Queue.mem_items hd) d'.item (Queue.mem_items hd')
      (DeliveryState.stage_isHeld.mpr hl) (DeliveryState.stage_isHeld.mpr hl') hchannel
    exact Queue.eq_of_id hok.ledger hd hd' (congrArg Item.id this)
  · have hissued := hok.issued lease hl
    refine rejects_of_not_current hissued.attempt_pos fun d hd => Bool.eq_false_iff.mpr fun hcurrent => ?_
    obtain ⟨hid, held, hheld, hhash, hlt⟩ := Delivery.leased_of_isCurrent hcurrent
    have := (hissued.current d hd hid held hheld hhash).1
    omega
  · have hissued := hok.issued lease hl
    refine rejects_of_not_current hissued.attempt_pos fun d hd => Bool.eq_false_iff.mpr fun hcurrent => ?_
    obtain ⟨hid, held, hheld, hhash, -⟩ := Delivery.leased_of_isCurrent hcurrent
    exact (lost_stays hok hfs ⟨hissued.spent, hlost⟩).2 ⟨d, hd, hid, held, hheld, hhash⟩
  · exact hok.not_held_of_claimTx hl htx hid

/-- A queue with one channel, and the first values that it draws. -/
def sampleQueue : Queue where
  settings := ⟨30, 90, 4⟩
  channels := [⟨"ops", 1, [.alertTriggered], true, false⟩]
  health := [⟨"ops", 1, 0, none⟩]
  messages := []
  deliveries := []
  attempts := []
  ids := ["m1", "d1", "m2", "d0"]
  tokens := [1, 2]
  issued := []

/-- The readings of a claim at one time. -/
def claimAt (now : Int) : QueueEvent := .claim "worker-0" ⟨now, fun _ _ => now, now, now⟩

def alertAt (sourceKey : String) (now : Int) : QueueEvent :=
  .enqueue ⟨sourceKey, .alertTriggered, [], true⟩ fun _ => now

instance : Lts.Computed QueueStep := ⟨fun q e => (q.next e).toOption, fun _ _ _ => toOption_eq_some⟩

/-- A delivery is leased and then cancelled: its lease is refused. -/
theorem delivery_state_machine_cancelled : QueueStart sampleQueue ∧ ∃ q lease, Lts.Run QueueStep sampleQueue
        [alertAt "alert:1" second, claimAt second, .cancelDelivery "d1" second] q ∧
      lease ∈ q.issued ∧ (∀ d ∈ q.deliveries, DeliveryOk q d) ∧ ∀ clock, Rejects q lease clock := by
  have hstart : QueueStart sampleQueue := by decide
  obtain ⟨q, hr, hissued, hleased⟩ : ∃ q, Lts.Run QueueStep sampleQueue
      [alertAt "alert:1" second, claimAt second, .cancelDelivery "d1" second] q ∧
      q.issued ≠ [] ∧ ∀ d ∈ q.deliveries, d.state.isLeased = false := by decide +kernel
  obtain ⟨lease, hl⟩ := exists_mem_of_ne_nil _ hissued
  obtain ⟨hdeliveries, -, -, -, hlost, -⟩ := delivery_state_machine hstart hr
  refine ⟨hstart, q, lease, hr, hl, hdeliveries, hlost lease hl ?_ [] q .nil⟩
  rintro ⟨d, hd, -, held, hheld, -⟩
  have := hleased d hd
  rw [hheld] at this
  cases this

end Beat.Notification
