import Beat.Notification.QueueRuns

/-!
# The order of the deliveries of a channel

`selectDueLease` leases a delivery of an ordinary event only when no delivery of the channel that comes
before it in the order of `created_at` and `id` is still active. The order is that of the table: a
delivery may be inserted later and still come before one that is there, because the ids of one
millisecond are not ordered by time.

* `Queue.Due.first_in_channel`: what the query excludes.
* `never_leased_again`: a delivery that is final has no attempt in the rest of a run.
* `channel_fifo`: what holds whenever a claim leases a delivery of an ordinary event; a delivery that is
  stored then and comes before it has its final attempt before.
* `overtaken_by_later_insert`: with an insertion in the same millisecond, the last attempts of two
  deliveries are in the opposite order.
-/

namespace Beat.Notification

open List Instant

/-- The order of `created_at` and `id`. -/
def Delivery.Precedes (a b : Delivery) : Prop :=
  a.createdAt < b.createdAt ∨ (a.createdAt = b.createdAt ∧ a.id < b.id)

instance (a b : Delivery) : Decidable (a.Precedes b) := inferInstanceAs (Decidable (_ ∨ _ ∧ _))

variable {q : Queue} {now : Int} {d : Delivery} {eventKind : EventKind}

/-- Nothing active of the channel comes before a delivery that is due. -/
theorem Queue.Due.first_in_channel (h : q.Due now d eventKind) (hkind : eventKind ≠ .notificationTest) {r : Delivery}
    (hr : r ∈ q.deliveries) (hchannel : r.channelID = d.channelID) (hbefore : r.Precedes d) :
    r.state.isActive = false := by
  obtain ⟨-, hprevious⟩ := h.first.resolve_left hkind
  have := Table.any_false hprevious r hr
  by_contra hactive
  obtain hlt | ⟨heq, hlt⟩ := hbefore
  · simp [hchannel, hactive, hlt] at this
  · simp [hchannel, hactive, heq, hlt] at this

/-- A delivery that is final has no attempt in the rest of a run. -/
theorem never_leased_again {q' : Queue} {es : List QueueEvent} (hok : QueueOk q) (hr : Lts.Run QueueStep q es q')
    (hd : d ∈ q.deliveries) (hfinal : d.state.isActive = false) :
    ∃ later, q'.issued = q.issued ++ later ∧ ∀ lease ∈ later, lease.id ≠ d.id := by
  induction hr with
  | nil => exact ⟨[], (append_nil _).symm, fun _ h => nomatch h⟩
  | @snoc es e s s' hs hst ih =>
    obtain ⟨later, hissued, hne⟩ := ih
    have hoks := queueOk_run hok hs
    have hsettled := state_stays hok hs hd hfinal
    obtain hquiet | ⟨s₁, r, lease, hl⟩ := next_exit hoks hst
    · exact ⟨later, hquiet.issued.trans hissued, hne⟩
    · -- the delivery that is leased was pending, so it is not `d`
      have hsettled₁ := hsettled.quiet hfinal hoks hl.quiet
      obtain ⟨workerID, clock, expiresAt, -, hdue, hlease, -, hs', -⟩ := hl.claim
      have hid : lease.id = r.id := by rw [hlease]
      have hnew : s'.issued = s₁.issued ++ [lease] := by rw [hs']
      refine ⟨later ++ [lease], ?_, fun ℓ hℓ => ?_⟩
      · rw [hnew, hl.quiet.issued, hissued, append_assoc]
      · obtain hℓ | hℓ := Table.mem_snoc.mp hℓ
        · exact hne ℓ hℓ
        · rw [hℓ, hid]
          intro heq
          have hstate := hsettled₁.2 r hdue.mem heq
          rw [← hstate, hdue.pending] at hfinal
          cases hfinal

/-- Every attempt on the delivery `a` is followed by one on `b`: their final attempts are in this order. -/
def FinalInOrder (issued : List DeliveryLease) (a b : String) : Prop :=
  ∀ (i : Nat) (attempt : DeliveryLease), issued[i]? = some attempt → attempt.id = a →
    ∃ j > i, ∃ final : DeliveryLease, issued[j]? = some final ∧ final.id = b

theorem finalInOrder {issued later : List DeliveryLease} {lease : DeliveryLease} {a : String}
    (hlease : lease.id ≠ a) (hlater : ∀ ℓ ∈ later, ℓ.id ≠ a) :
    FinalInOrder (issued ++ lease :: later) a lease.id := by
  intro i attempt hi hid
  -- an attempt on `a` is among those before the lease
  have hlt : i < issued.length := by
    by_contra hge
    rw [getElem?_append_right (not_lt.mp hge)] at hi
    obtain rfl | hmem := mem_cons.mp (mem_of_getElem? hi)
    · exact hlease hid
    · exact hlater attempt hmem hid
  exact ⟨issued.length, hlt, lease, by simp, rfl⟩

/-- Whenever a claim leases a delivery `d` of an ordinary event: no delivery of the channel that comes
before `d` is active, no other delivery of the channel is leased, the channel is enabled and not deleted,
`d` is due, and the circuit for its revision is not open. A delivery of the channel that is stored then
and comes before `d` has no further attempt, however the run goes on: its final attempt is not after that of
`d`. -/
theorem channel_fifo {q₀ q q' : Queue} {es : List QueueEvent} (hstart : QueueStart q₀)
    (hrun : Lts.Run QueueStep q₀ es q) {workerID : String} {clock : ClaimClock} {lease : DeliveryLease}
    (hclaim : q.claimTx workerID clock = .ok (some lease, q')) (hkind : lease.eventKind ≠ .notificationTest) :
    ∃ d ∈ q'.deliveries, d.id = lease.id ∧ d.channelID = lease.channelID ∧
      (∃ m, q'.message? d.messageID = some m ∧ m.eventKind = lease.eventKind) ∧
      (∀ r ∈ q'.deliveries, r.channelID = d.channelID → r.Precedes d → r.state.isActive = false) ∧
      (∀ r ∈ q'.deliveries, r.channelID = d.channelID → r.id ≠ d.id → r.state.isLeased = false) ∧
      (∃ c, q'.channel? d.channelID = some c ∧ c.enabled = true ∧ c.deleted = false) ∧
      d.nextAttemptAt ≤ unixMilli clock.select ∧
      (∀ health until_, q'.health.find? (·.channelID = d.channelID) = some health →
        health.currentRevision = d.channelRevision → health.openUntil = some until_ →
        until_ ≤ unixMilli clock.select) ∧ ∀ r ∈ q'.deliveries, r.channelID = d.channelID → r.Precedes d →
        ∀ fs q₂, Lts.Run QueueStep { q' with issued := q'.issued ++ [lease] } fs q₂ →
          (∃ later, q₂.issued = q.issued ++ lease :: later ∧ ∀ ℓ ∈ later, ℓ.id ≠ r.id) ∧
            FinalInOrder q₂.issued r.id d.id := by
  have hok := queueOk_run hstart.ok hrun
  obtain ⟨q₁, d, hleasing⟩ := claimTx_leasing hok.ledger hclaim
  have hok' := hok.leasing hleasing
  have hok₁ := hok.quiet hleasing.quiet
  have hmem := fun {r} (hr : r ∈ q'.deliveries) => hleasing.mem_deliveries hok₁.ledger hr
  obtain ⟨worker, clk, expiresAt, hevent, hdue, hlease, -, hq', -⟩ := hleasing.claim
  cases hevent
  simp only [Queue.mk.injEq] at hq'
  obtain ⟨-, hchannels, hhealth, hmessages, hdeliveries, -, -, -, hissued, -⟩ := hq'
  have hissued : q'.issued = q.issued := by
    rw [← hleasing.quiet.issued]
    exact append_cancel_right hissued
  let d' : Delivery := { d with
    state := .leased ⟨lease.hash, expiresAt, workerID⟩, attemptCount := d.attemptCount + 1 }
  have hd' : d' ∈ q'.deliveries := by
    rw [hdeliveries]
    exact Table.mem_update.mpr ⟨d, hdue.mem, by simp [d']⟩
  have hbefore : ∀ r ∈ q'.deliveries, r.channelID = d'.channelID → r.Precedes d' →
      r.state.isActive = false := by
    intro r hr hchannel hprecedes
    obtain ⟨w, rfl⟩ | ⟨hr₁, -⟩ := hmem hr
    · obtain hlt | ⟨-, hlt⟩ := hprecedes
      · exact absurd hlt (lt_irrefl _)
      · exact absurd hlt (String.lt_irrefl _)
    · exact hdue.first_in_channel hkind hr₁ hchannel hprecedes
  refine ⟨d', hd', by rw [hlease], by rw [hlease], ?_, hbefore, fun r hr hchannel hne => ?_, ?_, hdue.time,
    fun health until_ hfind hrevision hopen => ?_, fun r hr hchannel hprecedes fs q₂ hfs => ?_⟩
  · obtain ⟨m, hm, hkindm⟩ := hdue.message
    refine ⟨m, ?_, hkindm⟩
    unfold Queue.message? at hm ⊢
    rwa [hmessages]
  · obtain ⟨w, rfl⟩ | ⟨hr₁, -⟩ := hmem hr
    · exact absurd rfl hne
    · exact hdue.free r hr₁ hchannel
  · obtain ⟨c, hc, hdeleted, henabled⟩ := hdue.channel
    refine ⟨c, ?_, henabled.resolve_right hkind, hdeleted⟩
    unfold Queue.channel? at hc ⊢
    rwa [hchannels]
  · obtain ⟨hcircuit, -⟩ := hdue.first.resolve_left hkind
    rw [hhealth] at hfind
    unfold Queue.circuitAllows at hcircuit
    rw [hfind] at hcircuit
    simpa [d', hrevision, hopen] using hcircuit
  · obtain ⟨later, hlater, hne⟩ := never_leased_again hok' hfs hr (hbefore r hr hchannel hprecedes)
    have hid : lease.id ≠ r.id := by
      obtain ⟨w, rfl⟩ | ⟨-, hother⟩ := hmem hr
      · exact absurd (hbefore _ hr hchannel hprecedes) (by simp [DeliveryState.isActive])
      · rw [hlease]
        exact hother.symm
    have hall : q₂.issued = q.issued ++ lease :: later := by
      rw [hlater, ← hissued, append_assoc]
      rfl
    refine ⟨⟨later, hall, hne⟩, ?_⟩
    rw [hall, show d'.id = lease.id by rw [hlease]]
    exact finalInOrder hid hne

/-- The lease of the first delivery of `sampleQueue`, claimed after one second. -/
def firstLease : DeliveryLease := ⟨"d1", "m1", "ops", .alertTriggered, 1, 1, 1, 91000⟩

/-- Two deliveries of one channel: the first is leased and completed before the second, which comes after
it, is leased. However the run goes on, the final attempts are in this order. -/
theorem channel_fifo_sample : QueueStart sampleQueue ∧ ∃ q q' lease,
      Lts.Run QueueStep sampleQueue [alertAt "alert:1" second, claimAt second,
        .complete firstLease { success := true } ⟨second, second, fun _ => second⟩ none,
        alertAt "alert:2" (2 * second)] q ∧
      q.claimTx "worker-0" ⟨2 * second, fun _ _ => 2 * second, 2 * second, 2 * second⟩ = .ok (some lease, q') ∧
      ∃ r ∈ q'.deliveries, r.id = "d1" ∧ r.state.isActive = false ∧ ∀ fs q₂,
        Lts.Run QueueStep { q' with issued := q'.issued ++ [lease] } fs q₂ → FinalInOrder q₂.issued "d1" lease.id := by
  have hstart : QueueStart sampleQueue := by decide
  obtain ⟨q, hr, ⟨found, q'⟩, hq', ⟨lease, rfl, hkind⟩, r, hmem, hid, hprecedes⟩ : ∃ q,
      Lts.Run QueueStep sampleQueue [alertAt "alert:1" second, claimAt second,
        .complete firstLease { success := true } ⟨second, second, fun _ => second⟩ none,
        alertAt "alert:2" (2 * second)] q ∧
      ∃ x ∈ (q.claimTx "worker-0" ⟨2 * second, fun _ _ => 2 * second, 2 * second, 2 * second⟩).toOption,
        (∃ lease, x.1 = some lease ∧ lease.eventKind ≠ .notificationTest) ∧
        ∃ r ∈ x.2.deliveries, r.id = "d1" ∧ ∀ d ∈ x.2.deliveries, x.1.map (·.id) = some d.id →
          r.channelID = d.channelID ∧ r.Precedes d := by decide +kernel
  have htx := Fallible.toOption_eq_some.mp hq'
  obtain ⟨d, hd, hdid, -, -, hfirst, -, -, -, -, hfinal⟩ := channel_fifo hstart hr htx hkind
  obtain ⟨hchannel, hbefore⟩ := hprecedes d hd (congrArg some hdid.symm)
  refine ⟨hstart, q, q', lease, hr, htx, r, hmem, hid, hfirst r hmem hchannel hbefore, fun fs q₂ hfs => ?_⟩
  rw [← hid, ← hdid]
  exact (hfinal r hmem hchannel hbefore fs q₂ hfs).2

set_option synthInstance.maxSize 256 in
/-- Two deliveries of one channel with the same `created_at`: the second one to be inserted has the
smaller id. The first one to be inserted is leased, and completed, before the other one is stored; the
clock does not move. The last attempts are in the opposite order, and the delivery that comes before was
not final when the other one was leased, because it was not there. -/
theorem overtaken_by_later_insert : ∃ s s' q, Lts.Run QueueStep sampleQueue [alertAt "alert:1" second] s ∧
      QueueStep s (claimAt second) s' ∧ s'.issued = [firstLease] ∧ (∀ d ∈ s.deliveries, d.id ≠ "d0") ∧
      Lts.Run QueueStep s' [.complete firstLease { success := true } ⟨second, second, fun _ => second⟩ none,
          alertAt "alert:2" second, claimAt second] q ∧
      q.issued.map (·.id) = ["d1", "d0"] ∧ (∀ lease ∈ q.issued, lease.eventKind = .alertTriggered) ∧
      ∃ a ∈ q.deliveries, ∃ b ∈ q.deliveries,
        a.id = "d0" ∧ b.id = "d1" ∧ a.channelID = b.channelID ∧ a.Precedes b := by
  simp only [exists_and_left]
  decide +kernel

end Beat.Notification
