import Beat.Notification.QueueRuns

/-!
# Notices of failed deliveries

A delivery that ends dead is reported by a message of its own (`failureMessage`), one for each channel,
error code and window of 15 minutes. The source key of the notice is computed from a reading of the clock
when the delivery dies, from the stored `completed_at` in `ReconcileFailures`, and from the stored
`completed_at` in the arithmetic of the database in `Prune`. When the two readings of the clock in the
transaction in which the delivery dies lie in one window, the three agree.

* `storedWindow_unixMilli`, `failureWindow_stored`: the three computations of the window.
* `NoticesOk`: source keys are unique, every delivery has its message, and every failure has its notice
  or is on record as put off. `S` lists deliveries that are exempt in the middle of a transaction.
* `Carries`, `Enqueued`: what the parts of a transaction do to deliveries and messages.
* `notices_step`: a transaction keeps the invariant, adds notices of failures only, and removes no notice
  of a failure that is stored.
* `failure_notices`: the notices in every run in which both readings of the clock lie in one window.
* `notice_twice`: without that, one failure has two notices.
-/

namespace Beat.Notification

open List Table Fallible Instant

/-! ## Windows -/

theorem storedWindow_unixMilli {t : Int} (h : 0 ≤ t) : storedWindow (unixMilli t) = failureWindow t := by
  unfold storedWindow failureWindow unixMilli unix millisecond second
    failureWindowSeconds
  rw [Int.tdiv_eq_ediv_of_nonneg (by omega), Int.tdiv_eq_ediv_of_nonneg (by omega)]
  omega

variable {completed now : Int} {q₁ : Queue} {eventKind : EventKind} {p : Delivery → Bool}
  {f : Delivery → Delivery} {messageID : String} {channel : SelectedChannel} {retryOf : Option String}
  {input : EnqueueInput} {clock : Nat → Int}

theorem failureWindow_stored (h : 0 ≤ completed) :
    failureWindow (completed * millisecond) = storedWindow completed := by
  unfold storedWindow failureWindow unix millisecond second failureWindowSeconds
  rw [Int.tdiv_eq_ediv_of_nonneg (by omega), Int.tdiv_eq_ediv_of_nonneg (by omega)]
  omega

theorem observedTime_stored (h : 0 ≤ completed) :
    observedTime (completed * millisecond) now = completed * millisecond := by
  unfold observedTime isZero zero millisecond second
  simp only [beq_iff_eq]
  omega

theorem observedTime_zero (now : Int) : observedTime zero now = now := by
  unfold observedTime isZero
  simp

/-! ## Failures and their notices -/

/-- The source key of the notice of a dead delivery, as `Prune` and `ReconcileFailures` compute it. -/
def Delivery.noticeKey (d : Delivery) : String :=
  failureKey d.channelID d.errorCode (storedWindow (d.completedAt.getD 0))

/-- A dead delivery of an event that is not itself a notice. -/
structure Failed (q : Queue) (d : Delivery) : Prop where
  mem : d ∈ q.deliveries
  dead : d.state = .dead
  message : ∃ m ∈ q.messages, m.id = d.messageID ∧ m.eventKind ≠ .notificationDeliveryFailed

/-- The notice of a delivery is stored. -/
def Noticed (q : Queue) (d : Delivery) : Prop := ∃ m ∈ q.messages, m.sourceKey = d.noticeKey

/-- The key of a message begins like the key of a notice. -/
def IsNoticeKey (key : String) : Prop := "notification-failure:".toList <+: key.toList

instance (key : String) : Decidable (IsNoticeKey key) := inferInstanceAs (Decidable (_ <+: _))

/-- A delivery with the id is of the channel and of an event of the kind; the id is not drawn again. -/
structure Linked (q : Queue) (id channelID : String) (eventKind : EventKind) : Prop where
  spent : id ∉ q.ids
  row : ∀ d ∈ q.deliveries, d.id = id → d.channelID = channelID ∧
    ∃ m ∈ q.messages, m.id = d.messageID ∧ m.eventKind = eventKind

structure NoticesOk (S : List String) (q : Queue) : Prop where
  ids : Table.Keyed Message.id q.messages
  keys : Table.Keyed Message.sourceKey q.messages
  message : ∀ d ∈ q.deliveries, ∃ m ∈ q.messages, m.id = d.messageID
  leases : ∀ lease ∈ q.issued, Linked q lease.id lease.channelID lease.eventKind
  times : ∀ d ∈ q.deliveries, d.state = .dead → ∃ completed, d.completedAt = some completed ∧ 0 ≤ completed
  accounted : ∀ d, Failed q d → d.id ∉ S → Noticed q d ∨ d.id ∈ q.deferred

/-- Messages are added only, and a new message with the key of a notice is the notice of a failure. -/
structure Adds (q q' : Queue) : Prop where
  kept : ∀ m ∈ q.messages, m ∈ q'.messages
  created : ∀ m ∈ q'.messages, m ∉ q.messages → IsNoticeKey m.sourceKey →
    ∃ d, Failed q' d ∧ m.sourceKey = d.noticeKey

variable {d : Delivery} {q' q : Queue} {S : List String}

theorem Failed.of_message_mem (h : Failed q d) (hd : d ∈ q'.deliveries)
    (hm : ∀ m ∈ q.messages, m ∈ q'.messages) : Failed q' d := by
  obtain ⟨m, hmem, hid, hkind⟩ := h.message
  exact ⟨hd, h.dead, m, hm m hmem, hid, hkind⟩

theorem Adds.refl (q : Queue) : Adds q q := ⟨fun _ h => h, fun _ h hn => absurd h hn⟩

/-- The failures of the state in the middle are still there. -/
theorem Adds.trans (h : Adds q q₁) (h' : Adds q₁ q')
    (hdead : ∀ d ∈ q₁.deliveries, d.state = .dead → d ∈ q'.deliveries) : Adds q q' := by
  refine ⟨fun m hm => h'.kept m (h.kept m hm), fun m hm hnew hkey => ?_⟩
  by_cases hmid : m ∈ q₁.messages
  · obtain ⟨d, hfailed, hk⟩ := h.created m hmid hnew hkey
    exact ⟨d, hfailed.of_message_mem (hdead d hfailed.mem hfailed.dead) h'.kept, hk⟩
  · exact h'.created m hm hmid hkey

theorem Adds.of_messages (h : q'.messages = q.messages) : Adds q q' :=
  ⟨fun _ hm => h ▸ hm, fun _ hm hn => absurd (h ▸ hm) hn⟩

/-- Nothing is exempt when the deliveries that are have not failed. -/
theorem NoticesOk.close (h : NoticesOk S q) (hS : ∀ d, Failed q d → d.id ∉ S) : NoticesOk [] q :=
  ⟨h.ids, h.keys, h.message, h.leases, h.times, fun d hd _ => h.accounted d hd (hS d hd)⟩

/-- What is exempt is left to `ReconcileFailures`. -/
theorem NoticesOk.defer (h : NoticesOk S q) : NoticesOk [] { q with deferred := q.deferred ++ S } := by
  refine ⟨h.ids, h.keys, h.message, fun lease hl => ?_, h.times, fun r hr _ => ?_⟩
  · exact ⟨(h.leases lease hl).spent, (h.leases lease hl).row⟩
  · by_cases hS : r.id ∈ S
    · exact .inr (mem_append_right _ hS)
    · exact (h.accounted r ⟨hr.mem, hr.dead, hr.message⟩ hS).imp_right (mem_append_left _)

/-! ## Changes of rows -/

/-- A delivery that dies in a transaction. -/
def Dies (S : List String) (d : Delivery) : Prop :=
  (∃ completed, d.completedAt = some completed ∧ 0 ≤ completed) ∧
    d.id ∈ S

/-- Rows of deliveries change or go, and nothing else that notices depend on. -/
structure Carries (S : List String) (q q' : Queue) : Prop where
  rows : ∀ d' ∈ q'.deliveries, ∃ d ∈ q.deliveries, d'.id = d.id ∧ d'.messageID = d.messageID ∧
    d'.channelID = d.channelID ∧ (d'.state = .dead →
      (d.state = .dead ∧ d'.errorCode = d.errorCode ∧ d'.completedAt = d.completedAt) ∨ Dies S d')
  messages : q'.messages = q.messages
  issued : q'.issued = q.issued
  deferred : q'.deferred = q.deferred
  ids : q'.ids = q.ids

theorem Linked.carries {id channelID : String} (h : Linked q id channelID eventKind) (hc : Carries S q q') :
    Linked q' id channelID eventKind := by
  refine ⟨hc.ids ▸ h.spent, fun d' hd' hid => ?_⟩
  obtain ⟨d, hd, hid', hmessage, hchannel, -⟩ := hc.rows d' hd'
  rw [hmessage, hchannel, hc.messages]
  exact h.row d hd (hid'.symm.trans hid)

theorem NoticesOk.carries (h : NoticesOk [] q) (hc : Carries S q q') : NoticesOk S q' := by
  refine ⟨hc.messages ▸ h.ids, hc.messages ▸ h.keys, fun d' hd' => ?_, fun lease hl => ?_,
    fun d' hd' hdead => ?_, fun d' hfailed hS => ?_⟩
  · obtain ⟨d, hd, -, hmessage, -⟩ := hc.rows d' hd'
    rw [hmessage, hc.messages]
    exact h.message d hd
  · rw [hc.issued] at hl
    exact (h.leases lease hl).carries hc
  · obtain ⟨d, hd, -, -, -, hstate⟩ := hc.rows d' hd'
    obtain ⟨hdead', -, htime⟩ | hdies := hstate hdead
    · rw [htime]
      exact h.times d hd hdead'
    · exact hdies.1
  · obtain ⟨d, hd, hid, hmessage, hchannel, hstate⟩ := hc.rows d' hfailed.mem
    obtain ⟨hdead', hcode, htime⟩ | hdies := hstate hfailed.dead
    · have hkey : d'.noticeKey = d.noticeKey := by
        unfold Delivery.noticeKey
        rw [hchannel, hcode, htime]
      have hfailed' : Failed q d := by
        obtain ⟨m, hm, hmid, hkind⟩ := hfailed.message
        exact ⟨hd, hdead', m, hc.messages ▸ hm, hmid.trans hmessage, hkind⟩
      unfold Noticed
      rw [hkey, hid, hc.messages, hc.deferred]
      exact h.accounted d hfailed' not_mem_nil
    · exact absurd hdies.2 hS

/-- An update of the columns that belong to the state. -/
theorem carries_update (hd : q'.deliveries = update q.deliveries p f) (hid : ∀ d, (f d).id = d.id)
    (hmessage : ∀ d, (f d).messageID = d.messageID) (hchannel : ∀ d, (f d).channelID = d.channelID)
    (hdies : ∀ d ∈ q.deliveries, p d = true → (f d).state = .dead → Dies S (f d)) (hm : q'.messages = q.messages)
    (hi : q'.issued = q.issued) (hdef : q'.deferred = q.deferred) (hids : q'.ids = q.ids) : Carries S q q' := by
  refine ⟨fun d' hd' => ?_, hm, hi, hdef, hids⟩
  rw [hd] at hd'
  obtain ⟨d, hmem, rfl⟩ := mem_update.mp hd'
  refine ⟨d, hmem, ?_⟩
  by_cases hp : p d = true
  · rw [if_pos hp]
    exact ⟨hid d, hmessage d, hchannel d, fun hdead => .inr (hdies d hmem hp hdead)⟩
  · rw [if_neg hp]
    exact ⟨rfl, rfl, rfl, fun hdead => .inl ⟨hdead, rfl, rfl⟩⟩

/-- A write to other tables. -/
theorem carries_of_deliveries (hd : q'.deliveries = q.deliveries) (hm : q'.messages = q.messages)
    (hi : q'.issued = q.issued) (hdef : q'.deferred = q.deferred) (hids : q'.ids = q.ids) : Carries [] q q' :=
  ⟨fun d' hd' => ⟨d', hd ▸ hd', rfl, rfl, rfl, fun hdead => .inl ⟨hdead, rfl, rfl⟩⟩, hm, hi, hdef, hids⟩

/-- An update of rows that are active leaves the dead ones. -/
theorem dead_mem_update (hp : ∀ d ∈ q.deliveries, p d = true → d.state ≠ .dead) (hd : d ∈ q.deliveries)
    (hdead : d.state = .dead) : d ∈ update q.deliveries p f := by
  refine mem_update.mpr ⟨d, hd, ?_⟩
  rw [if_neg fun h => hp d hd h hdead]

/-! ## New messages and deliveries -/

section Enqueued

variable {S : List String} {q q' : Queue} {key : String} {m : Message} {new : List Delivery}

theorem Queue.Enqueued.message_mem (h : q.Enqueued key q' m new) {x : Message} (hx : x ∈ q.messages) :
    x ∈ q'.messages := by
  rw [h.messages]
  exact mem_append_left _ hx

variable {d : Delivery}

theorem Queue.Enqueued.delivery_mem (h : q.Enqueued key q' m new) (hd : d ∈ q.deliveries) : d ∈ q'.deliveries := by
  rw [h.deliveries]
  exact mem_append_left _ hd

theorem Queue.Enqueued.cases_delivery (h : q.Enqueued key q' m new) (hd : d ∈ q'.deliveries) :
    d ∈ q.deliveries ∨ (d.state = .pending ∧ d.messageID = m.id ∧ d.id ∈ q.ids) := by
  rw [h.deliveries] at hd
  exact (mem_append.mp hd).imp_right (h.pending d)

theorem Linked.enqueued {id channelID : String} (h : Linked q id channelID eventKind) (he : q.Enqueued key q' m new) :
    Linked q' id channelID eventKind := by
  refine ⟨fun hmem => h.spent (he.ids.subset hmem), fun d hd hid => ?_⟩
  obtain hd | ⟨-, -, hdrawn⟩ := he.cases_delivery hd
  · obtain ⟨hchannel, x, hx, hxid, hkind⟩ := h.row d hd hid
    exact ⟨hchannel, x, he.message_mem hx, hxid, hkind⟩
  · exact absurd (hid ▸ hdrawn) h.spent

/-- A failure of the new state is a failure of the old one. -/
theorem Queue.Enqueued.failed (he : q.Enqueued key q' m new)
    (hmessage : ∀ d ∈ q.deliveries, ∃ x ∈ q.messages, x.id = d.messageID) (h : Failed q' d) : Failed q d := by
  obtain hd | ⟨hpending, -⟩ := he.cases_delivery h.mem
  · obtain ⟨x, hx, hid, hkind⟩ := h.message
    refine ⟨hd, h.dead, x, ?_, hid, hkind⟩
    rw [he.messages] at hx
    obtain hx | hx := Table.mem_snoc.mp hx
    · exact hx
    · obtain ⟨y, hy, hyid⟩ := hmessage d hd
      rw [hx] at hid
      exact absurd (hyid.trans hid.symm) (he.fresh y hy).1
  · rw [h.dead] at hpending
    cases hpending

theorem NoticesOk.enqueued (h : NoticesOk S q) (he : q.Enqueued key q' m new) : NoticesOk S q' := by
  refine ⟨?_, ?_, fun d hd => ?_, fun lease hl => ?_, fun d hd hdead => ?_, fun d hfailed hS => ?_⟩
  · rw [he.messages]
    exact h.ids.append fun x hx => (he.fresh x hx).1
  · rw [he.messages]
    exact h.keys.append fun x hx => (he.fresh x hx).2
  · obtain hd | ⟨-, hid, -⟩ := he.cases_delivery hd
    · obtain ⟨x, hx, hxid⟩ := h.message d hd
      exact ⟨x, he.message_mem hx, hxid⟩
    · refine ⟨m, ?_, hid.symm⟩
      rw [he.messages]
      exact mem_concat_self
  · rw [he.issued] at hl
    exact (h.leases lease hl).enqueued he
  · obtain hd | ⟨hpending, -⟩ := he.cases_delivery hd
    · exact h.times d hd hdead
    · rw [hdead] at hpending
      cases hpending
  · obtain ⟨x, hx, hkey⟩ | hrest := h.accounted d (he.failed h.message hfailed) hS
    · exact .inl ⟨x, he.message_mem hx, hkey⟩
    · rw [he.deferred]
      exact .inr hrest

/-- The new message is the notice of a failure, or no notice at all. -/
theorem Queue.Enqueued.adds (he : q.Enqueued key q' m new)
    (hkey : IsNoticeKey key → ∃ d, Failed q' d ∧ key = d.noticeKey) : Adds q q' := by
  refine ⟨fun _ hx => he.message_mem hx, fun x hx hnew hnotice => ?_⟩
  rw [he.messages] at hx
  obtain hx | hx := Table.mem_snoc.mp hx
  · exact absurd hx hnew
  · rw [hx, he.key] at hnotice ⊢
    exact hkey hnotice

end Enqueued

/-! ## The notice of one failure -/

section Notice

variable {q q' : Queue} {d : Delivery}

/-- `failureMessage` with the key of a failure: afterwards the failure has its notice. -/
theorem failureMessage_notice {observedAt : Int} (hok : NoticesOk S q) (hfailed : Failed q d)
    (hwindow : failureWindow (observedTime observedAt (clock 0)) = storedWindow (d.completedAt.getD 0))
    (h : q.failureMessage d.channelID d.errorCode observedAt clock = .ok q') :
    NoticesOk S q' ∧ Adds q q' ∧ Noticed q' d ∧ (∀ r ∈ q.deliveries, r ∈ q'.deliveries) ∧
      (∀ r, Failed q' r → Failed q r) ∧
      ∀ id channelID eventKind, Linked q id channelID eventKind → Linked q' id channelID eventKind := by
  unfold Queue.failureMessage at h
  rw [hwindow] at h
  change (if q.hasSource d.noticeKey = true then _ else _) = _ at h
  split at h
  · next hsource =>
    cases h
    obtain ⟨m, hm, hkey⟩ := any_eq_true.mp hsource
    exact ⟨hok, Adds.refl _, ⟨m, hm, of_decide_eq_true hkey⟩, fun _ h => h, fun _ h => h, fun _ _ _ h => h⟩
  · obtain ⟨-, m, new, he⟩ := Queue.enqueueTx_exit h
    have hfailed' : Failed q' d := hfailed.of_message_mem (he.delivery_mem hfailed.mem) fun _ hx => he.message_mem hx
    refine ⟨hok.enqueued he, he.adds fun _ => ⟨d, hfailed', rfl⟩, ⟨m, ?_, he.key⟩,
      fun _ hr => he.delivery_mem hr, fun _ hr => he.failed hok.message hr, fun _ _ _ hl => hl.enqueued he⟩
    rw [he.messages]
    exact mem_concat_self

/-- What a transaction that reports failures leaves as it is. -/
structure Reports (q q' : Queue) : Prop where
  adds : Adds q q'
  dead : ∀ d ∈ q.deliveries, d.state = .dead → d ∈ q'.deliveries
  linked : ∀ id channelID eventKind, Linked q id channelID eventKind → Linked q' id channelID eventKind

theorem Reports.refl (q : Queue) : Reports q q := ⟨Adds.refl q, fun _ h _ => h, fun _ _ _ h => h⟩

theorem Reports.defer (q : Queue) (S : List String) : Reports q { q with deferred := q.deferred ++ S } :=
  ⟨Adds.of_messages rfl, fun _ hr _ => hr, fun _ _ _ hl => ⟨hl.spent, hl.row⟩⟩

theorem Reports.trans (h : Reports q q₁) (h' : Reports q₁ q') : Reports q q' :=
  ⟨h.adds.trans h'.adds h'.dead, fun d hd hdead => h'.dead d (h.dead d hd hdead) hdead,
    fun id channelID eventKind hl => h'.linked id channelID eventKind (h.linked id channelID eventKind hl)⟩

/-- `deferCapacityFailure` ends the exemption of the delivery that has died. -/
theorem deferCapacityFailure_notice (hok : NoticesOk [d.id] q) (hfailed : Failed q d)
    (hunique : ∀ r ∈ q.deliveries, r.id = d.id → r = d)
    (hwindow : failureWindow (clock 0) = storedWindow (d.completedAt.getD 0))
    (h : q.deferCapacityFailure d.id d.channelID d.errorCode clock = .ok q') : NoticesOk [] q' ∧ Reports q q' := by
  obtain h | rfl := Queue.deferCapacityFailure_exit h
  · obtain ⟨hok', hadds, hnoticed, hmem, hfailed', hlinked⟩ :=
      failureMessage_notice hok hfailed (by rw [observedTime_zero]; exact hwindow) h
    refine ⟨⟨hok'.ids, hok'.keys, hok'.message, hok'.leases, hok'.times, fun r hr _ => ?_⟩,
      hadds, fun r hr _ => hmem r hr, hlinked⟩
    by_cases hid : r.id = d.id
    · rw [hunique r (hfailed' r hr).mem hid]
      exact .inl hnoticed
    · exact hok'.accounted r hr (by simpa using hid)
  · exact ⟨hok.defer, Reports.defer q _⟩

end Notice

/-! ## Transactions in which a delivery dies -/

section Dying

variable {q q' : Queue}

theorem Carries.reports (h : Carries S q q') (hdead : ∀ d ∈ q.deliveries, d.state = .dead → d ∈ q'.deliveries) :
    Reports q q' :=
  ⟨Adds.of_messages h.messages, hdead, fun _ _ _ hl => hl.carries h⟩

variable {channelID id : String} {lease : DeliveryLease} {result : SendResult} {jitter : Option Nat}

/-- A delivery of another kind than a notice has failed when it is dead. -/
theorem Linked.failed (h : Linked q id channelID eventKind) (hkind : eventKind ≠ .notificationDeliveryFailed)
    (hd : d ∈ q.deliveries) (hid : d.id = id) (hdead : d.state = .dead) : Failed q d := by
  obtain ⟨-, m, hm, hmid, hmkind⟩ := h.row d hd hid
  exact ⟨hd, hdead, m, hm, hmid, hmkind ▸ hkind⟩

/-- A delivery ends, and its notice is written when it is dead: the common form of completion and of the
expiry of a lease. -/
theorem settle_notice {errorCode : String} (hok : NoticesOk [] q) (hlinked : Linked q id channelID eventKind)
    (hledger : q₁.Ok) (hc : Carries [id] q q₁) (hreports : Reports q q₁) (hnow : 0 ≤ now)
    (hwindow : failureWindow (clock 0) = failureWindow now) (dead : Prop) [Decidable dead]
    (hrow : ∃ d ∈ q₁.deliveries, d.id = id ∧ (dead → d.state = .dead ∧ d.errorCode = errorCode ∧
      d.completedAt = some (unixMilli now)) ∧ (¬ dead → d.state ≠ .dead))
    (h : (if dead ∧ eventKind ≠ .notificationDeliveryFailed then
      q₁.deferCapacityFailure id channelID errorCode clock else .ok q₁) = .ok q') :
    NoticesOk [] q' ∧ Reports q q' := by
  have hok₁ := hok.carries hc
  have hlinked₁ := hreports.linked id channelID eventKind hlinked
  obtain ⟨d, hd, hid, hdead, halive⟩ := hrow
  have hunique : ∀ r ∈ q₁.deliveries, r.id = id → r = d := fun r hr hrid =>
    Queue.eq_of_id hledger hr hd (hrid.trans hid.symm)
  split at h
  · next hcond =>
    obtain ⟨hstate, hcode, htime⟩ := hdead hcond.1
    have hfailed := hlinked₁.failed hcond.2 hd hid hstate
    subst hid hcode
    rw [← (hlinked₁.row d hd rfl).1] at h
    obtain ⟨hok', hreports'⟩ := deferCapacityFailure_notice hok₁ hfailed hunique (by
      rw [htime, Option.getD_some, storedWindow_unixMilli hnow]
      exact hwindow) h
    exact ⟨hok', hreports.trans hreports'⟩
  · next hcond =>
    cases h
    refine ⟨hok₁.close fun r hr hS => ?_, hreports⟩
    have hrid := mem_singleton.mp hS
    rw [hunique r hr.mem hrid] at hr
    by_cases hdying : dead
    · have hkind : eventKind = .notificationDeliveryFailed := by
        by_contra hne
        exact hcond ⟨hdying, hne⟩
      -- a delivery of a notice has not failed
      rw [hkind] at hlinked₁
      obtain ⟨-, m, hm, hmid, hmkind⟩ := hlinked₁.row _ hr.mem hid
      obtain ⟨x, hx, hxid, hxkind⟩ := hr.message
      rw [hok₁.ids.eq_of_key hx hm (hxid.trans hmid.symm)] at hxkind
      exact hxkind hmkind
    · exact halive hdying hr.dead

/-- Active deliveries are settled; those that die are exempt. -/
theorem Settlement.notices (h : Settlement q p f q')
    (hdies : ∀ d ∈ q.deliveries, p d = true → (f d).state = .dead → Dies S (f d)) :
    Carries S q q' ∧ Reports q q' ∧ ∀ d ∈ q.deliveries, p d = true → f d ∈ q'.deliveries := by
  obtain ⟨pa, fa, -, hq'⟩ := h.closes
  rw [hq']
  have hcarries : Carries S q { q with
      health := q'.health, deliveries := update q.deliveries p f, attempts := update q.attempts pa fa } :=
    carries_update rfl h.settles.id h.messageID h.settles.channelID hdies rfl rfl rfl rfl
  refine ⟨hcarries, hcarries.reports fun d hd hdead => dead_mem_update (fun r hr hp hdead => ?_) hd hdead,
    fun d hd hp => mem_update.mpr ⟨d, hd, (if_pos hp).symm⟩⟩
  have := h.settles.active r hr hp
  rw [hdead] at this
  cases this

/-- The recovery of expired leases reports the deliveries that it ends. -/
theorem recoverExpiredTx_notices (hqueue : QueueOk q) (hok : NoticesOk [] q) {reading : Int}
    {failure : Nat → Nat → Int} (hnow : 0 ≤ reading)
    (hwindow : ∀ i, failureWindow (failure i 0) = failureWindow reading)
    (h : q.recoverExpiredTx reading failure = .ok q') : NoticesOk [] q' ∧ Reports q q' := by
  -- what is read of a lease is linked to its delivery
  have hstart : ∀ lease ∈ q.expiredLeases (unixMilli reading),
      Linked q lease.id lease.channelID lease.eventKind := by
    intro lease hl
    obtain ⟨d, hd, hid, -, hchannel, -, m, hm, hkind⟩ := Queue.mem_expiredLeases hl
    refine ⟨hid ▸ hqueue.known d hd, fun r hr hrid => ?_⟩
    rw [Queue.eq_of_id hqueue.ledger hr hd (hrid.trans hid.symm)]
    exact ⟨hchannel, m, mem_of_find?_eq_some hm, by simpa using find?_some hm, hkind⟩
  have hmilli : 0 ≤ unixMilli reading := Int.ediv_nonneg hnow (by decide)
  refine (Queue.recoverExpiredTx_inv (I := fun b => NoticesOk [] b ∧ Reports q b) hqueue.ledger
    ⟨hok, Reports.refl q⟩ ?_ h).2
  rintro lease hl i b b₁ c ⟨hokb, hreports⟩ hledger ⟨hs, d, hd, hid, hexpired⟩ hrest
  obtain ⟨hcarries, hreports₁, hmem⟩ := hs.notices (S := [lease.id]) fun r _ hp hdead => by
    simp only [Bool.and_eq_true, decide_eq_true_eq] at hp
    have hlast : maximumAttempts ≤ lease.attempt := by
      by_contra hlast
      rw [Queue.expired, if_neg hlast] at hdead
      cases hdead
    exact ⟨⟨_, if_pos hlast, hmilli⟩, mem_singleton.mpr hp.1⟩
  obtain ⟨hok', hreports'⟩ := settle_notice hokb (hreports.linked _ _ _ (hstart lease hl))
    hledger hcarries hreports₁ hnow (hwindow i) (maximumAttempts ≤ lease.attempt)
    ⟨_, hmem d hd (by simp [hid, hexpired]), hid, fun hlast => ⟨if_pos hlast, rfl, if_pos hlast⟩, fun hlast => by
      rw [Queue.expired, if_neg hlast]
      exact fun h => nomatch h⟩ hrest
  exact ⟨hok', hreports.trans hreports'⟩

theorem complete_notices (hqueue : QueueOk q) (hok : NoticesOk [] q) {clock : CompleteClock} (hl : lease ∈ q.issued)
    (hnow : 0 ≤ clock.now) (hwindow : failureWindow (clock.failure 0) = failureWindow clock.now)
    (h : q.complete lease result clock jitter = .ok q') : NoticesOk [] q' ∧ Reports q q' := by
  obtain ⟨⟨state, q₁⟩, htx, h⟩ := bind_eq_ok h
  obtain ⟨next, hs, d, hd, hcurrent⟩ := Queue.completeTx_exit hqueue.ledger (fun d hd hid held hheld hhash =>
    ((hqueue.issued lease hl).current d hd hid held hheld hhash).2) htx
  have hmilli : 0 ≤ unixMilli clock.now := Int.ediv_nonneg hnow (by decide)
  obtain ⟨hcarries, hreports, hmem⟩ := hs.notices (S := [lease.id]) fun r _ hp hdead => by
    subst hdead
    exact ⟨⟨_, rfl, hmilli⟩, mem_singleton.mpr (Delivery.leased_of_isCurrent hp).1⟩
  refine settle_notice hok (hok.leases lease hl) ((hs.quiet hqueue.ledger).ok hqueue.ledger) hcarries hreports hnow
    hwindow (state = .dead) ⟨_, hmem d hd hcurrent, (Delivery.leased_of_isCurrent hcurrent).1, fun hdead => ?_,
      fun hne => hne⟩ h
  subst hdead
  exact ⟨rfl, rfl, rfl⟩

end Dying

/-! ## The other transactions -/

section Others

variable {q q' : Queue}

/-- `ReconcileFailures` reads failures without a notice. -/
theorem mem_missingFailureMessages {f : String × String × Int} (h : f ∈ q.missingFailureMessages) :
    ∃ d, Failed q d ∧ d.completedAt = some f.2.2 ∧ d.channelID = f.1 ∧ d.errorCode = f.2.1 := by
  obtain ⟨⟨d, completed⟩, hmem, rfl⟩ := mem_map.mp h
  have hmem := (mem_insertionSort _).mp (mem_of_mem_take hmem)
  obtain ⟨r, hr, hmissing⟩ := mem_filterMap.mp hmem
  split at hmissing
  · next m completed' hm hstate hcompleted =>
    split at hmissing
    · next hcond =>
      cases hmissing
      exact ⟨d, ⟨hr, hstate, m, mem_of_find?_eq_some hm, by simpa using find?_some hm, hcond.1⟩,
        hcompleted, rfl, rfl⟩
    · cases hmissing
  · cases hmissing

/-- The loop of `ReconcileFailures` writes the notices of the failures that it goes through, and of
nothing else; it ends with all of them written, or with a full queue. -/
theorem reconcileAll_notices {clock : Nat → Nat → Int} {missing : List ((String × String × Int) × Nat)}
    (hok : NoticesOk [] q)
    (hmissing : ∀ f ∈ missing, ∃ d, Failed q d ∧ d.completedAt = some f.1.2.2 ∧ d.channelID = f.1.1 ∧
      d.errorCode = f.1.2.1) (h : Queue.reconcileAll clock missing q = .ok q') :
    NoticesOk [] q' ∧ Reports q q' ∧ (∀ r, Failed q' r → Failed q r) ∧
      ((∀ f ∈ missing, q'.hasSource (failureKey f.1.1 f.1.2.1 (storedWindow f.1.2.2)) = true) ∨
        ∃ f ∈ missing, q'.failureMessage f.1.1 f.1.2.1 (f.1.2.2 * millisecond) (clock f.2) =
          .error .queueCapacity) := by
  induction missing generalizing q with
  | nil =>
    cases h
    exact ⟨hok, Reports.refl _, fun _ h => h, .inl fun _ hf => nomatch hf⟩
  | cons f rest ih =>
    obtain ⟨⟨channelID, errorCode, completed⟩, i⟩ := f
    obtain ⟨d, hfailed, htime, rfl, rfl⟩ := hmissing _ mem_cons_self
    unfold Queue.reconcileAll at h
    split at h
    · next hfull =>
      cases h
      exact ⟨hok, Reports.refl _, fun _ h => h, .inr ⟨_, mem_cons_self, hfull⟩⟩
    · cases h
    · next q₁ hmessage =>
      obtain ⟨completed', hcompleted, hnonneg⟩ := hok.times d hfailed.mem hfailed.dead
      rw [htime] at hcompleted
      cases hcompleted
      obtain ⟨hok₁, hadds, hnoticed, hmem, hback, hlinked⟩ := failureMessage_notice hok hfailed (by
        rw [observedTime_stored hnonneg, failureWindow_stored hnonneg, htime, Option.getD_some]) hmessage
      have hreports : Reports q q₁ := ⟨hadds, fun r hr _ => hmem r hr, hlinked⟩
      have hrest : ∀ f ∈ rest, ∃ d, Failed q₁ d ∧ d.completedAt = some f.1.2.2 ∧ d.channelID = f.1.1 ∧
          d.errorCode = f.1.2.1 := by
        intro f hf
        obtain ⟨r, hr, hfacts⟩ := hmissing f (mem_cons_of_mem _ hf)
        exact ⟨r, hr.of_message_mem (hmem r hr.mem) hadds.kept, hfacts⟩
      obtain ⟨hok', hreports', hback', hend⟩ := ih hok₁ hrest h
      refine ⟨hok', hreports.trans hreports', fun r hr => hback r (hback' r hr),
        hend.imp (fun hall f hf => ?_) fun ⟨f, hf, hfull⟩ => ⟨f, mem_cons_of_mem _ hf, hfull⟩⟩
      obtain rfl | hf := mem_cons.mp hf
      · obtain ⟨m, hm, hkey⟩ := hnoticed
        refine any_eq_true.mpr ⟨m, hreports'.adds.kept m hm, decide_eq_true ?_⟩
        rw [hkey]
        unfold Delivery.noticeKey
        rw [htime, Option.getD_some]
      · exact hall f hf

variable {now reading : Int} {clock : Nat → Int} {id : String} {workerID : String}

/-- A message without deliveries and without a failure may go. -/
theorem prune_notices (hqueue : QueueOk q) (hok : NoticesOk [] q) (h : q.prune now = .ok q') :
    NoticesOk [] q' ∧ (∀ m ∈ q'.messages, m ∈ q.messages) ∧
      ∀ d, Failed q' d → ∀ m ∈ q.messages, m.sourceKey = d.noticeKey → m ∈ q'.messages := by
  obtain ⟨q₁, hchains, h⟩ := bind_eq_ok h
  have hthin := Queue.pruneRounds_thins hqueue.ledger hchains
  have hcarries : Carries [] q q₁ := by
    have hrest := hthin.rest
    refine ⟨fun d' hd' => ?_, by rw [hrest], by rw [hrest], by rw [hrest], by rw [hrest]⟩
    obtain ⟨d, hd, he⟩ := hthin.rows d' hd'
    refine ⟨d, hd, ?_⟩
    rw [he]
    exact ⟨rfl, rfl, rfl, fun hdead => .inl ⟨hdead, rfl, rfl⟩⟩
  have hok₁ := hok.carries hcarries
  cases h
  -- what is deleted has no delivery, and is not the notice of a failure
  have hgone : ∀ m ∈ q₁.messages, (q₁.expiredMessages (unixMilli now)).contains m.id = true →
      (∀ d ∈ q₁.deliveries, d.messageID ≠ m.id) ∧
        ∀ d ∈ q₁.deliveries, d.state = .dead → m.sourceKey ≠ d.noticeKey := by
    intro m hm hmem
    rw [contains_iff_mem] at hmem
    obtain ⟨x, hx, hxid⟩ := mem_map.mp hmem
    have hx := (mem_insertionSort _).mp (mem_of_mem_take hx)
    obtain ⟨hx, hexpired⟩ := mem_filter.mp hx
    obtain rfl : x = m := hok₁.ids.eq_of_key hx hm hxid
    simp only [Bool.and_eq_true, Bool.not_eq_true'] at hexpired
    obtain ⟨⟨hnone, hnotice⟩, -⟩ := hexpired
    refine ⟨fun d hd => of_decide_eq_false (any_false hnone d hd), fun d hd hdead hkey => ?_⟩
    have := any_false hnotice d hd
    obtain ⟨completed, hcompleted, -⟩ := hok₁.times d hd hdead
    unfold Delivery.noticeKey at hkey
    simp [hdead, hcompleted, hkey] at this
  have hkeep : ∀ m ∈ q₁.messages,
      (∃ d ∈ q₁.deliveries, d.messageID = m.id ∨ (d.state = .dead ∧ m.sourceKey = d.noticeKey)) →
      m ∈ q₁.messages.filter fun m => !(q₁.expiredMessages (unixMilli now)).contains m.id := by
    rintro m hm ⟨d, hd, hcase⟩
    refine mem_filter.mpr ⟨hm, ?_⟩
    rw [Bool.not_eq_true', Bool.eq_false_iff]
    intro hcontains
    obtain ⟨hnone, hnotice⟩ := hgone m hm hcontains
    obtain hid | ⟨hdead, hkey⟩ := hcase
    · exact hnone d hd hid
    · exact hnotice d hd hdead hkey
  refine ⟨⟨hok₁.ids.filter _, hok₁.keys.filter _, fun d hd => ?_, fun lease hl => ?_, hok₁.times,
    fun d hfailed _ => ?_⟩, fun m hm => hcarries.messages ▸ (mem_filter.mp hm).1,
    fun d hfailed m hm hkey => hkeep m (hcarries.messages.symm ▸ hm) ⟨d, hfailed.mem, .inr ⟨hfailed.dead, hkey⟩⟩⟩
  · obtain ⟨m, hm, hid⟩ := hok₁.message d hd
    exact ⟨m, hkeep m hm ⟨d, hd, .inl hid.symm⟩, hid⟩
  · have hlinked := hok₁.leases lease hl
    refine ⟨hlinked.spent, fun d hd hid => ?_⟩
    obtain ⟨hchannel, m, hm, hmid, hkind⟩ := hlinked.row d hd hid
    exact ⟨hchannel, m, hkeep m hm ⟨d, hd, .inl hmid.symm⟩, hmid, hkind⟩
  · have hfailed₁ : Failed q₁ d := by
      obtain ⟨m, hm, hid, hkind⟩ := hfailed.message
      exact ⟨hfailed.mem, hfailed.dead, m, (mem_filter.mp hm).1, hid, hkind⟩
    obtain ⟨m, hm, hkey⟩ | hrest := hok₁.accounted d hfailed₁ not_mem_nil
    · exact .inl ⟨m, hkeep m hm ⟨d, hfailed.mem, .inr ⟨hfailed.dead, hkey⟩⟩, hkey⟩
    · exact .inr hrest

section

variable (hok : NoticesOk [] q)

include hok

/-- A message with another key than a notice. -/
theorem enqueueTx_notices (hkey : ¬ IsNoticeKey input.request.sourceKey)
    (h : q.enqueueTx input clock = .ok q') : NoticesOk [] q' ∧ Reports q q' := by
  obtain ⟨-, m, new, he⟩ := Queue.enqueueTx_exit h
  exact ⟨hok.enqueued he, he.adds fun hnotice => absurd hnotice hkey, fun _ hd _ => he.delivery_mem hd,
    fun _ _ _ hl => hl.enqueued he⟩

theorem enqueue_notices {request : Request} (hkey : ¬ IsNoticeKey request.sourceKey)
    (h : q.enqueue request clock = .ok q') : NoticesOk [] q' ∧ Reports q q' := by
  unfold Queue.enqueue at h
  split at h
  · cases h
    exact ⟨hok, Reports.refl _⟩
  · exact enqueueTx_notices hok hkey h

theorem enqueueBatch_notices {requests : List Request} {clock : Nat → Nat → Int}
    (hkeys : ∀ request ∈ requests, ¬ IsNoticeKey request.sourceKey)
    (h : q.enqueueBatch requests clock = .ok q') : NoticesOk [] q' ∧ Reports q q' := by
  unfold Queue.enqueueBatch at h
  dsimp only at h
  split_ifs at h
  · cases h
    exact ⟨hok, Reports.refl _⟩
  · obtain ⟨-, -, h⟩ := bind_eq_ok h
    refine foldlM_inv (I := fun b => NoticesOk [] b ∧ Reports q b) h ⟨hok, Reports.refl q⟩ ?_
    rintro ⟨request, i⟩ hx b c ⟨hokb, hreports⟩ hstep
    obtain ⟨hok', hreports'⟩ := enqueueTx_notices hokb (hkeys request (fst_mem_of_mem_zipIdx hx)) hstep
    exact ⟨hok', hreports.trans hreports'⟩

theorem testChannel_notices {sourceKey : String} (hkey : ¬ IsNoticeKey sourceKey)
    (h : q.testChannel id sourceKey clock = .ok q') : NoticesOk [] q' ∧ Reports q q' := by
  unfold Queue.testChannel at h
  split at h
  · cases h
    exact ⟨hok, Reports.refl _⟩
  · obtain ⟨channel, -, h⟩ := bind_eq_ok h
    exact enqueueTx_notices hok hkey h

/-- A new delivery of a message that is stored. -/
theorem insertDelivery_notices (hmessage : ∃ m ∈ q.messages, m.id = messageID)
    (h : q.insertDelivery messageID channel retryOf now = .ok q') : NoticesOk [] q' ∧ Reports q q' := by
  obtain ⟨-, d, hq', hpending, hmid, hids⟩ := Queue.insertDelivery_exit h
  have hmessages : q'.messages = q.messages := by rw [hq']
  have hmem : ∀ r ∈ q'.deliveries, r ∈ q.deliveries ∨ r = d := by
    rw [hq']
    exact fun r hr => (mem_append.mp hr).imp_right mem_singleton.mp
  have hlinked : ∀ id channelID eventKind, Linked q id channelID eventKind → Linked q' id channelID eventKind := by
    intro id channelID eventKind hl
    have hspent := hl.spent
    rw [hids] at hspent
    refine ⟨fun hmem => hspent (mem_cons_of_mem _ hmem), fun r hr hid => ?_⟩
    rw [hmessages]
    obtain hr | rfl := hmem r hr
    · exact hl.row r hr hid
    · exact absurd (hid ▸ mem_cons_self) hspent
  have hdead : ∀ r ∈ q'.deliveries, r.state = .dead → r ∈ q.deliveries := by
    intro r hr hdead
    obtain hr | rfl := hmem r hr
    · exact hr
    · rw [hdead] at hpending
      cases hpending
  refine ⟨⟨hmessages ▸ hok.ids, hmessages ▸ hok.keys, fun r hr => ?_, fun lease hl => ?_,
    fun r hr hrd => hok.times r (hdead r hr hrd) hrd, fun r hfailed hS => ?_⟩,
    Adds.of_messages hmessages, fun r hr _ => ?_, hlinked⟩
  · rw [hmessages]
    obtain hr | rfl := hmem r hr
    · exact hok.message r hr
    · exact hmid ▸ hmessage
  · have hissued : q'.issued = q.issued := by rw [hq']
    exact hlinked _ _ _ (hok.leases lease (hissued ▸ hl))
  · have hdeferred : q'.deferred = q.deferred := by rw [hq']
    unfold Noticed
    rw [hmessages, hdeferred]
    exact hok.accounted r ⟨hdead r hfailed.mem hfailed.dead, hfailed.dead, hmessages ▸ hfailed.message⟩ hS
  · rw [hq']
    exact mem_append_left _ hr

theorem retryDelivery_notices {confirmDuplicate : Bool}
    (h : q.retryDelivery id confirmDuplicate now = .ok q') : NoticesOk [] q' ∧ Reports q q' := by
  unfold Queue.retryDelivery at h
  split at h
  · cases h
  split at h
  · cases h
  rename_i source hsource
  split_ifs at h
  · cases h
    exact ⟨hok, Reports.refl _⟩
  · obtain ⟨selected, -, h⟩ := bind_eq_ok h
    obtain ⟨-, -, h⟩ := bind_eq_ok h
    exact insertDelivery_notices hok (hok.message source (mem_of_find?_eq_some hsource)) h

end

/-- A lease is granted: the delivery is linked to the event that the lease names. -/
theorem leaseDelivery_notices (hqueue : QueueOk q) (hok : NoticesOk [] q) (hdue : q.Due now d eventKind)
    {lease : Option DeliveryLease} (h : q.leaseDelivery d eventKind workerID reading = .ok (lease, q')) :
    NoticesOk [] { q' with issued := q'.issued ++ lease.toList } ∧
      Reports q { q' with issued := q'.issued ++ lease.toList } := by
  obtain ⟨hash, expiresAt, rfl, -, hq', -⟩ := Queue.leaseDelivery_exit hqueue.ledger hdue h
  have hids : q'.ids = q.ids := by rw [hq']
  have hcarries : Carries [] q q' :=
    carries_update (congrArg Queue.deliveries hq') (fun _ => rfl) (fun _ => rfl) (fun _ => rfl)
      (fun _ _ _ hdead => (nomatch hdead)) (by rw [hq']) (by rw [hq']) (by rw [hq']) hids
  have hlinked : Linked q d.id d.channelID eventKind := by
    obtain ⟨m, hm, hkind⟩ := hdue.message
    refine ⟨hqueue.known d hdue.mem, fun r hr hid => ?_⟩
    rw [Queue.eq_of_id hqueue.ledger hr hdue.mem hid]
    exact ⟨rfl, m, mem_of_find?_eq_some hm, by simpa using find?_some hm, hkind⟩
  have hreports := hcarries.reports fun r hr hdead => by
    rw [hq']
    refine dead_mem_update (fun x hx hp hdead => ?_) hr hdead
    rw [Queue.eq_of_id hqueue.ledger hx hdue.mem (of_decide_eq_true hp), hdue.pending] at hdead
    cases hdead
  have hok' := hok.carries hcarries
  refine ⟨⟨hok'.ids, hok'.keys, hok'.message, fun ℓ hℓ => ?_, hok'.times,
    fun r hr => hok'.accounted r ⟨hr.mem, hr.dead, hr.message⟩⟩,
    ⟨hreports.adds.kept, fun m hm hnew hkey => ?_⟩, hreports.dead, fun id channelID kind hl => ?_⟩
  · obtain hℓ | hℓ := Table.mem_snoc.mp hℓ
    · exact ⟨(hok'.leases ℓ hℓ).spent, (hok'.leases ℓ hℓ).row⟩
    · have hlinked' := hreports.linked _ _ _ hlinked
      rw [hℓ]
      exact ⟨hlinked'.spent, hlinked'.row⟩
  · exact absurd (hcarries.messages ▸ hm) hnew
  · have hl' := hreports.linked id channelID kind hl
    exact ⟨hl'.spent, hl'.row⟩

theorem claim_notices (hqueue : QueueOk q) (hok : NoticesOk [] q) {clock : ClaimClock} (hnow : 0 ≤ clock.recover)
    (hwindow : ∀ i, failureWindow (clock.failure i 0) = failureWindow clock.recover)
    (h : q.claim workerID clock = .ok q') : NoticesOk [] q' ∧ Reports q q' := by
  obtain ⟨⟨lease, q₂⟩, htx, h⟩ := bind_eq_ok h
  cases h
  obtain ⟨q₁, hrecover, hrest⟩ := Queue.claimTx_exit htx
  obtain ⟨hok₁, hreports₁⟩ := recoverExpiredTx_notices hqueue hok hnow hwindow hrecover
  obtain ⟨rfl, rfl⟩ | ⟨d, eventKind, hdue, hlease⟩ := hrest
  · simpa using ⟨hok₁, hreports₁⟩
  · have hquiet := Queue.recoverExpiredTx_quiet hqueue.ledger hrecover
    obtain ⟨hok', hreports'⟩ := leaseDelivery_notices (hqueue.quiet hquiet) hok₁ hdue hlease
    exact ⟨hok', hreports₁.trans hreports'⟩

end Others

/-! ## Runs -/

/-- The readings of the clock in a transaction in which a delivery dies lie in one window, no time is
before 1970, and the keys of the other messages are not keys of notices. -/
def QueueEvent.Careful : QueueEvent → Prop
  | .enqueue request _ => ¬ IsNoticeKey request.sourceKey
  | .enqueueBatch requests _ => ∀ request ∈ requests, ¬ IsNoticeKey request.sourceKey
  | .testChannel _ sourceKey _ => ¬ IsNoticeKey sourceKey
  | .claim _ clock =>
    0 ≤ clock.recover ∧ ∀ i, failureWindow (clock.failure i 0) = failureWindow clock.recover
  | .complete _ _ clock _ => 0 ≤ clock.now ∧ failureWindow (clock.failure 0) = failureWindow clock.now
  | .reconcileRestore now => 0 ≤ now
  | _ => True

/-- What a transaction does to notices: it creates them for failures, and removes none of a failure that
is stored. -/
structure NoticeStep (q q' : Queue) : Prop where
  created : ∀ m ∈ q'.messages, m ∉ q.messages → IsNoticeKey m.sourceKey →
    ∃ d, Failed q' d ∧ m.sourceKey = d.noticeKey
  kept : ∀ d, Failed q' d → ∀ m ∈ q.messages, m.sourceKey = d.noticeKey → m ∈ q'.messages

theorem Adds.noticeStep (h : Adds q q') : NoticeStep q q' :=
  ⟨h.created, fun _ _ m hm _ => h.kept m hm⟩

theorem notices_step {e : QueueEvent} (hqueue : QueueOk q) (hok : NoticesOk [] q) (hcareful : e.Careful)
    (h : QueueStep q e q') : NoticesOk [] q' ∧ NoticeStep q q' := by
  have hof : NoticesOk [] q' ∧ Reports q q' → NoticesOk [] q' ∧ NoticeStep q q' :=
    fun ⟨hok', hreports⟩ => ⟨hok', hreports.adds.noticeStep⟩
  unfold QueueStep Queue.next at h
  cases e with
  | enqueue request clock => exact hof (enqueue_notices hok hcareful h)
  | enqueueBatch requests clock => exact hof (enqueueBatch_notices hok hcareful h)
  | testChannel id sourceKey clock => exact hof (testChannel_notices hok hcareful h)
  | reconcileFailures clock =>
    obtain ⟨hok', hreports, -, -⟩ := reconcileAll_notices hok (fun f hf =>
      mem_missingFailureMessages (fst_mem_of_mem_zipIdx hf)) h
    exact hof ⟨hok', hreports⟩
  | claim workerID clock => exact hof (claim_notices hqueue hok hcareful.1 hcareful.2 h)
  | complete lease result clock jitter =>
    dsimp only at h
    split at h
    · next hl => exact hof (complete_notices hqueue hok hl hcareful.1 hcareful.2 h)
    · cases h
  | cancelDelivery id now =>
    obtain ⟨p, f, hs, halive⟩ := Queue.cancelDelivery_exit h
    obtain ⟨hcarries, hreports, -⟩ := hs.notices (S := []) fun d _ _ hdead => absurd hdead (halive d)
    exact hof ⟨hok.carries hcarries, hreports⟩
  | retryDelivery id confirmDuplicate now => exact hof (retryDelivery_notices hok h)
  | setEnabled id enabled =>
    obtain ⟨channels, rfl⟩ := Queue.changeChannelState_exit h
    have hcarries : Carries [] q { q with channels } := carries_of_deliveries rfl rfl rfl rfl rfl
    exact hof ⟨hok.carries hcarries, hcarries.reports fun _ hd _ => hd⟩
  | deleteChannel id now =>
    obtain ⟨q₁, hchange, h⟩ := bind_eq_ok h
    obtain ⟨channels, rfl⟩ := Queue.changeChannelState_exit hchange
    cases h
    have hcarries : Carries [] q { q with channels } := carries_of_deliveries rfl rfl rfl rfl rfl
    obtain ⟨p, f, hs, halive⟩ := Queue.cancelChannelDeliveries_exit (q := { q with channels }) hqueue.ledger id now
    obtain ⟨hcarries', hreports, -⟩ := hs.notices (S := []) fun d _ _ hdead => absurd hdead (halive d)
    exact hof ⟨(hok.carries hcarries).carries hcarries', (hcarries.reports fun _ hd _ => hd).trans hreports⟩
  | reconcileRestore now =>
    cases h
    obtain ⟨p, f, hs, hdead⟩ := Queue.reconcileRestore_exit hqueue.ledger now
    obtain ⟨hcarries, hreports, -⟩ := hs.notices fun d hd hp hstate =>
      have ⟨htime, hmem⟩ := hdead d hd hp hstate
      ⟨⟨_, htime, Int.ediv_nonneg hcareful (by decide)⟩, hmem⟩
    exact hof ⟨(hok.carries hcarries).defer, hreports.trans (Reports.defer _ _)⟩
  | prune now =>
    obtain ⟨hok', hsub, hkept⟩ := prune_notices hqueue hok h
    exact ⟨hok', fun m hm hnew => absurd (hsub m hm) hnew, hkept⟩
  | configure settings channels health =>
    cases h
    have hcarries : Carries [] q { q with settings, channels, health } :=
      carries_of_deliveries rfl rfl rfl rfl rfl
    exact hof ⟨hok.carries hcarries, hcarries.reports fun _ hd _ => hd⟩

theorem notices_run {es : List QueueEvent} (hqueue : QueueOk q) (hok : NoticesOk [] q)
    (hcareful : ∀ e ∈ es, e.Careful) (hrun : Lts.Run QueueStep q es q') : QueueOk q' ∧ NoticesOk [] q' := by
  induction hrun with
  | nil => exact ⟨hqueue, hok⟩
  | @snoc es e s s' _ hst ih =>
    obtain ⟨hqueue', hok'⟩ := ih fun x hx => hcareful x (mem_append_left _ hx)
    exact ⟨queueOk_step hqueue' hst,
      (notices_step hqueue' hok' (hcareful e mem_concat_self) hst).1⟩

/-- The notice of a delivery is stored, and there is one. -/
def NoticedOnce (q : Queue) (d : Delivery) : Prop := ∃! m, m ∈ q.messages ∧ m.sourceKey = d.noticeKey

theorem NoticesOk.noticedOnce (h : NoticesOk S q) (hd : Noticed q d) : NoticedOnce q d := by
  obtain ⟨m, hm, hkey⟩ := hd
  refine ⟨m, ⟨hm, hkey⟩, fun x hx => ?_⟩
  exact h.keys.eq_of_key hx.1 hm (hx.2.trans hkey.symm)

/-- When `ReconcileFailures` reads less than its limit, it reads every failure without a notice. -/
theorem Failed.missing (hfailed : Failed q d) (hok : NoticesOk S q) (hnot : ¬ Noticed q d)
    (hlimit : q.missingFailureMessages.length < 64) :
    ∃ completed, d.completedAt = some completed ∧ (d.channelID, d.errorCode, completed) ∈ q.missingFailureMessages := by
  obtain ⟨completed, htime, -⟩ := hok.times d hfailed.mem hfailed.dead
  refine ⟨completed, htime, ?_⟩
  obtain ⟨m, hm, hid, hkind⟩ := hfailed.message
  have hfind : q.message? d.messageID = some m :=
    find?_eq_some_of_unique hm (decide_eq_true hid) fun x hx hxid =>
      hok.ids.eq_of_key hx hm ((of_decide_eq_true hxid).trans hid.symm)
  have hsource : q.hasSource (failureKey d.channelID d.errorCode (storedWindow completed)) = false := by
    rw [Bool.eq_false_iff]
    intro hany
    obtain ⟨x, hx, hkey⟩ := any_eq_true.mp hany
    refine hnot ⟨x, hx, ?_⟩
    unfold Delivery.noticeKey
    rw [htime, Option.getD_some]
    exact of_decide_eq_true hkey
  unfold Queue.missingFailureMessages at hlimit ⊢
  dsimp only at hlimit ⊢
  rw [length_map, length_take] at hlimit
  rw [take_of_length_le (by omega)]
  refine mem_map.mpr ⟨(d, completed), (mem_insertionSort _).mpr (mem_filterMap.mpr ⟨d, hfailed.mem, ?_⟩), rfl⟩
  simp [hfind, hfailed.dead, htime, hkind, hsource]

/-- In every state of a run in which both readings of the clock lie in one window: a failure has its
notice, once, unless the queue was full when it happened or it happened in a restore; no two messages have
one key; a transaction creates notices of failures only, and keeps every notice of a failure that is
stored; and after `ReconcileFailures`, when it reads less than its limit, every failure has its notice,
unless the queue has no room for it. -/
theorem failure_notices {q₀ q : Queue} {es : List QueueEvent} (hstart : QueueStart q₀)
    (hempty : q₀.messages = []) (hcareful : ∀ e ∈ es, e.Careful) (hrun : Lts.Run QueueStep q₀ es q) :
    (∀ d, Failed q d → NoticedOnce q d ∨ d.id ∈ q.deferred) ∧
    Table.Keyed Message.sourceKey q.messages ∧ (∀ e q', e.Careful → QueueStep q e q' → NoticeStep q q') ∧
    ∀ clock q', q.reconcileFailures clock = .ok q' → q.missingFailureMessages.length < 64 →
      (∀ d, Failed q' d → NoticedOnce q' d) ∨ ∃ d, Failed q d ∧ ∃ i, q'.failureMessage d.channelID d.errorCode
          (d.completedAt.getD 0 * millisecond) (clock i) = .error .queueCapacity := by
  have hok₀ : NoticesOk [] q₀ := by
    refine ⟨?_, ?_, ?_, ?_, ?_, fun d hfailed => ?_⟩
    · rw [hempty]
      exact Table.Keyed.nil
    · rw [hempty]
      exact Table.Keyed.nil
    · rw [hstart.deliveries]
      exact fun _ hd => nomatch hd
    · rw [hstart.issued]
      exact fun _ hl => nomatch hl
    · rw [hstart.deliveries]
      exact fun _ hd => nomatch hd
    · have := hfailed.mem
      rw [hstart.deliveries] at this
      cases this
  obtain ⟨hqueue, hok⟩ := notices_run hstart.ok hok₀ hcareful hrun
  refine ⟨fun d hfailed => (hok.accounted d hfailed not_mem_nil).imp_left hok.noticedOnce, hok.keys,
    fun e q' he hst => (notices_step hqueue hok he hst).2, fun clock q' h hlimit => ?_⟩
  obtain ⟨hok', hreports, hfailures, hend⟩ := reconcileAll_notices hok (fun f hf =>
    mem_missingFailureMessages (fst_mem_of_mem_zipIdx hf)) h
  refine hend.imp (fun hall d hfailed' => hok'.noticedOnce ?_) fun ⟨f, hf, hfull⟩ => ?_
  · have hfailed := hfailures d hfailed'
    by_cases hnoticed : Noticed q d
    · obtain ⟨m, hm, hkey⟩ := hnoticed
      exact ⟨m, hreports.adds.kept m hm, hkey⟩
    · obtain ⟨completed, htime, hmem⟩ := hfailed.missing hok hnoticed hlimit
      obtain ⟨i, hi, hget⟩ := List.getElem_of_mem hmem
      obtain ⟨m, hm, hkey⟩ := List.any_eq_true.mp
        (hall (_, i) (List.mem_zipIdx_iff_getElem?.mpr (List.getElem?_eq_some_iff.mpr ⟨hi, hget⟩)))
      refine ⟨m, hm, (of_decide_eq_true hkey).trans ?_⟩
      unfold Delivery.noticeKey
      rw [htime, Option.getD_some]
  · obtain ⟨d, hfailed, htime, hchannel, hcode⟩ := mem_missingFailureMessages (fst_mem_of_mem_zipIdx hf)
    refine ⟨d, hfailed, f.2, ?_⟩
    rw [htime, Option.getD_some, hchannel, hcode]
    exact hfull

/-- The lease of the first delivery of `sampleQueue`, claimed in the last seconds of a window. -/
def lateLease : DeliveryLease := ⟨"d1", "m1", "ops", .alertTriggered, 1, 1, 1, 988000⟩

/-- A delivery dies in the last second of a window; `failure` is the reading for its notice. Failures are
reconciled afterwards. -/
def lateFailure (failure : Int) : List QueueEvent :=
  [alertAt "alert:1" (897 * second), claimAt (898 * second), .complete lateLease { errorCode := "rejected" }
      ⟨899 * second, 899 * second, fun _ => failure⟩ none, .reconcileFailures fun _ _ => 901 * second]

/-- Both readings in one window: the failure has its notice. -/
theorem failure_notices_late : QueueStart sampleQueue ∧ (∀ e ∈ lateFailure (899 * second), e.Careful) ∧
      ∃ q d, Lts.Run QueueStep sampleQueue (lateFailure (899 * second)) q ∧ Failed q d ∧ NoticedOnce q d := by
  have hstart : QueueStart sampleQueue := by decide
  have hcareful : ∀ e ∈ lateFailure (899 * second), e.Careful := by
    unfold lateFailure alertAt claimAt
    simp only [forall_mem_cons, QueueEvent.Careful]
    exact ⟨by decide, ⟨by decide, fun _ => by decide⟩, ⟨by decide, by decide⟩, trivial, fun _ h => nomatch h⟩
  obtain ⟨q, hr, hdeferred, d, hd, hdead, hm⟩ : ∃ q, Lts.Run QueueStep sampleQueue
      (lateFailure (899 * second)) q ∧ q.deferred = [] ∧ ∃ d ∈ q.deliveries, d.state = .dead ∧
      ∃ m ∈ q.messages, m.id = d.messageID ∧ m.eventKind ≠ .notificationDeliveryFailed :=
    by decide +kernel
  have hfailed : Failed q d := ⟨hd, hdead, hm⟩
  obtain ⟨hnoticed, -⟩ := failure_notices hstart rfl hcareful hr
  refine ⟨hstart, hcareful, q, d, hr, hfailed, (hnoticed d hfailed).resolve_right ?_⟩
  rw [hdeferred]
  exact not_mem_nil

/-- The second reading is in the next window: the notice that the transaction writes has the key of no
failure, and `ReconcileFailures` writes another one. The clock does not go back. -/
theorem notice_twice : ∃ q d m m', Lts.Run QueueStep sampleQueue (lateFailure (900 * second)) q ∧
      q.deliveries = [d] ∧ Failed q d ∧ m ∈ q.messages ∧ m' ∈ q.messages ∧
      m.eventKind = .notificationDeliveryFailed ∧ m'.eventKind = .notificationDeliveryFailed ∧
      m.sourceKey = d.noticeKey ∧ IsNoticeKey m'.sourceKey ∧ m'.sourceKey ≠ d.noticeKey := by
  obtain ⟨q, hr, d, hd, honly, hdead, hx, m, hm, m', hm', hrest⟩ : ∃ q, Lts.Run QueueStep sampleQueue
      (lateFailure (900 * second)) q ∧ ∃ d ∈ q.deliveries, q.deliveries = [d] ∧ d.state = .dead ∧
      (∃ x ∈ q.messages, x.id = d.messageID ∧ x.eventKind ≠ .notificationDeliveryFailed) ∧
      ∃ m ∈ q.messages, ∃ m' ∈ q.messages, m.eventKind = .notificationDeliveryFailed ∧
        m'.eventKind = .notificationDeliveryFailed ∧ m.sourceKey = d.noticeKey ∧
        IsNoticeKey m'.sourceKey ∧ m'.sourceKey ≠ d.noticeKey := by decide +kernel
  exact ⟨q, d, m, m', hr, honly, ⟨hd, hdead, hx⟩, hm, hm', hrest⟩

end Beat.Notification
