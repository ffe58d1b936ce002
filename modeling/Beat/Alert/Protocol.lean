import Beat.Alert.Commit

/-!
# The commit protocol

Any number of evaluators, administrators and clock changes on the alert tables, in any order. What
the guards of `CommitTx` achieve together:

* `WorldOk`: the invariant of the tables and of the evaluations under way.
* `LeaseInv`: a lease in the table stands for the last claim of its key, which nothing has touched
  since.
* `commit_protocol`: a key has at most one active event; a commit leaves the row in agreement with
  the event table, raises the version that it was based on, and was made under a lease that was not
  lost; a commit about an old rule or an old incident fails and changes nothing.
-/

namespace Beat.Alert

open List Table Instant

/-- An access of a run, with its outcome. -/
abbrev Entry := AccessEvent × Option EvalError

/-! ## The invariant of the world -/

/-- What an evaluation read is what a table that is in order holds. -/
def AttemptOk (attempt : Attempt) : Prop :=
  (∀ v ∈ attempt.version?, 1 ≤ v) ∧ ∀ x ∈ attempt.incident?, x.id ≠ "" ∧ x.status.isActive

structure WorldOk (w : World) : Prop where
  keyed : Table.Keyed (·.state.key) w.tables.states
  versions : ∀ r ∈ w.tables.states, 1 ≤ r.state.version
  events : EventsOk w.tables.events
  attempts : ∀ a attempt, w.attempts a = some attempt → AttemptOk attempt

variable {attempt : Attempt} {a : Nat} {key : Key} {at_ : Int} {workerID : String} {hash : TokenHash}
  {r : StateRow} {w' : World} {e : Entry}

theorem AttemptOk.of_version {version : Option Int} (h : attempt.version? = version) (hv : ∀ v ∈ version, 1 ≤ v)
    (hi : attempt.incident? = none) : AttemptOk attempt := by
  unfold AttemptOk
  rw [h, hi]
  exact ⟨hv, by simp⟩

theorem AttemptOk.of_none (hv : attempt.version? = none) (hi : attempt.incident? = none) : AttemptOk attempt :=
  AttemptOk.of_version hv (by simp) hi

theorem WorldOk.start (rules : List AlertEvaluationRule) (nodes : List Node)
    (accelerators : List Accelerator) : WorldOk (World.start rules nodes accelerators) :=
  ⟨Table.Keyed.nil, by simp [World.start], EventsOk.empty, fun _ _ h => nomatch h⟩

/-- The evaluations after one of them moved on. -/
theorem attempts_update {attempts : Nat → Option Attempt} {P : Nat → Attempt → Prop}
    (h : ∀ b y, attempts b = some y → P b y) {x : Attempt} (hx : P a x) :
    ∀ b y, Function.update attempts a (some x) b = some y → P b y := by
  intro b y hb
  by_cases hab : b = a
  · subst hab
    rw [Function.update_self] at hb
    cases hb
    exact hx
  · rw [Function.update_of_ne hab] at hb
    exact h b y hb

variable {t' t : Tables} {lease : Lease} {d : Decision} {now : Int} {w : World}

theorem claim_spec {dueAt : Int} (h : claim t key dueAt workerID at_ hash = .ok (t', lease)) :
    lease = ⟨key, hash, at_ + leaseDuration⟩ ∧
      ∃ p : StateRow → Bool, (∀ r, p r = true → r.state.key = key) ∧ (∃ r ∈ t.states, p r = true) ∧
        t' = { t with states := update t.states p fun r =>
          { r with lease := some ⟨hash, unixMilli (at_ + leaseDuration), workerID⟩ } } := by
  unfold claim at h
  simp only at h
  split_ifs at h with hbad hany
  cases h
  refine ⟨rfl, _, fun r hr => ?_, any_eq_true.mp hany, rfl⟩
  simp only [Bool.and_eq_true, decide_eq_true_eq] at hr
  exact hr.1.1.1

theorem release_spec (h : release t lease = .ok t') :
    ∃ p : StateRow → Bool, (∀ r, p r = true → r.state.key = lease.key) ∧ (∃ r ∈ t.states, p r = true) ∧
      t' = { t with states := update t.states p fun r => { r with lease := none } } := by
  unfold release at h
  simp only at h
  split_ifs at h with hany
  cases h
  refine ⟨_, fun r hr => ?_, any_eq_true.mp hany, rfl⟩
  simp only [Bool.and_eq_true, decide_eq_true_eq] at hr
  exact hr.1

theorem commitMatching_key (h : commitMatching d now r = true) : r.state.key = d.lease.key := by
  simp only [commitMatching, Bool.and_eq_true, decide_eq_true_eq] at h
  exact h.1.1

theorem commitMatching_version (h : commitMatching d now r = true) : r.state.version = d.input.previous.version := by
  simp only [commitMatching, Bool.and_eq_true, decide_eq_true_eq] at h
  exact h.1.2

/-- The row that a commit writes. -/
theorem committedRow_fields (d : Decision) : (storedState d.result.state).key = d.lease.key ∧
      (storedState d.result.state).version = d.input.previous.version + 1 :=
  ⟨d.key_eq, (step_written d.step_eq).1⟩

/-- A commit is a step of the state table. -/
theorem Committed.statesStep (h : Committed t d now t') : StatesStep t.states t'.states := by
  obtain ⟨hkey, hver⟩ := committedRow_fields d
  rw [h.states]
  refine StatesStep.update (fun r _ hp => ⟨?_, .inr ?_⟩) (fun _ _ _ _ hl => nomatch hl)
  · exact hkey.trans (commitMatching_key hp).symm
  · have := commitMatching_version hp
    show r.state.version < (storedState d.result.state).version
    omega

/-- A claim changes leases only. -/
theorem claim_states {dueAt : Int} (h : claim t key dueAt workerID at_ hash = .ok (t', lease)) :
    (Table.Keyed (·.state.key) t.states → Table.Keyed (·.state.key) t'.states) ∧
      ((∀ r ∈ t.states, 1 ≤ r.state.version) → ∀ r ∈ t'.states, 1 ≤ r.state.version) ∧
      ∀ r ∈ t.states, ∃ r' ∈ t'.states, r'.state = r.state := by
  obtain ⟨-, p, -, -, rfl⟩ := claim_spec h
  refine ⟨fun hk => hk.update fun _ _ _ => rfl, fun hv r' hr' => ?_, fun r hr => ?_⟩
  · obtain ⟨r, hr, rfl⟩ := mem_update.mp hr'
    split <;> exact hv r hr
  · refine ⟨_, mem_update.mpr ⟨r, hr, rfl⟩, ?_⟩
    split <;> rfl

/-- The successful commit of an evaluation, from a world that is in order. -/
theorem WorldOk.committed (hok : WorldOk w) {recheck : Except EvalError Unit} (ha : w.attempts a = some (.decided d))
    (h : commitTx w.tables d.change now recheck = .ok t) : Committed w.tables d now t := by
  obtain ⟨hv, hi⟩ := hok.attempts _ _ ha
  refine commitTx_spec h hok.events ?_ fun x hx => (hi x hx).1
  have := hv _ rfl
  omega

/-- What an access does to the state table, apart from a claim. -/
theorem Access.statesStep (h : Access w e w') (hok : WorldOk w)
    (hclaim : ∀ a key dueAt workerID at_ hash, e ≠ (.claim a key dueAt workerID at_ hash, none)) :
    StatesStep w.tables.states w'.tables.states := by
  cases h with
  | failed => exact StatesStep.refl _
  | table h => exact (transact_spec h).1
  | claim => exact (hclaim _ _ _ _ _ _ rfl).elim
  | readState | readRule | readNode | readIncident | decide => exact StatesStep.refl _
  | @commit a d now recheck t ha h =>
    exact (hok.committed ha h).statesStep
  | release _ _ h =>
    obtain ⟨p, -, -, rfl⟩ := release_spec h
    exact StatesStep.update (fun _ _ _ => .refl _) (fun _ _ _ _ hl => nomatch hl)

theorem WorldOk.step (hok : WorldOk w) (h : Access w e w') : WorldOk w' := by
  have hstates := h.statesStep hok
  cases h with
  | failed => exact hok
  | table h =>
    have hs := hstates (by simp)
    obtain ⟨-, -, p, f, hcont, he⟩ := transact_spec h
    exact ⟨hs.keyed hok.keyed, hs.versions hok.versions, he ▸ hok.events.update hcont, hok.attempts⟩
  | claim hidle h =>
    obtain ⟨hk, hv, -⟩ := claim_states h
    obtain ⟨-, p, -, -, rfl⟩ := claim_spec h
    exact ⟨hk hok.keyed, hv hok.versions, hok.events,
      attempts_update hok.attempts (AttemptOk.of_none rfl rfl)⟩
  | readState ha h =>
    refine ⟨hok.keyed, hok.versions, hok.events, attempts_update hok.attempts (AttemptOk.of_version rfl ?_ rfl)⟩
    rintro v ⟨⟩
    obtain ⟨r, hr, rfl⟩ := Option.map_eq_some_iff.mp h
    exact hok.versions r (mem_of_find?_eq_some hr)
  | readRule ha h =>
    have hv := (hok.attempts _ _ ha).1
    exact ⟨hok.keyed, hok.versions, hok.events, attempts_update hok.attempts (AttemptOk.of_version rfl hv rfl)⟩
  | readNode ha =>
    have hv := (hok.attempts _ _ ha).1
    exact ⟨hok.keyed, hok.versions, hok.events, attempts_update hok.attempts (AttemptOk.of_version rfl hv rfl)⟩
  | readIncident ha =>
    have hv := (hok.attempts _ _ ha).1
    refine ⟨hok.keyed, hok.versions, hok.events, attempts_update hok.attempts ⟨hv, fun y hy => ?_⟩⟩
    obtain ⟨r, hr, rfl, -, hact⟩ := EventsOk.active_mem hy
    exact ⟨hok.events.nonempty r hr, hact⟩
  | decide ha h =>
    obtain ⟨hv, hi⟩ := hok.attempts _ _ ha
    refine ⟨hok.keyed, hok.versions, hok.events, attempts_update hok.attempts ⟨?_, ?_⟩⟩
    · rintro v ⟨⟩
      simp only [decisionOf, (prepareInput_fields ..).1]
      exact hv _ rfl
    · intro y hy
      simp only [Attempt.incident?, decisionOf, (prepareInput_fields ..).2.2.2.2.1] at hy
      exact hi y hy
  | commit ha h =>
    have hs := hstates (by simp)
    exact ⟨hs.keyed hok.keyed, hs.versions hok.versions, (hok.committed ha h).events,
      attempts_update hok.attempts (AttemptOk.of_none rfl rfl)⟩
  | release _ _ h =>
    have hs := hstates (by simp)
    obtain ⟨p, -, -, rfl⟩ := release_spec h
    exact ⟨hs.keyed hok.keyed, hs.versions hok.versions, hok.events,
      attempts_update hok.attempts (AttemptOk.of_none rfl rfl)⟩

section run

variable {rules : List AlertEvaluationRule} {nodes : List Node} {accelerators : List Accelerator}
  {es : List Entry} {w w' : World}

theorem ProtocolRun.ok (h : ProtocolRun rules nodes accelerators es w) : WorldOk w :=
  Lts.Run.inv h (WorldOk.start ..) fun _ _ _ hok hst => hok.step hst

/-- No access loses a state, and a change of a state raises its version. -/
theorem Access.versions (h : Access w e w') (hok : WorldOk w) :
    ∀ r ∈ w.tables.states, ∃ r' ∈ w'.tables.states, Supersedes r'.state r.state := by
  have hstates := h.statesStep hok
  cases h with
  | claim hidle h =>
    intro r hr
    obtain ⟨r', hr', he⟩ := (claim_states h).2.2 r hr
    exact ⟨r', hr', he ▸ .refl _⟩
  | failed | table | readState | readRule | readNode | readIncident | decide | commit | release =>
    exact (hstates (by simp)).grows

/-! ## Versions -/

/-- Every commit so far is in the table: its key is at a later version than the one that it was
based on. -/
def VersionInv (es : List Entry) (w : World) : Prop :=
  ∀ a d now recheck, (AccessEvent.commit a d now recheck, none) ∈ es →
    ∃ r ∈ w.tables.states, r.state.key = d.lease.key ∧ d.input.previous.version + 1 ≤ r.state.version

theorem ProtocolRun.versionInv (h : ProtocolRun rules nodes accelerators es w) : VersionInv es w := by
  refine Lts.Run.hist h (fun _ _ _ _ hmem => nomatch hmem) fun es w e w' hr ih hst => ?_
  intro a d now recheck hmem
  have hok := ProtocolRun.ok hr
  rcases mem_append.mp hmem with hmem | hmem
  · obtain ⟨r, hr, hk, hv⟩ := ih a d now recheck hmem
    obtain ⟨r', hr', hs⟩ := hst.versions hok r hr
    exact ⟨r', hr', hs.1.trans hk, le_trans hv hs.version_le⟩
  · rw [mem_singleton] at hmem
    subst hmem
    cases hst with
    | commit ha h =>
      have hc := hok.committed ha h
      obtain ⟨r, hr, hp⟩ := hc.found
      obtain ⟨hkey, hver⟩ := committedRow_fields d
      refine ⟨_, hc.states ▸ mem_update.mpr ⟨r, hr, rfl⟩, ?_⟩
      rw [if_pos hp]
      exact ⟨hkey, le_of_eq hver.symm⟩

/-! ## Leases -/

/-- A successful claim, release or commit of a key. -/
def Touches (key : Key) : Entry → Prop
  | (.claim _ k _ _ _ _, none) => k = key
  | (.release _ lease, none) => lease.key = key
  | (.commit _ d _ _, none) => d.lease.key = key
  | _ => False

/-- The entry `i` is the successful claim of `key` with this token, at the time `at_`. -/
def ClaimedAt (es : List Entry) (i a : Nat) (key : Key) (hash : TokenHash) (at_ : Int) : Prop :=
  ∃ dueAt workerID, es[i]? = some (.claim a key dueAt workerID at_ hash, none)

/-- Nothing has touched the key since the entry `i`. -/
def Untouched (es : List Entry) (i : Nat) (key : Key) : Prop :=
  ∀ j e, i < j → es[j]? = some e → ¬ Touches key e

/-- The claims of a run drew different tokens. -/
def FreshTokens (es : List Entry) : Prop :=
  ∀ i j a b key key' hash at_ at_', ClaimedAt es i a key hash at_ → ClaimedAt es j b key' hash at_' →
    i = j

variable {key : Key} {s : List StateRow} {p : StateRow → Bool}

theorem ClaimedAt.snoc {i : Nat} (h : ClaimedAt es i a key hash at_) (e : Entry) :
    ClaimedAt (es ++ [e]) i a key hash at_ := by
  obtain ⟨dueAt, workerID, h⟩ := h
  obtain ⟨hlt, -⟩ := List.getElem?_eq_some_iff.mp h
  exact ⟨dueAt, workerID, by rw [List.getElem?_append_left hlt, h]⟩

theorem Untouched.snoc {i : Nat} (h : Untouched es i key) (he : ¬ Touches key e) : Untouched (es ++ [e]) i key := by
  intro j f hij hf
  rw [getElem?_append] at hf
  split_ifs at hf
  · exact h j f hij hf
  · rw [getElem?_singleton] at hf
    split_ifs at hf
    cases hf
    exact he

/-- What the leases say about the past: the lease of a row is the one of the last entry that touched
its key, and every evaluation made the claim whose lease it has. -/
structure LeaseInv (es : List Entry) (w : World) : Prop where
  rows : ∀ r ∈ w.tables.states, ∀ l, r.lease = some l → ∃ i a at_,
    ClaimedAt es i a r.state.key l.tokenHash at_ ∧
      l.expiresAt ≤ unixMilli (at_ + leaseDuration) ∧ Untouched es i r.state.key
  attempts : ∀ a attempt, w.attempts a = some attempt → ∀ lease ∈ attempt.lease?,
    ∃ i at_, ClaimedAt es i a lease.key lease.tokenHash at_

/-- A key has one row: when a row of the key matches, the rows that do not match have other keys. -/
theorem key_ne_of_unmatched (hk : Table.Keyed (·.state.key) s) (hp : ∀ r, p r = true → r.state.key = key)
    (hfound : ∃ r ∈ s, p r = true) (hr : r ∈ s) (hnot : p r = false) : r.state.key ≠ key := by
  intro hkey
  obtain ⟨m, hm, hpm⟩ := hfound
  have : r = m := hk.eq_of_key hr hm (hkey.trans (hp m hpm).symm)
  rw [this, hpm] at hnot
  cases hnot

namespace LeaseInv

theorem start : LeaseInv [] (World.start rules nodes accelerators) :=
  ⟨fun _ hr _ _ => (nomatch hr), fun _ _ h _ _ => nomatch h⟩

variable {e : Entry}

/-- An entry that gives no new lease, and does not touch the keys that keep theirs. -/
theorem rows_keep (h : LeaseInv es w) (hs : StatesStep w.tables.states s)
    (he : ∀ r ∈ s, ∀ l, r.lease = some l → ¬ Touches r.state.key e) :
    ∀ r ∈ s, ∀ l, r.lease = some l → ∃ i a at_, ClaimedAt (es ++ [e]) i a r.state.key l.tokenHash at_ ∧
        l.expiresAt ≤ unixMilli (at_ + leaseDuration) ∧ Untouched (es ++ [e]) i r.state.key := by
  intro r' hr' l' hl'
  obtain ⟨r, hr, hk, l, hl, hhash, hexp⟩ := hs.leases r' hr' l' hl'
  obtain ⟨i, a, at_, hc, hle, hu⟩ := h.rows r hr l hl
  rw [hk] at hc hu
  exact ⟨i, a, at_, hhash ▸ hc.snoc e, le_trans hexp hle, hu.snoc (he r' hr' l' hl')⟩

theorem attempts_keep (h : LeaseInv es w) (e : Entry) :
    ∀ a attempt, w.attempts a = some attempt → ∀ lease ∈ attempt.lease?,
      ∃ i at_, ClaimedAt (es ++ [e]) i a lease.key lease.tokenHash at_ := by
  intro a attempt ha lease hl
  obtain ⟨i, at_, hc⟩ := h.attempts a attempt ha lease hl
  exact ⟨i, at_, hc.snoc e⟩

theorem claim {dueAt : Int} (h : LeaseInv es w) (hok : WorldOk w)
    (hc : Alert.claim w.tables key dueAt workerID at_ hash = .ok (t, lease)) :
    LeaseInv (es ++ [(.claim a key dueAt workerID at_ hash, none)])
      ⟨t, Function.update w.attempts a (some (.claimed lease))⟩ := by
  obtain ⟨rfl, p, hp, hfound, rfl⟩ := claim_spec hc
  have hnew : ClaimedAt (es ++ [(.claim a key dueAt workerID at_ hash, none)]) es.length a key hash
      at_ := ⟨dueAt, workerID, by simp⟩
  refine ⟨fun r' hr' l hl => ?_, attempts_update (h.attempts_keep _) ?_⟩
  · obtain ⟨r, hr, rfl⟩ := mem_update.mp hr'
    by_cases hpr : p r = true
    · simp only [hpr, if_true, Option.some.injEq] at hl ⊢
      subst hl
      rw [hp r hpr]
      refine ⟨es.length, a, at_, hnew, le_refl _, fun j e hj he => ?_⟩
      have := (List.getElem?_eq_some_iff.mp he).1
      simp only [List.length_append, List.length_singleton] at this
      omega
    · simp only [hpr] at hl ⊢
      obtain ⟨i, b, at', hcl, hle, hu⟩ := h.rows r hr l hl
      refine ⟨i, b, at', hcl.snoc _, hle, hu.snoc fun ht => ?_⟩
      exact key_ne_of_unmatched hok.keyed hp hfound hr (by simpa using hpr) ht.symm
  · rintro lease ⟨⟩
    exact ⟨es.length, at_, hnew⟩

/-- A transaction that takes the lease from the matching rows of a key. -/
theorem rows_touch (h : LeaseInv es w) (hok : WorldOk w) {f : StateRow → StateRow}
    (hs : StatesStep w.tables.states (update w.tables.states p f)) (hp : ∀ r, p r = true → r.state.key = key)
    (hfound : ∃ r ∈ w.tables.states, p r = true) (hf : ∀ r, (f r).lease = none) (he : ∀ k, Touches k e → k = key) :
    ∀ r ∈ update w.tables.states p f, ∀ l, r.lease = some l → ∃ i a at_,
      ClaimedAt (es ++ [e]) i a r.state.key l.tokenHash at_ ∧ l.expiresAt ≤ unixMilli (at_ + leaseDuration) ∧
          Untouched (es ++ [e]) i r.state.key := by
  refine h.rows_keep hs fun r' hr' l hl ht => ?_
  obtain ⟨r, hr, rfl⟩ := mem_update.mp hr'
  by_cases hpr : p r = true
  · rw [if_pos hpr, hf] at hl
    cases hl
  · rw [if_neg hpr] at ht
    exact key_ne_of_unmatched hok.keyed hp hfound hr (by simpa using hpr) (he _ ht)

theorem step (h : LeaseInv es w) (hok : WorldOk w) (hst : Access w e w') : LeaseInv (es ++ [e]) w' := by
  have hstates := hst.statesStep hok
  have hkeep := h.attempts_keep e
  cases hst with
  | failed e err =>
    exact ⟨h.rows_keep (StatesStep.refl _) fun _ _ _ _ => by cases e <;> exact id, hkeep⟩
  | table _ =>
    exact ⟨h.rows_keep (hstates (by simp)) fun _ _ _ _ => id, hkeep⟩
  | claim _ hc => exact h.claim hok hc
  | readState ha | readRule ha | readNode ha | readIncident ha | decide ha =>
    have hl := hkeep _ _ ha
    exact ⟨h.rows_keep (StatesStep.refl _) fun _ _ _ _ => id,
      attempts_update hkeep hl⟩
  | @commit a d now recheck t ha hc =>
    have hcm := hok.committed ha hc
    have hl := hkeep _ _ ha
    refine ⟨?_, attempts_update hkeep hl⟩
    have hs : StatesStep w.tables.states t.states := hstates (by simp)
    rw [hcm.states] at hs ⊢
    exact h.rows_touch hok hs (fun _ => commitMatching_key) hcm.found (fun _ => rfl)
      fun _ ht => ht.symm
  | @release a attempt lease t ha hl hr =>
    obtain ⟨p, hp, hfound, rfl⟩ := release_spec hr
    exact ⟨h.rows_touch hok (hstates (by simp)) hp hfound (fun _ => rfl) fun _ ht => ht.symm,
      attempts_update hkeep (by simp [Attempt.lease?])⟩

end LeaseInv

theorem ProtocolRun.leaseInv (h : ProtocolRun rules nodes accelerators es w) : LeaseInv es w :=
  Lts.Run.hist h LeaseInv.start fun _ _ _ _ hr ih hst => ih.step (ProtocolRun.ok hr) hst

/-- The incident that a decision was made about, as the columns of the state have it. -/
def Decision.incidentRead (d : Decision) : String × AlertStatus :=
  match d.input.incident with
  | none => ("", .unset)
  | some incident => (incident.id, incident.status)

theorem knownIncident_eq_read (h : ∀ x ∈ d.input.incident, x.status.isActive) :
    knownIncident d.input = d.incidentRead := by
  unfold knownIncident Decision.incidentRead
  rw [d.checked]
  cases hi : d.input.incident with
  | none => rfl
  | some incident => simp [h incident hi]

/-- The rule of the decision has another revision, or the active event of the key is another one or
has another status than when the evaluator read it. -/
def Stale (t : Tables) (d : Decision) : Prop :=
  (∀ rule, findAdvancedAlertRule t d.lease.key.ruleID = .ok rule →
    rule.revision ≠ d.input.rule.revision) ∨ activeIncident t d.lease.key ≠ d.incidentRead

/-- The row of the key has the lease, which has not expired there; the evaluation `a` claimed it, not longer ago than a
lease lasts, and nothing has touched the key since. The expiry of the row is what `RebaseClock` may have cut. -/
def HoldsLease (es : List Entry) (w : World) (a : Nat) (lease : Lease) (now : Int) : Prop :=
  (∃ r ∈ w.tables.states, r.state.key = lease.key ∧
    ∃ l, r.lease = some l ∧ l.tokenHash = lease.tokenHash ∧ unixMilli now < l.expiresAt) ∧
  ∃ i at_, ClaimedAt es i a lease.key lease.tokenHash at_ ∧
    unixMilli now < unixMilli (at_ + leaseDuration) ∧ Untouched es i lease.key

theorem holdsLease (h : LeaseInv es w) (hfresh : FreshTokens es) (ha : w.attempts a = some (.decided d))
    (hr : r ∈ w.tables.states) (hp : commitMatching d now r = true) : HoldsLease es w a d.lease now := by
  have hkey := commitMatching_key hp
  simp only [commitMatching, Bool.and_eq_true, Option.any_eq_true, decide_eq_true_eq] at hp
  obtain ⟨-, l, hl, hhash, hnow⟩ := hp
  obtain ⟨i, b, at_, hc, hle, hu⟩ := h.rows r hr l hl
  obtain ⟨i', at_', hc'⟩ := h.attempts a _ ha d.lease rfl
  rw [hhash] at hc
  -- both claims drew the token of the lease, so they are one
  obtain rfl := hfresh _ _ _ _ _ _ _ _ _ hc hc'
  obtain ⟨dueAt, workerID, hi⟩ := hc
  obtain ⟨dueAt', workerID', hi'⟩ := id hc'
  rw [hi] at hi'
  simp only [Option.some.injEq, Prod.mk.injEq, AccessEvent.claim.injEq] at hi'
  obtain ⟨⟨-, -, -, -, rfl, -⟩, -⟩ := hi'
  exact ⟨⟨r, hr, hkey, l, hl, hhash, hnow⟩, i, at_, hc', lt_of_lt_of_le hnow hle, hkey ▸ hu⟩

/-- What a successful commit of the evaluation `a` means, after the entries `es`. -/
structure CommitOk (es : List Entry) (w : World) (a : Nat) (d : Decision) (now : Int) (w' : World) :
    Prop where
  /-- The row that was read is the row that is replaced, one version later. -/
  based : ∃ r ∈ w.tables.states, r.state.key = d.lease.key ∧
    r.state.version = d.input.previous.version
  /-- The new row agrees with the event table. -/
  agrees : ∃ r ∈ w'.tables.states, r.state.key = d.lease.key ∧
    r.state.version = d.input.previous.version + 1 ∧
    (r.state.activeEventID, r.state.activeEventStatus) = activeIncident w'.tables d.lease.key
  /-- Every earlier commit of the key was based on an earlier version. -/
  noLostUpdate : ∀ b d' now' recheck', (AccessEvent.commit b d' now' recheck', none) ∈ es →
    d'.lease.key = d.lease.key → d'.input.previous.version < d.input.previous.version
  lease : HoldsLease es w a d.lease now

/-- The commit protocol, after any run `es` and for every next access. -/
theorem commit_protocol (h : ProtocolRun rules nodes accelerators es w) (hfresh : FreshTokens es) :
    (∀ r ∈ w.tables.events, ∀ r' ∈ w.tables.events, r.event.status.isActive →
      r'.event.status.isActive → r.event.key = r'.event.key → r = r') ∧ (∀ e w', Access w e w' →
      ∀ r ∈ w.tables.states, ∃ r' ∈ w'.tables.states, Supersedes r'.state r.state) ∧
    ∀ a d now recheck outcome w', Access w (.commit a d now recheck, outcome) w' →
      (outcome = none → CommitOk es w a d now w') ∧ (Stale w.tables d → outcome ≠ none ∧ w' = w) := by
  have hok := ProtocolRun.ok h
  refine ⟨hok.events.unique, fun e w' hst => hst.versions hok, ?_⟩
  intro a d now recheck outcome w' hst
  cases hst with
  | failed => exact ⟨(nomatch ·), fun _ => ⟨nofun, rfl⟩⟩
  | @commit _ _ _ _ t ha hc =>
    have hcm := hok.committed ha hc
    have hread := knownIncident_eq_read fun x hx => ((hok.attempts _ _ ha).2 x hx).2
    obtain ⟨m, hm, hpm⟩ := hcm.found
    obtain ⟨hkey, hver⟩ := committedRow_fields d
    refine ⟨fun _ => ⟨?_, ?_, ?_, ?_⟩, fun hstale => ?_⟩
    · exact ⟨m, hm, commitMatching_key hpm, commitMatching_version hpm⟩
    · refine ⟨_, hcm.states ▸ mem_update.mpr ⟨m, hm, rfl⟩, ?_⟩
      rw [if_pos hpm]
      exact ⟨hkey, hver, hcm.left.symm⟩
    · intro b d' now' recheck' hmem hk
      obtain ⟨r, hr, hrk, hv⟩ := ProtocolRun.versionInv h b d' now' recheck' hmem
      have : r = m := hok.keyed.eq_of_key hr hm (hrk.trans (hk.trans (commitMatching_key hpm).symm))
      rw [this, commitMatching_version hpm] at hv
      omega
    · exact holdsLease (ProtocolRun.leaseInv h) hfresh ha hm hpm
    · obtain ⟨rule, hrule, hrev⟩ := hcm.revision
      rcases hstale with hr | hi
      · exact absurd hrev (hr rule hrule)
      · exact absurd (hcm.incident.trans hread) hi

end run

/-! ## A run -/

/-- A rule that fires at once. -/
def promptRule : AlertEvaluationRule := { sampleRule with duration := 0 }

def promptAt : Int := 1700000000 * second

/-- The tables with the one key of the rule and the node, claimed or not. -/
def promptTables (lease : Option RowLease) : Tables :=
  { rules := [promptRule], nodes := [{ id := "n1", name := "edge" }]
    states := [{ admittedRow promptAt (⟨"r1", "n1", ""⟩, 1) with lease := lease }] }

theorem promptTables_admitted : transact { rules := [promptRule], nodes := [{ id := "n1", name := "edge" }] }
      (.admission promptAt (.ok ())) = .ok (promptTables none) := by
  have h : missingEvaluationTargets
      { rules := [promptRule], nodes := [{ id := "n1", name := "edge" }] } =
        [(⟨"r1", "n1", ""⟩, 1)] := by decide
  simp only [transact, admitTargets, h, mergeSort_singleton]
  rfl

/-- The lease of the claim below. -/
def promptLease : Lease := ⟨⟨"r1", "n1", ""⟩, 7, 1700000015 * second⟩

theorem promptTables_claimed : claim (promptTables none) ⟨"r1", "n1", ""⟩ promptAt "w" promptAt 7 =
      .ok (promptTables (some ⟨7, 1700000015000, "w"⟩), promptLease) := by decide +kernel

/-- Admission, and one evaluation up to its decision. -/
def promptEntries : List Entry :=
  [(.table (.admission promptAt (.ok ())), none),
    (.claim 0 ⟨"r1", "n1", ""⟩ promptAt "w" promptAt 7, none), (.readState 0, none),
    (.readRule 0, none), (.readNode 0, none), (.readIncident 0, none),
    (.decide 0 (some sampleUuid) promptAt "run" "" (sampleInput promptRule 0 "e1" 91).observation
      [⟨"cpu", 1⟩], none)]

def rivalAt : Int := 1700000020 * second

theorem promptTables_reclaimed :
    claim (promptTables (some ⟨7, 1700000015000, "w"⟩)) ⟨"r1", "n1", ""⟩ promptAt "v" rivalAt 8 =
      .ok (promptTables (some ⟨8, 1700000035000, "v"⟩), ⟨⟨"r1", "n1", ""⟩, 8, 1700000035 * second⟩) := by
  decide +kernel

/-- Then a second evaluation, which takes the lease when it has expired, up to its decision. -/
def rivalEntries : List Entry :=
  promptEntries ++ [(.claim 1 ⟨"r1", "n1", ""⟩ promptAt "v" rivalAt 8, none), (.readState 1, none),
    (.readRule 1, none), (.readNode 1, none), (.readIncident 1, none),
    (.decide 1 (some sampleUuid) rivalAt "run" "" (sampleInput promptRule 20 "e2" 91).observation
      [⟨"cpu", 1⟩], none)]

theorem rival_run : ∃ w, ProtocolRun [promptRule] [{ id := "n1", name := "edge" }] [] rivalEntries w ∧
      ∃ d d', w.attempts 0 = some (.decided d) ∧ w.attempts 1 = some (.decided d') ∧
        d.lease.key = ⟨"r1", "n1", ""⟩ ∧ d.incidentRead = ("", .unset) ∧
        ∃ t, commitTx w.tables d'.change rivalAt (.ok ()) = .ok t ∧
          activeIncident t ⟨"r1", "n1", ""⟩ = (sampleUuid.text, .triggered) := by
  refine ⟨_, .cons (.table promptTables_admitted) <|
    .cons (.claim rfl promptTables_claimed) <| .cons (.readState rfl rfl) <|
    .cons (.readRule rfl rfl) <| .cons (.readNode rfl) <| .cons (.readIncident rfl) <|
    .cons (.decide rfl rfl) <| .cons (.claim rfl promptTables_reclaimed) <| .cons (.readState rfl rfl) <|
    .cons (.readRule rfl rfl) <| .cons (.readNode rfl) <| .cons (.readIncident rfl) <|
    .cons (.decide rfl rfl) .nil, _, _, rfl, rfl, rfl, rfl, _, rfl, ?_⟩
  rfl

/-- The second evaluation commits and opens an incident; the commit of the first, which has seen none, is refused. -/
theorem commit_protocol_sample : ∃ w w' d d',
    ProtocolRun [promptRule] [{ id := "n1", name := "edge" }] [] rivalEntries w ∧
      CommitOk rivalEntries w 1 d' rivalAt w' ∧
      activeIncident w'.tables ⟨"r1", "n1", ""⟩ = (sampleUuid.text, .triggered) ∧
      w'.attempts 0 = some (.decided d) ∧ ∀ now recheck outcome w'',
        Access w' (.commit 0 d now recheck, outcome) w'' → outcome ≠ none ∧ w'' = w' := by
  obtain ⟨w, hrun, d, d', ha, ha', hkey, hread, t, hc, hactive⟩ := rival_run
  have hfresh : FreshTokens (rivalEntries ++ [(.commit 1 d' rivalAt (.ok ()), none)]) := by
    have htwo : ∀ {i a key due worker at_ hash},
        (rivalEntries ++ [(.commit 1 d' rivalAt (.ok ()), none)])[i]? =
          some (.claim a key due worker at_ hash, none) → i = 1 ∧ hash = 7 ∨ i = 7 ∧ hash = 8 := by
      intro i a key due worker at_ hash h
      match i, h with
      | 1, h | 7, h => cases h; decide
      | 0, h | 2, h | 3, h | 4, h | 5, h | 6, h | 8, h | 9, h | 10, h | 11, h | 12, h | 13, h => cases h
    rintro i j a b key key' hash at_ at_' ⟨_, _, hi⟩ ⟨_, _, hj⟩
    rcases htwo hi with ⟨rfl, rfl⟩ | ⟨rfl, rfl⟩ <;> rcases htwo hj with ⟨rfl, h⟩ | ⟨rfl, h⟩ <;>
      first | rfl | exact absurd h (by decide)
  have hcommit := Access.commit ha' hc
  have hok := ((commit_protocol hrun fun _ _ _ _ _ _ _ _ _ hi hj =>
    hfresh _ _ _ _ _ _ _ _ _ (hi.snoc _) (hj.snoc _)).2.2 1 d' rivalAt (.ok ()) none _ hcommit).1 rfl
  refine ⟨w, _, d, d', hrun, hok, hactive, ha, fun now recheck outcome w'' hst => ?_⟩
  refine ((commit_protocol (hrun.snoc hcommit) hfresh).2.2 0 d now recheck outcome w'' hst).2 (.inr ?_)
  rw [hkey, hread]
  exact fun heq => nomatch hactive.symm.trans heq

end Beat.Alert
