import Beat.Alert.Evaluator
import Beat.Alert.Exits

/-!
# What a commit finds and leaves

One lemma for each transaction on the alert tables. Their interleavings are in
`Beat/Alert/Protocol.lean`.

* `IncidentChange`: what a step does to the incident of its key; `expected_eq_known`: the recheck of a
  commit compares the incident of the table with the one that the evaluator read.
* `EventsOk`: event ids are unique and a key has at most one active event. Every transaction keeps it.
* `commitTx_spec`: what a successful commit found and what it leaves.
* `NumericPolicy`: what `guardActiveAlertPolicy` compares, with the operator in its canonical form.
* `StatesStep`, `RulesStep`: what every other transaction does to the states and to the rules. A stored
  rule stays or is replaced by a later revision, and the policy changes only while no event of the rule is
  active (`transact_spec`).
-/

namespace Beat.Alert

open List Table Fallible

open Ieee (F64)

/-! ## The incident of a decision -/

/-- What a step does to the incident of its key. -/
inductive IncidentChange (input : StepInput) (r : StepResult) : Prop where
  | keep (hk : ∀ a ∈ r.actions, a.kind = .health)
      (hs : (r.state.activeEventID, r.state.activeEventStatus) = knownIncident input)
  | opened (before : List Action) (event : AlertEvent) (hb : ∀ a ∈ before, a.kind = .health)
      (hacts : r.actions = before ++ [{ kind := .thresholdTrigger, notify := true, event := some event }])
      (hknown : (knownIncident input).1 = "") (hst : event.status = .triggered)
      (hs : (r.state.activeEventID, r.state.activeEventStatus) = (event.id, .triggered))
  | closed (before : List Action) (action : Action) (event : AlertEvent)
      (hb : ∀ a ∈ before, a.kind = .health) (hacts : r.actions = before ++ [action])
      (hev : action.event = some event) (hid : event.id = (knownIncident input).1)
      (hne : (knownIncident input).1 ≠ "") (hst : event.status = .resolved)
      (hkind : action.kind = .thresholdRecovery ∧ (knownIncident input).2 ≠ .acknowledged ∨
        action.kind = .deviceUnavailable ∧ action.previousStatus = (knownIncident input).2)
      (hs : (r.state.activeEventID, r.state.activeEventStatus) = ("", .unset))

variable {event : AlertEvent} {input : StepInput} {t' t : Tables} {state : AlertEvaluationState}
  {d : Decision} {a : Action} {draw : Option Uuid} {r : StepResult} {as : List Action}
  {change : AlertEvaluationCommit} {recheck : Except EvalError Unit} {now at_ : Int}

theorem nameDevice_event (deviceID deviceName : String) (h : a.event = some event) :
    ∃ event', (nameDevice deviceID deviceName a).event = some event' ∧ event'.id = event.id ∧
      event'.status = event.status := by
  unfold nameDevice
  rw [h]
  simp only
  split
  · exact ⟨event, h, rfl, rfl⟩
  · exact ⟨_, rfl, rfl, rfl⟩

theorem step_incident (h : step draw input = .ok r) : IncidentChange input r := by
  obtain ⟨-, hexit⟩ := step_exit h
  have hclosing : ∀ a ∈ closing input, a.kind = .health := fun a ha => closing_kind ha
  have hstarted : ((started input).activeEventID, (started input).activeEventStatus) =
      knownIncident input := by simp
  have hready : ((ready input).activeEventID, (ready input).activeEventStatus) =
      knownIncident input := by simp
  cases hexit with
  | suspend => exact .keep (by simp) hstarted
  | gone incident _ hi hid hact hdev =>
    exact .closed [] _ _ (by simp) rfl rfl hid hact rfl (.inr ⟨rfl, by simp⟩) rfl
  | unhealthy => exact .keep (fun a ha => recordUnhealthy_kind ha) hstarted
  | quiet => exact .keep (by simp) hstarted
  | clear => exact .keep hclosing hready
  | pend => rw [confirmTrigger_eq]; exact .keep hclosing hready
  | trigger v id _ _ _ hact _ _ _ => exact .opened _ _ hclosing rfl hact rfl rfl
  | fire => exact .keep hclosing hready
  | recovering => rw [confirmRecovery_eq]; exact .keep hclosing hready
  | recover v _ _ _ hact _ hack _ =>
    obtain ⟨event, hev, hid, hst⟩ := nameDevice_event input.deviceID input.deviceName
      (a := { kind := .thresholdRecovery, notify := true, event := _ }) rfl
    refine .closed _ _ event hclosing rfl hev ?_ hact hst (.inl ⟨by simp, hack⟩) rfl
    rw [hid, recoveryEvent, confirmRecovery_eq]
    exact ready_activeEventID input

/-! ## The recheck of the incident -/

theorem expectedIncident_health (h : ∀ a ∈ as, a.kind = .health) (expected : String × AlertStatus) :
    as.foldlM expectedIncident expected = .ok expected := by
  induction as with
  | nil => rfl
  | cons a as ih =>
    have ha : expectedIncident expected a = .ok expected := by
      rw [expectedIncident, h a mem_cons_self]
    rw [foldlM_cons, ha]
    exact ih fun b hb => h b (mem_cons_of_mem _ hb)

theorem knownIncident_status (hc : input.incidentChecked = true) (h : (knownIncident input).1 ≠ "") :
    (knownIncident input).2.isActive := by
  unfold knownIncident at h ⊢
  simp only [hc, if_true] at h ⊢
  cases hi : input.incident with
  | none => simp [hi] at h
  | some incident =>
    simp only [hi] at h ⊢
    split
    · rename_i ha; exact ha
    · rename_i hn; simp [hn] at h

/-- The recheck expects the incident that the evaluator read. -/
theorem expected_eq_known {expected : String × AlertStatus} (hstep : step draw input = .ok r)
    (hc : input.incidentChecked = true) (hids : ∀ x ∈ input.incident, x.id ≠ "")
    (h : r.actions.foldlM expectedIncident (r.state.activeEventID, r.state.activeEventStatus) =
      .ok expected) : expected = knownIncident input := by
  cases step_incident hstep with
  | keep hk hs =>
    rw [expectedIncident_health hk, hs] at h
    cases h
    rfl
  | opened before event hb hacts hknown hst hs =>
    rw [hacts] at h
    obtain ⟨m, -, hlast⟩ := foldlM_append_ok h
    cases hlast
    unfold knownIncident at hknown ⊢
    simp only [hc, if_true] at hknown ⊢
    cases hi : input.incident with
    | none => rfl
    | some incident =>
      simp only [hi] at hknown ⊢
      split at hknown
      · exact absurd hknown (hids incident hi)
      · rename_i hn; rw [if_neg hn]
  | closed before action event hb hacts hev hid hne hst hkind hs =>
    rw [hacts] at h
    obtain ⟨m, -, hlast⟩ := foldlM_append_ok h
    rw [foldlM_singleton, expectedIncident] at hlast
    have hactive := knownIncident_status hc hne
    rcases hkind with ⟨hk, hack⟩ | ⟨hk, hprev⟩
    · simp only [hk, hev] at hlast
      cases hlast
      refine Prod.ext hid ?_
      cases hs2 : (knownIncident input).2 <;> simp_all [AlertStatus.isActive]
    · simp only [hk, hev, hprev, hactive, if_true] at hlast
      cases hlast
      exact Prod.ext hid rfl

/-! ## The event table -/

/-- `x'` is the row `x`, possibly at a later status. -/
structure EventRow.Continues (x' x : EventRow) : Prop where
  id : x'.event.id = x.event.id
  key : x'.event.key = x.event.key
  ruleRevision : x'.ruleRevision = x.ruleRevision
  active : x'.event.status.isActive → x.event.status.isActive

theorem EventRow.Continues.refl (x : EventRow) : x.Continues x := ⟨rfl, rfl, rfl, fun h => h⟩

theorem EventRow.Continues.trans {x x' x'' : EventRow} (h' : x''.Continues x')
    (h : x'.Continues x) : x''.Continues x :=
  ⟨h'.id.trans h.id, h'.key.trans h.key, h'.ruleRevision.trans h.ruleRevision,
    fun ha => h.active (h'.active ha)⟩

theorem EventRow.Continues.ite {p : EventRow → Bool} {f : EventRow → EventRow}
    (h : ∀ x, p x = true → (f x).Continues x) (x : EventRow) : (if p x then f x else x).Continues x := by
  split
  · exact h x ‹_›
  · exact .refl x

/-- Event ids are unique and not empty, and a key has at most one active event. -/
structure EventsOk (events : List EventRow) : Prop where
  keyed : Table.Keyed (·.event.id) events
  nonempty : ∀ r ∈ events, r.event.id ≠ ""
  unique : ∀ r ∈ events, ∀ r' ∈ events, r.event.status.isActive → r'.event.status.isActive →
    r.event.key = r'.event.key → r = r'

namespace EventsOk

variable {events : List EventRow} {t : Tables}

theorem empty : EventsOk [] := ⟨Table.Keyed.nil, by simp, by simp⟩

variable {key : Key}

theorem find_active (h : EventsOk t.events) {r : EventRow} (hr : r ∈ t.events)
    (ha : r.event.status.isActive) (hk : r.event.key = key) :
    activeIncident t key = (r.event.id, r.event.status) := by
  have hf : t.events.find? (·.isActiveFor key) = some r := by
    refine find?_eq_some_of_unique hr (by simp [EventRow.isActiveFor, hk, ha]) ?_
    intro x hx hxa
    simp only [EventRow.isActiveFor, Bool.and_eq_true, decide_eq_true_eq] at hxa
    exact h.unique x hx r hr hxa.2 ha (hxa.1.trans hk.symm)
  rw [activeIncident, getActiveEventForKey, hf]
  rfl

theorem none_active (h : ∀ r ∈ t.events, r.event.key = key →
    r.event.status.isActive = false) : activeIncident t key = ("", .unset) := by
  have hf : t.events.find? (·.isActiveFor key) = none := by
    rw [find?_eq_none]
    intro r hr hra
    simp only [EventRow.isActiveFor, Bool.and_eq_true, decide_eq_true_eq] at hra
    rw [h r hr hra.1] at hra
    exact nomatch hra.2
  rw [activeIncident, getActiveEventForKey, hf]
  rfl

/-- The active event that the table reports is one of its rows. -/
theorem active_mem (h : getActiveEventForKey t key = some event) :
    ∃ r ∈ t.events, r.event = event ∧ event.key = key ∧ event.status.isActive := by
  unfold getActiveEventForKey at h
  rw [Option.map_eq_some_iff] at h
  obtain ⟨r, hr, rfl⟩ := h
  have hp := find?_some hr
  simp only [EventRow.isActiveFor, Bool.and_eq_true, decide_eq_true_eq] at hp
  exact ⟨r, mem_of_find?_eq_some hr, rfl, hp.1, hp.2⟩

/-- An update that moves rows on. -/
theorem update (h : EventsOk events) {p : EventRow → Bool} {f : EventRow → EventRow}
    (hf : ∀ r, p r = true → (f r).Continues r) : EventsOk (update events p f) := by
  have hc := EventRow.Continues.ite hf
  refine ⟨h.keyed.update fun r _ hp => (hf r hp).id, fun r' hr' => ?_, fun r' hr' q' hq' ha hb hk => ?_⟩
  · obtain ⟨r, hr, rfl⟩ := mem_update.mp hr'
    rw [(hc r).id]
    exact h.nonempty r hr
  · obtain ⟨r, hr, rfl⟩ := mem_update.mp hr'
    obtain ⟨q, hq, rfl⟩ := mem_update.mp hq'
    rw [(hc r).key, (hc q).key] at hk
    rw [h.unique r hr q hq ((hc r).active ha) ((hc q).active hb) hk]

/-- A new event of a key without an active one. -/
theorem append {row : EventRow} (h : EventsOk events) (hne : row.event.id ≠ "")
    (hid : ∀ r ∈ events, r.event.id ≠ row.event.id)
    (hother : ∀ r ∈ events, r.event.status.isActive → r.event.key ≠ row.event.key) : EventsOk (events ++ [row]) := by
  refine ⟨h.keyed.append hid, fun r hr => ?_, fun r hr r' hr' ha ha' hk => ?_⟩
  · rcases Table.mem_snoc.mp hr with hr | hr
    · exact h.nonempty r hr
    · rw [hr]; exact hne
  · rcases Table.mem_snoc.mp hr with hr | hr <;> rcases Table.mem_snoc.mp hr' with hr' | hr'
    · exact h.unique r hr r' hr' ha ha' hk
    · rw [hr'] at hk
      exact absurd hk (hother r hr ha)
    · rw [hr] at hk
      exact absurd hk.symm (hother r' hr' ha')
    · rw [hr, hr']

end EventsOk

/-- A transition moves rows on; after the resolution of an event none of its key is active. -/
theorem transitionEventTx_spec {change : AlertEventTransition} {changed : Bool}
    (h : transitionEventTx t change = .ok (changed, t')) :
    ∃ p f, (∀ x, p x = true → (f x).Continues x) ∧ t' = { t with events := update t.events p f } ∧
      (EventsOk t.events → changed = true → change.event.status = .resolved →
        activeIncident t' change.event.key = ("", .unset)) := by
  unfold transitionEventTx at h
  simp only at h
  split_ifs at h with hv hm
  · cases h
    have hvalid : validateAlertTransition change = true := by simpa using hv
    have hprev : change.previous.isActive := by
      unfold validateAlertTransition at hvalid
      cases hs : change.event.status <;> simp [hs] at hvalid
      · rw [hvalid.2.1]; rfl
      · exact hvalid.2.1
    refine ⟨_, _, fun x hx => ?_, rfl, fun hok _ hres => EventsOk.none_active fun r' hr' hk => ?_⟩
    · refine ⟨rfl, rfl, rfl, fun _ => ?_⟩
      simp only [Bool.and_eq_true, decide_eq_true_eq] at hx
      rw [hx.2]; exact hprev
    obtain ⟨r, hr, hr'⟩ := mem_update.mp hr'
    -- the matching row is the only active one of its key, and it is resolved now
    obtain ⟨m, hm, hmp⟩ := any_eq_true.mp hm
    split at hr'
    · rw [hr', hres]
      rfl
    · rename_i hp
      rw [hr'] at hk ⊢
      by_contra hne
      simp only [Bool.and_eq_true, decide_eq_true_eq] at hmp hp
      have hmact : m.event.status.isActive := by rw [hmp.2]; exact hprev
      have heq := hok.unique r hr m hm (by simpa using hne) hmact (hk.trans hmp.1.2.symm)
      rw [heq] at hp
      exact hp hmp
  · cases h
    exact ⟨fun _ => false, fun x => x, fun _ hx => (by cases hx), by rw [update_eq_self fun _ _ => rfl],
      fun _ hc => (by cases hc)⟩

/-! ## The actions of a commit -/

/-- What an action may do to the events: create one under the revision of the state, move rows on,
or nothing. -/
inductive ActionExit (state : AlertEvaluationState) (t t' : Tables) : Prop where
  | created (event : AlertEvent) (key : event.key = state.key)
      (fresh : ∀ x ∈ t.events, x.event.id ≠ event.id)
      (h : t' = { t with
        events := t.events ++ [{ newEventRow event with ruleRevision := state.ruleRevision }] })
  | moved (p : EventRow → Bool) (f : EventRow → EventRow)
      (cont : ∀ x, p x = true → (f x).Continues x)
      (h : t' = { t with events := update t.events p f })
  | kept (rules : t'.rules = t.rules) (events : t'.events = t.events)

/-- What an action leaves of the incident of its key. -/
def Action.Leaves (a : Action) (state : AlertEvaluationState) (t t' : Tables) : Prop :=
  match a.kind, a.event with
  | .health, _ => t'.events = t.events
  | .thresholdTrigger, some event => activeIncident t' state.key = (event.id, .triggered)
  | _, some event => event.status = .resolved → activeIncident t' state.key = ("", .unset)
  | _, none => True

theorem applyEvaluationAction_exit (h : applyEvaluationAction state t a = .ok t') : ActionExit state t t' ∧
    t'.states = t.states ∧ (EventsOk t.events → EventsOk t'.events ∧ a.Leaves state t t') := by
  unfold applyEvaluationAction at h
  split_ifs at h with hkey
  -- recovery and loss of the device end in a transition of the event
  have hmoved : ∀ {event : AlertEvent} {previous : AlertStatus} {changed : Bool} {t₁ : Tables},
      a.event = some event → transitionEventTx t ⟨event, previous⟩ = .ok (changed, t₁) →
      (if changed then .ok t₁ else .error .conflict : Except EvalError Tables) = .ok t' →
      ActionExit state t t' ∧ t'.states = t.states ∧ (EventsOk t.events → EventsOk t'.events ∧
        (event.status = .resolved → activeIncident t' state.key = ("", .unset))) := by
    intro event previous changed t₁ hev htr h
    split_ifs at h with hc
    cases h
    obtain ⟨p, f, hcont, rfl, hnone⟩ := transitionEventTx_spec htr
    have hkey' : event.key = state.key := by simpa [hev] using hkey
    exact ⟨.moved p f hcont rfl, rfl, fun hok => ⟨hok.update hcont, hkey' ▸ hnone hok hc⟩⟩
  unfold Action.Leaves
  split at h
  · rename_i event hkind hev
    split at h
    · cases h
    rename_i changed t₁ hcreate
    split_ifs at h with hc
    cases h
    unfold createActiveEventTx at hcreate
    split_ifs at hcreate with hv hactive hid
    · cases hcreate
      cases hc
    cases hcreate
    have hkey' : event.key = state.key := by simpa [hev] using hkey
    have hvalid : validateNewAlertEvent event = true := by simpa using hv
    simp only [validateNewAlertEvent, Bool.and_eq_true, bne_iff_ne, beq_iff_eq] at hvalid
    obtain ⟨⟨⟨⟨⟨⟨-, hne⟩, -⟩, -⟩, -⟩, hst⟩, -⟩ := hvalid
    have hfresh : ∀ x ∈ t.events, x.event.id ≠ event.id := by
      simpa using hid
    simp only [any_eq_true, not_exists, not_and] at hactive
    let row : EventRow := { newEventRow event with ruleRevision := state.ruleRevision }
    -- the revision is written by id, and only the new row has it
    have hrows : update (t.events ++ [newEventRow event]) (fun r => r.event.id = event.id) (fun r =>
        { r with ruleRevision := state.ruleRevision }) = t.events ++ [row] := by
      rw [update, List.map_append, ← update, update_eq_self (by simpa using hfresh)]
      simp [row, newEventRow]
    dsimp only
    rw [hrows]
    refine ⟨.created event hkey' hfresh rfl, rfl, fun hok => ?_⟩
    have hok' : EventsOk (t.events ++ [row]) := hok.append hne hfresh fun r hr ha hk =>
      hactive r hr (by simp [EventRow.isActiveFor, show r.event.key = event.key from hk, ha])
    refine ⟨hok', ?_⟩
    rw [hkind, hev]
    have hst' : row.event.status = .triggered := hst
    rw [hok'.find_active (t := { t with events := t.events ++ [row] }) (r := row) (by simp) (by rw [hst']; rfl) hkey',
      hst']
    rfl
  · rename_i event hkind hev
    split_ifs at h
    split at h
    · cases h
    rename_i htr
    simpa [hkind, hev] using hmoved hev htr h
  · rename_i event hkind hev
    unfold applyThresholdRecovery at h
    split at h
    · cases h
    split_ifs at h
    split at h
    · cases h
    rename_i htr
    simpa [hkind, hev] using hmoved hev htr h
  · unfold writeEvaluationHealthEvent at h
    split at h
    · cases h
    · cases h
      exact ⟨.kept rfl rfl, rfl, fun hok => ⟨hok, by simp [*]⟩⟩
  · cases h

/-- Health actions do not touch the events and the states. -/
theorem applyEvaluationAction_health (hok : EventsOk t.events) (hk : ∀ a ∈ as, a.kind = .health)
    (h : as.foldlM (applyEvaluationAction state) t = .ok t') : t'.events = t.events ∧ t'.states = t.states := by
  refine foldlM_inv (I := fun b => b.events = t.events ∧ b.states = t.states) h ⟨rfl, rfl⟩ ?_
  rintro a ha b c ⟨he, hs⟩ hstep
  obtain ⟨-, hs', hleaves⟩ := applyEvaluationAction_exit hstep
  have hevents := (hleaves (he ▸ hok)).2
  simp only [Action.Leaves, hk a ha] at hevents
  exact ⟨hevents.trans he, hs'.trans hs⟩

/-! ## The commit -/

theorem Decision.key_eq (d : Decision) : d.result.state.key = d.lease.key := by
  obtain ⟨-, -, h1, h2, h3⟩ := step_written d.step_eq
  unfold AlertEvaluationState.key
  rw [h1, h2, h3, d.ruleID_eq, d.nodeID_eq, d.deviceID_eq]

/-- The row that a commit updates: at the expected version, under a lease that has not expired. -/
def commitMatching (d : Decision) (now : Int) (r : StateRow) : Bool :=
  r.state.key = d.lease.key && r.state.version = d.input.previous.version &&
    r.lease.any fun l => l.tokenHash = d.lease.tokenHash && Instant.unixMilli now < l.expiresAt

theorem authorizeEvaluationCommit_revision (h : authorizeEvaluationCommit t change recheck = .ok ()) :
    ∃ rule, findAdvancedAlertRule t change.decision.state.ruleID = .ok rule ∧
      rule.revision = change.ruleRevision := by
  unfold authorizeEvaluationCommit at h
  simp only at h
  split at h
  · cases h
  rename_i rule hrule
  refine ⟨rule, hrule, ?_⟩
  by_contra hne
  rw [if_pos (.inl hne)] at h
  cases h

theorem recheckEvaluationIncident_ok (h : recheckEvaluationIncident t change = .ok ()) :
    ∃ expected, change.decision.actions.foldlM expectedIncident
        (change.decision.state.activeEventID, change.decision.state.activeEventStatus) =
          .ok expected ∧ activeIncident t change.decision.state.key = expected := by
  unfold recheckEvaluationIncident at h
  simp only at h
  split at h
  · cases h
  rename_i expected hexp
  split_ifs at h with heq
  exact ⟨expected, hexp, heq⟩

theorem writeEvaluationState_spec (h : writeEvaluationState t d.change now = .ok t')
    (hver : d.input.previous.version ≠ 0) : (∃ r ∈ t.states, commitMatching d now r = true) ∧ t' = { t with
        states := update t.states (commitMatching d now) fun _ =>
          { state := storedState d.result.state } } := by
  unfold writeEvaluationState Decision.change at h
  simp only [hver, if_false, d.key_eq] at h
  split_ifs at h with hany
  cases h
  exact ⟨any_eq_true.mp hany, rfl⟩

/-- The actions of a decision leave the incident that its state names. -/
theorem actions_spec (hok : EventsOk t.events) (hknown : activeIncident t d.lease.key = knownIncident d.input)
    (h : d.result.actions.foldlM (applyEvaluationAction d.result.state) t = .ok t') :
    EventsOk t'.events ∧ t'.states = t.states ∧ activeIncident t' d.lease.key =
        (d.result.state.activeEventID, d.result.state.activeEventStatus) := by
  rw [← d.key_eq] at hknown ⊢
  -- one action after those about the health
  have hlast : ∀ before action, (∀ a ∈ before, a.kind = .health) → d.result.actions = before ++ [action] →
      ∃ m, EventsOk t'.events ∧ t'.states = t.states ∧ action.Leaves d.result.state m t' := by
    intro before action hb hacts
    rw [hacts] at h
    obtain ⟨m, h1, h2⟩ := foldlM_append_ok h
    rw [foldlM_singleton] at h2
    obtain ⟨he, hs⟩ := applyEvaluationAction_health hok hb h1
    obtain ⟨-, hs', hleaves⟩ := applyEvaluationAction_exit h2
    obtain ⟨hok', hleaves⟩ := hleaves (he ▸ hok)
    exact ⟨m, hok', hs'.trans hs, hleaves⟩
  cases step_incident d.step_eq with
  | keep hk hs =>
    obtain ⟨he, hst⟩ := applyEvaluationAction_health hok hk h
    refine ⟨he ▸ hok, hst, ?_⟩
    rw [hs, ← hknown, activeIncident, activeIncident, getActiveEventForKey, getActiveEventForKey, he]
  | opened before event hb hacts _ _ hs =>
    obtain ⟨m, hok', hst, hleaves⟩ := hlast _ _ hb hacts
    exact ⟨hok', hst, hs ▸ hleaves⟩
  | closed before action event hb hacts hev _ _ hres hkind hs =>
    obtain ⟨m, hok', hst, hleaves⟩ := hlast _ _ hb hacts
    refine ⟨hok', hst, ?_⟩
    rw [hs]
    rcases hkind with ⟨hk, -⟩ | ⟨hk, -⟩ <;>
    · simp only [Action.Leaves, hk, hev] at hleaves
      exact hleaves hres

/-- What a successful commit found in the tables, and what it leaves there. -/
structure Committed (t : Tables) (d : Decision) (now : Int) (t' : Tables) : Prop where
  /-- The rule has the revision that the evaluator read. -/
  revision : ∃ rule, findAdvancedAlertRule t d.lease.key.ruleID = .ok rule ∧
    rule.revision = d.input.rule.revision
  /-- The incident of the key is the one that the evaluator read. -/
  incident : activeIncident t d.lease.key = knownIncident d.input
  found : ∃ r ∈ t.states, commitMatching d now r = true
  states : t'.states = update t.states (commitMatching d now) fun _ =>
    { state := storedState d.result.state }
  events : EventsOk t'.events
  left : activeIncident t' d.lease.key =
    (d.result.state.activeEventID, d.result.state.activeEventStatus)

theorem commitTx_spec (h : commitTx t d.change now recheck = .ok t') (hok : EventsOk t.events)
    (hver : d.input.previous.version ≠ 0) (hids : ∀ x ∈ d.input.incident, x.id ≠ "") : Committed t d now t' := by
  unfold commitTx at h
  split_ifs at h with hsize
  split at h
  · cases h
  rename_i hauth
  split at h
  · cases h
  rename_i hinc
  split at h
  · cases h
  rename_i t₁ hwrite
  obtain ⟨rule, hrule, hrev⟩ := authorizeEvaluationCommit_revision hauth
  obtain ⟨expected, hexp, hact⟩ := recheckEvaluationIncident_ok hinc
  obtain ⟨hfound, ht₁⟩ := writeEvaluationState_spec hwrite hver
  have hkey := d.key_eq
  have hruleID : d.change.decision.state.ruleID = d.lease.key.ruleID := congrArg Key.ruleID hkey
  have hknown : activeIncident t d.lease.key = knownIncident d.input := by
    rw [← expected_eq_known d.step_eq d.checked hids hexp, ← hact]
    exact congrArg _ hkey.symm
  have hok₁ : EventsOk t₁.events := by rw [ht₁]; exact hok
  have hknown₁ : activeIncident t₁ d.lease.key = knownIncident d.input := by
    rw [ht₁]; exact hknown
  obtain ⟨hevents, hstates, hleft⟩ := actions_spec hok₁ hknown₁ h
  rw [ht₁] at hstates
  exact ⟨⟨rule, hruleID ▸ hrule, hrev⟩, hknown, hfound, hstates, hevents, hleft⟩

/-! ## The state table -/

/-- The lease `l'` is `l`, perhaps with an earlier end. -/
def RowLease.Le (l' l : RowLease) : Prop := l'.tokenHash = l.tokenHash ∧ l'.expiresAt ≤ l.expiresAt

/-- The state `new` is the state `old`, or a later version of it. -/
def Supersedes (new old : AlertEvaluationState) : Prop :=
  new.key = old.key ∧ (new = old ∨ old.version < new.version)

namespace Supersedes

variable {s₁ s₂ s₃ : AlertEvaluationState}

theorem refl (s : AlertEvaluationState) : Supersedes s s := ⟨rfl, .inl rfl⟩

theorem version_le (h : Supersedes s₂ s₁) : s₁.version ≤ s₂.version := by
  rcases h.2 with rfl | h
  · exact le_refl _
  · exact le_of_lt h

theorem trans (h : Supersedes s₂ s₁) (h' : Supersedes s₃ s₂) : Supersedes s₃ s₁ := by
  refine ⟨h'.1.trans h.1, ?_⟩
  rcases h.2 with rfl | hlt
  · exact h'.2
  · exact .inr (lt_of_lt_of_le hlt h'.version_le)

end Supersedes

/-- What a transaction does to the state table: no row disappears, a change of a state raises its
version, and leases are only given up or cut short. -/
structure StatesStep (s s' : List StateRow) : Prop where
  keyed : Table.Keyed (·.state.key) s → Table.Keyed (·.state.key) s'
  versions : (∀ r ∈ s, 1 ≤ r.state.version) → ∀ r ∈ s', 1 ≤ r.state.version
  grows : ∀ r ∈ s, ∃ r' ∈ s', Supersedes r'.state r.state
  leases : ∀ r' ∈ s', ∀ l', r'.lease = some l' →
    ∃ r ∈ s, r.state.key = r'.state.key ∧ ∃ l, r.lease = some l ∧ l'.Le l

namespace StatesStep

variable {s s' : List StateRow} {p : StateRow → Bool}

theorem refl (s : List StateRow) : StatesStep s s :=
  ⟨id, id, fun r hr => ⟨r, hr, .refl _⟩,
    fun r hr l hl => ⟨r, hr, rfl, l, hl, rfl, le_refl _⟩⟩

/-- An update of rows to later versions of them. -/
theorem update {f : StateRow → StateRow} (hf : ∀ r ∈ s, p r = true → Supersedes (f r).state r.state)
    (hlease : ∀ r ∈ s, p r = true → ∀ l', (f r).lease = some l' → ∃ l, r.lease = some l ∧ l'.Le l) :
    StatesStep s (update s p f) := by
  refine ⟨fun h => h.update fun r hr hp => (hf r hr hp).1, fun h r' hr' => ?_, fun r hr => ?_,
    fun r' hr' l' hl' => ?_⟩
  · obtain ⟨r, hr, rfl⟩ := mem_update.mp hr'
    split
    · rename_i hp; exact le_trans (h r hr) (hf r hr hp).version_le
    · exact h r hr
  · refine ⟨_, mem_update.mpr ⟨r, hr, rfl⟩, ?_⟩
    split
    · rename_i hp; exact hf r hr hp
    · exact .refl _
  · obtain ⟨r, hr, rfl⟩ := mem_update.mp hr'
    split at hl'
    · rename_i hp
      rw [if_pos hp, (hf r hr hp).1]
      exact ⟨r, hr, rfl, hlease r hr hp l' hl'⟩
    · rename_i hp
      rw [if_neg hp]
      exact ⟨r, hr, rfl, l', hl', rfl, le_refl _⟩

theorem insert {row : StateRow} (hnew : ∀ r ∈ s, r.state.key ≠ row.state.key)
    (hver : 1 ≤ row.state.version) (hl : row.lease = none) : StatesStep s (s ++ [row]) := by
  refine ⟨fun h => h.append hnew, fun h r hr => ?_,
    fun r hr => ⟨r, mem_append_left _ hr, .refl _⟩, fun r hr l hrl => ?_⟩
  · rcases Table.mem_snoc.mp hr with hr | hr
    · exact h r hr
    · rw [hr]; exact hver
  · rcases Table.mem_snoc.mp hr with hr | hr
    · exact ⟨r, hr, rfl, l, hrl, rfl, le_refl _⟩
    · rw [hr, hl] at hrl; exact nomatch hrl

theorem trans {s'' : List StateRow} (h : StatesStep s s') (h' : StatesStep s' s'') : StatesStep s s'' := by
  refine ⟨fun hk => h'.keyed (h.keyed hk), fun hv => h'.versions (h.versions hv), fun r hr => ?_,
    fun r'' hr'' l'' hl'' => ?_⟩
  · obtain ⟨r', hr', hv'⟩ := h.grows r hr
    obtain ⟨r'', hr'', hv''⟩ := h'.grows r' hr'
    exact ⟨r'', hr'', hv'.trans hv''⟩
  · obtain ⟨r', hr', hk', l', hl', hle'⟩ := h'.leases r'' hr'' l'' hl''
    obtain ⟨r, hr, hk, l, hl, hle⟩ := h.leases r' hr' l' hl'
    exact ⟨r, hr, hk.trans hk', l, hl, hle'.1.trans hle.1, le_trans hle'.2 hle.2⟩

theorem insertStates {rows : List StateRow} (hver : ∀ r ∈ rows, 1 ≤ r.state.version)
    (hl : ∀ r ∈ rows, r.lease = none) (h : Alert.insertStates s rows = .ok s') : StatesStep s s' := by
  induction rows generalizing s with
  | nil => cases h; exact refl _
  | cons row rows ih =>
    unfold Alert.insertStates at h
    split_ifs at h with hany
    simp only [any_eq_true, not_exists, not_and, decide_eq_true_eq] at hany
    refine (insert hany (hver row mem_cons_self) (hl row mem_cons_self)).trans ?_
    exact ih (fun r hr => hver r (mem_cons_of_mem _ hr))
      (fun r hr => hl r (mem_cons_of_mem _ hr)) h

theorem rebase : StatesStep s (Table.update s p (rebasedRow at_)) := by
  refine update (fun r _ _ => ⟨rfl, .inr ?_⟩) fun r _ _ l' hl' => ?_
  · simp only [rebasedRow]; omega
  · simp only [rebasedRow, Option.map_eq_some_iff] at hl'
    obtain ⟨l, hl, rfl⟩ := hl'
    refine ⟨l, hl, rfl, ?_⟩
    simp only
    split <;> omega

end StatesStep

/-! ## Policies -/

/-- The part of a rule that decides when an incident opens and closes. -/
structure NumericPolicy where
  metric : String
  operator : String
  threshold : F64
  duration : Int
  windowSeconds : Int
  aggregation : String
  recoveryDuration : Int
  recovery : F64
  deriving DecidableEq

def AlertEvaluationRule.numericPolicy (rule : AlertEvaluationRule) : NumericPolicy :=
  { metric := rule.metric, operator := canonicalText rule.operator, threshold := rule.threshold
    duration := rule.duration, windowSeconds := rule.windowSeconds, aggregation := rule.aggregation
    recoveryDuration := rule.recoveryDuration, recovery := effectiveRecovery rule }

@[simp] theorem canonicalText_idem (operator : String) :
    canonicalText (canonicalText operator) = canonicalText operator := by
  unfold canonicalText
  cases canonicalOperator operator with
  | none => rfl
  | some c => cases c <;> rfl

theorem f64_eq_of_eq {x y : F64} (h : F64.eq x y = true) : x = y := by
  unfold F64.eq at h
  split at h
  · cases h
  · cases h
  · exact of_decide_eq_true h

/-- The comparison of the guard, with the operator of the new rule already in its canonical form. -/
theorem sameNumericPolicy_eq {first second : AlertEvaluationRule} (h : sameNumericPolicy first second = true)
    (hop : canonicalText second.operator = second.operator) : second.numericPolicy = first.numericPolicy := by
  simp only [sameNumericPolicy, Bool.and_eq_true, beq_iff_eq] at h
  obtain ⟨⟨⟨⟨⟨⟨⟨hm, ho⟩, ht⟩, hd⟩, hw⟩, ha⟩, hrd⟩, hr⟩ := h
  simp only [AlertEvaluationRule.numericPolicy, hop, hm, ho, f64_eq_of_eq ht, hd, hw, ha, hrd, f64_eq_of_eq hr]

/-! ## The rule table -/

/-- `r'` is `r` or a later revision of it. -/
def AlertEvaluationRule.Succeeds (r' r : AlertEvaluationRule) : Prop :=
  r'.id = r.id ∧ (r' = r ∨ r.revision < r'.revision)

namespace AlertEvaluationRule.Succeeds

variable {r r' r'' : AlertEvaluationRule}

theorem refl (r : AlertEvaluationRule) : r.Succeeds r := ⟨rfl, .inl rfl⟩

theorem trans (h' : r''.Succeeds r') (h : r'.Succeeds r) : r''.Succeeds r := by
  refine ⟨h'.1.trans h.1, ?_⟩
  rcases h.2 with rfl | hlt
  · exact h'.2
  · rcases h'.2 with rfl | hlt'
    · exact .inr hlt
    · exact .inr (hlt.trans hlt')

theorem eq_of_revision (h : r'.Succeeds r) (hrev : r'.revision = r.revision) : r' = r :=
  h.2.resolve_right (by omega)

end AlertEvaluationRule.Succeeds

variable {id : String} {previous : AlertEvaluationRule}

theorem findAdvancedAlertRule_mem {rule : AlertEvaluationRule} (h : findAdvancedAlertRule t id = .ok rule) :
    rule ∈ t.rules := by
  unfold findAdvancedAlertRule at h
  split at h
  · cases h
  rename_i hr
  cases h
  exact mem_of_find?_eq_some hr

/-- No event of the rule is active. -/
def Tables.Quiet (t : Tables) (ruleID : String) : Prop :=
  ∀ x ∈ t.events, x.event.ruleID = ruleID → x.event.status.isActive = false

/-- What a transaction may do to the rules. -/
structure RulesStep (t : Tables) (rules : List AlertEvaluationRule) : Prop where
  keyed : Table.Keyed (·.id) rules
  grows : ∀ r ∈ t.rules, ∃ r' ∈ rules, r'.Succeeds r ∧
    (r'.numericPolicy = r.numericPolicy ∨ t.Quiet r.id)

namespace RulesStep

variable {t : Tables}

theorem refl (hk : Table.Keyed (·.id) t.rules) : RulesStep t t.rules :=
  ⟨hk, fun r hr => ⟨r, hr, .refl r, .inl rfl⟩⟩

/-- The update of one rule at its revision. -/
theorem update (hk : Table.Keyed (·.id) t.rules) {f : AlertEvaluationRule → AlertEvaluationRule}
    (hp : findAdvancedAlertRule t id = .ok previous)
    (hf : (f previous).id = id ∧ previous.revision < (f previous).revision)
    (hpol : (f previous).numericPolicy = previous.numericPolicy ∨ t.Quiet id) : RulesStep t
      (update t.rules (fun r => r.id = id && r.revision = previous.revision) f) := by
  have hid := findAdvancedAlertRule_id hp
  -- the id is a key, so the row that matches is the one that was read
  have hone : ∀ r ∈ t.rules, (r.id = id && r.revision = previous.revision) = true →
      r = previous := by
    intro r hr hm
    simp only [Bool.and_eq_true, decide_eq_true_eq] at hm
    exact hk.eq_of_key hr (findAdvancedAlertRule_mem hp) (hm.1.trans hid.symm)
  refine ⟨hk.update fun r hr hm => ?_, fun r hr => ?_⟩
  · rw [hone r hr hm]
    exact hf.1.trans hid.symm
  · refine ⟨_, mem_update.mpr ⟨r, hr, rfl⟩, ?_⟩
    split
    · rename_i hm
      rw [hone r hr hm, hid]
      exact ⟨⟨hf.1.trans hid.symm, .inr hf.2⟩, hpol⟩
    · exact ⟨.refl r, .inl rfl⟩

end RulesStep

theorem guardActiveAlertPolicy_ok {next : AlertEvaluationRule} (h : guardActiveAlertPolicy t previous next = .ok ()) :
    sameNumericPolicy previous next = true ∨ t.Quiet previous.id := by
  unfold guardActiveAlertPolicy at h
  split_ifs at h with hsame hactive
  · exact .inl hsame
  · refine .inr fun x hx hid => ?_
    have := any_false (by simpa only [Bool.not_eq_true] using hactive) x hx
    simpa [hid] using this

/-! ## The transactions of others -/

/-- What the transactions of others than the evaluators do to the states and the rules; they create no
event. -/
theorem transact_spec {e : TableEvent} (h : transact t e = .ok t') : StatesStep t.states t'.states ∧
    (Table.Keyed (·.id) t.rules → RulesStep t t'.rules) ∧
      ∃ p f, (∀ x, p x = true → (f x).Continues x) ∧ t'.events = update t.events p f := by
  have hevents : ∃ p f, (∀ x, p x = true → (f x).Continues x) ∧ t.events = update t.events p f :=
    ⟨fun _ => false, id, fun _ hx => (by cases hx), by rw [update_eq_self fun _ _ => rfl]⟩
  cases e with
  | rebaseClock at_ =>
    simp only [transact, rebaseClock] at h
    split_ifs at h
    cases h
    exact ⟨.rebase, .refl, hevents⟩
  | admission at_ checks =>
    simp only [transact, admitTargets] at h
    split_ifs at h <;> split at h
    · cases h
    · cases h
    · cases h
    split at h
    · cases h
    rename_i states hins
    cases h
    refine ⟨.insertStates ?_ ?_ hins, .refl, hevents⟩
    all_goals
      intro r hr
      obtain ⟨target, -, rfl⟩ := mem_map.mp hr
      simp [admittedRow]
  | transition change =>
    simp only [transact] at h
    split at h
    · cases h
    rename_i htr
    cases h
    obtain ⟨p, f, hcont, rfl, -⟩ := transitionEventTx_spec htr
    exact ⟨.refl _, .refl, p, f, hcont, rfl⟩
  | createRule id rule checks =>
    simp only [transact, createRule] at h
    split at h
    · cases h
    split_ifs at h with hnew
    cases h
    refine ⟨.refl _, fun hk => ⟨hk.append fun x hx => ?_, fun r hr => ⟨r, by simp [hr], .refl r, .inl rfl⟩⟩, hevents⟩
    exact of_decide_eq_false (any_false (by simpa only [Bool.not_eq_true] using hnew) x hx)
  | updateRule id expectedRevision rule checks =>
    simp only [transact, updateRule] at h
    split at h
    · cases h
    rename_i previous hprev
    split_ifs at h
    split at h
    · cases h
    split at h
    · cases h
    rename_i hguard
    cases h
    refine ⟨.refl _, fun hk => .update hk hprev ⟨rfl, by simp⟩ ?_, hevents⟩
    rcases guardActiveAlertPolicy_ok hguard with hs | hq
    · exact .inl (sameNumericPolicy_eq hs (by simp))
    · exact .inr (findAdvancedAlertRule_id hprev ▸ hq)
  | deleteRule id expectedRevision at_ =>
    simp only [transact, deleteRule] at h
    split at h
    · cases h
    rename_i previous hprev
    split_ifs at h
    cases h
    have hid := findAdvancedAlertRule_id hprev
    exact ⟨.refl _, fun hk => .update hk hprev ⟨hid, by simp⟩ (.inl rfl), hevents⟩
  | setNodes nodes accelerators =>
    cases h
    exact ⟨.refl _, .refl, hevents⟩

end Beat.Alert
