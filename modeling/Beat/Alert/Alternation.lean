import Beat.Alert.Commit
import Beat.Alert.Confirmation

/-!
# Alternation of threshold actions

The engine by itself, without the incident table: each step takes the incident from the state that the
last step returned. Three exits of a step open or close an incident, and several others reset the
confirmation and leave it; over a whole run the incidents open and close in turns.

* `Alternates opened actions`: the actions open and close incidents in turns, and each one that closes
  names the incident that is open. `opened` is the incident that is open at first.
* `incidentOf`: the incident of a state; `alternates_step`: the actions of a step, from the incident before
  it to the one after it.
* `threshold_actions_alternate`: the actions of a run.
-/

namespace Beat.Alert

open List

/-! ## Turns -/

/-- The actions other than health records. -/
def thresholdActions (actions : List Action) : List Action := actions.filter (·.kind ≠ .health)

/-- Incidents open and close in turns. -/
def Alternates : Option String → List Action → Prop
  | _, [] => True
  | none, action :: rest =>
    action.kind = .thresholdTrigger ∧ ∃ event, action.event = some event ∧ Alternates (some event.id) rest
  | some id, action :: rest =>
    (action.kind = .thresholdRecovery ∨ action.kind = .deviceUnavailable) ∧
      (∃ event, action.event = some event ∧ event.id = id) ∧ Alternates none rest

/-- The incident that is open after the actions. -/
def openAfter : Option String → List Action → Option String
  | opened, [] => opened
  | none, action :: rest => openAfter (action.event.map (·.id)) rest
  | some _, _ :: rest => openAfter none rest

theorem Alternates.append {as bs : List Action} {opened : Option String} (h : Alternates opened as)
    (h' : Alternates (openAfter opened as) bs) :
    Alternates opened (as ++ bs) ∧ openAfter opened (as ++ bs) = openAfter (openAfter opened as) bs := by
  induction as generalizing opened with
  | nil => cases opened <;> exact ⟨h', rfl⟩
  | cons action rest ih =>
    cases opened with
    | none =>
      obtain ⟨hkind, event, hevent, hrest⟩ := h
      simp only [openAfter, hevent, Option.map_some] at h' ⊢
      obtain ⟨halt, hopen⟩ := ih hrest h'
      refine ⟨⟨hkind, event, hevent, halt⟩, ?_⟩
      rw [cons_append, openAfter, hevent]
      exact hopen
    | some id =>
      obtain ⟨hkind, hevent, hrest⟩ := h
      obtain ⟨halt, hopen⟩ := ih hrest h'
      exact ⟨⟨hkind, hevent, halt⟩, hopen⟩

/-! ## Steps -/

/-- The incident of a state. -/
def incidentOf (s : AlertEvaluationState) : Option String :=
  if s.activeEventID = "" then none else some s.activeEventID

theorem thresholdActions_health {actions : List Action} (h : ∀ a ∈ actions, a.kind = .health) :
    thresholdActions actions = [] :=
  filter_eq_nil_iff.mpr fun a ha => by simp [h a ha]

/-- Health records and one other action. -/
theorem thresholdActions_snoc {before : List Action} {action : Action} (h : ∀ a ∈ before, a.kind = .health)
    (hkind : action.kind ≠ .health) : thresholdActions (before ++ [action]) = [action] := by
  have hbefore := thresholdActions_health h
  unfold thresholdActions at hbefore ⊢
  rw [filter_append, hbefore]
  simp [hkind]

variable {draw : Option Uuid} {input : StepInput} {r : StepResult} {a : Action}

/-- The incident that opens has an id. -/
theorem trigger_id_ne_empty (h : step draw input = .ok r) (ha : a ∈ r.actions) (hkind : a.kind = .thresholdTrigger)
    {event : AlertEvent} (hevent : a.event = some event) : event.id ≠ "" := by
  obtain ⟨-, hexit⟩ := step_exit h
  have hclosing : ∀ a ∈ closing input, a.kind ≠ .thresholdTrigger := fun a ha hk => by
    rw [closing_kind ha] at hk
    cases hk
  cases hexit with
  | suspend | quiet => cases ha
  | gone =>
    rw [mem_singleton.mp ha] at hkind
    cases hkind
  | unhealthy =>
    rw [recordUnhealthy_kind ha] at hkind
    cases hkind
  | clear | pend | fire | recovering => exact absurd hkind (hclosing a ha)
  | trigger v id =>
    obtain ha | ha := Table.mem_snoc.mp ha
    · exact absurd hkind (hclosing a ha)
    · rw [ha] at hevent
      cases hevent
      exact id.text_ne_empty
  | recover =>
    obtain ha | ha := Table.mem_snoc.mp ha
    · exact absurd hkind (hclosing a ha)
    · rw [ha] at hkind
      simp at hkind

/-- The actions of a step lead from the incident of the previous state to the one of the next. -/
theorem alternates_step (hunchecked : input.incidentChecked = false) (h : step draw input = .ok r) :
    Alternates (incidentOf input.previous) (thresholdActions r.actions) ∧
      openAfter (incidentOf input.previous) (thresholdActions r.actions) = incidentOf r.state := by
  have hknown : knownIncident input = (input.previous.activeEventID, input.previous.activeEventStatus) := by
    unfold knownIncident
    rw [hunchecked]
    rfl
  cases step_incident h with
  | keep hk hs =>
    rw [hknown] at hs
    have hid : r.state.activeEventID = input.previous.activeEventID := congrArg Prod.fst hs
    rw [thresholdActions_health hk]
    unfold incidentOf
    rw [hid]
    exact ⟨by split <;> trivial, by split <;> rfl⟩
  | opened before event hb hacts hempty hst hs =>
    rw [hknown] at hempty
    have hid : r.state.activeEventID = event.id := congrArg Prod.fst hs
    have hne : event.id ≠ "" := trigger_id_ne_empty h (hacts ▸ mem_concat_self) rfl rfl
    rw [hacts, thresholdActions_snoc hb (by simp)]
    unfold incidentOf
    rw [hid, if_pos hempty, if_neg hne]
    exact ⟨⟨rfl, event, rfl, trivial⟩, rfl⟩
  | closed before action event hb hacts hev hid hne hst hkind hs =>
    rw [hknown] at hid hne
    have hid' : r.state.activeEventID = "" := congrArg Prod.fst hs
    have hcloses : action.kind = .thresholdRecovery ∨ action.kind = .deviceUnavailable :=
      hkind.imp And.left And.left
    rw [hacts, thresholdActions_snoc hb (by obtain hk | hk := hcloses <;> simp [hk])]
    unfold incidentOf
    rw [hid', if_neg hne, if_pos rfl]
    exact ⟨⟨hcloses, ⟨event, hev, hid⟩, trivial⟩, rfl⟩

/-- A trigger or a recovery comes of a good observation with new evidence. -/
theorem threshold_action_evidence (h : step draw input = .ok r) (ha : a ∈ r.actions)
    (hkind : a.kind = .thresholdTrigger ∨ a.kind = .thresholdRecovery) :
    (effective input).status = .ok ∧ newEvidence input.previous (effective input) = true := by
  obtain ⟨-, hexit⟩ := step_exit h
  have hgood : ∀ (_ : Healthy input) (_ : newEvidence input.previous input.observation = true),
      (effective input).status = .ok ∧ newEvidence input.previous (effective input) = true := by
    intro hok hnew
    rw [effective_of_healthy hok]
    exact ⟨hok.status_ok, hnew⟩
  cases hexit with
  | suspend | quiet => cases ha
  | gone =>
    rw [mem_singleton.mp ha] at hkind
    simp at hkind
  | unhealthy =>
    rw [recordUnhealthy_kind ha] at hkind
    simp at hkind
  | clear _ hok hnew | pend _ hok hnew | fire _ hok hnew | recovering _ hok hnew => exact hgood hok hnew
  | trigger _ _ hok hnew | recover _ hok hnew => exact hgood hok hnew

/-! ## Runs -/

/-- The threshold actions of a run, in order. -/
def runActions (es : List Evaluation) : List Action := es.flatMap fun e => thresholdActions e.result.actions

/-- In every run of the engine that keeps the incident in its own state: the threshold actions are a
trigger, then a recovery or the loss of the device, then a trigger, and so on; each one that closes an
incident carries the id of the trigger before it; and a step whose effective status is not ok, or that has
no new evidence, emits neither a trigger nor a recovery. -/
theorem threshold_actions_alternate {es : List Evaluation} {s : AlertEvaluationState} (h : EngineRun es s)
    (hunchecked : ∀ e ∈ es, e.input.incidentChecked = false) : Alternates none (runActions es) ∧
    ∀ e ∈ es, ((effective e.input).status ≠ .ok ∨ newEvidence e.input.previous (effective e.input) = false) →
      ∀ a ∈ e.result.actions, a.kind ≠ .thresholdTrigger ∧ a.kind ≠ .thresholdRecovery := by
  constructor
  · have hinv : Alternates none (runActions es) ∧ openAfter none (runActions es) = incidentOf s := by
      induction h with
      | nil => exact ⟨trivial, rfl⟩
      | @snoc es e s s' _ hst ih => ?_
      obtain ⟨rfl, hstep, rfl⟩ := hst
      obtain ⟨halt, hopen⟩ := ih fun x hx => hunchecked x (mem_append_left _ hx)
      obtain ⟨hstepAlt, hstepOpen⟩ := alternates_step (hunchecked e mem_concat_self) hstep
      have hsplit : runActions (es ++ [e]) = runActions es ++ thresholdActions e.result.actions := by
        unfold runActions
        rw [flatMap_append, flatMap_singleton]
      rw [hsplit]
      obtain ⟨halt', hopen'⟩ := halt.append (hopen ▸ hstepAlt)
      exact ⟨halt', by rw [hopen', hopen, hstepOpen]⟩
    exact hinv.1
  · intro e he hbad a ha
    obtain ⟨fs, s₁, s₂, -, -, hstep, -⟩ := h.mem he
    have hevidence := threshold_action_evidence hstep ha
    constructor
    · intro hkind
      obtain ⟨hstatus, hnew⟩ := hevidence (.inl hkind)
      obtain hne | hold := hbad
      · exact hne hstatus
      · rw [hnew] at hold
        cases hold
    · intro hkind
      obtain ⟨hstatus, hnew⟩ := hevidence (.inr hkind)
      obtain hne | hold := hbad
      · exact hne hstatus
      · rw [hnew] at hold
        cases hold

/-- An incident opens and recovers. -/
theorem threshold_actions_alternate_sample : ∃ es s, EngineRun es s ∧ (∀ e ∈ es, e.input.incidentChecked = false) ∧
      (runActions es).map (·.kind) = [.thresholdTrigger, .thresholdRecovery] ∧ Alternates none (runActions es) := by
  obtain ⟨es, hes, hunchecked, hkinds⟩ : ∃ es, evaluateFrom {} sampleIncident = .ok es ∧
      (∀ e ∈ es, e.input.incidentChecked = false) ∧
      (runActions es).map (·.kind) = [.thresholdTrigger, .thresholdRecovery] :=
    ⟨_, rfl, by simp [sampleInput], rfl⟩
  obtain ⟨s, hrun⟩ := evaluateFrom_run hes
  exact ⟨es, s, hrun, hunchecked, hkinds, (threshold_actions_alternate hrun hunchecked).1⟩

end Beat.Alert
