import Beat.Alert.Confirmation

/-!
# Phase and incident

The phase of a state should agree with its incident: firing or recovering exactly when an incident
is active. A step overwrites the incident from the incident table and repairs the phase on most of
its exits. One exit does not: a good observation whose evidence was seen before, outside a health
epoch, returns early. When an operator resolved the incident in the meantime, the state stays in
`firing` or `recovering` without an incident.

* `Desk`: the state of one key with the incident that the table holds, an operator who works on the
  incident, and the engine.
* `Coherent`: the relation of phase and incident, and the bounds of the counters.
* `Leftover`: the early return with a resolved incident.
* `coherent_iff_no_leftover`: a run is coherent throughout exactly if no step of it is `Leftover`.
-/

namespace Beat.Alert

open List Option

/-- The state of a key and the active incident that the table holds for it. -/
structure Desk where
  state : AlertEvaluationState := {}
  incident : Option AlertEvent := none

inductive DeskEvent where
  | acknowledge
  | resolve
  | evaluate (e : Evaluation)

/-- The active incident of a key after the actions of a step are stored. -/
def applyActions (incident : Option AlertEvent) (actions : List Action) : Option AlertEvent :=
  actions.foldl
    (fun incident action =>
      match action.kind with
      | .thresholdTrigger => action.event
      | .thresholdRecovery | .deviceUnavailable => none
      | .health => incident)
    incident

/-- The operator acknowledges or resolves the incident; the engine evaluates with the incident that
the table holds. -/
inductive DeskStep : Desk → DeskEvent → Desk → Prop where
  | acknowledge {w incident} (hi : w.incident = some incident) (hs : incident.status = .triggered) :
      DeskStep w .acknowledge { w with incident := some { incident with status := .acknowledged } }
  | resolve {w incident} (hi : w.incident = some incident) : DeskStep w .resolve { w with incident := none }
  | evaluate {w e} (hprev : e.input.previous = w.state)
      (hcheck : e.input.incidentChecked = true) (hi : e.input.incident = w.incident)
      (hstep : step e.draw e.input = .ok e.result) :
      DeskStep w (.evaluate e) ⟨e.result.state, applyActions w.incident e.result.actions⟩

abbrev DeskRun : List DeskEvent → Desk → Prop := Lts.Run DeskStep {}

/-- A counter of milliseconds is within its bounds. -/
def InBounds (ms : Int) : Prop := 0 ≤ ms ∧ ms ≤ maximumDelaySeconds * 1000

/-- The phase agrees with the incident, and the counters are within their bounds. -/
structure Coherent (s : AlertEvaluationState) : Prop where
  incident : s.phase = .firing ∨ s.phase = .recovering ↔ s.activeEventID ≠ ""
  pending : s.phase = .pending → s.activeEventID = "" ∧ s.pendingSince.isSome
  triggerElapsed : InBounds s.triggerElapsedMS
  recoveryElapsed : InBounds s.recoveryElapsedMS
  healthElapsed : InBounds s.health.elapsedMS

/-- The step finds no incident for a state that had one, and returns early because the evidence was
seen before and no health epoch is open. -/
structure Leftover (input : StepInput) : Prop where
  healthy : Healthy input
  seen : newEvidence input.previous input.observation = false
  no_epoch : input.previous.health.epochID = ""
  no_incident : input.incident = none
  had_incident : input.previous.activeEventID ≠ ""

/-! ## Counters -/

theorem InBounds.zero : InBounds 0 := by
  unfold InBounds maximumDelaySeconds; omega

theorem InBounds.credit {ms d : Int} (h : InBounds ms) (hd : 0 ≤ d) : InBounds (creditMS ms d) := by
  have := Instant.milliseconds_nonneg hd
  unfold InBounds creditMS maximumDelaySeconds at *
  omega

theorem InBounds.ite {c : Prop} [Decidable c] {a b : Int} (ha : InBounds a) (hb : InBounds b) :
    InBounds (if c then a else b) := by
  split
  · exact ha
  · exact hb

theorem elapsed_nonneg (input : StepInput) : 0 ≤ elapsed input := by
  unfold elapsed evidenceElapsed
  split
  · simp only
    split_ifs <;> simp
  · simp

variable {s : AlertEvaluationState} {input : StepInput} {a : DeskEvent} {as : List DeskEvent} {w : Desk}

theorem InBounds.delayMS (o : AlertEvaluationObservation) (h : InBounds s.health.elapsedMS) :
    InBounds (delayMS s o) := by
  refine InBounds.ite InBounds.zero ?_
  split
  · exact h
  · split_ifs with hrun hd
    · exact h.credit hd.1
    · exact InBounds.zero
    · exact h

/-! ## The incident table -/

/-- The state knows the incident of the table, unless the operator resolved it. -/
def Linked (w : Desk) : Prop :=
  ∀ incident, w.incident = some incident →
    incident.status.isActive ∧ incident.id ≠ "" ∧ w.state.activeEventID = incident.id

theorem knownIncident_checked (hc : input.incidentChecked = true)
    (hact : ∀ incident, input.incident = some incident → incident.status.isActive) :
    (knownIncident input).1 = (input.incident.map (·.id)).getD "" := by
  unfold knownIncident
  simp only [hc, if_true]
  cases hi : input.incident with
  | none => rfl
  | some incident => simp [hact incident hi]

theorem applyActions_append (incident : Option AlertEvent) (as bs : List Action) :
    applyActions incident (as ++ bs) = applyActions (applyActions incident as) bs := by
  unfold applyActions
  rw [foldl_append]

/-- Health actions leave the incident alone. -/
theorem applyActions_health {incident : Option AlertEvent} {as : List Action}
    (h : ∀ a ∈ as, a.kind = .health) : applyActions incident as = incident := by
  induction as with
  | nil => rfl
  | cons a as ih =>
    have ha := h a mem_cons_self
    simp only [applyActions, foldl_cons, ha]
    exact ih fun b hb => h b (mem_cons_of_mem _ hb)

/-! ## One step -/

section step

variable {e : Evaluation} {w w' : Desk}

theorem Linked.known (hl : Linked w) (hc : e.input.incidentChecked = true)
    (hi : e.input.incident = w.incident) : (knownIncident e.input).1 = (w.incident.map (·.id)).getD "" := by
  rw [knownIncident_checked hc fun incident h => (hl incident (hi ▸ h)).1, hi]

/-- The state keeps the known incident, and the table keeps its own. -/
theorem Linked.keep (hl : Linked w) (hc : e.input.incidentChecked = true) (hi : e.input.incident = w.incident)
    {as : List Action} (hid : s.activeEventID = (knownIncident e.input).1) (has : ∀ a ∈ as, a.kind = .health) :
    Linked ⟨s, applyActions w.incident as⟩ := by
  intro incident h
  simp only [applyActions_health has] at h
  obtain ⟨hact, hne, -⟩ := hl incident h
  exact ⟨hact, hne, by simp only [hid, hl.known hc hi, h, map_some, getD_some]⟩

theorem Linked.step (hl : Linked w) (hst : DeskStep w a w') : Linked w' := by
  cases hst with
  | acknowledge hi hs =>
    intro incident h
    cases h
    obtain ⟨-, hne, hid⟩ := hl _ hi
    exact ⟨rfl, hne, hid⟩
  | resolve hi => intro incident h; cases h
  | @evaluate e hprev hc hi hstep =>
    obtain ⟨-, hexit⟩ := step_exit hstep
    generalize e.result = r at hexit
    have hclosing : ∀ a ∈ closing e.input, a.kind = .health := fun a ha => closing_kind ha
    cases hexit with
    | suspend => exact hl.keep hc hi (by simp [suspended, resetConfirmation]) (by simp)
    | gone => intro incident h; cases h
    | unhealthy o health ho _ =>
      exact hl.keep hc hi (by simp [recordUnhealthy, troubled, resetConfirmation])
        fun a ha => recordUnhealthy_kind ha
    | quiet => exact hl.keep hc hi (by simp) (by simp)
    | clear => exact hl.keep hc hi (by simp [resetConfirmation]) hclosing
    | pend => exact hl.keep hc hi (by simp [confirmTrigger_eq]) hclosing
    | trigger v id _ _ _ _ _ _ _ =>
      intro incident h
      rw [applyActions_append] at h
      cases h
      exact ⟨rfl, id.text_ne_empty, rfl⟩
    | fire => exact hl.keep hc hi (by simp) hclosing
    | recovering => exact hl.keep hc hi (by simp [confirmRecovery_eq]) hclosing
    | recover =>
      intro incident h
      simp [applyActions] at h

/-- A state whose confirmation was reset is coherent. -/
theorem Coherent.of_reset {c c' : AlertEvaluationState}
    (hph : c'.phase = (resetConfirmation c).phase) (hid : c'.activeEventID = c.activeEventID)
    (ht : c'.triggerElapsedMS = 0) (hr : c'.recoveryElapsedMS = 0)
    (hh : InBounds c'.health.elapsedMS) : Coherent c' := by
  refine ⟨?_, ?_, ht ▸ InBounds.zero, hr ▸ InBounds.zero, hh⟩
  all_goals
    rw [hph, hid, resetConfirmation]
    by_cases h : c.activeEventID = "" <;> simp [h]

theorem Coherent.started (h : Coherent input.previous) :
    InBounds (started input).triggerElapsedMS ∧ InBounds (started input).recoveryElapsedMS ∧
      InBounds (started input).health.elapsedMS := by
  obtain ⟨ht, hr, -⟩ := started_confirmation input
  refine ⟨?_, ?_, ?_⟩
  · rw [ht]; exact InBounds.ite InBounds.zero h.triggerElapsed
  · rw [hr]; exact InBounds.ite InBounds.zero h.recoveryElapsed
  · rw [started_health]
    split
    · exact InBounds.zero
    · exact h.healthElapsed

theorem Coherent.ready (h : Coherent input.previous) :
    InBounds (ready input).triggerElapsedMS ∧ InBounds (ready input).recoveryElapsedMS ∧
      InBounds (ready input).health.elapsedMS := by
  obtain ⟨ht, hr, hh⟩ := h.started
  obtain ⟨ht', hr', -⟩ := ready_confirmation input
  refine ⟨?_, ?_, ?_⟩
  · rw [ht']; exact InBounds.ite ht InBounds.zero
  · rw [hr']; exact InBounds.ite hr InBounds.zero
  · rw [ready_health]
    split
    · exact hh
    · exact InBounds.zero

/-- The early return keeps the relation when the state and the table agree about the incident. -/
theorem Coherent.quiet (h : Coherent input.previous) (hok : Healthy input)
    (hagree : (knownIncident input).1 = "" ↔ input.previous.activeEventID = "") :
    Coherent { Alert.started input with reason := "no_new_evidence" } := by
  obtain ⟨ht, hr, hh⟩ := h.started
  have hph := started_phase input
  simp only [hok.no_rollback, Bool.false_eq_true, if_false] at hph
  refine ⟨?_, fun hp => ?_, ht, hr, hh⟩
  · simp only [hph, started_activeEventID, ne_eq, hagree]
    by_cases hrev : revisionChanged input
    · simp only [hrev, if_true]
      by_cases ha : input.previous.activeEventID = "" <;> simp [ha]
    · have hprev := h.incident
      simp only [hrev, Bool.false_eq_true, if_false]
      rw [← ne_eq, ← hprev]
      by_cases hu : input.previous.phase = .unset <;> simp [hu]
  · obtain ⟨hp', hrev⟩ := started_phase_eq hok.no_rollback (by decide) (by decide) hp
    obtain ⟨ha, hs⟩ := h.pending hp'
    refine ⟨by simp only [started_activeEventID]; exact hagree.mpr ha, ?_⟩
    simpa [started_confirmation, hok.no_rollback, hrev] using hs

/-- The early return after a resolved incident keeps the phase of the incident. -/
theorem not_coherent_of_leftover (h : Coherent input.previous) (hl : Leftover input)
    (hc : input.incidentChecked = true) : ¬Coherent { Alert.started input with reason := "no_new_evidence" } := by
  intro hco
  have hnone : (knownIncident input).1 = "" := by
    unfold knownIncident; simp [hc, hl.no_incident]
  have hno := mt hco.incident.mp (by simp only [started_activeEventID, hnone]; simp)
  refine hno ?_
  simp only [started_phase, hl.healthy.no_rollback, Bool.false_eq_true, if_false, hl.had_incident]
  by_cases hrev : revisionChanged input
  · simp [hrev]
  · have hph := h.incident.mpr hl.had_incident
    rcases hph with hp | hp <;> simp [hp]

theorem Coherent.step (h : Coherent w.state) (hl : Linked w) (hst : DeskStep w (.evaluate e) w')
    (hno : ¬Leftover e.input) : Coherent w'.state := by
  cases hst with
  | evaluate hprev hc hi hstep =>
    obtain ⟨-, hexit⟩ := step_exit hstep
    rw [← hprev] at h
    obtain ⟨hst, hsr, hsh⟩ := h.started
    obtain ⟨hrt, hrr, hrh⟩ := h.ready
    generalize e.result = r at hexit
    cases hexit with
    | suspend => exact Coherent.of_reset (c := Alert.started e.input) rfl rfl rfl rfl hsh
    | gone =>
      exact Coherent.of_reset (c := { Alert.started e.input with activeEventID := "" })
        rfl rfl rfl rfl hsh
    | unhealthy o health ho hopen =>
      refine Coherent.of_reset (c := Alert.started e.input) rfl rfl rfl rfl ?_
      simp only [recordUnhealthy, creditHealthDelay_eq]
      refine InBounds.delayMS o ?_
      unfold openEpoch at hopen
      split_ifs at hopen
      · split at hopen
        · cases hopen
        · cases hopen; exact InBounds.zero
      · cases hopen; exact hsh
    | quiet hok hnew hepoch =>
      refine h.quiet hok ?_
      have hk := hl.known hc hi
      cases hinc : w.incident with
      | none =>
        simp only [hinc, map_none, getD_none] at hk
        simp only [hk, true_iff]
        by_contra ha
        exact hno ⟨hok, hnew, hepoch, hi.trans hinc, ha⟩
      | some incident =>
        obtain ⟨-, hne, hid⟩ := hl incident hinc
        simp only [hinc, map_some, getD_some] at hk
        rw [hk, hprev, hid]
    | clear => exact Coherent.of_reset (c := Alert.ready e.input) rfl rfl rfl rfl hrh
    | pend v hok _ _ hact _ _ =>
      rw [confirmTrigger_eq]
      refine ⟨by simp [hact], fun _ => ⟨by simpa using hact, ?_⟩, ?_, hrr, hrh⟩
      · simp only
        split_ifs with hp
        · obtain ⟨hcont, hph, hrev⟩ := ready_phase_eq hok.no_rollback (by decide) (by decide) hp
          simpa [ready_confirmation, started_confirmation, hcont, hrev, hok.no_rollback]
            using (h.pending hph).2
        · rfl
      · exact InBounds.ite (hrt.credit (elapsed_nonneg _)) InBounds.zero
    | trigger v id _ _ _ _ _ _ _ =>
      rw [confirmTrigger_eq]
      exact ⟨by simp [id.text_ne_empty], (fun h => by cases h),
        InBounds.ite (hrt.credit (elapsed_nonneg _)) InBounds.zero, hrr, hrh⟩
    | fire v _ _ _ hact _ =>
      exact ⟨by simpa using hact, (fun h => by cases h), hrt, InBounds.zero, hrh⟩
    | recovering v _ _ _ hact _ =>
      rw [confirmRecovery_eq]
      exact ⟨by simpa using hact, (fun h => by cases h), hrt,
        InBounds.ite (hrr.credit (elapsed_nonneg _)) InBounds.zero, hrh⟩
    | recover =>
      rw [confirmRecovery_eq]
      exact Coherent.of_reset (c := { Alert.ready e.input with activeEventID := "" })
        rfl rfl rfl rfl hrh

end step

/-! ## Whole runs -/

theorem DeskRun.linked (h : DeskRun as w) : Linked w :=
  h.inv (I := Linked) (fun _ hi => nomatch hi) fun _ _ _ hl hst => hl.step hst

/-- The operator does not touch the state. -/
theorem DeskStep.state_eq {w' : Desk} (h : DeskStep w a w') (ha : ∀ e, a ≠ .evaluate e) : w'.state = w.state := by
  cases h with
  | acknowledge => rfl
  | resolve => rfl
  | evaluate => exact absurd rfl (ha _)

theorem DeskRun.coherent (h : DeskRun as w) (hno : ∀ e, .evaluate e ∈ as → ¬Leftover e.input) : Coherent w.state := by
  induction h with
  | nil => refine ⟨by simp, by simp, ?_, ?_, ?_⟩ <;> exact InBounds.zero
  | @snoc as a w w' hrun hst ih =>
    have hw := ih fun e he => hno e (mem_append_left _ he)
    by_cases ha : ∃ e, a = .evaluate e
    · obtain ⟨e, rfl⟩ := ha
      exact hw.step (DeskRun.linked hrun) hst (hno e (by simp))
    · rw [hst.state_eq fun e he => ha ⟨e, he⟩]
      exact hw

/-- A step with a leftover incident leaves a state that is not coherent. -/
theorem DeskStep.leftover {w' : Desk} {e : Evaluation} (hst : DeskStep w (.evaluate e) w') (hl : Leftover e.input)
    (h : Coherent w.state) : ¬Coherent w'.state := by
  cases hst with
  | evaluate hprev hc hi hstep =>
    rw [← hprev] at h
    obtain ⟨-, hexit⟩ := step_exit hstep
    generalize e.result = r at hexit
    have hnew := hl.seen
    cases hexit with
    | suspend _ _ hbad => exact absurd hl.healthy hbad
    | gone _ hbad => exact absurd hl.healthy hbad
    | unhealthy o health ho =>
      rcases ho.cause with hbad | ⟨-, hep⟩
      · exact absurd hl.healthy hbad
      · exact absurd hl.no_epoch hep
    | quiet => exact not_coherent_of_leftover h hl hc
    | clear | pend | trigger | fire | recovering | recover => simp_all

/-- Phase and incident agree in every state of a run exactly if no step of the run returns early on
a resolved incident. -/
theorem coherent_iff_no_leftover {as : List DeskEvent} {w : Desk} (h : DeskRun as w) :
    (∀ n v, DeskRun (as.take n) v → Coherent v.state) ↔ ∀ e, .evaluate e ∈ as → ¬Leftover e.input := by
  constructor
  · intro hall e he hl
    obtain ⟨n, hn⟩ := mem_iff_getElem?.mp he
    obtain ⟨v, v', hrun, hst⟩ := h.at hn
    have hstep : DeskRun (as.take (n + 1)) v' := by
      rw [take_add_one, hn]; exact hrun.snoc hst
    exact hst.leftover hl (hall n v hrun) (hall (n + 1) v' hstep)
  · intro hno n v hrun
    exact DeskRun.coherent hrun fun e he => hno e (mem_of_mem_take he)

/-- The result of a step, for the runs on fixed inputs. -/
def sampleEvaluation (draw : Option Uuid) (input : StepInput) : Evaluation :=
  { draw := draw, input := { input with incidentChecked := true }
    result :=
      match step draw { input with incidentChecked := true } with
      | .ok result => result
      | .error _ => { state := {}, actions := [] } }

/-- A rule that fires and recovers at once. -/
def instantRule : AlertEvaluationRule := { sampleRule with duration := 0, recoveryDuration := 0 }

/-- Evidence above the threshold opens an incident. -/
def sampleOpened : Evaluation :=
  sampleEvaluation (some sampleUuid) (sampleInput instantRule 0 "a" 85)

/-- The next evaluation, 30 seconds later, with the evidence `evidenceID` and the incident that the
table holds. -/
def sampleNext (evidenceID : String) (value : Rat) (incident : Option AlertEvent) : Evaluation :=
  sampleEvaluation none
    { sampleInput instantRule 30 evidenceID value with
      previous := sampleOpened.result.state, incident := incident }

/-- The incident opens and the operator resolves it. -/
theorem sample_resolved : DeskRun [.evaluate sampleOpened, .resolve] ⟨sampleOpened.result.state, none⟩ := by
  have h1 : DeskStep {} (.evaluate sampleOpened)
      ⟨sampleOpened.result.state,
        some (triggerEvent sampleUuid sampleOpened.input sampleOpened.input.observation (.finite 85))⟩ :=
    .evaluate rfl rfl rfl rfl
  exact .cons h1 (.cons (.resolve rfl) .nil)

/-- After that an evaluation sees the same evidence: the state stays firing without an incident. -/
theorem phase_firing_without_incident :
    ∃ as w, DeskRun as w ∧ w.state.phase = .firing ∧ w.state.activeEventID = "" ∧ ¬Coherent w.state := by
  have h : DeskStep ⟨sampleOpened.result.state, none⟩ (.evaluate (sampleNext "a" 85 none))
      ⟨(sampleNext "a" 85 none).result.state, none⟩ := .evaluate rfl rfl rfl rfl
  exact ⟨_, _, sample_resolved.snoc h, rfl, rfl, fun hc => hc.incident.mp (.inl rfl) rfl⟩

theorem coherent_iff_no_leftover_sample :
    ∃ as w, DeskRun as w ∧ as.length = 3 ∧ ∀ n v, DeskRun (as.take n) v → Coherent v.state := by
  have h : DeskStep ⟨sampleOpened.result.state, none⟩ (.evaluate (sampleNext "b" 60 none))
      ⟨(sampleNext "b" 60 none).result.state, none⟩ := .evaluate rfl rfl rfl rfl
  refine ⟨_, _, sample_resolved.snoc h, rfl,
    (coherent_iff_no_leftover (sample_resolved.snoc h)).mpr fun e he hl => ?_⟩
  simp only [cons_append, nil_append, mem_cons, DeskEvent.evaluate.injEq,
    reduceCtorEq, not_mem_nil, or_false, false_or] at he
  have hseen := hl.seen
  rcases he with rfl | rfl <;> exact nomatch hseen

end Beat.Alert
