import Beat.Alert.Engine
import Beat.Lib.Fallible
import Beat.Lib.Run

/-!
# The exits of a step

`Exit` lists every way in which `step` can return a result, with the guards that lead there and the
result itself. It is proved once from the code (`step_exit`); the results about whole runs are case
analyses over it and never unfold `step` again.

- `started` is the state after the fields that every step writes, `effective` the observation that
  the rest of the step reads;
- `ready` is the state that new evidence finds when the threshold is compared, and `closing` the
  action that ends an open health epoch there.
-/

namespace Beat.Alert

open List Fallible Instant

open Ieee (F64)

/-- The observation after `stepObservation`. -/
def effective (input : StepInput) : AlertEvaluationObservation :=
  (stepObservation input (initialStep input)).1

/-- The state after `initialStep` and `stepObservation`. -/
def started (input : StepInput) : AlertEvaluationState :=
  (stepObservation input (initialStep input)).2.state

/-- The step starts under a rule revision other than the last one. -/
def revisionChanged (input : StepInput) : Bool :=
  input.previous.ruleRevision != 0 && input.previous.ruleRevision != input.rule.revision

/-- The active incident that the step works with: the one the caller looked up, or else the one of
the previous state. -/
def knownIncident (input : StepInput) : String × AlertStatus :=
  if input.incidentChecked then
    match input.incident with
    | some incident =>
      if incident.status.isActive then (incident.id, incident.status) else ("", .unset)
    | none => ("", .unset)
  else (input.previous.activeEventID, input.previous.activeEventStatus)

/-! ## The fields of the started state -/

section started

variable (input : StepInput)

theorem stepObservation_snd : (stepObservation input (initialStep input)).2 = ⟨started input, []⟩ := by
  unfold started stepObservation
  by_cases h : clockRollback input <;> simp [h, initialStep]

@[simp] theorem started_activeEventID : (started input).activeEventID = (knownIncident input).1 := by
  simp only [started, stepObservation, initialStep, knownIncident, resetConfirmation]
  grind

@[simp] theorem started_activeEventStatus : (started input).activeEventStatus = (knownIncident input).2 := by
  simp only [started, stepObservation, initialStep, knownIncident, resetConfirmation]
  grind

/-- Without a rollback or a new revision the confirmation of the previous state goes on. -/
theorem started_phase : (started input).phase =
      if clockRollback input then if (knownIncident input).1 = "" then .normal else .firing
      else if revisionChanged input then if input.previous.activeEventID = "" then .normal else .firing
      else if input.previous.phase = .unset then .normal else input.previous.phase := by
  simp only [started, stepObservation, initialStep, knownIncident, resetConfirmation, revisionChanged]
  grind

theorem started_confirmation :
    (started input).triggerElapsedMS =
        (if clockRollback input ∨ revisionChanged input then 0 else input.previous.triggerElapsedMS) ∧
      (started input).recoveryElapsedMS =
        (if clockRollback input ∨ revisionChanged input then 0 else input.previous.recoveryElapsedMS) ∧
      (started input).pendingSince =
        if clockRollback input ∨ revisionChanged input then none else input.previous.pendingSince := by
  simp only [started, stepObservation, initialStep, resetConfirmation, revisionChanged]
  grind

theorem started_health : (started input).health =
      if clockRollback input then { input.previous.health with elapsedMS := 0 }
      else input.previous.health := by
  simp only [started, stepObservation, initialStep, resetConfirmation]
  grind

@[simp] theorem started_epochID : (started input).health.epochID = input.previous.health.epochID := by
  rw [started_health]; split <;> rfl

/-- The fields that a step keeps until it finds evidence. -/
theorem started_evidence : (started input).lastEvidenceAt = input.previous.lastEvidenceAt ∧
      (started input).lastEvidenceObservedAt = input.previous.lastEvidenceObservedAt ∧
      (started input).evidenceID = input.previous.evidenceID ∧
      (started input).runID = input.previous.runID := by
  simp only [started, stepObservation, initialStep, resetConfirmation]
  grind

/-- The fields that every step writes. -/
theorem started_written : (started input).version = input.previous.version + 1 ∧
      (started input).ruleRevision = input.rule.revision ∧
      (started input).ruleID = input.rule.id ∧ (started input).nodeID = input.node.id ∧
      (started input).deviceID = input.deviceID ∧
      (started input).lastEvaluatedAt = some input.observation.observedAt := by
  simp only [started, stepObservation, initialStep, resetConfirmation]
  grind

theorem started_status : (started input).status = input.observation.status := by
  simp only [started, stepObservation, initialStep, resetConfirmation]
  grind

end started

/-! ## The evidence of a step -/

/-- The rule is live, the clock did not go back and the observation is good. -/
structure Healthy (input : StepInput) : Prop where
  status_ok : input.observation.status = .ok
  enabled : input.rule.enabled = true
  not_deleted : input.rule.deletedAt = none
  no_rollback : clockRollback input = false

/-- What an accepted observation fulfils. -/
structure Valid (input : StepInput) : Prop where
  ruleID : input.rule.id ≠ ""
  nodeID : input.node.id ≠ ""
  revision : 1 ≤ input.rule.revision
  runID : input.observation.runID ≠ ""
  value : input.observation.status = .ok → input.observation.value.isSome
  evidenceID : input.observation.status = .ok → input.observation.evidenceID ≠ ""

variable {input : StepInput} {o : AlertEvaluationObservation} {a : Action} {s : AlertEvaluationState}

theorem validateObservation_ok (h : validateObservation input = .ok ()) :
    Valid input := by
  obtain ⟨-, h⟩ := of_guard h
  obtain ⟨-, h⟩ := of_guard h
  obtain ⟨hkey, h⟩ := of_guard h
  obtain ⟨-, h⟩ := of_guard h
  simp only [not_or] at hkey
  obtain ⟨hrule, hnode, hrevision, -, hrun⟩ := hkey
  by_cases hs : input.observation.status = .ok
  · rw [if_pos hs] at h
    obtain ⟨hevidence, -⟩ := of_guard h
    simp only [not_or] at hevidence
    refine ⟨hrule, hnode, by omega, hrun, fun _ => ?_, fun _ => hevidence.2.1⟩
    cases hv : input.observation.value with
    | none => simp [hv] at hevidence
    | some v => rfl
  · exact ⟨hrule, hnode, by omega, hrun, fun hok => absurd hok hs, fun hok => absurd hok hs⟩

/-- The time that the evidence of a step confirms. -/
def elapsed (input : StepInput) : Int := (evidenceElapsed input.previous input.observation).1

/-- The evidence of the step follows the last without a gap. -/
def continuous (input : StepInput) : Bool := (evidenceElapsed input.previous input.observation).2

/-- The result of a step with evidence after the check that the evidence is continuous. -/
def continued (input : StepInput) : StepResult :=
  { state :=
      if continuous input then started input else resetConfirmation (started input)
    actions := [] }

/-- The state that the threshold comparison finds. -/
def ready (input : StepInput) : AlertEvaluationState :=
  applyEvidence (finishHealth (continued input) input.observation).state input.observation

/-- The action that closes the health epoch, if one is open. -/
def closing (input : StepInput) : List Action :=
  (finishHealth (continued input) input.observation).actions

/-- An unhealthy observation that the step reads: its own, or a good one without new evidence. -/
structure Unhealthy (input : StepInput) (o : AlertEvaluationObservation) : Prop where
  status : o.status = .noData ∨ o.status = .error
  observedAt : o.observedAt = input.observation.observedAt
  runID : o.runID = input.observation.runID
  cause : ¬Healthy input ∨
    newEvidence input.previous input.observation = false ∧ input.previous.health.epochID ≠ ""

/-- The state that an unhealthy observation is recorded in. -/
def troubled (input : StepInput) (o : AlertEvaluationObservation) (health : AlertEvaluationHealth) :
    AlertEvaluationState :=
  { resetConfirmation (started input) with status := o.status, reason := o.reason, health := health }

/-- The state of a suspended evaluation. -/
def suspended (input : StepInput) (status : EvaluationStatus) (reason : String) : AlertEvaluationState :=
  resetConfirmation
    { started input with
      status := status, reason := reason
      health := { (started input).health with suspended := true } }

/-- The state after an incident of `s` was resolved. -/
def withoutIncident (s : AlertEvaluationState) : AlertEvaluationState :=
  resetConfirmation { s with activeEventID := "", activeEventStatus := .unset }

/-! ## The exits -/

/-- Every exit of `step` with a result. -/
inductive Exit (draw : Option Uuid) (input : StepInput) : StepResult → Prop where
  /-- The rule is disabled, the node is out of scope, or the device is gone without an incident. -/
  | suspend (status : EvaluationStatus) (reason : String) (hbad : ¬Healthy input)
      (hs : status = .disabled ∨ status = .outOfScope) :
      Exit draw input ⟨suspended input status reason, []⟩
  /-- The device is gone: its incident is resolved. -/
  | gone (incident : AlertEvent) (hbad : ¬Healthy input) (hi : input.incident = some incident)
      (hid : incident.id = (knownIncident input).1)
      (hact : (knownIncident input).1 ≠ "") (hdev : incident.deviceID = input.deviceID) :
      Exit draw input
        ⟨withoutIncident (suspended input .outOfScope acceleratorDeviceUnavailable),
          [{ kind := .deviceUnavailable, notify := true
             event := some (unavailableEvent input incident)
             previousStatus := (started input).activeEventStatus }]⟩
  /-- The observation is missing or failed. -/
  | unhealthy (o : AlertEvaluationObservation) (health : AlertEvaluationHealth)
      (ho : Unhealthy input o)
      (hopen : openEpoch draw (started input).health o.observedAt = .ok health) :
      Exit draw input (recordUnhealthy input.rule ⟨troubled input o health, []⟩ o)
  /-- The evidence was seen before, and no health epoch is open. -/
  | quiet (hok : Healthy input) (hnew : newEvidence input.previous input.observation = false)
      (hepoch : input.previous.health.epochID = "") :
      Exit draw input ⟨{ started input with reason := "no_new_evidence" }, []⟩
  /-- New evidence that does not meet the condition. -/
  | clear (v : F64) (hok : Healthy input)
      (hnew : newEvidence input.previous input.observation = true)
      (hv : input.observation.value = some v) (hact : (knownIncident input).1 = "")
      (hcond : triggered v input.rule = false) :
      Exit draw input ⟨resetConfirmation (ready input), closing input⟩
  /-- New evidence that meets the condition, not yet for long enough. -/
  | pend (v : F64) (hok : Healthy input)
      (hnew : newEvidence input.previous input.observation = true)
      (hv : input.observation.value = some v) (hact : (knownIncident input).1 = "")
      (hcond : triggered v input.rule = true)
      (hwait : (confirmTrigger (ready input) input.observation (elapsed input)).triggerElapsedMS <
        input.rule.duration * 1000) :
      Exit draw input ⟨confirmTrigger (ready input) input.observation (elapsed input), closing input⟩
  /-- New evidence that meets the condition for long enough: an incident opens. -/
  | trigger (v : F64) (id : Uuid) (hok : Healthy input)
      (hnew : newEvidence input.previous input.observation = true)
      (hv : input.observation.value = some v) (hact : (knownIncident input).1 = "")
      (hcond : triggered v input.rule = true) (hdraw : draw = some id)
      (hlong : input.rule.duration * 1000 ≤
        (confirmTrigger (ready input) input.observation (elapsed input)).triggerElapsedMS) :
      Exit draw input
        ⟨{ confirmTrigger (ready input) input.observation (elapsed input) with
            activeEventID := id.text, activeEventStatus := .triggered, phase := .firing },
          closing input ++
            [{ kind := .thresholdTrigger, notify := true
               event := some (triggerEvent id input input.observation v) }]⟩
  /-- New evidence that keeps the incident firing. -/
  | fire (v : F64) (hok : Healthy input)
      (hnew : newEvidence input.previous input.observation = true)
      (hv : input.observation.value = some v) (hact : (knownIncident input).1 ≠ "")
      (hcond : recovered v input.rule = false) :
      Exit draw input
        ⟨{ ready input with phase := .firing, recoveryElapsedMS := 0, recoverySince := none },
          closing input⟩
  /-- New evidence of recovery, not yet for long enough or under an acknowledged incident. -/
  | recovering (v : F64) (hok : Healthy input)
      (hnew : newEvidence input.previous input.observation = true)
      (hv : input.observation.value = some v) (hact : (knownIncident input).1 ≠ "")
      (hcond : recovered v input.rule = true) :
      Exit draw input ⟨confirmRecovery (ready input) input.observation (elapsed input), closing input⟩
  /-- New evidence of recovery for long enough: the incident is resolved. -/
  | recover (v : F64) (hok : Healthy input)
      (hnew : newEvidence input.previous input.observation = true)
      (hv : input.observation.value = some v) (hact : (knownIncident input).1 ≠ "")
      (hcond : recovered v input.rule = true) (hack : (knownIncident input).2 ≠ .acknowledged)
      (hlong : input.rule.recoveryDuration * 1000 ≤
        (confirmRecovery (ready input) input.observation (elapsed input)).recoveryElapsedMS) :
      Exit draw input
        ⟨withoutIncident (confirmRecovery (ready input) input.observation (elapsed input)),
          closing input ++
            [nameDevice input.deviceID input.deviceName
              { kind := .thresholdRecovery, notify := true
                event := some (recoveryEvent input.rule
                  (confirmRecovery (ready input) input.observation (elapsed input))
                  input.observation v) }]⟩

/-! ## The fields of the ready state -/

section ready

variable (input : StepInput)

theorem finishHealth_state (result : StepResult) (o : AlertEvaluationObservation) :
    (finishHealth result o).state = { result.state with
        health := if result.state.health.epochID = "" then result.state.health else {} } := by
  unfold finishHealth
  split_ifs <;> rfl

@[simp] theorem ready_activeEventID : (ready input).activeEventID = (knownIncident input).1 := by
  simp only [ready, finishHealth_state, continued, applyEvidence, resetConfirmation]
  split_ifs <;> simp

@[simp] theorem ready_activeEventStatus : (ready input).activeEventStatus = (knownIncident input).2 := by
  simp only [ready, finishHealth_state, continued, applyEvidence, resetConfirmation]
  split_ifs <;> simp

theorem ready_phase : (ready input).phase = if continuous input then (started input).phase
      else if (knownIncident input).1 = "" then .normal else .firing := by
  simp only [ready, finishHealth_state, continued, applyEvidence]
  split_ifs <;> simp_all [resetConfirmation]

theorem ready_confirmation :
    (ready input).triggerElapsedMS = (if continuous input then (started input).triggerElapsedMS else 0) ∧
      (ready input).recoveryElapsedMS = (if continuous input then (started input).recoveryElapsedMS else 0) ∧
      (ready input).pendingSince = if continuous input then (started input).pendingSince else none := by
  simp only [ready, finishHealth_state, continued, applyEvidence]
  split <;> exact ⟨rfl, rfl, rfl⟩

theorem ready_health : (ready input).health =
      if input.previous.health.epochID = "" then (started input).health else {} := by
  simp only [ready, finishHealth_state, continued, applyEvidence]
  split <;> simp [resetConfirmation]

theorem ready_written : (ready input).version = input.previous.version + 1 ∧
      (ready input).ruleRevision = input.rule.revision ∧
      (ready input).ruleID = input.rule.id ∧ (ready input).nodeID = input.node.id ∧
      (ready input).deviceID = input.deviceID ∧
      (ready input).lastEvaluatedAt = some input.observation.observedAt := by
  have h := started_written input
  simp only [ready, finishHealth_state, continued, applyEvidence]
  split <;> exact h

theorem closing_eq : closing input = [] ∧ input.previous.health.epochID = "" ∨
      input.previous.health.epochID ≠ "" ∧ ∃ event : AlertEvaluationEvent, event.kind = .recovered ∧
          event.epochID = input.previous.health.epochID ∧ closing input =
            [{ kind := .health, notify := (started input).health.notifiedMask ≠ 0
               health := some event }] := by
  have hh : (continued input).state.health = (started input).health := by
    unfold continued; simp only; split <;> rfl
  have ha : (continued input).actions = [] := rfl
  unfold closing finishHealth
  rw [hh, ha, started_epochID]
  by_cases he : input.previous.health.epochID = ""
  · exact .inl ⟨by simp only [he, if_true]; exact ha, he⟩
  · refine .inr ⟨he, ?_⟩
    simp only [he, if_false, nil_append]
    exact ⟨_, rfl, by simp [healthEvent, hh], rfl⟩

/-- The closing action carries no incident. -/
theorem closing_map : (closing input).map (nameDevice input.deviceID input.deviceName) = closing input := by
  obtain ⟨h, -⟩ | ⟨-, event, -, -, h⟩ := closing_eq input <;> rw [h] <;> rfl

end ready

@[simp] theorem nameDevice_kind (deviceID deviceName : String) (a : Action) :
    (nameDevice deviceID deviceName a).kind = a.kind := by
  unfold nameDevice
  split
  · rfl
  · split <;> rfl

/-! ## The confirmation phases -/

/-- One piece of triggered evidence changes only the pending phase, its start and its time. -/
theorem confirmTrigger_eq (s : AlertEvaluationState) (o : AlertEvaluationObservation) (d : Int) :
    confirmTrigger s o d = { s with
        phase := .pending
        pendingSince := if s.phase = .pending then s.pendingSince else some o.observedAt
        triggerElapsedMS := if s.phase = .pending then creditMS s.triggerElapsedMS d else 0 } := by
  unfold confirmTrigger
  by_cases h : s.phase = .pending
  · simp [h]
  · simp [h]

theorem confirmRecovery_eq (s : AlertEvaluationState) (o : AlertEvaluationObservation) (d : Int) :
    confirmRecovery s o d = { s with
        phase := .recovering
        recoverySince := if s.phase = .recovering then s.recoverySince else some o.observedAt
        recoveryElapsedMS :=
          if s.phase = .recovering then creditMS s.recoveryElapsedMS d else 0 } := by
  unfold confirmRecovery
  by_cases h : s.phase = .recovering
  · simp [h]
  · simp [h]

theorem resetConfirmation_phase (s : AlertEvaluationState) :
    (resetConfirmation s).phase = .normal ∨ (resetConfirmation s).phase = .firing := by
  unfold resetConfirmation
  by_cases h : s.activeEventID = ""
  · exact .inl (by simp [h])
  · exact .inr (by simp [h])

/-! ## The health delay -/

/-- The milliseconds that an unhealthy observation leaves in the health delay. -/
def delayMS (s : AlertEvaluationState) (o : AlertEvaluationObservation) : Int :=
  if s.health.status ≠ o.status ∨ s.health.suspended then 0
  else
    match s.health.lastObservedAt with
    | none => s.health.elapsedMS
    | some last =>
      if s.runID = o.runID then
        if 0 ≤ sub o.observedAt last ∧ sub o.observedAt last ≤ maximumPollGap then
          creditMS s.health.elapsedMS (sub o.observedAt last)
        else 0
      else s.health.elapsedMS

theorem creditHealthDelay_eq (s : AlertEvaluationState) (o : AlertEvaluationObservation) :
    creditHealthDelay s o = { s.health with
        status := o.status
        elapsedMS := delayMS s o
        statusSince :=
          if s.health.status ≠ o.status ∨ s.health.suspended then some o.observedAt
          else s.health.statusSince
        lastObservedAt := some o.observedAt
        suspended := false } := by
  unfold creditHealthDelay delayMS
  by_cases h : s.health.status ≠ o.status ∨ s.health.suspended
  · simp only [h, if_true]
  · have hs : s.health.status = o.status := by
      by_contra hne; exact h (.inl hne)
    simp only [h, if_false]
    cases s.health.lastObservedAt with
    | none => simp only [← hs]
    | some last => simp only; split_ifs <;> simp only [← hs]

/-! ## Inversion -/

theorem initialStep_activeEventStatus (input : StepInput) :
    (initialStep input).state.activeEventStatus = (knownIncident input).2 := by
  simp only [initialStep, knownIncident, resetConfirmation]
  grind

section inversion

variable {draw : Option Uuid} {input : StepInput} {r : StepResult}

theorem unhealthyStep_exit (ho : Unhealthy input o) (h : unhealthyStep draw input.rule ⟨started input, []⟩ o = .ok r) :
    Exit draw input r := by
  unfold unhealthyStep at h
  simp only at h
  split at h
  · cases h
  rename_i health hopen
  cases h
  exact Exit.unhealthy o health ho hopen

theorem evidenceStep_exit (hok : Healthy input) (hnew : newEvidence input.previous input.observation = true)
    (h : evidenceStep draw input ⟨started input, []⟩ input.observation = .ok r) : Exit draw input r := by
  have hr : evidenceStep draw input ⟨started input, []⟩ input.observation =
      advanceThreshold draw input input.observation (elapsed input) ⟨ready input, closing input⟩ := by
    unfold evidenceStep ready closing continued elapsed continuous
    simp only
    split <;> rfl
  rw [hr] at h
  unfold advanceThreshold at h
  cases hv : input.observation.value with
  | none => simp [hv] at h
  | some v =>
    simp only [hv, ready_activeEventID] at h
    split_ifs at h with hact hcond hwait
    · cases h
      unfold advanceRecovery
      simp only
      split_ifs with hrec hheld
      · simp only [closing_map]
        exact Exit.fire v hok hnew hv hact hrec
      · simp only [closing_map]
        exact Exit.recovering v hok hnew hv hact (by simpa using hrec)
      · simp only [map_append, closing_map, map_cons, map_nil]
        simp only [not_or, not_lt] at hheld
        refine Exit.recover v hok hnew hv hact (by simpa using hrec) (fun hk => hheld.2 ?_) hheld.1
        rw [← hk, ← ready_activeEventStatus, confirmRecovery_eq]
    · cases h
      exact Exit.clear v hok hnew hv (not_not.mp hact) hcond
    · cases h
      exact Exit.pend v hok hnew hv (not_not.mp hact) (by simpa using hcond) hwait
    · unfold triggerThreshold at h
      cases draw with
      | none => simp at h
      | some id =>
        cases h
        exact Exit.trigger v id hok hnew hv (not_not.mp hact) (by simpa using hcond) rfl
          (not_lt.mp hwait)

/-- `effective` reports a good observation only of a healthy input. -/
theorem effective_ok (h : (effective input).status = .ok) :
    Healthy input ∧ effective input = input.observation := by
  unfold effective stepObservation at h ⊢
  by_cases hroll : clockRollback input
  · simp [hroll] at h
  · by_cases hdis : input.rule.enabled = false ∨ input.rule.deletedAt.isSome
    · simp [hroll, hdis] at h
    · simp only [hroll, hdis] at h ⊢
      simp only [not_or, Bool.not_eq_false, Option.not_isSome_iff_eq_none] at hdis
      exact ⟨⟨h, hdis.1, hdis.2, by simpa using hroll⟩, rfl⟩

theorem effective_of_healthy (h : Healthy input) : effective input = input.observation := by
  unfold effective stepObservation
  simp [h.no_rollback, h.enabled, h.not_deleted]

theorem effective_observedAt : (effective input).observedAt = input.observation.observedAt := by
  unfold effective stepObservation; split_ifs <;> rfl

theorem effective_runID : (effective input).runID = input.observation.runID := by
  unfold effective stepObservation; split_ifs <;> rfl

theorem effective_status_ne_unset (hv : validateObservation input = .ok ()) :
    (effective input).status ≠ .unset := by
  have hs : input.observation.status ≠ .unset := by
    intro hs
    unfold validateObservation at hv
    simp only [hs] at hv
    split_ifs at hv
  unfold effective stepObservation
  split_ifs <;> simp [hs]

/-- A successful step accepted its observation and took one of the exits. -/
theorem step_exit (h : step draw input = .ok r) : Valid input ∧ Exit draw input r := by
  unfold step at h
  split at h
  · cases h
  rename_i hvalid
  refine ⟨validateObservation_ok hvalid, ?_⟩
  have hunset := effective_status_ne_unset hvalid
  have hpair : stepObservation input (initialStep input) =
      (effective input, ⟨started input, []⟩) := by
    rw [← stepObservation_snd]; rfl
  rw [hpair] at h
  simp only at h
  have hnot : (effective input).status ≠ .ok → ¬Healthy input := fun hs hok =>
    hs (by rw [effective_of_healthy hok]; exact hok.status_ok)
  split_ifs at h with hgone hsus hbad hold hepoch
  · have hbad := hnot (by rw [hgone.1]; decide)
    unfold unavailableDevice at h
    simp only [nil_append] at h
    split_ifs at h with hact
    · cases h
      exact Exit.suspend .outOfScope acceleratorDeviceUnavailable hbad (.inr rfl)
    · cases hi : input.incident with
      | none => simp [hi] at h
      | some incident =>
        simp only [hi] at h
        split_ifs at h with hother
        · cases h
          simp only [not_or, not_not, started_activeEventID] at hother hact
          exact Exit.gone incident hbad hi hother.1 hact hother.2
  · cases h
    refine Exit.suspend (effective input).status (effective input).reason (hnot ?_) hsus
    rcases hsus with hs | hs <;> rw [hs] <;> decide
  · refine unhealthyStep_exit ⟨?_, effective_observedAt, effective_runID, .inl (hnot hbad)⟩ h
    cases hs : (effective input).status <;> simp_all
  · obtain ⟨-, he⟩ := effective_ok (not_not.mp hbad)
    have ho : Unhealthy input { effective input with
        status := .noData, reason := "no_new_evidence", value := none } :=
      ⟨.inl rfl, effective_observedAt, effective_runID,
        .inr ⟨he ▸ hold, by simpa using hepoch⟩⟩
    exact unhealthyStep_exit ho h
  · cases h
    obtain ⟨hok, he⟩ := effective_ok (not_not.mp hbad)
    rw [he] at hold
    exact Exit.quiet hok hold (by simpa using hepoch)
  · obtain ⟨hok, he⟩ := effective_ok (not_not.mp hbad)
    rw [he] at h hold
    exact evidenceStep_exit hok (by simpa using hold) h

end inversion

/-- The actions of `closing` are health actions. -/
theorem closing_kind (h : a ∈ closing input) : a.kind = .health := by
  obtain ⟨hc, -⟩ | ⟨-, event, -, -, hc⟩ := closing_eq input <;> rw [hc] at h
  · cases h
  · rw [mem_singleton.mp h]

theorem recordUnhealthy_kind {rule : AlertEvaluationRule} (h : a ∈ (recordUnhealthy rule ⟨s, []⟩ o).actions) :
    a.kind = .health := by
  simp only [recordUnhealthy] at h
  split at h
  · rw [nil_append, mem_singleton] at h
    rw [h]
  · cases h

/-- The version, the revision and the key that a step leaves in the state. -/
theorem step_written {draw : Option Uuid} {r : StepResult} (h : step draw input = .ok r) :
    r.state.version = input.previous.version + 1 ∧ r.state.ruleRevision = input.rule.revision ∧
      r.state.ruleID = input.rule.id ∧ r.state.nodeID = input.node.id ∧
      r.state.deviceID = input.deviceID := by
  obtain ⟨-, hexit⟩ := step_exit h
  obtain ⟨v1, v2, v3, v4, v5, -⟩ := started_written input
  obtain ⟨w1, w2, w3, w4, w5, -⟩ := ready_written input
  cases hexit with
  | suspend | gone | quiet | unhealthy => exact ⟨v1, v2, v3, v4, v5⟩
  | clear | fire => exact ⟨w1, w2, w3, w4, w5⟩
  | pend | trigger => rw [confirmTrigger_eq]; exact ⟨w1, w2, w3, w4, w5⟩
  | recovering | recover => rw [confirmRecovery_eq]; exact ⟨w1, w2, w3, w4, w5⟩

/-! ## Runs -/

/-- One evaluation: the drawn identifier, the input of the step and its result. -/
structure Evaluation where
  draw : Option Uuid
  input : StepInput
  result : StepResult
  deriving DecidableEq

/-- `e` is a successful step from the previous state `s`, and it returns the state `s'`. -/
def Evaluates (s : AlertEvaluationState) (e : Evaluation) (s' : AlertEvaluationState) : Prop :=
  e.input.previous = s ∧ step e.draw e.input = .ok e.result ∧ e.result.state = s'

/-- A run from the zero state in which each step reads the state that the last one returned. -/
abbrev EngineRun : List Evaluation → AlertEvaluationState → Prop := Lts.Run Evaluates {}

/-- Evaluate a list of inputs; the previous state of each is the one that the last returned. -/
def evaluateFrom (s : AlertEvaluationState) :
    List (Option Uuid × StepInput) → Except EvalError (List Evaluation)
  | [] => .ok []
  | (draw, input) :: rest =>
    let input := { input with previous := s }
    match step draw input with
    | .error e => .error e
    | .ok result =>
      match evaluateFrom result.state rest with
      | .error e => .error e
      | .ok es => .ok (⟨draw, input, result⟩ :: es)

theorem evaluateFrom_run {inputs : List (Option Uuid × StepInput)} {es : List Evaluation}
    (h : evaluateFrom s inputs = .ok es) : ∃ s', Lts.Run Evaluates s es s' := by
  induction inputs generalizing s es with
  | nil => cases h; exact ⟨s, .nil⟩
  | cons x rest ih =>
    obtain ⟨draw, input⟩ := x
    simp only [evaluateFrom] at h
    split at h
    · cases h
    rename_i result hstep
    split at h
    · cases h
    rename_i es' hrest
    cases h
    obtain ⟨s', hrun⟩ := ih hrest
    exact ⟨s', .cons ⟨rfl, hstep, rfl⟩ hrun⟩

/-- A drawn identifier for the runs on fixed inputs. -/
def sampleUuid : Uuid := ⟨"3f2504e0-4f89-41d3-9a0c-0305e82c3301", by decide⟩

/-- The input of a good evaluation `at_` seconds after some instant, with its own evidence. -/
def sampleInput (rule : AlertEvaluationRule) (at_ : Nat) (evidenceID : String) (value : Rat) : StepInput :=
  { rule := rule, node := { id := "n1", name := "edge" }, previous := {}
    observation :=
      { observedAt := (1700000000 + at_) * second, runID := "run", evidenceID := evidenceID
        sourceAt := (1700000000 + at_) * second, cadence := 10 * second
        status := .ok, value := some (.finite value) } }

/-- Fires above 80 for 30 seconds, recovers after 30 seconds at 80 or below. -/
def sampleRule : AlertEvaluationRule :=
  { id := "r1", name := "CPU", metric := "cpu", operator := ">", threshold := .finite 80
    duration := 30, recoveryDuration := 30 }

/-! ## Phases across a step -/

section phases

variable {input : StepInput} {p : AlertPhase}

/-- A confirmation that is open after the start of a step was open before it, under the same
revision of the rule. -/
theorem started_phase_eq (hroll : clockRollback input = false) (hn : p ≠ .normal) (hf : p ≠ .firing)
    (h : (started input).phase = p) : input.previous.phase = p ∧ revisionChanged input = false := by
  rw [started_phase] at h
  split_ifs at h with h₁ h₂ h₃ <;> simp_all

theorem ready_phase_eq (hroll : clockRollback input = false) (hn : p ≠ .normal) (hf : p ≠ .firing)
    (h : (ready input).phase = p) :
    continuous input = true ∧ input.previous.phase = p ∧ revisionChanged input = false := by
  rw [ready_phase] at h
  split_ifs at h with hc
  · exact ⟨hc, started_phase_eq hroll hn hf h⟩
  · exact absurd h.symm hn
  · exact absurd h.symm hf

end phases

end Beat.Alert
