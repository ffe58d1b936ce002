import Beat.Alert.Exits

/-!
# Suspended evaluations

A rule that is off, or a node outside its scope, suspends the evaluation: nothing is opened, closed
or notified, and only the confirmation in progress is given up. `stepObservation` looks at the clock
after the rule, so a clock that went back turns the suspension into an error observation.

* `suspended_step`: a suspended evaluation acts on nothing and loses nothing, unless the clock went back.
* `suspension_rollback_notifies`: with the clock gone back a disabled rule opens a health epoch.
-/

namespace Beat.Alert

open Instant

/-- The rule is disabled or deleted. -/
def ruleOff (input : StepInput) : Bool :=
  !input.rule.enabled || input.rule.deletedAt.isSome

/-- The rule is off, or the node is out of scope and not for a missing device. -/
def suspends (input : StepInput) : Bool :=
  ruleOff input || (input.observation.status == .outOfScope &&
    input.observation.reason != acceleratorDeviceUnavailable)

/-- The status of a suspended evaluation. -/
def suspensionStatus (input : StepInput) : EvaluationStatus :=
  if ruleOff input then .disabled else .outOfScope

/-- Nothing but the confirmation in progress is lost between the previous state and `s`. -/
structure Retained (input : StepInput) (s : AlertEvaluationState) : Prop where
  status : s.status = suspensionStatus input
  incident : (s.activeEventID, s.activeEventStatus) = knownIncident input
  health : s.health = { input.previous.health with suspended := true }
  elapsed : s.triggerElapsedMS = 0 ∧ s.recoveryElapsedMS = 0
  since : s.pendingSince = none ∧ s.recoverySince = none
  phase : s.phase = if (knownIncident input).1 = "" then .normal else .firing

section suspended

variable {input : StepInput}

theorem ruleOff_iff : ruleOff input = true ↔ input.rule.enabled = false ∨ input.rule.deletedAt.isSome = true := by
  simp [ruleOff]

/-- The observation that a suspended step reads while the clock goes forward. -/
theorem effective_of_suspends (hs : suspends input = true) (hclock : clockRollback input = false) :
    (effective input).status = suspensionStatus input ∧ (effective input).reason ≠ acceleratorDeviceUnavailable := by
  unfold effective stepObservation suspensionStatus
  rw [if_neg (Bool.not_eq_true _ ▸ hclock)]
  by_cases hoff : ruleOff input = true
  · rw [if_pos (ruleOff_iff.mp hoff), if_pos hoff]
    exact ⟨rfl, show "rule_disabled" ≠ acceleratorDeviceUnavailable by decide⟩
  · have hscope := (Bool.or_eq_true_iff.mp hs).resolve_left hoff
    rw [Bool.and_eq_true, beq_iff_eq, bne_iff_ne] at hscope
    rw [if_neg (fun h => hoff (ruleOff_iff.mpr h)), if_neg hoff]
    exact hscope

theorem suspended_retained (hclock : clockRollback input = false) (reason : String) :
    Retained input (suspended input (suspensionStatus input) reason) := by
  have hid := started_activeEventID input
  have hhealth := started_health input
  rw [if_neg (Bool.not_eq_true _ ▸ hclock)] at hhealth
  refine ⟨rfl, ?_, ?_, ⟨rfl, rfl⟩, ⟨rfl, rfl⟩, ?_⟩
  · exact Prod.ext hid (started_activeEventStatus input)
  · show { (started input).health with suspended := true } = _
    rw [hhealth]
  · show (if (started input).activeEventID = "" then _ else _) = _
    rw [hid]

/-- With the clock gone back a step leaves an error. -/
theorem step_rollback {draw : Option Uuid} {result : StepResult} (hclock : clockRollback input = true)
    (h : step draw input = .ok result) : result.state.status = .error := by
  have heffective : (stepObservation input (initialStep input)).1.status = .error := by
    unfold stepObservation
    rw [if_pos hclock]
  unfold step at h
  split at h
  · cases h
  · simp only [heffective, reduceCtorEq, false_and, if_false, or_self, ne_eq, not_false_iff, if_true,
      unhealthyStep] at h
    split at h <;> cases h
    rfl

/-- A suspended evaluation acts on nothing and keeps the incident and the health epoch, if and only if
the clock did not go back. -/
theorem suspended_step (draw : Option Uuid) (input : StepInput)
    (hvalid : validateObservation input = .ok ()) (hs : suspends input = true) :
    (∃ result, step draw input = .ok result ∧ result.actions = [] ∧ Retained input result.state) ↔
      clockRollback input = false := by
  refine ⟨fun ⟨result, hstep, _, hretained⟩ => ?_, fun hclock => ?_⟩
  · by_contra hclock
    have herror := step_rollback (Bool.not_eq_false _ ▸ hclock) hstep
    rw [hretained.status, suspensionStatus] at herror
    split at herror <;> cases herror
  obtain ⟨hstatus, hreason⟩ := effective_of_suspends hs hclock
  refine ⟨⟨suspended input (suspensionStatus input) (effective input).reason, []⟩, ?_, rfl,
    suspended_retained hclock _⟩
  have hdispatch : (effective input).status = .disabled ∨ (effective input).status = .outOfScope := by
    rw [hstatus, suspensionStatus]
    split
    · exact .inl rfl
    · exact .inr rfl
  have hread : stepObservation input (initialStep input) = (effective input, ⟨started input, []⟩) :=
    Prod.ext rfl (stepObservation_snd input)
  unfold step
  simp only [hvalid, hread]
  rw [if_neg (fun h => hreason h.2.1), if_pos hdispatch, ← hstatus]
  rfl

end suspended

/-- A disabled rule whose last evaluation is `lag` seconds ahead of the clock. -/
def disabledInput (lag : Nat) : StepInput :=
  { sampleInput
      { sampleRule with enabled := false, errorPolicy := .notify, errorDelaySeconds := 0 } 0 "e1" 90 with
    previous := { lastEvaluatedAt := some ((1700000000 + lag) * second) } }

theorem suspended_step_disabled : ∃ result, step none (disabledInput 0) = .ok result ∧ result.actions = [] ∧
      Retained (disabledInput 0) result.state :=
  (suspended_step none (disabledInput 0) (by decide +kernel) (by decide +kernel)).mpr (by decide +kernel)

/-- One second behind the last evaluation, the disabled rule opens a health epoch and notifies. -/
theorem suspension_rollback_notifies :
    validateObservation (disabledInput 1) = .ok () ∧ suspends (disabledInput 1) = true ∧
      ∃ result, step (some sampleUuid) (disabledInput 1) = .ok result ∧
        result.state.status = .error ∧ result.state.health.epochID = sampleUuid.text ∧
        result.actions.map (fun a => (a.kind, a.notify)) = [(.health, true)] :=
  ⟨by decide +kernel, by decide +kernel, _, rfl, rfl, rfl, by decide +kernel⟩

end Beat.Alert
