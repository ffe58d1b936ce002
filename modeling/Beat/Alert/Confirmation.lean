import Beat.Alert.Exits

/-!
# Confirmation

An incident opens only after evidence has met the condition of its rule for the configured time
without a break, and recovers only after evidence of recovery for the configured time. The engine
does not keep the evidence: it keeps a phase and a number of milliseconds. The proofs tie these to
the run that led there.

* `Confirmed holds es c ms`: the last evaluations of `es` are a stretch of evidence that fulfils
  `holds`, and the stretch lasted at least `ms` milliseconds by the clock of the server and by the
  clock of the source.
* `Sound`: the invariant of a run. An open confirmation is `Confirmed`.
* `threshold_action_confirmed`: what a threshold action tells about its run.
-/

namespace Beat.Alert

open List Instant

open Ieee (F64)

/-- An evaluation that does not break a stretch of evidence for `holds`. -/
structure Steady (holds : F64 → AlertEvaluationRule → Bool) (e : Evaluation) : Prop
    extends Healthy e.input where
  state_ok : e.result.state.status = .ok
  evidence : newEvidence e.input.previous e.input.observation = true →
    ∃ v, e.input.observation.value = some v ∧ holds v e.input.rule = true

/-- The last evaluations of a run are a stretch of evidence for `holds` of at least `ms`
milliseconds. `c` is the state whose evidence is the last of the stretch. -/
def Confirmed (holds : F64 → AlertEvaluationRule → Bool) (es : List Evaluation)
    (c : AlertEvaluationState) (ms : Int) : Prop :=
  ∃ before first rest evidenceAt observedAt evaluatedAt,
    es = before ++ first :: rest ∧
    (∀ e ∈ first :: rest, Steady holds e ∧ e.input.rule.revision = c.ruleRevision) ∧
    newEvidence first.input.previous first.input.observation = true ∧
    1 ≤ c.ruleRevision ∧
    c.lastEvidenceAt = some evidenceAt ∧ c.lastEvidenceObservedAt = some observedAt ∧
    c.lastEvaluatedAt = some evaluatedAt ∧ observedAt ≤ evaluatedAt ∧
    ms * millisecond ≤ evidenceAt - first.input.observation.sourceAt ∧
    ms * millisecond ≤ observedAt - first.input.observation.observedAt

/-! ## The credit of one piece of evidence -/

variable {s : AlertEvaluationState} {input : StepInput} {ms : Int} {es : List Evaluation}
  {holds : F64 → AlertEvaluationRule → Bool}

theorem newEvidence_le {o : AlertEvaluationObservation} {a : Int} (h : newEvidence s o = true)
    (ha : s.lastEvidenceAt = some a) : a ≤ o.sourceAt := by
  simp only [newEvidence, ha, Bool.and_eq_true, decide_eq_true_eq] at h
  exact h.2

theorem le_of_no_rollback {t : Int} (h : clockRollback input = false) (ht : input.previous.lastEvaluatedAt = some t) :
    t ≤ input.observation.observedAt := by
  simpa [clockRollback, ht] using h

/-- The time that evidence confirms passed at the source and at the server. -/
theorem elapsed_le {a o : Int} (ha : input.previous.lastEvidenceAt = some a)
    (ho : input.previous.lastEvidenceObservedAt = some o) (hsrc : a ≤ input.observation.sourceAt)
    (hobs : o ≤ input.observation.observedAt) : 0 ≤ elapsed input ∧ elapsed input ≤ input.observation.sourceAt - a ∧
      elapsed input ≤ input.observation.observedAt - o := by
  have h1 := sub_le_of_nonneg (t := input.observation.sourceAt) (u := a) (by omega)
  have h2 := sub_le_of_nonneg (t := input.observation.observedAt) (u := o) (by omega)
  unfold elapsed evidenceElapsed
  simp only [ha, ho]
  split_ifs <;> simp only <;> omega

theorem creditMS_le {d a b : Int} (hd : 0 ≤ d) (h : d ≤ b) (hms : ms * millisecond ≤ a) :
    creditMS ms d * millisecond ≤ a + b := by
  have := milliseconds_mul_le hd
  unfold creditMS maximumDelaySeconds
  unfold millisecond at *
  omega

/-! ## Stretches -/

section stretch

variable {holds : F64 → AlertEvaluationRule → Bool} {es : List Evaluation} {e : Evaluation}
  {c : AlertEvaluationState} {ms : Int}

/-- Evidence that follows nothing starts a stretch. -/
theorem Confirmed.start (hs : Steady holds e) (hrev : 1 ≤ e.input.rule.revision)
    (hnew : newEvidence e.input.previous e.input.observation = true)
    (hc : c.ruleRevision = e.input.rule.revision) (ha : c.lastEvidenceAt = some e.input.observation.sourceAt)
    (ho : c.lastEvidenceObservedAt = some e.input.observation.observedAt)
    (ht : c.lastEvaluatedAt = some e.input.observation.observedAt) : Confirmed holds (es ++ [e]) c 0 := by
  refine ⟨es, e, [], _, _, _, rfl, ?_, hnew, by omega, ha, ho, ht, le_refl _, by simp, by simp⟩
  intro e' he'
  rw [mem_singleton] at he'
  subst he'
  exact ⟨hs, hc.symm⟩

/-- A steady evaluation makes a stretch longer. -/
theorem Confirmed.snoc {evidenceAt observedAt : Int} {ms' : Int} (h : Confirmed holds es s ms)
    (hprev : e.input.previous = s) (hs : Steady holds e) (hrev : revisionChanged e.input = false)
    (hc : c.ruleRevision = e.input.rule.revision) (ha : c.lastEvidenceAt = some evidenceAt)
    (ho : c.lastEvidenceObservedAt = some observedAt) (ht : c.lastEvaluatedAt = some e.input.observation.observedAt)
    (hle : observedAt ≤ e.input.observation.observedAt)
    (hms : ∀ a o, s.lastEvidenceAt = some a → s.lastEvidenceObservedAt = some o →
      o ≤ e.input.observation.observedAt → ms' * millisecond ≤ ms * millisecond + (evidenceAt - a) ∧
        ms' * millisecond ≤ ms * millisecond + (observedAt - o)) : Confirmed holds (es ++ [e]) c ms' := by
  obtain ⟨before, first, rest, a, o, t, rfl, hall, hfirst, hone, ha', ho', ht', hle', h1, h2⟩ := h
  subst hprev
  have hsame : e.input.previous.ruleRevision = e.input.rule.revision := by
    have hne : e.input.previous.ruleRevision ≠ 0 := by omega
    simpa [revisionChanged, hne] using hrev
  have hnow : t ≤ e.input.observation.observedAt := le_of_no_rollback hs.no_rollback ht'
  obtain ⟨hm1, hm2⟩ := hms a o ha' ho' (by omega)
  refine ⟨before, first, rest ++ [e], evidenceAt, observedAt, _, by simp, ?_, hfirst, by omega,
    ha, ho, ht, hle, by omega, by omega⟩
  intro e' he'
  rw [← cons_append, mem_append, mem_singleton] at he'
  obtain he' | rfl := he'
  · exact ⟨(hall e' he').1, by rw [(hall e' he').2, hsame, hc]⟩
  · exact ⟨hs, hc.symm⟩

/-- Only the confirmation fields of the state matter. -/
theorem Confirmed.congr {c' : AlertEvaluationState} (h : Confirmed holds es c ms)
    (h1 : c'.ruleRevision = c.ruleRevision) (h2 : c'.lastEvidenceAt = c.lastEvidenceAt)
    (h3 : c'.lastEvidenceObservedAt = c.lastEvidenceObservedAt)
    (h4 : c'.lastEvaluatedAt = c.lastEvaluatedAt) : Confirmed holds es c' ms := by
  unfold Confirmed at *
  rw [h1, h2, h3, h4]
  exact h

end stretch

/-! ## The invariant of a run -/

/-- An open confirmation is the record of a stretch of evidence; a known incident is active. -/
structure Sound (es : List Evaluation) (s : AlertEvaluationState) : Prop where
  pending : s.phase = .pending → Confirmed triggered es s s.triggerElapsedMS
  recovering : s.phase = .recovering → Confirmed recovered es s s.recoveryElapsedMS
  active : s.activeEventID ≠ "" → s.activeEventStatus.isActive

theorem Sound.of_closed (hp : s.phase ≠ .pending) (hr : s.phase ≠ .recovering)
    (ha : s.activeEventID ≠ "" → s.activeEventStatus.isActive) : Sound es s :=
  ⟨fun h => absurd h hp, fun h => absurd h hr, ha⟩

theorem knownIncident_active (h : input.previous.activeEventID ≠ "" → input.previous.activeEventStatus.isActive)
    (hne : (knownIncident input).1 ≠ "") : (knownIncident input).2.isActive := by
  unfold knownIncident at *
  split_ifs at * with hc
  · split at hne <;> simp_all
    split_ifs at * <;> simp_all
  · exact h hne

section step

variable {es : List Evaluation} {e : Evaluation} {s : AlertEvaluationState}

/-- A good evaluation without new evidence keeps an open confirmation as it was. -/
theorem Confirmed.quiet (h : Confirmed holds es s ms) (hprev : e.input.previous = s) (hok : Healthy e.input)
    (hnew : newEvidence e.input.previous e.input.observation = false) (hrev : revisionChanged e.input = false)
    (hst : e.result.state.status = .ok) : Confirmed holds (es ++ [e]) (started e.input) ms := by
  have hs : Steady holds e := ⟨hok, hst, fun hn => by rw [hn] at hnew; exact nomatch hnew⟩
  obtain ⟨before, first, rest, a, o, t, -, -, -, -, ha, ho, ht, hle, -⟩ := id h
  obtain ⟨ea, eo, -, -⟩ := started_evidence e.input
  obtain ⟨-, er, -, -, -, et⟩ := started_written e.input
  have hnow : t ≤ e.input.observation.observedAt :=
    le_of_no_rollback hok.no_rollback (hprev ▸ ht)
  refine h.snoc hprev hs hrev er (by rw [ea, hprev, ha]) (by rw [eo, hprev, ho]) et (by omega) ?_
  intro a' o' ha' ho' _
  rw [ha] at ha'; rw [ho] at ho'
  cases ha'; cases ho'
  omega

/-- New evidence for `holds` continues the open confirmation, or starts one. -/
theorem Confirmed.evidence {p : AlertPhase} (hn : p ≠ .normal) (hf : p ≠ .firing)
    (h : s.phase = p → Confirmed holds es s ms) (hprev : e.input.previous = s) (hs : Steady holds e)
    (hvalid : Valid e.input) (hnew : newEvidence e.input.previous e.input.observation = true) :
    Confirmed holds (es ++ [e]) (ready e.input)
      (if (ready e.input).phase = p then creditMS ms (elapsed e.input) else 0) := by
  have ea : (ready e.input).lastEvidenceAt = some e.input.observation.sourceAt := rfl
  have eo : (ready e.input).lastEvidenceObservedAt = some e.input.observation.observedAt := rfl
  obtain ⟨-, er, -, -, -, et⟩ := ready_written e.input
  split_ifs with hp
  · obtain ⟨-, hph, hrev⟩ := ready_phase_eq hs.no_rollback hn hf hp
    refine (h (hprev ▸ hph)).snoc hprev hs hrev er ea eo et (le_refl _) ?_
    intro a o ha ho hle
    have hsrc := newEvidence_le hnew (hprev ▸ ha)
    obtain ⟨h0, h1, h2⟩ := elapsed_le (hprev ▸ ha) (hprev ▸ ho) hsrc hle
    exact ⟨creditMS_le h0 h1 (le_refl _), creditMS_le h0 h2 (le_refl _)⟩
  · exact Confirmed.start hs hvalid.revision hnew er ea eo et

/-- The pending phase after triggered evidence is the record of a stretch. -/
theorem Sound.confirmTrigger (h : Sound es s) (hprev : e.input.previous = s)
    (hs : Steady triggered e) (hvalid : Valid e.input)
    (hnew : newEvidence e.input.previous e.input.observation = true) : Confirmed triggered (es ++ [e]) (ready e.input)
      (confirmTrigger (ready e.input) e.input.observation (elapsed e.input)).triggerElapsedMS := by
  have hc := Confirmed.evidence (p := .pending) (by decide) (by decide) h.pending hprev hs hvalid hnew
  rw [confirmTrigger_eq]
  split_ifs at hc ⊢ with hp
  · obtain ⟨hcont, -, hrev⟩ := ready_phase_eq hs.no_rollback (by decide) (by decide) hp
    simpa [ready_confirmation, started_confirmation, hcont, hrev, hs.no_rollback, hprev]
      using hc
  · exact hc

theorem Sound.confirmRecovery (h : Sound es s) (hprev : e.input.previous = s)
    (hs : Steady recovered e) (hvalid : Valid e.input)
    (hnew : newEvidence e.input.previous e.input.observation = true) : Confirmed recovered (es ++ [e]) (ready e.input)
      (confirmRecovery (ready e.input) e.input.observation (elapsed e.input)).recoveryElapsedMS := by
  have hc :=
    Confirmed.evidence (p := .recovering) (by decide) (by decide) h.recovering hprev hs hvalid hnew
  rw [confirmRecovery_eq]
  split_ifs at hc ⊢ with hp
  · obtain ⟨hcont, -, hrev⟩ := ready_phase_eq hs.no_rollback (by decide) (by decide) hp
    simpa [ready_confirmation, started_confirmation, hcont, hrev, hs.no_rollback, hprev]
      using hc
  · exact hc

/-- One step keeps the invariant. -/
theorem Sound.step {s' : AlertEvaluationState} (h : Sound es s) (hst : Evaluates s e s') : Sound (es ++ [e]) s' := by
  obtain ⟨hprev, hstep, rfl⟩ := hst
  obtain ⟨hvalid, hexit⟩ := step_exit hstep
  have hknown : (knownIncident e.input).1 ≠ "" → (knownIncident e.input).2.isActive :=
    knownIncident_active (hprev ▸ h.active)
  -- the exits that reset the confirmation leave the phase normal or firing
  have hreset : ∀ c : AlertEvaluationState,
      (c.activeEventID ≠ "" → c.activeEventStatus.isActive) →
      ∀ c' : AlertEvaluationState, c'.phase = (resetConfirmation c).phase →
      c'.activeEventID = c.activeEventID → c'.activeEventStatus = c.activeEventStatus →
      Sound (es ++ [e]) c' := by
    intro c hc c' hph hid hstat
    refine Sound.of_closed ?_ ?_ (by rw [hid, hstat]; exact hc)
    all_goals rw [hph]; obtain hp | hp := resetConfirmation_phase c <;> rw [hp] <;> decide
  generalize hr : e.result = r at hexit
  cases hexit with
  | suspend status reason _ _ => exact hreset (started e.input) (by simpa using hknown) _ rfl rfl rfl
  | gone incident _ _ _ _ _ =>
    exact hreset { started e.input with activeEventID := "", activeEventStatus := .unset }
      (by simp) _ rfl rfl rfl
  | unhealthy o health _ _ => exact hreset (started e.input) (by simpa using hknown) _ rfl rfl rfl
  | quiet hok hnew _ =>
    have hstat : e.result.state.status = .ok := by
      rw [hr]; exact (started_status e.input).trans hok.status_ok
    refine ⟨fun hp => ?_, fun hp => ?_, by simpa using hknown⟩
    · obtain ⟨hph, hrev⟩ := started_phase_eq hok.no_rollback (by decide) (by decide) hp
      have hc := (h.pending (hprev ▸ hph)).quiet hprev hok hnew hrev hstat
      have hms : (started e.input).triggerElapsedMS = s.triggerElapsedMS := by
        simp [started_confirmation, hok.no_rollback, hrev, hprev]
      rw [hms]
      exact hc.congr rfl rfl rfl rfl
    · obtain ⟨hph, hrev⟩ := started_phase_eq hok.no_rollback (by decide) (by decide) hp
      have hc := (h.recovering (hprev ▸ hph)).quiet hprev hok hnew hrev hstat
      have hms : (started e.input).recoveryElapsedMS = s.recoveryElapsedMS := by
        simp [started_confirmation, hok.no_rollback, hrev, hprev]
      rw [hms]
      exact hc.congr rfl rfl rfl rfl
  | clear v _ _ _ _ _ => exact hreset (ready e.input) (by simpa using hknown) _ rfl rfl rfl
  | pend v hok hnew hv _ hcond _ =>
    have hs : Steady triggered e :=
      ⟨hok, by rw [hr, confirmTrigger_eq]; rfl, fun _ => ⟨v, hv, hcond⟩⟩
    have hc := h.confirmTrigger hprev hs hvalid hnew
    rw [confirmTrigger_eq] at hc ⊢
    exact ⟨fun _ => hc.congr rfl rfl rfl rfl, (nomatch ·), by simpa using hknown⟩
  | trigger v id _ _ _ _ _ _ _ =>
    exact Sound.of_closed (by simp) (by simp) (fun _ => rfl)
  | fire v _ _ _ _ _ => exact Sound.of_closed (by simp) (by simp) (by simpa using hknown)
  | recovering v hok hnew hv _ hcond =>
    have hs : Steady recovered e :=
      ⟨hok, by rw [hr, confirmRecovery_eq]; rfl, fun _ => ⟨v, hv, hcond⟩⟩
    have hc := h.confirmRecovery hprev hs hvalid hnew
    rw [confirmRecovery_eq] at hc ⊢
    exact ⟨(nomatch ·), fun _ => hc.congr rfl rfl rfl rfl, by simpa using hknown⟩
  | recover v _ _ _ _ _ _ _ =>
    exact hreset
      { Alert.confirmRecovery (ready e.input) e.input.observation (elapsed e.input) with
        activeEventID := "", activeEventStatus := .unset }
      (by simp) _ rfl rfl rfl

end step

/-- Every run from the zero state is sound. -/
theorem EngineRun.sound (h : EngineRun es s) : Sound es s :=
  h.hist (Sound.of_closed (by decide) (by decide) (by simp)) fun _ _ _ _ _ hs hst => hs.step hst

/-! ## Threshold actions -/

/-- In the run `es`, evaluation `n` ends an unbroken stretch of evidence for `holds`: no evaluation
of the stretch is bad, disabled, out of scope or behind the last one, they are all under one
revision of the rule, each piece of new evidence fulfils `holds`, and the stretch lasts at least
`seconds` by the clock of the server and by the clock of the source. -/
def LastsFor (holds : F64 → AlertEvaluationRule → Bool) (es : List Evaluation) (n : Nat) (seconds : Int) : Prop :=
  ∃ i first last, i ≤ n ∧ es[i]? = some first ∧ es[n]? = some last ∧
    newEvidence first.input.previous first.input.observation = true ∧
    newEvidence last.input.previous last.input.observation = true ∧
    (∀ k e, i ≤ k → k ≤ n → es[k]? = some e →
      Steady holds e ∧ e.input.rule.revision = first.input.rule.revision) ∧
    seconds * second ≤
      last.input.observation.observedAt - first.input.observation.observedAt ∧
    seconds * second ≤ last.input.observation.sourceAt - first.input.observation.sourceAt

theorem Confirmed.lasts {n : Nat} {e : Evaluation} {c : AlertEvaluationState} {seconds : Int} (hn : es[n]? = some e)
    (h : Confirmed holds (es.take n ++ [e]) c ms) (hnew : newEvidence e.input.previous e.input.observation = true)
    (ha : c.lastEvidenceAt = some e.input.observation.sourceAt)
    (ho : c.lastEvidenceObservedAt = some e.input.observation.observedAt) (hlong : seconds * 1000 ≤ ms) :
    LastsFor holds es n seconds := by
  obtain ⟨before, first, rest, a, o, t, hes, hall, hfirst, -, ha', ho', -, -, h1, h2⟩ := h
  rw [ha] at ha'; rw [ho] at ho'
  cases ha'; cases ho'
  have hlt : n < es.length := (List.getElem?_eq_some_iff.mp hn).1
  have htake : es.take (n + 1) = before ++ first :: rest := by
    rw [List.take_add_one, hn]; exact hes
  have hget : ∀ k, k ≤ n → es[k]? = (before ++ first :: rest)[k]? := by
    intro k hk
    rw [← htake, getElem?_take_of_lt (by omega)]
  have hlen : before.length + rest.length = n := by
    have := congrArg length htake
    rw [length_take_of_le (by omega), length_append, length_cons] at this
    omega
  refine ⟨before.length, first, e, by omega, ?_, hn, hfirst, hnew, ?_, ?_, ?_⟩
  · rw [hget _ (by omega)]; simp
  · intro k e' hk hkn he'
    rw [hget k hkn, getElem?_append_right hk] at he'
    obtain ⟨hst, hrev⟩ := hall e' (mem_of_getElem? he')
    exact ⟨hst, hrev.trans (hall first mem_cons_self).2.symm⟩
  all_goals unfold second millisecond at *; omega

/-- A threshold action ends a stretch of evidence of the configured length; a recovery is reported
only of an incident that nobody acknowledged. -/
theorem threshold_action_confirmed {es : List Evaluation} {s : AlertEvaluationState} {n : Nat}
    {e : Evaluation} {a : Action} (h : EngineRun es s) (hn : es[n]? = some e) (ha : a ∈ e.result.actions) :
    (a.kind = .thresholdTrigger → LastsFor triggered es n e.input.rule.duration) ∧
      (a.kind = .thresholdRecovery → (initialStep e.input).state.activeEventStatus = .triggered ∧
          LastsFor recovered es n e.input.rule.recoveryDuration) := by
  obtain ⟨s₁, s₂, hrun, hprev, hstep, -⟩ := h.at hn
  have hsound := EngineRun.sound hrun
  obtain ⟨hvalid, hexit⟩ := step_exit hstep
  by_cases hkind : a.kind = .health
  · simp [hkind]
  generalize hr : e.result = r at hexit ha
  cases hexit with
  | suspend | quiet => exact nomatch ha
  | gone => rw [mem_singleton.mp ha]; simp
  | unhealthy => exact absurd (recordUnhealthy_kind ha) hkind
  | clear | pend | fire | recovering => exact absurd (closing_kind ha) hkind
  | trigger v id hok hnew hv hact hcond hdraw hlong =>
    obtain ha | ha := mem_append.mp ha
    · exact absurd (closing_kind ha) hkind
    rw [mem_singleton.mp ha]
    refine ⟨fun _ => ?_, (nomatch ·)⟩
    have hs : Steady triggered e :=
      ⟨hok, by rw [hr, confirmTrigger_eq]; rfl, fun _ => ⟨v, hv, hcond⟩⟩
    exact (hsound.confirmTrigger hprev hs hvalid hnew).lasts hn hnew rfl rfl hlong
  | recover v hok hnew hv hact hcond hack hlong =>
    obtain ha | ha := mem_append.mp ha
    · exact absurd (closing_kind ha) hkind
    refine ⟨fun hk => ?_, fun _ => ⟨?_, ?_⟩⟩
    · rw [mem_singleton.mp ha, nameDevice_kind] at hk
      cases hk
    · have hactive := knownIncident_active (hprev ▸ hsound.active) hact
      rw [initialStep_activeEventStatus]
      cases hst : (knownIncident e.input).2 <;> simp_all [AlertStatus.isActive]
    · have hs : Steady recovered e :=
        ⟨hok, by rw [hr, withoutIncident, confirmRecovery_eq]; rfl, fun _ => ⟨v, hv, hcond⟩⟩
      exact (hsound.confirmRecovery hprev hs hvalid hnew).lasts hn hnew rfl rfl hlong

/-- Evidence above the threshold for 30 seconds, then below it for 30 seconds. -/
def sampleIncident : List (Option Uuid × StepInput) :=
  [(none, sampleInput sampleRule 0 "a" 85), (some sampleUuid, sampleInput sampleRule 30 "b" 90),
    (none, sampleInput sampleRule 60 "c" 70), (none, sampleInput sampleRule 90 "d" 60)]

theorem threshold_action_confirmed_sample :
    ∃ es s, EngineRun es s ∧ LastsFor triggered es 1 30 ∧ LastsFor recovered es 3 30 := by
  obtain ⟨es, hes⟩ : ∃ es, evaluateFrom {} sampleIncident = .ok es := ⟨_, rfl⟩
  obtain ⟨s, hrun⟩ := evaluateFrom_run hes
  cases hes
  exact ⟨_, s, hrun, (threshold_action_confirmed hrun (n := 1) rfl (mem_singleton_self _)).1 rfl,
    ((threshold_action_confirmed hrun (n := 3) rfl (mem_singleton_self _)).2 rfl).2⟩

end Beat.Alert
