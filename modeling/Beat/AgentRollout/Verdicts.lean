import Beat.AgentRollout.Invariant
import Beat.Lib.Streak

/-!
# How a target becomes healthy

A target keeps the time since when it is healthy and the time of its last report; every report rewrites
both. The verdict `healthy` is earned: the reports that were accepted for the attempt end with a streak of
valid reports, without a gap, that lasts as long as the policy asks.

* `reports`: the accepted reports of an attempt, in a run, with what was read for each of them.
* `Observing`: what the two times of a target say about the reports; `Observing.step`.
* `health_verdicts`: a verdict `healthy` is earned, and a verdict `failed` is final.

A threshold is compared with the budget that the state of the target grants: one error is tolerated while
the target is healthy. When a healthy target has a gap in its reports, the report that starts the next
streak still has this budget (`transient_verdict`).
-/

namespace Beat.AgentRollout

open List Table Fallible Instant Db

/-! ## The reports of an attempt -/

/-- An accepted report, with the row of the node and the state of the target when it came. -/
structure Report where
  node : Node
  state : TargetState
  input : Observation
  at_ : Int
  deriving DecidableEq

/-- The report of an attempt that an entry is, if it is one that was accepted. -/
def World.report? (w : World) (attemptID : String) : Entry → Option Report
  | (.observe nodeID input _ at_, none) =>
    if input.assignmentID = attemptID then
      (w.db.nodes.find? (·.id = nodeID)).bind fun node =>
        (w.db.targets.find? fun t => t.nodeID = some nodeID && t.currentAttemptID = attemptID).map
          fun t => ⟨node, t.state, input, at_⟩
    else none
  | _ => none

/-- The accepted reports of an attempt. -/
def reports (svc : Service) (attemptID : String) : World → List Entry → List Report
  | _, [] => []
  | w, x :: es => (w.report? attemptID x).toList ++ reports svc attemptID (step svc w x.1).1 es

variable {svc : Service} {state : TargetState} {f : Release → Release}

theorem reports_snoc {w₀ w : World} {es : List Entry} (h : Lts.Run (Steps svc) w₀ es w) (attemptID : String)
    (x : Entry) : reports svc attemptID w₀ (es ++ [x]) =
      reports svc attemptID w₀ es ++ (w.report? attemptID x).toList := by
  induction es generalizing w₀ with
  | nil =>
    rw [h.eq_of_nil]
    exact append_nil _
  | cons y es ih =>
    obtain ⟨w₁, hst, hrest⟩ := h.uncons
    have hw₁ : (step svc w₀ y.1).1 = w₁ := by rw [show step svc w₀ y.1 = _ from hst]
    rw [cons_append, reports, reports, hw₁, ih hrest, append_assoc]

/-- A report that counts for the verdict. `version` is that of the release, `budget` what is tolerated in
a state of the target. -/
structure Report.Valid (policy : Policy) (version : String) (budget : TargetState → Int) (r : Report) :
    Prop where
  input : sameReleaseVersion r.input.version version = true
  node : sameReleaseVersion r.node.version version = true
  fresh : r.at_ - r.input.reportAt ≤ policy.reportFreshnessSeconds * second
  seen : ∃ seen, r.node.lastSeen = some seen ∧ r.input.reportAt ≤ seen
  threshold : thresholdFailure r.input policy (budget r.state) = none

/-- The next report came before the last one was too old. -/
def Report.Follows (policy : Policy) (r r' : Report) : Prop :=
  r'.at_ - r.input.reportAt ≤ policy.reportFreshnessSeconds * second

/-- The reports end with a streak of valid ones that lasts as long as the policy asks. -/
def Earned (budget : TargetState → Int) (policy : Policy) (version : String) (history : List Report) : Prop :=
  ∃ first last, Streak (Report.Valid policy version budget) (Report.Follows policy) history first last ∧
    policy.observationSeconds * second ≤ last.at_ - first.at_

/-! ## Attempts and releases -/

section step

variable {svc : Service} {db db' : Db} {w₀ w w' : World} {e : Event} {x : Entry} {es : List Entry}

/-- The attempts have a key, and the current attempt of a target is one of its own. -/
structure AttemptsOk (db : Db) : Prop where
  attempts : Table.Keyed (·.id) db.attempts
  current : ∀ t ∈ db.targets, t.currentAttemptID ≠ "" →
    ∃ a ∈ db.attempts, a.id = t.currentAttemptID ∧ a.targetID = t.id

variable {t' t : Target} {m : Manifest} {since : Option Int} {policy : Policy} {node : Node}
  {input : Observation} {reason : TargetReason} {verdict : Verdict} {at_ now : Int} {nodeID : String}
  {attemptID : String}

/-- An attempt is the current one of one target. -/
theorem AttemptsOk.unique (h : AttemptsOk db) (hok : DbOk db) (ht : t ∈ db.targets) (ht' : t' ∈ db.targets)
    (hid : t'.currentAttemptID = t.currentAttemptID) (hne : t.currentAttemptID ≠ "") : t' = t := by
  obtain ⟨a, ha, haid, hat⟩ := h.current t ht hne
  obtain ⟨a', ha', haid', hat'⟩ := h.current t' ht' (hid ▸ hne)
  obtain rfl := h.attempts.eq_of_key ha' ha (haid'.trans (hid.trans haid.symm))
  exact hok.targets.eq_of_key ht' ht (hat'.symm.trans hat)

/-- Rows of targets that keep their id and their attempt, next to attempts that stay. -/
theorem AttemptsOk.rows (h : AttemptsOk db) (ha : List.Forall₂ SameAttempt db.attempts db'.attempts)
    (ht : ∀ t' ∈ db'.targets, t'.currentAttemptID ≠ "" →
      ∃ t ∈ db.targets, t.id = t'.id ∧ t.currentAttemptID = t'.currentAttemptID) : AttemptsOk db' where
  attempts := h.attempts.forall₂ ha fun _ _ h => h.1
  current t' ht' hne := by
    obtain ⟨t, htm, hid, hatt⟩ := ht t' ht' hne
    obtain ⟨a, ham, haid, hat⟩ := h.current t htm (hatt ▸ hne)
    obtain ⟨a', ham', hsame⟩ := exists_of_mem_left ha ham
    exact ⟨a', ham', hsame.1.trans (haid.trans hatt), hsame.2.trans (hat.trans hid)⟩

theorem AttemptsOk.step (h : AttemptsOk db) (hst : TargetStep svc db e db') : AttemptsOk db' := by
  cases hst with
  | kept rows =>
    refine h.rows rows.attempts fun t' ht' _ => ?_
    obtain ⟨t, ht, hkept⟩ := exists_of_mem_right rows.targets ht'
    exact ⟨t, ht, hkept.id.symm, hkept.attempt.symm⟩
  | created new targets fresh attempts =>
    refine h.rows (attempts ▸ SameAttempt.same _) fun t' ht' hne => ?_
    rcases mem_append.mp (targets ▸ ht') with ht' | ht'
    · exact ⟨t', ht', rfl, rfl⟩
    · exact absurd (fresh t' ht').2.1 hne
  | @offered node c attemptID nonce at_ expiry hc hfresh targets attempts =>
    refine ⟨attempts ▸ h.attempts.append hfresh, fun t' ht' hne => ?_⟩
    rw [targets] at ht'
    rw [attempts]
    obtain ⟨t, ht, rfl⟩ := mem_update.mp ht'
    by_cases hp : (decide (t.id = c.target.id) && t.state.isWaiting) = true
    · -- the new attempt
      rw [if_pos hp]
      simp only [Bool.and_eq_true, decide_eq_true_eq] at hp
      exact ⟨_, mem_concat_self, rfl, hp.1.symm⟩
    · rw [if_neg hp] at hne ⊢
      obtain ⟨a, ha, haid⟩ := h.current t ht hne
      exact ⟨a, mem_append_left _ ha, haid⟩
  | observed he hobs =>
    obtain ⟨-, node, t, rollout, verdict, reason, since, -, -, -, -, rfl, -⟩ := observe_ok hobs
    refine h.rows (forall₂_update (fun _ _ _ => ⟨rfl, rfl⟩) fun _ _ => ⟨rfl, rfl⟩) fun t' ht' _ => ?_
    obtain ⟨t₁, ht₁, rfl⟩ := mem_update.mp ht'
    refine ⟨t₁, ht₁, ?_⟩
    split <;> exact ⟨rfl, rfl⟩

/-- A release keeps its manifest. -/
theorem TargetStep.manifest (hst : TargetStep svc db e db') {id : String} (hm : db.manifest? id = some m) :
    db'.manifest? id = some m := by
  cases hst with
  | kept rows => exact rows.manifest id m hm
  | created new targets fresh attempts releases => rwa [manifest?, releases]
  | offered hc hfresh targets attempts releases => rwa [manifest?, releases]
  | observed he hobs =>
    obtain ⟨-, node, t, rollout, verdict, reason, since, -, -, -, -, rfl, -⟩ := observe_ok hobs
    exact hm

theorem AttemptsOk.start (h : db.Fresh) : AttemptsOk db := by
  refine ⟨?_, ?_⟩
  · rw [h.attempts]
    exact .nil
  · rw [h.targets]
    simp

theorem ServiceRun.attemptsOk (hdb : db.Fresh) (h : ServiceRun svc db es w) : AttemptsOk w.db :=
  Lts.Run.hist (I := fun _ w => AttemptsOk w.db) h (.start hdb) fun _ _ _ _ hr ha hst => by
    rcases hst.cases (ServiceRun.ok hdb hr) with ⟨-, -, -, htarget⟩ | ⟨-, hsame⟩
    · exact ha.step htarget
    · exact hsame ▸ ha

/-! ## The streak of a target -/

/-- The reports end with a streak of valid ones; it began at `since`, its last report is of the time
`lastReport`. -/
def OnStreak (policy : Policy) (version : String) (history : List Report) (since : Int)
    (lastReport : Option Int) : Prop :=
  ∃ first last,
    Streak (Report.Valid policy version transientErrorBudget) (Report.Follows policy) history first last ∧
      first.at_ = since ∧ lastReport = some last.input.reportAt

/-- A report that leaves a target with a time since when it is healthy was ready. -/
theorem observationState_since {manifest : Option Manifest}
    (h : observationState t policy manifest node input at_ = .ok (verdict, reason, since)) :
    since = none ∧ verdict ≠ .healthy ∨ ∃ m, manifest = some m ∧ reportReady m node input policy at_ = true ∧
        thresholdFailure input policy (transientErrorBudget t.state) = none ∧
        observedSince t policy at_ = (verdict, reason, since) := by
  unfold observationState at h
  split at h
  · cases h
    exact .inl ⟨rfl, nofun⟩
  split at h
  · cases h
    exact .inl ⟨rfl, nofun⟩
  rename_i hthreshold
  split at h
  · cases h
  split at h
  · rename_i hready
    exact .inr ⟨_, rfl, hready, hthreshold, Except.ok.inj h⟩
  · cases h
    exact .inl ⟨rfl, nofun⟩

theorem Report.valid_of_ready (hp : validPolicyHealth policy = true)
    (hready : reportReady m node input policy at_ = true)
    (hthreshold : thresholdFailure input policy (transientErrorBudget state) = none) :
    Report.Valid policy m.version transientErrorBudget ⟨node, state, input, at_⟩ := by
  simp only [reportReady, Bool.and_eq_true, decide_eq_true_eq] at hready
  obtain ⟨⟨⟨hnode, hinput⟩, hseen⟩, hfresh⟩ := hready
  obtain ⟨seen, hseen, hle⟩ := (Option.any_eq_true _ _).mp hseen
  exact ⟨hinput, hnode, le_of_sub_le (freshness_lt hp) hfresh, ⟨seen, hseen, by simpa using hle⟩, hthreshold⟩

/-- The report goes on with the streak of the target, or starts one. -/
theorem observedSince_streak {history : List Report} (hp : validPolicyHealth policy = true)
    (hready : reportReady m node input policy at_ = true)
    (hthreshold : thresholdFailure input policy (transientErrorBudget t.state) = none)
    (hold : ∀ s, t.healthySince = some s → OnStreak policy m.version history s t.lastReportAt)
    (h : observedSince t policy at_ = (verdict, reason, since)) : ∃ first, since = some first.at_ ∧
      Streak (Report.Valid policy m.version transientErrorBudget) (Report.Follows policy)
        (history ++ [⟨node, t.state, input, at_⟩]) first ⟨node, t.state, input, at_⟩ ∧
      (verdict = .healthy → policy.observationSeconds * second ≤ at_ - first.at_) := by
  have hvalid := Report.valid_of_ready hp hready hthreshold
  unfold observedSince at h
  simp only [Prod.mk.injEq] at h
  obtain ⟨hverdict, -, rfl⟩ := h
  -- the streak, whichever report it starts with
  have hstreak : ∃ first, (if t.lastReportAt.any fun last =>
        decide (policy.reportFreshnessSeconds * second < sub at_ last) then none
        else t.healthySince).getD at_ = first.at_ ∧
      Streak (Report.Valid policy m.version transientErrorBudget) (Report.Follows policy)
        (history ++ [⟨node, t.state, input, at_⟩]) first ⟨node, t.state, input, at_⟩ := by
    split
    · exact ⟨_, rfl, .start history hvalid⟩
    rename_i hgap
    cases hs : t.healthySince with
    | none => exact ⟨_, rfl, .start history hvalid⟩
    | some s =>
      obtain ⟨first, last, hstreak, hfirst, hlast⟩ := hold s hs
      refine ⟨first, hfirst.symm, hstreak.snoc ?_ hvalid⟩
      rw [hlast] at hgap
      simp only [Option.any_some, decide_eq_true_eq, Int.not_lt] at hgap
      exact le_of_sub_le (freshness_lt hp) hgap
  obtain ⟨first, hfirst, hstreak⟩ := hstreak
  refine ⟨first, congrArg some hfirst, hstreak, fun hhealthy => ?_⟩
  rw [hfirst] at hverdict
  split at hverdict
  · rename_i hle
    refine le_of_le_sub ?_ hle
    simp only [validPolicyHealth, Bool.and_eq_true, decide_eq_true_eq] at hp
    unfold second
    omega
  · rw [hhealthy] at hverdict
    cases hverdict

/-- The time since when a target is healthy is the start of a streak of its reports. -/
def Observing (svc : Service) (w₀ : World) (es : List Entry) (db : Db) (t : Target) : Prop :=
  ∀ since, t.healthySince = some since →
    ∃ r ∈ db.rollouts, r.id = t.rolloutID ∧ ∃ m, db.manifest? r.releaseID = some m ∧
      OnStreak r.policy m.version (reports svc t.currentAttemptID w₀ es) since t.lastReportAt

/-- A rollout and its manifest stay. -/
theorem Steps.rollout_manifest (hok : DbOk w.db) (hst : Steps svc w x w') {r : Rollout}
    (hr : r ∈ w.db.rollouts) (hm : w.db.manifest? r.releaseID = some m) :
    ∃ r' ∈ w'.db.rollouts, r'.Same r ∧ w'.db.manifest? r'.releaseID = some m := by
  have hm' : w'.db.manifest? r.releaseID = some m := by
    rcases hst.cases hok with ⟨-, -, -, htarget⟩ | ⟨-, hsame⟩
    · exact htarget.manifest hm
    · rw [hsame]
      exact hm
  obtain ⟨r', hr', rfl | ⟨-, hmove⟩⟩ := hst.rollout hok hr
  · exact ⟨r', hr', ⟨rfl, rfl, rfl, rfl⟩, hm'⟩
  · exact ⟨r', hr', hmove.same, hmove.same.releaseID.symm ▸ hm'⟩

/-- A target that a step keeps, without a report of its attempt. -/
theorem Observing.kept (h : Observing svc w₀ es w.db t) (hok : DbOk w.db)
    (hrun : Lts.Run (Steps svc) w₀ es w) (hst : Steps svc w x w') (hkept : Kept t t')
    (hnone : w.report? t.currentAttemptID x = none) : Observing svc w₀ (es ++ [x]) w'.db t' := by
  intro since hsince
  obtain ⟨r, hr, hid, m, hm, hstreak⟩ := h since (hkept.since since hsince)
  obtain ⟨r', hr', hsame, hm'⟩ := hst.rollout_manifest hok hr hm
  refine ⟨r', hr', hsame.id.trans (hid.trans hkept.rolloutID.symm), m, hm', ?_⟩
  rw [hkept.attempt, reports_snoc hrun, hnone, hkept.lastReport, hsame.policy]
  simpa using hstreak

theorem report?_other (h : x.1.isObserve = false) : w.report? attemptID x = none := by
  obtain ⟨e, err⟩ := x
  cases e <;> first | rfl | exact nomatch h

theorem report?_error (h : x.2 ≠ none) : w.report? attemptID x = none := by
  obtain ⟨e, _ | err⟩ := x
  · exact absurd rfl h
  · cases e <;> rfl

theorem observedTarget_attempt (h : db.observedTarget svc nodeID input at_ = .ok t) :
    t.currentAttemptID = input.assignmentID :=
  (observedTarget_ok h).2.2.1.2

/-- The report that an `Observe` is. -/
theorem report?_observe (hnode : w.db.agent nodeID = .ok node)
    (ht : w.db.observedTarget svc nodeID input at_ = .ok t) :
    w.report? input.assignmentID (.observe nodeID input now at_, none) = some ⟨node, t.state, input, at_⟩ := by
  unfold agent at hnode
  split at hnode
  · cases hnode
  rename_i hfind
  cases hnode
  simp only [World.report?, hfind, (observedTarget_ok ht).1]
  rfl

/-- An `Observe` is about one target: the others keep their rows, and it is no report of theirs. -/
theorem observe_other {t₁ : Target} (hok : DbOk w.db) (ha : AttemptsOk w.db)
    (hvalid : validObservation input now = true) (ht₁ : w.db.observedTarget svc nodeID input at_ = .ok t₁)
    (ht : t ∈ w.db.targets) (hne : t ≠ t₁) : t.id ≠ t₁.id ∧ t.currentAttemptID ≠ input.assignmentID := by
  have hmem := (observedTarget_ok ht₁).2.1
  refine ⟨fun hid => hne (hok.targets.eq_of_key ht hmem hid), fun hid => ?_⟩
  have hatt := observedTarget_attempt ht₁
  refine hne (ha.unique hok hmem ht (hid.trans hatt.symm) ?_)
  rw [hatt]
  simp only [validObservation, Bool.and_eq_true, bne_iff_ne] at hvalid
  exact hvalid.1.1.1.1.1.1.1

/-- A report that leaves its target with a time since when it is healthy. -/
theorem Observing.report {rollout : Rollout} (h : Observing svc w₀ es w.db t) (hok : DbOk w.db)
    (hrun : Lts.Run (Steps svc) w₀ es w) (hst : Steps svc w (.observe nodeID input now at_, none) w')
    (hnode : w.db.agent nodeID = .ok node) (ht : w.db.observedTarget svc nodeID input at_ = .ok t)
    (hrollout : w.db.rollout t.rolloutID = .ok rollout)
    (hstate : observationState t rollout.policy (w.db.manifest? rollout.releaseID) node input at_ =
      .ok (verdict, reason, since)) : since = none ∧ verdict ≠ .healthy ∨
      ∃ r ∈ w'.db.rollouts, r.id = t.rolloutID ∧ ∃ m, w'.db.manifest? r.releaseID = some m ∧
        ∃ first last, since = some first.at_ ∧ last.input = input ∧
          Streak (Report.Valid r.policy m.version transientErrorBudget) (Report.Follows r.policy)
            (reports svc t.currentAttemptID w₀ (es ++ [(.observe nodeID input now at_, none)])) first last ∧
          (verdict = .healthy → r.policy.observationSeconds * second ≤ last.at_ - first.at_) := by
  rcases observationState_since hstate with hnone | ⟨m, hm, hready, hthreshold, hsince⟩
  · exact .inl hnone
  obtain ⟨hr, hid⟩ := rollout_ok hrollout
  obtain ⟨r', hr', hsame, hm'⟩ := hst.rollout_manifest hok hr hm
  refine .inr ⟨r', hr', hsame.id.trans hid, m, hm', ?_⟩
  have hold : ∀ s, t.healthySince = some s →
      OnStreak rollout.policy m.version (reports svc t.currentAttemptID w₀ es) s t.lastReportAt := by
    intro s hs
    obtain ⟨r, hrmem, hrid, m₁, hm₁, hstreak⟩ := h s hs
    obtain rfl := hok.rollouts.eq_of_key hrmem hr (hrid.trans hid.symm)
    cases hm.symm.trans hm₁
    exact hstreak
  obtain ⟨first, hfirst, hstreak, hlong⟩ :=
    observedSince_streak (hok.rolloutOk rollout hr).health hready hthreshold hold hsince
  rw [hsame.policy, reports_snoc hrun, observedTarget_attempt ht, report?_observe hnode ht]
  exact ⟨first, _, hfirst, rfl, by rwa [observedTarget_attempt ht] at hstreak, hlong⟩

/-- A step keeps the streaks. -/
theorem Observing.step (hok : DbOk w.db) (ha : AttemptsOk w.db) (hrun : Lts.Run (Steps svc) w₀ es w)
    (hst : Steps svc w x w') (h : ∀ t ∈ w.db.targets, Observing svc w₀ es w.db t) :
    ∀ t' ∈ w'.db.targets, Observing svc w₀ (es ++ [x]) w'.db t' := by
  intro t' ht'
  rcases hst.cases hok with ⟨hx, -, -, htarget⟩ | ⟨hx, hsame⟩
  case inr => exact (h t' (hsame ▸ ht')).kept hok hrun hst (.refl t') (report?_error hx)
  cases htarget with
  | kept rows he =>
    obtain ⟨t, ht, hkept⟩ := exists_of_mem_right rows.targets ht'
    exact (h t ht).kept hok hrun hst hkept (report?_other he)
  | created new targets fresh _ _ he =>
    rcases mem_append.mp (targets ▸ ht') with ht' | ht'
    · exact (h t' ht').kept hok hrun hst (.refl t') (report?_other he)
    · intro since hsince
      rw [(fresh t' ht').2.2] at hsince
      cases hsince
  | offered _ _ targets _ _ he =>
    rw [targets] at ht'
    obtain ⟨t, ht, rfl⟩ := mem_update.mp ht'
    split
    · exact fun _ hsince => nomatch hsince
    · exact (h t ht).kept hok hrun hst (.refl t) (report?_other he)
  | @observed nodeID input now at_ he hobs =>
    obtain ⟨e, err⟩ := x
    cases he
    cases hx
    obtain ⟨hvalid, node, t₁, rollout, verdict, reason, since, hnode, ht₁, hrollout, hstate, hdb, -⟩ :=
      observe_ok hobs
    rw [hdb] at ht'
    obtain ⟨t, ht, rfl⟩ := mem_update.mp ht'
    by_cases heq : t = t₁
    · subst heq
      rw [if_pos (by simp)]
      intro s hs
      obtain ⟨hnone, -⟩ | ⟨r, hr, hid, m, hm, first, last, hfirst, hlast, hstreak, -⟩ :=
        (h t ht).report hok hrun hst hnode ht₁ hrollout hstate
      · exact nomatch hnone.symm.trans hs
      · refine ⟨r, hr, hid, m, hm, first, last, hstreak, Option.some.inj (hfirst.symm.trans hs), ?_⟩
        rw [hlast]
        rfl
    · obtain ⟨hid, hatt⟩ := observe_other hok ha hvalid ht₁ ht heq
      rw [if_neg (by simpa using hid)]
      refine (h t ht).kept hok hrun hst (.refl t) ?_
      simp only [World.report?, if_neg (Ne.symm hatt)]

theorem ServiceRun.observing (hdb : db.Fresh) (h : ServiceRun svc db es w) :
    ∀ t ∈ w.db.targets, Observing svc ⟨db, fun _ => none⟩ es w.db t := by
  induction h with
  | nil => simp [hdb.targets]
  | snoc hr hst ih => exact Observing.step (ServiceRun.ok hdb hr) (ServiceRun.attemptsOk hdb hr) hr hst ih

/-- Without a report no target becomes healthy. -/
theorem TargetStep.healthy (hok : DbOk db) (hst : TargetStep svc db e db') (he : e.isObserve = false)
    (ht : t ∈ db.targets) (ht' : t' ∈ db'.targets) (hid : t'.id = t.id) (h : t'.state = .healthy) :
    t.state = .healthy := by
  cases hst with
  | kept rows =>
    obtain ⟨t₀, ht₀, hkept⟩ := exists_of_mem_right rows.targets ht'
    obtain rfl := hok.targets.eq_of_key ht₀ ht (hkept.id.symm.trans hid)
    exact hkept.healthy h
  | created new targets fresh =>
    rcases mem_append.mp (targets ▸ ht') with ht' | ht'
    · rwa [← hok.targets.eq_of_key ht' ht hid]
    · rw [(fresh t' ht').1] at h
      cases h
  | offered _ _ targets =>
    rw [targets] at ht'
    rw [hok.targets.eq_of_mem_update ht ht' hid fun _ _ _ => rfl] at h
    split at h
    · cases h
    · exact h
  | observed he' =>
    rw [he'] at he
    cases he

end step

/-- A target becomes healthy only by a report of its attempt, and the accepted reports of the attempt then
end with a streak as long as the policy asks: every report of it has the version of the release, as the
node has, is recent, is not newer than what was seen of the node and exceeds no threshold (but for the one
error that a healthy target may have), and it came before the report before it was too old. Once a target
has failed, no `Observe` changes its state, its reason or the end of its attempt. -/
theorem health_verdicts {svc : Service} {db : Db} {es : List Entry} {w w' : World} {x : Entry}
    (hdb : db.Fresh) (hrun : ServiceRun svc db es w) (hst : Steps svc w x w') {t t' : Target}
    (ht : t ∈ w.db.targets) (ht' : t' ∈ w'.db.targets) (hid : t'.id = t.id) :
    (t.state ≠ .healthy → t'.state = .healthy → (∃ nodeID input now at_, x = (.observe nodeID input now at_, none) ∧
        input.assignmentID = t'.currentAttemptID) ∧
      ∃ r ∈ w'.db.rollouts, r.id = t'.rolloutID ∧ ∃ m, w'.db.manifest? r.releaseID = some m ∧
        Earned transientErrorBudget r.policy m.version
          (reports svc t'.currentAttemptID ⟨db, fun _ => none⟩ (es ++ [x]))) ∧
    (t.state = .failed → x.1.isObserve = true → t'.state = .failed ∧ t'.reason = t.reason ∧
        ∀ a ∈ w.db.attempts, ∀ a' ∈ w'.db.attempts, a.id = t.currentAttemptID → a'.id = a.id →
          a'.endedAt = a.endedAt) := by
  have hok := hrun.ok hdb
  have ha := hrun.attemptsOk hdb
  rcases hst.cases hok with ⟨hx, -, -, htarget⟩ | ⟨-, hsame⟩
  case inr =>
    rw [hsame] at ht' ⊢
    obtain rfl := hok.targets.eq_of_key ht' ht hid
    refine ⟨fun hne hhealthy => absurd hhealthy hne, fun hfailed _ => ⟨hfailed, rfl, ?_⟩⟩
    intro a hmem a' hmem' _ haid
    rw [ha.attempts.eq_of_key hmem' hmem haid]
  by_cases hobserve : x.1.isObserve = true
  case neg =>
    refine ⟨fun hne hhealthy => absurd ?_ hne, fun _ h => absurd h hobserve⟩
    exact htarget.healthy hok (by simpa using hobserve) ht ht' hid hhealthy
  cases htarget with
  | kept _ he | created _ _ _ _ _ he | offered _ _ _ _ _ he => exact nomatch he.symm.trans hobserve
  | @observed nodeID input now at_ he hobs =>
    obtain ⟨e, err⟩ := x
    cases he
    cases hx
    obtain ⟨hvalid, node, t₁, rollout, verdict, reason, since, hnode, ht₁, hrollout, hstate, hw', -⟩ :=
      observe_ok hobs
    have ht'' := ht'
    rw [hw'] at ht''
    have hrow := hok.targets.eq_of_mem_update ht ht'' hid fun _ _ _ => rfl
    by_cases heq : t = t₁
    · subst heq
      rw [if_pos (by simp)] at hrow
      subst hrow
      refine ⟨fun _ hhealthy => ⟨⟨nodeID, input, now, at_, rfl, (observedTarget_attempt ht₁).symm⟩, ?_⟩,
        fun hfailed _ => ?_⟩
      · have hverdict : verdict = .healthy := by cases verdict <;> first | rfl | exact nomatch hhealthy
        obtain ⟨-, hno⟩ | ⟨r, hr, hrid, m, hm, first, last, -, -, hstreak, hlong⟩ :=
          (hrun.observing hdb t ht).report hok hrun hst hnode ht₁ hrollout hstate
        · exact absurd hverdict hno
        · exact ⟨r, hr, hrid, m, hm, first, last, hstreak, hlong hverdict⟩
      · unfold observationState at hstate
        rw [if_pos hfailed] at hstate
        cases hstate
        refine ⟨rfl, rfl, fun a hmem a' hmem' _ haid => ?_⟩
        rw [hw'] at hmem'
        rw [ha.attempts.eq_of_mem_update hmem hmem' haid fun _ _ _ => rfl]
        split
        · exact if_pos hfailed.symm
        · rfl
    · -- the report is about another target
      obtain ⟨hne, hatt⟩ := observe_other hok ha hvalid ht₁ ht heq
      rw [if_neg (by simpa using hne)] at hrow
      subst hrow
      refine ⟨fun hne hhealthy => absurd hhealthy hne, fun hfailed _ => ⟨hfailed, rfl, ?_⟩⟩
      intro a hmem a' hmem' hatt' haid
      rw [hw'] at hmem'
      rw [ha.attempts.eq_of_mem_update hmem hmem' haid fun _ _ _ => rfl,
        if_neg (by simpa [hatt'] using hatt)]

/-- The first node is healthy. After a gap its next report has one error more than the policy allows. -/
def sampleTransient : List Entry :=
  sampleStart 2 ++
    [(.putNode (sampleNode "n1" "1.1.0" 10), none), sampleReport "a1" 10 .healthy,
      (.putNode (sampleNode "n1" "1.1.0" 40), none), sampleReport "a1" 40 .healthy,
      (.putNode (sampleNode "n1" "1.1.0" 230), none), (.observe "n1"
        { assignmentID := "a1", nonce := sampleNonce, version := "1.1.0", reportAt := sampleTime 200
          metricErrors := 1, outcome := .healthy } (sampleTime 200) (sampleTime 200), none)]

/-- The report after it. -/
def sampleVerdict : Entry := sampleReport "a1" 230 .healthy

theorem sampleTransient_run : ∃ w w', ServiceRun sampleService sampleDb sampleTransient w ∧
      Steps sampleService w sampleVerdict w' ∧
      (∃ t ∈ w.db.targets, ∃ t' ∈ w'.db.targets, t'.id = t.id ∧ t.state = .observing ∧
        t'.state = .healthy ∧ t'.currentAttemptID = "a1") ∧
      ∀ r ∈ w'.db.rollouts, r.policy.observationSeconds = 30 ∧ r.policy.maxRestarts = 0 ∧
        r.policy.maxProtocolErrors = 0 ∧ r.policy.maxMetricErrors = 0 := by
  simp only [exists_and_left]
  decide +kernel

theorem sampleTransient_reports : ∃ history node node', reports sampleService "a1" ⟨sampleDb, fun _ => none⟩
        (sampleTransient ++ [sampleVerdict]) = history ++ [⟨node, .healthy,
            { assignmentID := "a1", nonce := sampleNonce, version := "1.1.0", reportAt := sampleTime 200
              metricErrors := 1, outcome := .healthy }, sampleTime 200⟩] ++
        [⟨node', .observing,
            { assignmentID := "a1", nonce := sampleNonce, version := "1.1.0", reportAt := sampleTime 230
              outcome := .healthy }, sampleTime 230⟩] :=
  ⟨(reports sampleService "a1" ⟨sampleDb, fun _ => none⟩ (sampleTransient ++ [sampleVerdict])).take 2,
    sampleNode "n1" "1.1.0" 230, sampleNode "n1" "1.1.0" 230, by decide +kernel⟩

/-- A verdict that is not earned when the thresholds are those of the policy in every state. -/
theorem transient_verdict : ∃ w w', ServiceRun sampleService sampleDb sampleTransient w ∧
      Steps sampleService w sampleVerdict w' ∧
      ∃ t ∈ w.db.targets, ∃ t' ∈ w'.db.targets, t'.id = t.id ∧ t.state ≠ .healthy ∧ t'.state = .healthy ∧
        ∀ r ∈ w'.db.rollouts, ∀ version, ¬Earned (fun _ => 0) r.policy version
          (reports sampleService t'.currentAttemptID ⟨sampleDb, fun _ => none⟩
            (sampleTransient ++ [sampleVerdict])) := by
  obtain ⟨w, w', hrun, hst, ⟨t, ht, t', ht', hid, hs, hs', hatt⟩, hpolicy⟩ := sampleTransient_run
  refine ⟨w, w', hrun, hst, t, ht, t', ht', hid, by rw [hs]; nofun, hs', fun r hr version => ?_⟩
  obtain ⟨history, node, node', hreports⟩ := sampleTransient_reports
  obtain ⟨hseconds, hrestarts, hprotocol, hmetric⟩ := hpolicy r hr
  rw [hatt, hreports]
  rintro ⟨first, last, hstreak, hlong⟩
  obtain ⟨rfl, -, rfl | ⟨last, hstreak, -⟩⟩ := hstreak.of_snoc
  · -- a streak of one report is too short
    rw [hseconds, Int.sub_self] at hlong
    exact absurd hlong (by decide)
  · -- the report before it exceeds a threshold
    have hbad := hstreak.of_snoc.2.1.threshold
    simp [thresholdFailure, restartBudget, hrestarts, hprotocol, hmetric] at hbad

/-- That verdict is earned with the budget of a healthy target. -/
theorem health_verdicts_sample : ∃ w w', ServiceRun sampleService sampleDb sampleTransient w ∧
      Steps sampleService w sampleVerdict w' ∧ ∃ t' ∈ w'.db.targets, t'.state = .healthy ∧
        ∃ r ∈ w'.db.rollouts, r.id = t'.rolloutID ∧ ∃ m, w'.db.manifest? r.releaseID = some m ∧
          Earned transientErrorBudget r.policy m.version
            (reports sampleService t'.currentAttemptID ⟨sampleDb, fun _ => none⟩
              (sampleTransient ++ [sampleVerdict])) := by
  obtain ⟨w, w', hrun, hst, ⟨t, ht, t', ht', hid, hs, hs', -⟩, -⟩ := sampleTransient_run
  have h := (health_verdicts sampleDb_fresh hrun hst ht ht' hid).1 (by rw [hs]; nofun) hs'
  exact ⟨w, w', hrun, hst, t', ht', hs', h.2⟩

end Beat.AgentRollout
