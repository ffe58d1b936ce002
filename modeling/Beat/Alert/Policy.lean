import Beat.Alert.Protocol

/-!
# The policy of an active incident

A rule may be changed while an evaluator still works with an older revision of it. Two checks meet
here: a commit needs the revision that is stored (`authorizeEvaluationCommit`), and an update that
changes the numeric policy needs a rule without an active event (`guardActiveAlertPolicy`).

* `Triggered`: the commit that created an event, and the revision that it was made under.
* `active_policy_kept`: an active event finds the policy that it was triggered under.
-/

namespace Beat.Alert

open Table

variable {t : Tables} {now : Int} {recheck : Except EvalError Unit} {e : Entry}

/-! ## The events of a commit -/

/-- The events after the actions of a commit: the rows of before, and new ones under the revision of
the state. -/
structure CommittedEvents (state : AlertEvaluationState) (t t' : Tables) : Prop where
  rules : t'.rules = t.rules
  ids : ∀ x ∈ t.events, ∃ x' ∈ t'.events, x'.event.id = x.event.id
  rows : ∀ x' ∈ t'.events, (∃ x ∈ t.events, x'.Continues x) ∨
    (∀ x ∈ t.events, x.event.id ≠ x'.event.id) ∧ x'.event.key = state.key ∧
      x'.ruleRevision = state.ruleRevision

namespace CommittedEvents

variable {state : AlertEvaluationState} {t t' t'' : Tables}

theorem refl (hr : t'.rules = t.rules) (he : t'.events = t.events) : CommittedEvents state t t' :=
  ⟨hr, fun x hx => ⟨x, he ▸ hx, rfl⟩, fun x hx => .inl ⟨x, he ▸ hx, .refl x⟩⟩

theorem action (h : CommittedEvents state t t') (hx : ActionExit state t' t'') : CommittedEvents state t t'' := by
  cases hx with
  | created event key fresh ht =>
    subst ht
    refine ⟨h.rules, fun x hx => ?_, fun x'' hx'' => ?_⟩
    · obtain ⟨x', hx', hid⟩ := h.ids x hx
      exact ⟨x', List.mem_append_left _ hx', hid⟩
    · rcases List.mem_append.mp hx'' with hx'' | hx''
      · exact h.rows x'' hx''
      · rw [List.mem_singleton.mp hx'']
        refine .inr ⟨fun x hx he => ?_, key, rfl⟩
        obtain ⟨x', hx', hid⟩ := h.ids x hx
        exact fresh x' hx' (hid.trans he)
  | moved p f cont ht =>
    subst ht
    have hc := EventRow.Continues.ite cont
    refine ⟨h.rules, fun x hx => ?_, fun x'' hx'' => ?_⟩
    · obtain ⟨x', hx', hid⟩ := h.ids x hx
      exact ⟨_, mem_update.mpr ⟨x', hx', rfl⟩, (hc x').id.trans hid⟩
    · obtain ⟨x', hx', rfl⟩ := mem_update.mp hx''
      rcases h.rows x' hx' with ⟨x, hx, hcont⟩ | ⟨hnew, hkey, hrev⟩
      · exact .inl ⟨x, hx, (hc x').trans hcont⟩
      · exact .inr ⟨by rw [(hc x').id]; exact hnew, (hc x').key.trans hkey,
          (hc x').ruleRevision.trans hrev⟩
  | kept hr he =>
    exact ⟨hr.trans h.rules, fun x hx => he ▸ h.ids x hx, fun x hx => h.rows x (he ▸ hx)⟩

end CommittedEvents

theorem commitTx_events {t' : Tables} {change : AlertEvaluationCommit} (h : commitTx t change now recheck = .ok t') :
    CommittedEvents change.decision.state t t' := by
  unfold commitTx at h
  split_ifs at h
  split at h
  · cases h
  split at h
  · cases h
  split at h
  · cases h
  rename_i t₁ hwrite
  have hwritten : t₁.rules = t.rules ∧ t₁.events = t.events := by
    unfold writeEvaluationState at hwrite
    simp only at hwrite
    split_ifs at hwrite <;> (cases hwrite; exact ⟨rfl, rfl⟩)
  exact Fallible.foldlM_inv (I := CommittedEvents change.decision.state t) h
    (.refl hwritten.1 hwritten.2) fun _ _ _ _ hi ha => hi.action (applyEvaluationAction_exit ha).1

/-! ## The copies of the evaluators -/

/-- The rule that an evaluation read. -/
def Attempt.rule? : Attempt → Option AlertEvaluationRule
  | .ruleRead _ _ rule | .nodeRead _ _ rule _ | .incidentRead _ _ rule _ _ => some rule.1
  | .decided d => some d.rule
  | _ => none

/-- Rules are keyed by their ids, and a rule that an evaluation holds is stored, or a later revision
of it. -/
structure RulesOk (w : World) : Prop where
  keyed : Table.Keyed (·.id) w.tables.rules
  copies : ∀ a attempt, w.attempts a = some attempt → ∀ c ∈ attempt.rule?,
    ∃ r ∈ w.tables.rules, r.Succeeds c

namespace RulesOk

variable {w w' : World}

theorem rulesStep (hok : RulesOk w) (h : Access w e w') : RulesStep w.tables w'.tables.rules := by
  cases h with
  | failed | readState | readRule | readNode | readIncident | decide => exact .refl hok.keyed
  | table h => exact (transact_spec h).2.1 hok.keyed
  | claim hidle h =>
    obtain ⟨-, p, -, -, rfl⟩ := claim_spec h
    exact .refl hok.keyed
  | commit ha h =>
    have hr := (commitTx_events h).rules
    exact hr ▸ .refl hok.keyed
  | release ha hl h =>
    obtain ⟨p, -, -, rfl⟩ := release_spec h
    exact .refl hok.keyed

theorem step (hok : RulesOk w) (h : Access w e w') : RulesOk w' := by
  have hrules := hok.rulesStep h
  -- the copies follow the stored rules
  have hcopies : ∀ a attempt, w.attempts a = some attempt → ∀ c ∈ attempt.rule?,
      ∃ r ∈ w'.tables.rules, r.Succeeds c := by
    intro a attempt ha c hc
    obtain ⟨r, hr, hsucc⟩ := hok.copies a attempt ha c hc
    obtain ⟨r', hr', hsucc', -⟩ := hrules.grows r hr
    exact ⟨r', hr', hsucc'.trans hsucc⟩
  refine ⟨hrules.keyed, ?_⟩
  cases h with
  | failed | table => exact hcopies
  | claim | readState | commit | release =>
    exact attempts_update hcopies fun _ hc => nomatch hc
  | readRule ha h =>
    refine attempts_update hcopies fun c hc => ?_
    cases hc
    exact ⟨_, findAdvancedAlertRule_mem h, .refl _⟩
  | readNode ha | readIncident ha =>
    exact attempts_update hcopies fun c hc => hcopies _ _ ha c hc
  | decide ha h =>
    refine attempts_update hcopies fun c hc => hcopies _ _ ha c ?_
    exact hc

end RulesOk

section run

variable {rules : List AlertEvaluationRule} {nodes : List Node} {accelerators : List Accelerator}
  {es : List Entry} {w w' : World} {d : Decision} {x x' : EventRow}

theorem ProtocolRun.rulesOk (hk : Table.Keyed (·.id) rules)
    (h : ProtocolRun rules nodes accelerators es w) : RulesOk w :=
  Lts.Run.inv h ⟨hk, fun _ _ hn => nomatch hn⟩ fun _ _ _ hok hst => hok.step hst

/-! ## Triggers -/

/-- The commit of `d` from `w` to `w'` created the event of the row, under a rule that was stored as
the evaluator had read it. -/
structure Triggered (w : World) (d : Decision) (x : EventRow) (w' : World) : Prop where
  fresh : ∀ y ∈ w.tables.events, y.event.id ≠ x.event.id
  created : ∃ y ∈ w'.tables.events, y.event.id = x.event.id ∧ y.event.status.isActive ∧
    y.ruleRevision = x.ruleRevision
  stored : d.rule ∈ w.tables.rules
  ruleID : d.rule.id = x.event.ruleID
  revision : d.rule.revision = x.ruleRevision

theorem Triggered.continues (h : Triggered w d x w') (hc : x'.Continues x) : Triggered w d x' w' := by
  have hrule : x'.event.ruleID = x.event.ruleID := congrArg Key.ruleID hc.key
  exact ⟨hc.id ▸ h.fresh, by rw [hc.id, hc.ruleRevision]; exact h.created, h.stored,
    h.ruleID.trans hrule.symm, h.revision.trans hc.ruleRevision.symm⟩

/-- The rows of the commit of a decision: carried over, or triggered by it. -/
theorem RulesOk.triggered (hok : RulesOk w) (hw : WorldOk w) {a : Nat} (ha : w.attempts a = some (.decided d))
    (h : commitTx w.tables d.change now recheck = .ok t) (hx : x ∈ t.events) (hact : x.event.status.isActive)
    (attempts : Nat → Option Attempt) : (∃ y ∈ w.tables.events, x.Continues y) ∨ Triggered w d x ⟨t, attempts⟩ := by
  rcases (commitTx_events h).rows x hx with hold | ⟨hfresh, hkey, hrev⟩
  · exact .inl hold
  obtain ⟨rule, hrule, hrevision⟩ := (hw.committed ha h).revision
  obtain ⟨r, hr, hsucc⟩ := hok.copies a _ ha d.rule rfl
  -- the rule that the step compares with has the id and the revision of the one that was read
  obtain ⟨threshold, hread⟩ := d.rule_eq
  have hid : d.input.rule.id = d.rule.id := by rw [hread]
  have hversion : d.input.rule.revision = d.rule.revision := by rw [hread]
  -- the stored rule is the only one with this id, and it has the revision that was read
  have hstored : r = rule := hok.keyed.eq_of_key hr (findAdvancedAlertRule_mem hrule)
    (hsucc.1.trans (hid.symm.trans (d.ruleID_eq.trans (findAdvancedAlertRule_id hrule).symm)))
  have hsame : r = d.rule := hsucc.eq_of_revision ((hstored ▸ hrevision).trans hversion)
  have hxkey : x.event.key = d.lease.key := hkey.trans d.key_eq
  refine .inr ⟨hfresh, ⟨x, hx, rfl, hact, rfl⟩, hsame ▸ hr, ?_, ?_⟩
  · exact hid.symm.trans (d.ruleID_eq.trans (congrArg Key.ruleID hxkey).symm)
  · exact hversion.symm.trans ((step_written d.step_eq).2.1.symm.trans hrev.symm)

/-- A commit of the run triggered the event of the row. -/
def TriggeredIn (rules : List AlertEvaluationRule) (nodes : List Node)
    (accelerators : List Accelerator) (es : List Entry) (w : World) (x : EventRow) (d : Decision) : Prop :=
  ∃ fs gs a now recheck w₁ w₂, es = fs ++ (.commit a d now recheck, none) :: gs ∧
    ProtocolRun rules nodes accelerators fs w₁ ∧ Access w₁ (.commit a d now recheck, none) w₂ ∧
    Lts.Run Access w₂ gs w ∧ Triggered w₁ d x w₂

theorem TriggeredIn.step (h : TriggeredIn rules nodes accelerators es w x d) (hst : Access w e w')
    (hc : x'.Continues x) : TriggeredIn rules nodes accelerators (es ++ [e]) w' x' d := by
  obtain ⟨fs, gs, a, now, recheck, w₁, w₂, rfl, hrun, hcommit, hrest, htrig⟩ := h
  exact ⟨fs, gs ++ [e], a, now, recheck, w₁, w₂, by simp, hrun, hcommit, hrest.snoc hst,
    htrig.continues hc⟩

/-- An active event has its rule, with the policy of the revision that it was triggered under. -/
def PolicyInv (rules : List AlertEvaluationRule) (nodes : List Node)
    (accelerators : List Accelerator) (es : List Entry) (w : World) : Prop :=
  ∀ x ∈ w.tables.events, x.event.status.isActive →
    ∃ d, TriggeredIn rules nodes accelerators es w x d ∧
      ∃ r ∈ w.tables.rules, r.id = x.event.ruleID ∧ r.numericPolicy = d.rule.numericPolicy

/-- The rows that a step carries over keep what they have. -/
theorem PolicyInv.carry (h : PolicyInv rules nodes accelerators es w) (hok : RulesOk w) (hst : Access w e w')
    (hx : x ∈ w.tables.events) (hc : x'.Continues x) (hact : x'.event.status.isActive) :
    ∃ d, TriggeredIn rules nodes accelerators (es ++ [e]) w' x' d ∧
      ∃ r ∈ w'.tables.rules, r.id = x'.event.ruleID ∧ r.numericPolicy = d.rule.numericPolicy := by
  obtain ⟨d, htrig, r, hr, hid, hpol⟩ := h x hx (hc.active hact)
  obtain ⟨r', hr', hsucc, hsame⟩ := (hok.rulesStep hst).grows r hr
  have hrule : x'.event.ruleID = x.event.ruleID := congrArg Key.ruleID hc.key
  refine ⟨d, htrig.step hst hc, r', hr', hsucc.1.trans (hid.trans hrule.symm), ?_⟩
  rcases hsame with hsame | hquiet
  · exact hsame.trans hpol
  · -- the rule is not quiet: the row is active
    have := hquiet x hx hid.symm
    rw [hc.active hact] at this
    cases this

theorem PolicyInv.step (hr : ProtocolRun rules nodes accelerators es w) (h : PolicyInv rules nodes accelerators es w)
    (hok : RulesOk w) (hst : Access w e w') : PolicyInv rules nodes accelerators (es ++ [e]) w' := by
  intro x' hx' hact
  have hsame : w'.tables.events = w.tables.events → ∃ d,
      TriggeredIn rules nodes accelerators (es ++ [e]) w' x' d ∧ ∃ r ∈ w'.tables.rules,
        r.id = x'.event.ruleID ∧ r.numericPolicy = d.rule.numericPolicy :=
    fun he => h.carry hok hst (he ▸ hx') (.refl x') hact
  cases id hst with
  | failed | readState | readRule | readNode | readIncident | decide => exact hsame rfl
  | claim hidle hc =>
    obtain ⟨-, p, -, -, rfl⟩ := claim_spec hc
    exact hsame rfl
  | release ha hl hc =>
    obtain ⟨p, -, -, rfl⟩ := release_spec hc
    exact hsame rfl
  | table ht =>
    obtain ⟨-, -, p, f, hcont, he⟩ := transact_spec ht
    obtain ⟨x, hx, rfl⟩ := mem_update.mp (he ▸ hx')
    exact h.carry hok hst hx (.ite hcont x) hact
  | commit ha hc =>
    rcases hok.triggered (ProtocolRun.ok hr) ha hc hx' hact _ with ⟨x, hx, hcont⟩ | htrig
    · exact h.carry hok hst hx hcont hact
    · refine ⟨_, ⟨es, [], _, _, _, w, _, rfl, hr, hst, .nil, htrig⟩, _, ?_, htrig.ruleID, rfl⟩
      rw [(commitTx_events hc).rules]
      exact htrig.stored

/-- An active incident keeps the numeric policy that triggered it, whatever rules are written and
whatever revisions the evaluators hold. -/
theorem active_policy_kept (hk : Table.Keyed (·.id) rules)
    (h : ProtocolRun rules nodes accelerators es w) (hx : x ∈ w.tables.events)
    (hact : x.event.status.isActive) : ∃ d, TriggeredIn rules nodes accelerators es w x d ∧
      (∃ r ∈ w.tables.rules, r.id = x.event.ruleID) ∧ ∀ r ∈ w.tables.rules, r.id = x.event.ruleID →
        r.numericPolicy = d.rule.numericPolicy := by
  have hinv : PolicyInv rules nodes accelerators es w :=
    Lts.Run.hist h (fun _ hn => nomatch hn) fun _ _ _ _ hr ih hst =>
      ih.step hr (ProtocolRun.rulesOk hk hr) hst
  obtain ⟨d, htrig, r, hr, hid, hpol⟩ := hinv x hx hact
  refine ⟨d, htrig, ⟨r, hr, hid⟩, fun r' hr' hid' => ?_⟩
  rw [(ProtocolRun.rulesOk hk h).keyed.eq_of_key hr' hr (hid'.trans hid.symm)]
  exact hpol

end run

/-- The rule fires and is renamed while the incident is open. Its operator is stored in the
canonical form then. -/
theorem prompt_renamed_run : ∃ es w x r,
    ProtocolRun [promptRule] [{ id := "n1", name := "edge" }] [] es w ∧ x ∈ w.tables.events ∧
      x.event.status.isActive ∧ x.event.ruleID = r.id ∧ x.ruleRevision = 1 ∧ r ∈ w.tables.rules ∧
      r.operator = "gt" ∧ r.revision = 2 := by
  refine ⟨promptEntries ++ [(.commit 0 _ promptAt (.ok ()), none),
      (.table (.updateRule "r1" 1 { promptRule with name := "renamed" } (.ok ())), none)], _, _,
    { promptRule with name := "renamed", operator := "gt", revision := 2 },
    .cons (.table promptTables_admitted) <| .cons (.claim rfl promptTables_claimed) <|
    .cons (.readState rfl rfl) <| .cons (.readRule rfl rfl) <| .cons (.readNode rfl) <|
    .cons (.readIncident rfl) <| .cons (.decide rfl rfl) <| .cons (.commit rfl rfl) <|
    .cons (.table rfl) .nil, .head _, rfl, rfl, rfl, .head _, rfl, rfl⟩

theorem active_policy_kept_renamed : ∃ es w x d r,
    ProtocolRun [promptRule] [{ id := "n1", name := "edge" }] [] es w ∧ x ∈ w.tables.events ∧
      x.event.status.isActive ∧
      TriggeredIn [promptRule] [{ id := "n1", name := "edge" }] [] es w x d ∧
      r ∈ w.tables.rules ∧ r.revision = 2 ∧ x.ruleRevision = 1 ∧
      r.numericPolicy = d.rule.numericPolicy := by
  obtain ⟨es, w, x, r, hrun, hx, hact, hid, hrev, hr, -, hr2⟩ := prompt_renamed_run
  obtain ⟨d, htrig, -, hpol⟩ := active_policy_kept (by decide) hrun hx hact
  exact ⟨es, w, x, d, r, hrun, hx, hact, htrig, hr, hr2, hrev, hpol r hr hid.symm⟩

end Beat.Alert
