import Beat.Alert.Exits
import Beat.Lib.Table
import Mathlib.Tactic.IntervalCases

/-!
# Health epochs

A run of missing or failed observations is a health epoch. The engine reports each kind of trouble
once per epoch, after the configured delay, and closes the epoch with one `recovered` record.

* `HealthChange`: what a step can do to the health of a state.
* `EpochInv`: the invariant of the records of a run. Every epoch in the records is closed, or it is
  the open one; the mask of the open epoch tells which kinds were notified.
* `waited`: the counted time of a status at the end of a run; `Waiting` ties the counter of the
  state to it.
* `health_epochs`: the records of a run.
-/

namespace Beat.Alert

open List Instant

/-- The statuses that open a health epoch. -/
def EvaluationStatus.isUnhealthy : EvaluationStatus → Bool
  | .noData | .error => true
  | _ => false

variable {st : EvaluationStatus} {draw : Option Uuid} {input : StepInput} {r : StepResult}
  {o : AlertEvaluationObservation} {s' : AlertEvaluationState}

theorem EvaluationStatus.isUnhealthy_iff : st.isUnhealthy ↔ st = .noData ∨ st = .error := by
  cases st <;> simp [isUnhealthy]

/-- A health action: whether it notifies, and its event. -/
structure HealthRecord where
  notify : Bool
  event : AlertEvaluationEvent

/-- The health actions of a step. -/
def healthRecords (actions : List Action) : List HealthRecord :=
  actions.filterMap fun action => action.health.map fun event => ⟨action.notify, event⟩

/-- The health actions of a run, in order. -/
def healthLog (es : List Evaluation) : List HealthRecord :=
  es.flatMap fun e => healthRecords e.result.actions

/-- The bit of a status in the masks of an epoch. -/
def healthMask (status : EvaluationStatus) : Nat := if status = .noData then noDataMask else errorMask

/-! ## What a step does to the health of a state -/

/-- The step notifies of the observation `o`, recorded in the state `s`. -/
def notifies (rule : AlertEvaluationRule) (s : AlertEvaluationState) (o : AlertEvaluationObservation) : Prop :=
  (healthPolicy rule o.status).2.1 = .notify ∧
    (healthPolicy rule o.status).2.2 * 1000 ≤ delayMS s o ∧
    s.health.notifiedMask &&& healthMask o.status = 0

instance (rule : AlertEvaluationRule) (s : AlertEvaluationState) (o : AlertEvaluationObservation) :
    Decidable (notifies rule s o) :=
  inferInstanceAs (Decidable (_ ∧ _ ∧ _))

theorem healthPolicy_mask (rule : AlertEvaluationRule) (status : EvaluationStatus) :
    (healthPolicy rule status).1 = healthMask status := by
  unfold healthPolicy healthMask; split <;> rfl

theorem recordUnhealthy_health (rule : AlertEvaluationRule) (s : AlertEvaluationState)
    (o : AlertEvaluationObservation) : (recordUnhealthy rule ⟨s, []⟩ o).state.health = { creditHealthDelay s o with
        seenMask := s.health.seenMask ||| healthMask o.status
        notifiedMask :=
          if notifies rule s o then s.health.notifiedMask ||| healthMask o.status
          else s.health.notifiedMask } := by
  by_cases hn : notifies rule s o
  all_goals
    have hn' := hn
    unfold notifies at hn'
    simp only [recordUnhealthy, creditHealthDelay_eq, healthPolicy_mask, hn, hn', and_self, if_true, if_false]

/-- An unhealthy step records the first observation of a kind, and the notification of it. -/
theorem recordUnhealthy_records (rule : AlertEvaluationRule) (s : AlertEvaluationState)
    (o : AlertEvaluationObservation) : ∃ event : AlertEvaluationEvent, event.kind = .status o.status ∧
      event.epochID = s.health.epochID ∧ healthRecords (recordUnhealthy rule ⟨s, []⟩ o).actions =
        if s.health.seenMask &&& healthMask o.status = 0 ∨ notifies rule s o then
          [⟨decide (notifies rule s o), event⟩] else [] := by
  refine ⟨{ healthEvent
      { s with health := (recordUnhealthy rule ⟨s, []⟩ o).state.health } (.status o.status) o.reason
        o.observedAt with notifiedAt := if notifies rule s o then some o.observedAt else none }, rfl, ?_, ?_⟩
  · simp only [healthEvent, recordUnhealthy_health, creditHealthDelay_eq]
  · rw [recordUnhealthy_health]
    by_cases hn : notifies rule s o
    all_goals
      have hn' := hn
      unfold notifies at hn'
      simp only [recordUnhealthy, creditHealthDelay_eq, healthPolicy_mask, hn, hn', and_self,
        or_true, or_false, if_true, if_false, decide_true, decide_false]
    · rfl
    · split <;> rfl

/-- Every change of the health of a state by a step. -/
inductive HealthChange (draw : Option Uuid) (input : StepInput) (r : StepResult) : Prop where
  /-- The evaluation is suspended; the epoch stays. -/
  | suspend (hlog : healthRecords r.actions = [])
      (hh : r.state.health = { (started input).health with suspended := true })
      (hs : r.state.status.isUnhealthy = false)
  /-- No epoch is open and none is opened. -/
  | rest (hlog : healthRecords r.actions = []) (hepoch : input.previous.health.epochID = "")
      (hh : r.state.health = (started input).health) (hs : r.state.status.isUnhealthy = false)
  /-- New evidence closes the epoch. -/
  | close (event : AlertEvaluationEvent) (hopen : input.previous.health.epochID ≠ "")
      (hkind : event.kind = .recovered) (hepoch : event.epochID = input.previous.health.epochID)
      (hlog : healthRecords r.actions = [⟨decide (input.previous.health.notifiedMask ≠ 0), event⟩])
      (hh : r.state.health = {}) (hs : r.state.status.isUnhealthy = false)
  /-- The observation is missing or failed. -/
  | unhealthy (o : AlertEvaluationObservation) (health : AlertEvaluationHealth)
      (ho : Unhealthy input o)
      (hopen : openEpoch draw (started input).health o.observedAt = .ok health)
      (hr : r = recordUnhealthy input.rule ⟨troubled input o health, []⟩ o)

theorem healthRecords_append (as bs : List Action) :
    healthRecords (as ++ bs) = healthRecords as ++ healthRecords bs := by
  unfold healthRecords; rw [filterMap_append]

/-- A step with new evidence closes the open epoch, whatever the threshold does. -/
theorem HealthChange.of_evidence (hact : healthRecords r.actions = healthRecords (closing input))
    (hh : r.state.health = (ready input).health) (hs : r.state.status = .ok) : HealthChange draw input r := by
  have hst : r.state.status.isUnhealthy = false := by rw [hs]; rfl
  rw [ready_health] at hh
  obtain ⟨hc, he⟩ | ⟨he, event, hk, hid, hc⟩ := closing_eq input
  · rw [hc] at hact
    rw [if_pos he] at hh
    exact .rest hact he hh hst
  · rw [if_neg he] at hh
    have hmask : (started input).health.notifiedMask = input.previous.health.notifiedMask := by
      rw [started_health]; split <;> rfl
    rw [hc, hmask] at hact
    exact .close event he hk hid hact hh hst

theorem step_health (h : step draw input = .ok r) : HealthChange draw input r := by
  obtain ⟨-, hexit⟩ := step_exit h
  cases hexit with
  | suspend status reason hbad hs =>
    refine .suspend rfl rfl ?_
    rcases hs with rfl | rfl <;> rfl
  | gone => exact .suspend rfl rfl rfl
  | unhealthy o health ho hopen => exact .unhealthy o health ho hopen rfl
  | quiet hok hnew hepoch =>
    refine .rest rfl hepoch rfl ?_
    simp only [started_status, hok.status_ok]; rfl
  | clear => exact .of_evidence rfl rfl rfl
  | pend => rw [confirmTrigger_eq]; exact .of_evidence rfl rfl rfl
  | trigger =>
    rw [confirmTrigger_eq]
    exact .of_evidence (by simp [healthRecords]) rfl rfl
  | fire => exact .of_evidence rfl rfl rfl
  | recovering => rw [confirmRecovery_eq]; exact .of_evidence rfl rfl rfl
  | recover =>
    rw [confirmRecovery_eq]
    refine .of_evidence ?_ rfl rfl
    rw [healthRecords_append]
    refine (congrArg _ ?_).trans (append_nil _)
    unfold nameDevice
    simp only
    split <;> rfl

/-! ## Masks -/

section masks

variable {n : Nat} {st st' : EvaluationStatus}

theorem healthMask_or (hn : n < 4) (hs : st.isUnhealthy) (hs' : st'.isUnhealthy) :
    (n ||| healthMask st) &&& healthMask st' ≠ 0 ↔ n &&& healthMask st' ≠ 0 ∨ st = st' := by
  rw [EvaluationStatus.isUnhealthy_iff] at hs hs'
  rcases hs with rfl | rfl <;> rcases hs' with rfl | rfl <;> interval_cases n <;> decide

theorem or_healthMask_lt (hn : n < 4) : n ||| healthMask st < 4 :=
  Nat.or_lt_two_pow (n := 2) hn (by unfold healthMask noDataMask errorMask; split <;> decide)

/-- A mask below 4 is not zero exactly if one of the two bits is set. -/
theorem mask_ne_zero (hn : n < 4) : n ≠ 0 ↔ ∃ st : EvaluationStatus, st.isUnhealthy ∧ n &&& healthMask st ≠ 0 := by
  constructor
  · intro h
    have : n = 1 ∨ n = 2 ∨ n = 3 := by omega
    rcases this with rfl | rfl | rfl
    · exact ⟨.noData, rfl, by decide⟩
    · exact ⟨.error, rfl, by decide⟩
    · exact ⟨.error, rfl, by decide⟩
  · rintro ⟨st, -, h⟩ rfl
    exact h (Nat.zero_and _)

theorem mask_subset_or {m : Nat} (hm : m < 4) (hn : n < 4) (h : n &&& m = n) : n &&& (m ||| healthMask st) = n ∧
      (n ||| healthMask st) &&& (m ||| healthMask st) = n ||| healthMask st := by
  unfold healthMask noDataMask errorMask
  split <;> interval_cases m <;> interval_cases n <;> revert h <;> decide

end masks

/-! ## The records of a run -/

/-- The epochs that the records close. -/
def closedEpochs (log : List HealthRecord) : List String :=
  (log.filter fun x => x.event.kind = .recovered).map (·.event.epochID)

/-- The epochs and kinds that the records notify of. -/
def notified (log : List HealthRecord) : List (String × HealthKind) :=
  (log.filter (·.notify)).map fun x => (x.event.epochID, x.event.kind)

/-- The records notify of the kind `k` in the epoch `epoch`. -/
def Notified (log : List HealthRecord) (epoch : String) (k : HealthKind) : Prop :=
  (epoch, k) ∈ notified log

theorem closedEpochs_append (l l' : List HealthRecord) :
    closedEpochs (l ++ l') = closedEpochs l ++ closedEpochs l' := by
  simp [closedEpochs]

variable {log : List HealthRecord}

theorem Notified.epoch_mem {epoch : String} {k : HealthKind} (h : Notified log epoch k) :
    ∃ x ∈ log, x.event.epochID = epoch := by
  simp only [Notified, notified, mem_map, mem_filter] at h
  obtain ⟨x, ⟨hx, -⟩, hk⟩ := h
  cases hk
  exact ⟨x, hx, rfl⟩

/-- The invariant of the records `log` of a run whose state has the health `health`; `drawn` are the
identifiers drawn so far. -/
structure EpochInv (log : List HealthRecord) (health : AlertEvaluationHealth)
    (drawn : List Uuid) : Prop where
  /-- Every recorded epoch is closed, or it is the open one. -/
  settled : ∀ x ∈ log, x.event.epochID ∈ closedEpochs log ∨ x.event.epochID = health.epochID
  /-- No epoch is closed twice. -/
  closed_once : (closedEpochs log).Nodup
  open_not_closed : health.epochID ∉ closedEpochs log
  /-- The epochs carry drawn identifiers. -/
  drawn_log : ∀ x ∈ log, x.event.epochID ∈ drawn.map (·.text)
  drawn_open : health.epochID ≠ "" → health.epochID ∈ drawn.map (·.text)
  /-- Records of another epoch come before or after all records of an epoch. -/
  ordered : ∀ l y l', log = l ++ y :: l' → y.event.epochID ∉ closedEpochs l ∧
    ∀ x ∈ l, x.event.epochID ≠ y.event.epochID → x.event.epochID ∈ closedEpochs l
  /-- Each kind is notified once in an epoch. -/
  notified_once : (notified log).Nodup
  /-- The mask tells which kinds the open epoch notified of. -/
  mask : ∀ st : EvaluationStatus, st.isUnhealthy →
    (health.notifiedMask &&& healthMask st ≠ 0 ↔ Notified log health.epochID (.status st))
  seen_lt : health.seenMask < 4
  notified_lt : health.notifiedMask < 4
  subset : health.notifiedMask &&& health.seenMask = health.notifiedMask
  /-- No other kinds are recorded. -/
  kinds : ∀ x ∈ log, x.event.kind = .recovered ∨
    ∃ st : EvaluationStatus, st.isUnhealthy ∧ x.event.kind = .status st
  /-- The end of an epoch notifies exactly if the epoch did. -/
  recovered_iff : ∀ x ∈ log, x.event.kind = .recovered →
    (x.notify ↔ ∃ st : EvaluationStatus, st.isUnhealthy ∧ Notified log x.event.epochID (.status st))

namespace EpochInv

variable {log : List HealthRecord} {health health' : AlertEvaluationHealth} {drawn : List Uuid}

theorem init : EpochInv [] {} [] := by
  refine ⟨by simp, by simp [closedEpochs], by simp [closedEpochs], by simp, by simp, by simp,
    by simp [notified], ?_, by decide, by decide, by decide, by simp, by simp⟩
  intro st _
  simp [Notified, notified]

/-- The counters and times of the health do not matter, and more identifiers may be drawn. -/
theorem congr (h : EpochInv log health drawn) (more : List Uuid)
    (he : health'.epochID = health.epochID) (hs : health'.seenMask = health.seenMask)
    (hn : health'.notifiedMask = health.notifiedMask) : EpochInv log health' (drawn ++ more) := by
  obtain ⟨h1, h2, h3, h4, h5, h6, h7, h8, h9, h10, h11, h12, h13⟩ := h
  refine ⟨by rwa [he], h2, by rwa [he], fun x hx => ?_, fun hne => ?_, h6, h7, ?_, by rwa [hs],
    by rwa [hn], by rwa [hs, hn], h12, h13⟩
  · rw [map_append]; exact mem_append_left _ (h4 x hx)
  · rw [he] at hne ⊢
    rw [map_append]; exact mem_append_left _ (h5 hne)
  · rwa [hn, he]

/-- An epoch is opened under a new identifier. -/
theorem begin (h : EpochInv log health drawn) (he : health.epochID = "") {id : Uuid}
    (hid : id ∉ drawn) (he' : health'.epochID = id.text) (hs : health'.seenMask = 0)
    (hn : health'.notifiedMask = 0) : EpochInv log health' (drawn ++ [id]) := by
  have hfresh : id.text ∉ drawn.map (·.text) := by
    intro hmem
    obtain ⟨id', hmem', htext⟩ := mem_map.mp hmem
    have : id' = id := by cases id; cases id'; cases htext; rfl
    exact hid (this ▸ hmem')
  have hnew : ∀ x ∈ log, x.event.epochID ≠ id.text := fun x hx hxe => hfresh (hxe ▸ h.drawn_log x hx)
  refine ⟨fun x hx => ?_, h.closed_once, fun hc => ?_, fun x hx => ?_, fun _ => by simp [he'],
    h.ordered, h.notified_once, fun st _ => ?_, by omega, by omega, by rw [hn, Nat.zero_and], h.kinds,
    h.recovered_iff⟩
  · -- no recorded epoch is open, since the empty text is no identifier
    rcases h.settled x hx with hc | hc
    · exact .inl hc
    · obtain ⟨id', -, htext⟩ := mem_map.mp (h.drawn_log x hx)
      exact absurd (htext.trans (hc.trans he)) id'.text_ne_empty
  · rw [he'] at hc
    obtain ⟨x, hx, hxe⟩ := mem_map.mp hc
    exact hnew x (mem_of_mem_filter hx) hxe
  · rw [map_append]; exact mem_append_left _ (h.drawn_log x hx)
  · rw [hn, Nat.zero_and, he']
    refine ⟨fun hne => absurd rfl hne, fun hno => ?_⟩
    obtain ⟨x, hx, hxe⟩ := hno.epoch_mem
    exact absurd hxe (hnew x hx)

variable {x : HealthRecord}

section

variable (h : EpochInv log health drawn)

include h

/-- A record of the open epoch keeps the order of the epochs. -/
theorem ordered_snoc (hx : x.event.epochID = health.epochID)
    (l : List HealthRecord) (y : HealthRecord) (l' : List HealthRecord) (hl : log ++ [x] = l ++ y :: l') :
    y.event.epochID ∉ closedEpochs l ∧
      ∀ z ∈ l, z.event.epochID ≠ y.event.epochID → z.event.epochID ∈ closedEpochs l := by
  rcases eq_nil_or_concat l' with rfl | ⟨l'', z, rfl⟩
  · obtain ⟨rfl, hy⟩ := append_inj' hl rfl
    cases hy
    rw [hx]
    exact ⟨h.open_not_closed, fun z hz hne => (h.settled z hz).resolve_right hne⟩
  · rw [concat_eq_append, ← cons_append, ← append_assoc] at hl
    obtain ⟨rfl, -⟩ := append_inj' hl rfl
    exact h.ordered l y l'' rfl

/-- The open epoch has no closing record. -/
theorem not_recovered (hx : x ∈ log) (hk : x.event.kind = .recovered) : x.event.epochID ≠ health.epochID := by
  intro he
  refine h.open_not_closed (he ▸ mem_map.mpr ⟨x, ?_, rfl⟩)
  exact mem_filter.mpr ⟨hx, by simpa using hk⟩

/-- A record of trouble in the open epoch. -/
theorem record (hne : health.epochID ≠ "") (hst : st.isUnhealthy) (hx : x.event.epochID = health.epochID)
    (hk : x.event.kind = .status st) (hnew : x.notify → health.notifiedMask &&& healthMask st = 0)
    (he : health'.epochID = health.epochID) (hs : health'.seenMask = health.seenMask ||| healthMask st)
    (hn : health'.notifiedMask = if x.notify then health.notifiedMask ||| healthMask st else health.notifiedMask) :
    EpochInv (log ++ [x]) health' drawn := by
  have hclosed : closedEpochs (log ++ [x]) = closedEpochs log := by
    simp [closedEpochs, hk]
  have hnot : notified (log ++ [x]) =
      notified log ++ if x.notify then [(health.epochID, .status st)] else [] := by
    by_cases hb : x.notify <;> simp [notified, hb, hx, hk]
  -- closed epochs keep their notifications
  have hkeep : ∀ epoch k, epoch ≠ health.epochID →
      (Notified (log ++ [x]) epoch k ↔ Notified log epoch k) := by
    intro epoch k hep
    unfold Notified
    rw [hnot]
    by_cases hb : x.notify <;> simp [hb, hep]
  refine ⟨fun y hy => ?_, hclosed ▸ h.closed_once, by rw [he, hclosed]; exact h.open_not_closed,
    fun y hy => ?_, fun _ => he ▸ h.drawn_open hne, h.ordered_snoc hx, ?_, fun st' hst' => ?_,
    hs ▸ or_healthMask_lt h.seen_lt, ?_, ?_, fun y hy => ?_, fun y hy hrec => ?_⟩
  · rw [hclosed, he]
    rcases Table.mem_snoc.mp hy with hy | hy
    · exact h.settled y hy
    · rw [hy]; exact .inr hx
  · rcases Table.mem_snoc.mp hy with hy | hy
    · exact h.drawn_log y hy
    · rw [hy, hx]; exact h.drawn_open hne
  · rw [hnot]
    by_cases hb : x.notify
    · have hno : ¬Notified log health.epochID (.status st) := fun hno =>
        (h.mask st hst).mpr hno (hnew hb)
      simp only [hb, if_true]
      exact List.Nodup.append h.notified_once (nodup_singleton _)
        (disjoint_singleton.mpr hno)
    · simpa [hb] using h.notified_once
  · unfold Notified
    rw [he, hnot, hn, mem_append]
    have hm := h.mask st' hst'
    unfold Notified at hm
    by_cases hb : x.notify
    · simp only [hb, if_true, mem_singleton, Prod.mk.injEq, true_and, HealthKind.status.injEq]
      rw [healthMask_or h.notified_lt hst hst', hm, eq_comm (a := st)]
    · simpa [hb] using hm
  · rw [hn]; split
    · exact or_healthMask_lt h.notified_lt
    · exact h.notified_lt
  · obtain ⟨h1, h2⟩ := mask_subset_or h.seen_lt h.notified_lt h.subset
    rw [hn, hs]; split
    · exact h2
    · exact h1
  · rcases Table.mem_snoc.mp hy with hy | hy
    · exact h.kinds y hy
    · rw [hy]; exact .inr ⟨st, hst, hk⟩
  · rcases Table.mem_snoc.mp hy with hy | hy
    · rw [h.recovered_iff y hy hrec]
      simp only [hkeep _ _ (h.not_recovered hy hrec)]
    · rw [hy, hk] at hrec
      cases hrec

/-- Trouble that the open epoch recorded before. -/
theorem again (he : health'.epochID = health.epochID) (hs : health'.seenMask = health.seenMask ||| healthMask st)
    (hn : health'.notifiedMask = health.notifiedMask) : EpochInv log health' drawn := by
  obtain ⟨h1, h2, h3, h4, h5, h6, h7, h8, h9, h10, h11, h12, h13⟩ := h
  exact ⟨by rwa [he], h2, by rwa [he], h4, by rwa [he], h6, h7, by rwa [hn, he],
    hs ▸ or_healthMask_lt h9, by rwa [hn], by rw [hn, hs]; exact (mask_subset_or h9 h10 h11).1, h12, h13⟩

/-- The record that closes the open epoch. -/
theorem finish (hne : health.epochID ≠ "") (hx : x.event.epochID = health.epochID) (hk : x.event.kind = .recovered)
    (hn : x.notify = decide (health.notifiedMask ≠ 0)) : EpochInv (log ++ [x]) {} drawn := by
  have hclosed : closedEpochs (log ++ [x]) = closedEpochs log ++ [health.epochID] := by
    simp [closedEpochs, hk, hx]
  have hnot : notified (log ++ [x]) =
      notified log ++ if x.notify then [(health.epochID, .recovered)] else [] := by
    by_cases hb : x.notify <;> simp [notified, hb, hx, hk]
  have hkeep : ∀ epoch st,
      (Notified (log ++ [x]) epoch (.status st) ↔ Notified log epoch (.status st)) := by
    intro epoch st
    unfold Notified
    rw [hnot]
    by_cases hb : x.notify <;> simp [hb]
  have hdrawn : ∀ y ∈ log ++ [x], y.event.epochID ∈ drawn.map (·.text) := by
    intro y hy
    rcases Table.mem_snoc.mp hy with hy | hy
    · exact h.drawn_log y hy
    · rw [hy, hx]; exact h.drawn_open hne
  have hempty : ∀ y ∈ log ++ [x], y.event.epochID ≠ "" := by
    intro y hy hye
    obtain ⟨id, -, hid⟩ := mem_map.mp (hdrawn y hy)
    exact id.text_ne_empty (hid.trans hye)
  refine ⟨fun y hy => .inl ?_, ?_, fun hc => ?_, hdrawn, fun hc => absurd rfl hc,
    h.ordered_snoc hx, ?_, fun st _ => ?_, by decide, by decide, by decide, fun y hy => ?_,
    fun y hy hrec => ?_⟩
  · rw [hclosed]
    rcases Table.mem_snoc.mp hy with hy | hy
    · rcases h.settled y hy with hc | hc
      · exact mem_append_left _ hc
      · exact mem_append_right _ (by simpa using hc)
    · rw [hy, hx]; simp
  · rw [hclosed]
    exact List.Nodup.append h.closed_once (nodup_singleton _)
      (disjoint_singleton.mpr h.open_not_closed)
  · obtain ⟨y, hy, hye⟩ := mem_map.mp hc
    exact hempty y (mem_of_mem_filter hy) hye
  · rw [hnot]
    have hno : (health.epochID, HealthKind.recovered) ∉ notified log := by
      intro hmem
      obtain ⟨y, hy, hye⟩ := mem_map.mp hmem
      simp only [Prod.mk.injEq] at hye
      exact h.not_recovered (mem_of_mem_filter hy) hye.2 hye.1
    split
    · exact List.Nodup.append h.notified_once (nodup_singleton _)
        (disjoint_singleton.mpr hno)
    · simpa using h.notified_once
  · refine ⟨fun hm => absurd (Nat.zero_and _) hm, fun hno => ?_⟩
    obtain ⟨y, hy, hye⟩ := hno.epoch_mem
    exact absurd hye (hempty y hy)
  · rcases Table.mem_snoc.mp hy with hy | hy
    · exact h.kinds y hy
    · rw [hy]; exact .inl hk
  · simp only [hkeep]
    rcases Table.mem_snoc.mp hy with hy | hy
    · exact h.recovered_iff y hy hrec
    · rw [hy, hn, hx, decide_eq_true_eq, mask_ne_zero h.notified_lt]
      exact exists_congr fun st => and_congr_right fun hst => h.mask st hst

end

end EpochInv

theorem healthLog_snoc (es : List Evaluation) (e : Evaluation) :
    healthLog (es ++ [e]) = healthLog es ++ healthRecords e.result.actions := by
  simp [healthLog]

/-- The identifiers that the steps of a run may use. -/
def draws (es : List Evaluation) : List Uuid := es.filterMap (·.draw)

theorem draws_snoc (es : List Evaluation) (e : Evaluation) : draws (es ++ [e]) = draws es ++ e.draw.toList := by
  cases h : e.draw <;> simp [draws, h]

variable {s : AlertEvaluationState} {e : Evaluation} {es rev : List Evaluation}

/-- An unhealthy observation in the epoch `health`. -/
theorem EpochInv.unhealthy {drawn : List Uuid} {rule : AlertEvaluationRule} (h : EpochInv log s.health drawn)
    (hne : s.health.epochID ≠ "") (ho : o.status.isUnhealthy) :
    EpochInv (log ++ healthRecords (recordUnhealthy rule ⟨s, []⟩ o).actions)
      (recordUnhealthy rule ⟨s, []⟩ o).state.health drawn := by
  obtain ⟨event, hkind, hepoch, hrec⟩ := recordUnhealthy_records rule s o
  rw [hrec, recordUnhealthy_health, creditHealthDelay_eq]
  split
  · refine h.record hne ho hepoch hkind (fun hn => ?_) rfl rfl (by simp)
    exact (of_decide_eq_true hn).2.2
  · rename_i hno
    rw [append_nil]
    exact h.again rfl rfl (if_neg fun hn => hno (.inr hn))

theorem EpochInv.step (h : EpochInv (healthLog es) s.health (draws es)) (hst : Evaluates s e s')
    (hfresh : (draws (es ++ [e])).Nodup) : EpochInv (healthLog (es ++ [e])) s'.health (draws (es ++ [e])) := by
  obtain ⟨rfl, hstep, rfl⟩ := hst
  rw [draws_snoc] at hfresh ⊢
  rw [healthLog_snoc]
  -- the health that the step starts with differs only in its counter
  have hs : ∀ more, EpochInv (healthLog es) (started e.input).health (draws es ++ more) := by
    intro more
    rw [started_health]
    split
    · exact h.congr more rfl rfl rfl
    · exact h.congr more rfl rfl rfl
  cases step_health hstep with
  | suspend hlog hh _ =>
    rw [hlog, append_nil, hh, ← append_nil (draws es ++ _)]
    exact (hs _).congr [] rfl rfl rfl
  | rest hlog _ hh _ =>
    rw [hlog, append_nil, hh]
    exact hs _
  | close event hopen hkind hepoch hlog hh _ =>
    rw [hlog, hh]
    exact (h.congr _ rfl rfl rfl).finish hopen hepoch hkind rfl
  | unhealthy o health ho hopen hr =>
    have hbad : o.status.isUnhealthy := EvaluationStatus.isUnhealthy_iff.mpr ho.status
    rw [hr]
    unfold openEpoch at hopen
    split_ifs at hopen with hempty
    · cases hdraw : e.draw with
      | none => simp [hdraw] at hopen
      | some id =>
        simp only [hdraw] at hopen
        cases hopen
        have hid : id ∉ draws es := by
          intro hmem
          rw [hdraw] at hfresh
          exact (nodup_append.mp hfresh).2.2 id hmem id (by simp) rfl
        rw [started_epochID] at hempty
        exact (h.begin hempty hid rfl rfl rfl).unhealthy id.text_ne_empty hbad
    · cases hopen
      exact EpochInv.unhealthy (hs _) hempty hbad

theorem EngineRun.epochs (h : EngineRun es s) (hfresh : (draws es).Nodup) :
    EpochInv (healthLog es) s.health (draws es) := by
  induction h with
  | nil => exact EpochInv.init
  | @snoc es e s s' hrun hst ih =>
    have hes : (draws es).Nodup := by
      rw [draws_snoc] at hfresh
      exact (nodup_append.mp hfresh).1
    exact (ih hes).step hst hfresh

/-! ## The delay -/

/-- The gap between two evaluations, if it counts for the delay. -/
def countedGap (e f : Evaluation) : Int :=
  let gap := f.input.observation.observedAt - e.input.observation.observedAt
  if e.input.observation.runID = f.input.observation.runID ∧ 0 ≤ gap ∧ gap ≤ maximumPollGap then gap
  else 0

/-- The counted time of the status `st` at the end of a run: the sum of the counted gaps between
consecutive evaluations, back to the last one with another status. The newest evaluation is first. -/
def waited (st : EvaluationStatus) : List Evaluation → Int
  | e :: f :: rest =>
    if e.result.state.status = st ∧ f.result.state.status = st then
      countedGap f e + waited st (f :: rest)
    else 0
  | _ => 0

theorem countedGap_nonneg (e f : Evaluation) : 0 ≤ countedGap e f := by
  unfold countedGap
  simp only
  split <;> omega

theorem waited_nonneg (st : EvaluationStatus) (es : List Evaluation) : 0 ≤ waited st es := by
  fun_induction waited st es with
  | case1 e f rest h ih => have := countedGap_nonneg f e; omega
  | case2 => exact le_refl _
  | case3 => exact le_refl _

/-- The health counter of a state is at most the time that the run waited. `rev` is the run with the
newest evaluation first. -/
structure Waiting (rev : List Evaluation) (s : AlertEvaluationState) : Prop where
  unhealthy : s.status.isUnhealthy → ∃ e rest, rev = e :: rest ∧ e.result.state.status = s.status ∧
    s.health.status = s.status ∧
    s.health.lastObservedAt = some e.input.observation.observedAt ∧
    s.runID = e.input.observation.runID ∧
    s.health.elapsedMS * millisecond ≤ waited s.status rev
  healthy : s.status.isUnhealthy = false → s.health.epochID ≠ "" → s.health.suspended = true

theorem Waiting.of_healthy (hs : s.status.isUnhealthy = false)
    (h : s.health.epochID ≠ "" → s.health.suspended = true) : Waiting rev s :=
  ⟨fun hu => absurd (hs.symm.trans hu) (by decide), fun _ => h⟩

/-- The delay of an unhealthy evaluation is at most the time that the run waited. -/
theorem Waiting.delay {health : AlertEvaluationHealth} (h : Waiting rev e.input.previous) (ho : Unhealthy e.input o)
    (hopen : openEpoch e.draw (started e.input).health o.observedAt = .ok health)
    (hst : e.result.state.status = o.status) :
    delayMS (troubled e.input o health) o * millisecond ≤ waited o.status (e :: rev) := by
  have hbad : o.status.isUnhealthy := EvaluationStatus.isUnhealthy_iff.mpr ho.status
  have h0 := waited_nonneg o.status (e :: rev)
  have hrunID : (troubled e.input o health).runID = e.input.previous.runID :=
    (started_evidence e.input).2.2.2
  have hhealth : (troubled e.input o health).health = health := rfl
  rw [delayMS, hhealth, hrunID]
  by_cases hrestart : health.status ≠ o.status ∨ health.suspended
  · rw [if_pos hrestart]; simpa using h0
  rw [if_neg hrestart]
  simp only [not_or, not_not] at hrestart
  obtain ⟨hsame, hnsus⟩ := hrestart
  unfold openEpoch at hopen
  split_ifs at hopen with hempty
  · -- a new epoch has no status yet
    split at hopen
    · cases hopen
    cases hopen
    rw [← hsame] at hbad
    cases hbad
  · cases hopen
    have hfields : (started e.input).health.status = e.input.previous.health.status ∧
        (started e.input).health.suspended = e.input.previous.health.suspended ∧
        (started e.input).health.lastObservedAt = e.input.previous.health.lastObservedAt ∧
        ((started e.input).health.elapsedMS = 0 ∨
          (started e.input).health.elapsedMS = e.input.previous.health.elapsedMS) := by
      rw [started_health]; split <;> simp
    obtain ⟨f1, f2, f3, f4⟩ := hfields
    cases hprev : e.input.previous.status.isUnhealthy with
    | false =>
      rw [started_epochID] at hempty
      rw [f2] at hnsus
      exact absurd (h.healthy hprev hempty) hnsus
    | true =>
      obtain ⟨e', rest, rfl, hst', hhs, hlast, hrun, hms⟩ := h.unhealthy hprev
      rw [f1, hhs] at hsame
      -- the counter so far, and the gap since the last evaluation
      have hw : waited o.status (e :: e' :: rest) =
          countedGap e' e + waited o.status (e' :: rest) := by
        rw [waited, if_pos ⟨hst, hst'.trans hsame⟩]
      rw [hsame] at hms
      have hold : (started e.input).health.elapsedMS * millisecond ≤
          waited o.status (e' :: rest) := by
        rcases f4 with h4 | h4 <;> rw [h4]
        · simpa using waited_nonneg o.status (e' :: rest)
        · exact hms
      have hgap := countedGap_nonneg e' e
      simp only [f3, hlast]
      split_ifs with hsrun hin
      · have hd := sub_eq hin.1 hin.2 (by decide)
        have hcount : countedGap e' e =
            e.input.observation.observedAt - e'.input.observation.observedAt := by
          rw [ho.observedAt] at hd hin
          rw [hd] at hin
          unfold countedGap
          rw [if_pos ⟨by rw [← hrun, hsrun, ho.runID], hin⟩]
        rw [hw, hcount, hd, ho.observedAt]
        have hcr := milliseconds_mul_le (hd ▸ hin.1)
        rw [ho.observedAt] at hcr
        unfold creditMS maximumDelaySeconds
        unfold millisecond at *
        omega
      · simpa using h0
      · rw [hw]; omega

theorem Waiting.step (h : Waiting rev s) (hst : Evaluates s e s') : Waiting (e :: rev) s' := by
  obtain ⟨rfl, hstep, rfl⟩ := hst
  cases step_health hstep with
  | suspend hlog hh hs => exact .of_healthy hs fun _ => by rw [hh]
  | rest hlog hepoch hh hs =>
    refine .of_healthy hs fun hne => absurd ?_ hne
    rw [hh, started_epochID, hepoch]
  | close event hopen hkind hepoch hlog hh hs =>
    exact .of_healthy hs fun hne => absurd (by rw [hh]) hne
  | unhealthy o health ho hopen hr =>
    have hst : e.result.state.status = o.status := by rw [hr]; rfl
    have hbad : o.status.isUnhealthy := EvaluationStatus.isUnhealthy_iff.mpr ho.status
    refine ⟨fun _ => ⟨e, rev, rfl, rfl, ?_, ?_, ?_, ?_⟩, fun hs => ?_⟩
    · rw [hr, recordUnhealthy_health, creditHealthDelay_eq]; rfl
    · rw [hr, recordUnhealthy_health, creditHealthDelay_eq, ← ho.observedAt]
    · rw [hr, ← ho.runID]; rfl
    · have hd := h.delay ho hopen hst
      rw [hst, hr, recordUnhealthy_health, creditHealthDelay_eq]
      exact hd
    · rw [hst, hbad] at hs; exact nomatch hs

theorem EngineRun.waiting (h : EngineRun es s) : Waiting es.reverse s := by
  refine h.hist (I := fun es s => Waiting es.reverse s)
    (.of_healthy rfl fun hne => absurd rfl hne) ?_
  intro es s e s' _ hw hst
  rw [reverse_append]
  exact hw.step hst

/-- A notification of trouble comes after the configured delay. -/
theorem notify_waited {n : Nat} {a : Action} {event : AlertEvaluationEvent} (h : EngineRun es s)
    (hn : es[n]? = some e) (ha : a ∈ e.result.actions) (hevent : a.health = some event) (hnotify : a.notify = true)
    (hkind : event.kind = .status st) : st.isUnhealthy ∧ (healthPolicy e.input.rule st).2.1 = .notify ∧
      (healthPolicy e.input.rule st).2.2 * second ≤ waited st (es.take (n + 1)).reverse := by
  obtain ⟨s₁, s₂, hrun, rfl, hstep, -⟩ := h.at hn
  have hrev : (es.take (n + 1)).reverse = e :: (es.take n).reverse := by
    rw [take_add_one, hn, reverse_append]; rfl
  have hmem : (⟨a.notify, event⟩ : HealthRecord) ∈ healthRecords e.result.actions :=
    mem_filterMap.mpr ⟨a, ha, by rw [hevent]; rfl⟩
  rw [hrev]
  cases step_health hstep with
  | suspend hlog | rest hlog => rw [hlog] at hmem; exact nomatch hmem
  | close event' hopen hrec hepoch hlog =>
    rw [hlog, mem_singleton, HealthRecord.mk.injEq] at hmem
    rw [hmem.2, hrec] at hkind
    cases hkind
  | unhealthy o health ho hopen hr =>
    have hbad : o.status.isUnhealthy := EvaluationStatus.isUnhealthy_iff.mpr ho.status
    have hst : e.result.state.status = o.status := by rw [hr]; rfl
    have hd := (EngineRun.waiting hrun).delay ho hopen hst
    obtain ⟨event', hk, -, hrec⟩ :=
      recordUnhealthy_records e.input.rule (troubled e.input o health) o
    rw [hr, hrec] at hmem
    split at hmem
    · rw [mem_singleton, HealthRecord.mk.injEq] at hmem
      obtain ⟨hno, rfl⟩ := hmem
      rw [hnotify, eq_comm, decide_eq_true_eq] at hno
      cases hk.symm.trans hkind
      refine ⟨hbad, hno.1, ?_⟩
      have hlong := hno.2.1
      unfold second millisecond at *
      omega
    · cases hmem

/-- The health records of a run whose identifiers are all different: each kind is notified once in an
epoch; an epoch is closed by one record before the next one starts, and that record notifies exactly
if the epoch did; the notified kinds were seen; trouble is notified only after its delay. -/
theorem health_epochs {es : List Evaluation} {s : AlertEvaluationState} (h : EngineRun es s)
    (hfresh : (draws es).Nodup) : (notified (healthLog es)).Nodup ∧
      (∀ l x l' y l'', healthLog es = l ++ x :: (l' ++ y :: l'') → x.event.epochID ≠ y.event.epochID →
          x.event.epochID ∈ closedEpochs (x :: l') ∧ (closedEpochs (healthLog es)).count x.event.epochID = 1) ∧
      (∀ x ∈ healthLog es, x.event.kind = .recovered → (x.notify ↔ ∃ st : EvaluationStatus, st.isUnhealthy ∧
          Notified (healthLog es) x.event.epochID (.status st))) ∧
      s.health.notifiedMask &&& s.health.seenMask = s.health.notifiedMask ∧
      ∀ n e a event st, es[n]? = some e → a ∈ e.result.actions → a.health = some event →
        a.notify = true → event.kind = .status st → st.isUnhealthy ∧ (healthPolicy e.input.rule st).2.1 = .notify ∧
            (healthPolicy e.input.rule st).2.2 * second ≤ waited st (es.take (n + 1)).reverse := by
  have hinv := EngineRun.epochs h hfresh
  refine ⟨hinv.notified_once, ?_, hinv.recovered_iff, hinv.subset,
    fun _ _ _ _ _ hn ha he hno hk => notify_waited h hn ha he hno hk⟩
  intro l x l' y l'' hlog hne
  -- `x` opens or continues an epoch that is closed before `y`, and was not closed before `x`
  have hx := (hinv.ordered l x _ hlog).1
  have hy := (hinv.ordered (l ++ x :: l') y l'' (by rw [hlog]; simp)).2 x (by simp) hne
  rw [closedEpochs_append] at hy
  have hmem := (mem_append.mp hy).resolve_left hx
  refine ⟨hmem, count_eq_one_of_mem hinv.closed_once ?_⟩
  have hsplit : healthLog es = l ++ ((x :: l') ++ y :: l'') := by rw [hlog]; rfl
  rw [hsplit, closedEpochs_append, closedEpochs_append]
  exact mem_append_right _ (mem_append_left _ hmem)

/-- Missing data for 30 seconds, good evidence, and then a failed evaluation. -/
def sampleTrouble : List (Option Uuid × StepInput) :=
  let rule := { sampleRule with noDataPolicy := .notify, noDataDelaySeconds := 30 }
  let bad := fun (at_ : Nat) (status : EvaluationStatus) =>
    let input := sampleInput rule at_ "" 0
    { input with observation := { input.observation with status := status, value := none } }
  [(some sampleUuid, bad 0 .noData), (none, bad 30 .noData), (none, sampleInput rule 60 "a" 10),
    (some ⟨"9b2d1c58-0d67-4a50-8c0e-4c1e7f3a5d11", by decide⟩, bad 90 .error)]

theorem health_epochs_sample : ∃ es s, EngineRun es s ∧ (draws es).Nodup ∧ (healthLog es).length = 4 ∧
      (notified (healthLog es)).length = 2 ∧ (notified (healthLog es)).Nodup ∧
      30 * second ≤ waited .noData (es.take 2).reverse := by
  obtain ⟨es, hes⟩ : ∃ es, evaluateFrom {} sampleTrouble = .ok es := ⟨_, rfl⟩
  obtain ⟨s, hrun⟩ := evaluateFrom_run hes
  cases hes
  obtain ⟨honce, -, -, -, hwait⟩ := health_epochs hrun (by decide)
  exact ⟨_, s, hrun, by decide, rfl, rfl, honce,
    (hwait 1 _ _ _ .noData rfl (mem_singleton_self _) rfl rfl rfl).2.2⟩

end Beat.Alert
