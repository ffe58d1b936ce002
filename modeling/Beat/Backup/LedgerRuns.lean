import Beat.Backup.CalibrationValidation
import Beat.Lib.Run
import Beat.Traffic.Metrics

/-!
# The ledgers a running server builds

Nodes come and go, are renamed and get other reset days, while requests set, revoke and replace
calibrations. A backup of the ledger must be accepted by the restore (`Accepted`). The handlers take
for active the last row of a node in the window of the request, the restore takes the last row of
the node, or of the name once the node was deleted. `Careful` says when the two agree.

* `FleetOk`: the invariant; `FleetOk.step`: a careful step keeps it.
* `careful_ledger_accepted`: after careful steps the ledger is accepted.
* `renamed_ledger_refused`: a node that is renamed between a calibration and its revocation, and then
  deleted, leaves a ledger that no restore accepts.
-/

namespace Beat.Backup

open List Table Instant Option Traffic

/-- The nodes, the ledger and the time of the last request. -/
structure Fleet where
  nodes : List Node := []
  ledger : Ledger := []
  clock : Int

def Fleet.nodeIDs (s : Fleet) : List String := s.nodes.map (·.id)

inductive FleetEvent where
  | addNode (id : Uuid) (name : String) (resetDay : ResetDay)
  | updateNode (id : String) (name : String) (resetDay : ResetDay)
  | deleteNode (id : String)
  | create (nodeID : String) (metrics : Option NodeMetrics) (request : TrafficCalibrationRequest)
      (actor : TrafficCalibrationActor) (id : Uuid) (now : Int)
  | revoke (nodeID requestID eventID : String) (actor : TrafficCalibrationActor) (id : Uuid) (now : Int)
  | replace (nodeID : String) (metrics : Option NodeMetrics) (request : TrafficCalibrationRequest)
      (eventID : String) (actor : TrafficCalibrationActor) (ids : Uuid × Uuid × Uuid) (now : Int)

/-- The row of a deleted node: `ON DELETE SET NULL`. -/
def unlink (id : String) (e : TrafficCalibrationEvent) : TrafficCalibrationEvent :=
  if e.nodeID = some id then { e with nodeID := none } else e

/-- A request about a node that exists. -/
def Fleet.request (s : Fleet) (nodeID : String) (now : Int)
    (handle : Node → Except CalibrationError (Ledger × TrafficCalibrationChange)) : Except CalibrationError Fleet :=
  match s.nodes.find? (·.id = nodeID) with
  | none => .error .missing
  | some node =>
    match handle node with
    | .error e => .error e
    | .ok (ledger, _) => .ok { s with ledger := ledger, clock := now }

/-- The boundary that the metric store reports, if there is a metric store. -/
def boundaryOf (metrics : Option NodeMetrics) (now : Int) : Option Int :=
  metrics.bind fun m => trafficAccountingBoundary m now

def fleetStep (s : Fleet) : FleetEvent → Except CalibrationError Fleet
  | .addNode id name resetDay =>
    if s.nodeIDs.contains id.text then .error .storage
    else .ok { s with nodes := s.nodes ++ [{ id := id.text, name := name, trafficResetDay := resetDay }] }
  | .updateNode id name resetDay =>
    .ok
      { s with
        nodes := update s.nodes (·.id = id) fun n =>
          { n with name := name, trafficResetDay := resetDay } }
  | .deleteNode id =>
    .ok { s with nodes := s.nodes.filter (·.id ≠ id), ledger := s.ledger.map (unlink id) }
  | .create nodeID metrics request actor id now =>
    s.request nodeID now fun node =>
      handleCreate s.nodeIDs s.ledger node (boundaryOf metrics now) request actor id now
  | .revoke nodeID requestID eventID actor id now =>
    s.request nodeID now fun node =>
      handleRevoke s.nodeIDs s.ledger node requestID eventID actor id now
  | .replace nodeID metrics request eventID actor ids now =>
    s.request nodeID now fun node =>
      handleReplace s.nodeIDs s.ledger node (boundaryOf metrics now) request eventID actor ids now

/-- The time of a request. -/
def FleetEvent.time? : FleetEvent → Option Int
  | .create _ _ _ _ _ now | .revoke _ _ _ _ _ now | .replace _ _ _ _ _ _ now => some now
  | .addNode .. | .updateNode .. | .deleteNode .. => none

/-- A step that succeeds, at a time that does not go back. -/
def FleetStep (s : Fleet) (e : FleetEvent) (s' : Fleet) : Prop :=
  (∀ now ∈ e.time?, s.clock ≤ now) ∧ fleetStep s e = .ok s'

/-! ## Careful steps -/

/-- The last row of the node is the event. -/
def IsLastRow (ledger : Ledger) (nodeID eventID : String) : Prop :=
  ∃ e ∈ last ledger fun e => e.nodeID = some nodeID, e.id = eventID

/-- The request was made before, so that it changes nothing. -/
def IsRepeated (ledger : Ledger) (requestID : String) : Prop :=
  ∃ e ∈ ledger, e.actor.requestID = requestID

/-- The row will have no node, and has the name. -/
def named (id name : String) (e : TrafficCalibrationEvent) : Bool :=
  (e.nodeID = none || e.nodeID = some id) && e.nodeName = name

/-- Among the rows of the node and of deleted nodes, every revocation directly follows, in the rows of
its name, the calibration that it takes back. -/
def NamesFollow (id : String) (ledger : Ledger) : Prop :=
  ∀ i < ledger.length, ∀ e ∈ ledger[i]?, e.kind = .revoke → (e.nodeID = none ∨ e.nodeID = some id) →
    ∃ t ∈ last (ledger.take i) (named id e.nodeName),
      t.kind = .set ∧ e.referenceEventID = some t.id

/-- A revocation is about the last row of the node, and a node is deleted only when the names of its
rows tell the same as the node did. -/
def Careful (s : Fleet) : FleetEvent → Prop
  | .revoke nodeID requestID eventID _ _ _ =>
    IsRepeated s.ledger requestID ∨ IsLastRow s.ledger nodeID eventID
  | .replace nodeID _ request eventID _ _ _ =>
    IsRepeated s.ledger request.requestID ∨ IsLastRow s.ledger nodeID eventID
  | .deleteNode id => NamesFollow id s.ledger
  | .addNode .. | .updateNode .. | .create .. => True

instance (ledger : Ledger) (nodeID eventID : String) : Decidable (IsLastRow ledger nodeID eventID) :=
  inferInstanceAs (Decidable (∃ e ∈ last ledger _, _))

instance (ledger : Ledger) (requestID : String) : Decidable (IsRepeated ledger requestID) :=
  inferInstanceAs (Decidable (∃ e ∈ ledger, _))

instance (id : String) (ledger : Ledger) : Decidable (NamesFollow id ledger) :=
  inferInstanceAs (Decidable (∀ i < ledger.length, ∀ e ∈ ledger[i]?, _ → _ → ∃ t ∈ last _ _, _))

instance (s : Fleet) : (e : FleetEvent) → Decidable (Careful s e)
  | .revoke .. => inferInstanceAs (Decidable (_ ∨ _))
  | .replace .. => inferInstanceAs (Decidable (_ ∨ _))
  | .deleteNode id => inferInstanceAs (Decidable (NamesFollow id s.ledger))
  | .addNode .. | .updateNode .. | .create .. => isTrue trivial

/-! ## The invariant -/

structure FleetOk (s : Fleet) : Prop where
  shapes : ∀ n ∈ s.nodes, validUUIDShape n.id = true
  ids : Table.Keyed (·.id) s.ledger
  ordered : s.ledger.Pairwise fun a b => a.createdAt ≤ b.createdAt
  past : ∀ e ∈ s.ledger, e.createdAt ≤ s.clock
  accepted : Accepted s.nodeIDs s.ledger

theorem FleetOk.start (t : Int) : FleetOk { clock := t } :=
  ⟨by simp, Table.Keyed.nil, List.Pairwise.nil, by simp, accepted_nil⟩

variable {id : String} {e : TrafficCalibrationEvent} {rows : Ledger}

/-- A name is not the id of a node. -/
theorem name_ne_shape (h : validUUIDShape id = true) (name : String) : "name:" ++ name ≠ id := by
  rintro rfl
  unfold validUUIDShape at h
  simp only [Bool.and_eq_true, String.toList_append] at h
  have := all_eq_true.mp h.2 ('n', 0) (by simp [zipIdx])
  exact absurd this (by decide)

theorem key_eq_iff (h : validUUIDShape id = true) : calibrationLedgerKey e = id ↔ e.nodeID = some id := by
  unfold calibrationLedgerKey
  cases e.nodeID with
  | none => simpa using name_ne_shape h _
  | some x => simp

theorem Accepted.rowValid {nodes : List String} (h : Accepted nodes rows) (he : e ∈ rows) : RowValid nodes e := by
  obtain ⟨before, after, hr⟩ := append_of_mem he
  exact (accepted_iff.mp h before e after hr).1

/-- The rows that fit stay so when nodes are added. -/
theorem Accepted.mono {nodes nodes' : List String} (h : Accepted nodes rows) (hsub : nodes ⊆ nodes') :
    Accepted nodes' rows := by
  rw [accepted_iff] at h ⊢
  intro before e after hr
  obtain ⟨⟨hv, ha, hn⟩, hfits⟩ := h before e after hr
  exact ⟨⟨hv, ha, fun id hid => hsub (hn id hid)⟩, hfits⟩

section steps

variable {s s' : Fleet}

variable {now : Int} {ledger : Ledger} {id : Uuid} {node : Node} {change : TrafficCalibrationChange}
  {actor : TrafficCalibrationActor} {nodeID : String} {boundary : Option Int}
  {request : TrafficCalibrationRequest}

/-- A row that fits is appended. -/
theorem FleetOk.append (hok : FleetOk s) (hfits : RowFits s.nodeIDs s.ledger e) (hfresh : ∀ x ∈ s.ledger, x.id ≠ e.id)
    (hnow : s.clock ≤ now) (he : e.createdAt = now) : FleetOk { s with ledger := s.ledger ++ [e], clock := now } where
  shapes := hok.shapes
  ids := hok.ids.append hfresh
  ordered := by
    refine pairwise_append.mpr ⟨hok.ordered, pairwise_singleton _ _, fun a ha b hb => ?_⟩
    rw [mem_singleton.mp hb, he]
    exact le_trans (hok.past a ha) hnow
  past := by
    intro x hx
    rcases Table.mem_snoc.mp hx with hx | hx
    · exact le_trans (hok.past x hx) hnow
    · rw [hx, he]
  accepted := accepted_snoc.mpr ⟨hok.accepted, hfits⟩

/-- The time goes on. -/
theorem FleetOk.tick (hok : FleetOk s) (hnow : s.clock ≤ now) : FleetOk { s with clock := now } :=
  { hok with past := fun e he => le_trans (hok.past e he) hnow }

theorem boundaryOf_dvd {metrics : Option NodeMetrics} : ∀ b ∈ boundaryOf metrics now, second ∣ b := by
  intro b hb
  obtain ⟨m, -, hm⟩ := bind_eq_some_iff.mp hb
  exact trafficAccountingBoundary_dvd hm

/-- A `set` row of a handler fits. -/
theorem setEvent_fits {nodeIDs : List String} {write : TrafficCalibrationSetWrite}
    (hins : Inserted nodeIDs ledger (setEvent id write)) (heff : second ∣ write.effectiveAt) :
    RowFits nodeIDs rows (setEvent id write) := by
  refine ⟨⟨hins.valid, ?_, hins.node⟩, (nomatch ·)⟩
  rintro at_ ⟨⟩
  exact heff

/-- A `revoke` of the last row of the node fits. -/
theorem revoke_fits (hok : FleetOk s) (hnode : nodeID ∈ s.nodeIDs) (hins : Inserted s.nodeIDs s.ledger e)
    (hid : e.nodeID = some nodeID) (heff : e.effectiveAt = none) (hcreated : s.clock ≤ e.createdAt)
    {active : TrafficCalibrationEvent} (ha : active ∈ s.ledger) (han : active.nodeID = some nodeID)
    (hak : active.kind = .set) (har : some active.id = e.referenceEventID) {requestID eventID : String}
    (hid' : e.referenceEventID = some eventID) (hnew : ¬IsRepeated s.ledger requestID)
    (hcareful : IsRepeated s.ledger requestID ∨ IsLastRow s.ledger nodeID eventID) : RowFits s.nodeIDs s.ledger e := by
  obtain ⟨n, hn, rfl⟩ := mem_map.mp hnode
  have hshape := hok.shapes n hn
  refine ⟨⟨hins.valid, by rw [heff]; nofun, hins.node⟩, fun _ => ?_⟩
  -- the last row of the node is the active one
  obtain ⟨x, hx, rfl⟩ := hcareful.resolve_left hnew
  have hxa : x = active := hok.ids.eq_of_key (mem_of_last hx) ha (Option.some.inj (har.trans hid')).symm
  rw [hxa] at hx
  have hkey : calibrationLedgerKey e = n.id := (key_eq_iff hshape).mpr hid
  have hactive : activeOf s.ledger n.id = some active.id := by
    have : lastOfKey s.ledger n.id = some active := by
      rw [← hx]
      exact last_congr fun r _ => by simp only [key_eq_iff hshape]
    rw [activeOf, this]
    simp [hak]
  obtain ⟨target, htarget⟩ : ∃ target, lastSet s.ledger active.id = some target :=
    last_isSome ha (by simp [hak])
  have hta : target = active := by
    have := of_last htarget
    simp only [Bool.and_eq_true, decide_eq_true_eq] at this
    exact hok.ids.eq_of_key (mem_of_last htarget) ha this.2
  rw [hta] at htarget
  exact ⟨active.id, har.symm, hkey ▸ hactive, active, htarget,
    le_trans (hok.past active ha) hcreated, han.trans hid.symm⟩

/-- A request succeeds for a node that exists. -/
theorem request_spec {handle : Node → Except CalibrationError (Ledger × TrafficCalibrationChange)}
    (h : s.request nodeID now handle = .ok s') :
    ∃ node ∈ s.nodes, node.id = nodeID ∧ ∃ ledger change, handle node = .ok (ledger, change) ∧
      s' = { s with ledger := ledger, clock := now } := by
  unfold Fleet.request at h
  split at h
  · cases h
  rename_i node hnode
  split at h
  · cases h
  rename_i ledger change hh
  cases h
  exact ⟨node, mem_of_find?_eq_some hnode, by simpa using find?_some hnode, ledger,
    change, hh, rfl⟩

theorem FleetOk.create (hok : FleetOk s) (hb : ∀ b ∈ boundary, second ∣ b) (hnow : s.clock ≤ now)
    (h : handleCreate s.nodeIDs s.ledger node boundary request actor id now = .ok (ledger, change)) :
    FleetOk { s with ledger := ledger, clock := now } := by
  unfold handleCreate at h
  split at h
  · cases h
  rename_i effective heff
  unfold appendSet at h
  split at h
  · cases h
  rename_i event hset
  obtain ⟨rfl, -⟩ := trafficCalibrationSetEvent_spec hset
  rcases append_spec h with ⟨-, rfl⟩ | ⟨-, rfl, hins⟩
  · exact hok.tick hnow
  · exact hok.append (setEvent_fits hins (selectEffective_dvd hb heff)) hins.fresh hnow rfl

theorem FleetOk.revoke (hok : FleetOk s) (hnode : node.id ∈ s.nodeIDs) {requestID eventID : String}
    (hnow : s.clock ≤ now) (hcareful : IsRepeated s.ledger requestID ∨ IsLastRow s.ledger node.id eventID)
    (h : handleRevoke s.nodeIDs s.ledger node requestID eventID actor id now = .ok (ledger, change)) :
    FleetOk { s with ledger := ledger, clock := now } := by
  unfold handleRevoke appendRevoke at h
  split_ifs at h
  rcases appendRevokeAndSet_spec h with ⟨-, rfl⟩ | ⟨⟨active, ha, han, hak, har⟩, hins, hl⟩
  · exact hok.tick hnow
  · simp only at hl
    subst hl
    exact hok.append (revoke_fits hok hnode hins rfl rfl hnow ha han hak har rfl
      (fun ⟨e, he, hreq⟩ => hins.request e he hreq) hcareful) hins.fresh hnow rfl

theorem FleetOk.replace (hok : FleetOk s) (hnode : node.id ∈ s.nodeIDs) (hb : ∀ b ∈ boundary, second ∣ b)
    {eventID : String} {ids : Uuid × Uuid × Uuid} (hnow : s.clock ≤ now)
    (hcareful : IsRepeated s.ledger request.requestID ∨ IsLastRow s.ledger node.id eventID)
    (h : handleReplace s.nodeIDs s.ledger node boundary request eventID actor ids now =
      .ok (ledger, change)) : FleetOk { s with ledger := ledger, clock := now } := by
  unfold handleReplace at h
  split at h
  · cases h
  rename_i effective heff
  unfold appendReplace at h
  split at h
  · cases h
  rename_i event hset
  obtain ⟨rfl, -⟩ := trafficCalibrationSetEvent_spec hset
  rcases appendRevokeAndSet_spec h with ⟨-, rfl⟩ | ⟨⟨active, ha, han, hak, har⟩, hins, hl, hins'⟩
  · exact hok.tick hnow
  · subst hl
    have hrev := hok.append (revoke_fits hok hnode hins rfl rfl hnow ha han hak har rfl
      (fun ⟨e, he, hreq⟩ => hins'.request e (mem_append_left _ he) hreq) hcareful) hins.fresh hnow rfl
    exact hrev.append (setEvent_fits hins' (selectEffective_dvd hb heff)) hins'.fresh
      (le_refl now) rfl

/-! ## Deleting a node -/

section unlinking

variable {id : String} {e : TrafficCalibrationEvent} {n : String}

@[simp] theorem unlink_id : (unlink id e).id = e.id := by unfold unlink; split_ifs <;> rfl

@[simp] theorem unlink_kind : (unlink id e).kind = e.kind := by unfold unlink; split_ifs <;> rfl

@[simp] theorem unlink_nodeName : (unlink id e).nodeName = e.nodeName := by
  unfold unlink; split_ifs <;> rfl

@[simp] theorem unlink_createdAt : (unlink id e).createdAt = e.createdAt := by
  unfold unlink; split_ifs <;> rfl

@[simp] theorem unlink_effectiveAt : (unlink id e).effectiveAt = e.effectiveAt := by
  unfold unlink; split_ifs <;> rfl

@[simp] theorem unlink_referenceEventID : (unlink id e).referenceEventID = e.referenceEventID := by
  unfold unlink; split_ifs <;> rfl

@[simp] theorem unlink_validate : (unlink id e).validate = e.validate := by
  unfold unlink; split_ifs <;> rfl

theorem unlink_nodeID : (unlink id e).nodeID = if e.nodeID = some id then none else e.nodeID := by
  unfold unlink; split_ifs <;> rfl

/-- The row of another node stays. -/
theorem unlink_nodeID_eq_some : (unlink id e).nodeID = some n ↔ e.nodeID = some n ∧ n ≠ id := by
  rw [unlink_nodeID]
  split_ifs with h
  · simp [h, eq_comm]
  · refine ⟨fun hn => ⟨hn, ?_⟩, And.left⟩
    rintro rfl
    exact h hn

theorem unlink_nodeID_eq_none : (unlink id e).nodeID = none ↔ e.nodeID = none ∨ e.nodeID = some id := by
  rw [unlink_nodeID]
  split_ifs with h <;> simp [h]

/-- After the deletion the rows of a name are those of deleted nodes with the name. -/
theorem key_unlink_name (hshape : ∀ n ∈ e.nodeID, validUUIDShape n = true) (name : String) :
    calibrationLedgerKey (unlink id e) = "name:" ++ name ↔ named id name e = true := by
  unfold calibrationLedgerKey named
  cases hn : (unlink id e).nodeID with
  | none =>
    have := unlink_nodeID_eq_none.mp hn
    simp only [unlink_nodeName, String.append_right_inj, Bool.and_eq_true, Bool.or_eq_true, decide_eq_true_eq]
    exact ⟨fun h => ⟨this, h⟩, And.right⟩
  | some n =>
    obtain ⟨hen, hne⟩ := unlink_nodeID_eq_some.mp hn
    simp only [hen, Bool.and_eq_true, Bool.or_eq_true, decide_eq_true_eq, some.injEq, reduceCtorEq, false_or]
    refine ⟨fun h => absurd h.symm (name_ne_shape (hshape n hen) name), fun h => absurd h.1 hne⟩

variable {rows : Ledger}

theorem lastSet_unlink (reference : String) :
    lastSet (rows.map (unlink id)) reference = (lastSet rows reference).map (unlink id) := by
  unfold lastSet
  rw [last_map]
  simp only [unlink_kind, unlink_id]

/-- A row of another node fits as before. -/
theorem revokeFits_unlink_other (hn : validUUIDShape n = true) (hne : n ≠ id) (he : e.nodeID = some n)
    (h : RevokeFits rows e) : RevokeFits (rows.map (unlink id)) (unlink id e) := by
  obtain ⟨reference, href, hactive, target, htarget, hcreated, hnode⟩ := h
  have hkey : calibrationLedgerKey (unlink id e) = n :=
    (key_eq_iff hn).mpr (unlink_nodeID_eq_some.mpr ⟨he, hne⟩)
  rw [(key_eq_iff hn).mpr he] at hactive
  refine ⟨reference, by simpa using href, ?_, unlink id target, ?_, by simpa using hcreated, ?_⟩
  · -- the rows of the node are the same
    have hrows : lastOfKey (rows.map (unlink id)) n = (lastOfKey rows n).map (unlink id) := by
      unfold lastOfKey
      rw [last_map]
      congr 1
      refine last_congr fun r _ => ?_
      simp only [key_eq_iff hn, unlink_nodeID_eq_some, hne, ne_eq, not_false_eq_true, and_true]
    rw [hkey, ← hactive, activeOf, activeOf, hrows]
    cases lastOfKey rows n <;> simp
  · rw [lastSet_unlink, htarget]
    rfl
  · rw [unlink_nodeID_eq_some.mpr ⟨hnode.trans he, hne⟩, unlink_nodeID_eq_some.mpr ⟨he, hne⟩]

/-- A row without a node fits when the rows of its name follow. -/
theorem revokeFits_unlink_name (hshape : ∀ r ∈ rows, ∀ n ∈ r.nodeID, validUUIDShape n = true)
    (he : e.nodeID = none ∨ e.nodeID = some id) {t : TrafficCalibrationEvent}
    (ht : last rows (named id e.nodeName) = some t) (hk : t.kind = .set)
    (href : e.referenceEventID = some t.id) (hids : Table.Keyed (·.id) rows)
    (hcreated : t.createdAt ≤ e.createdAt) : RevokeFits (rows.map (unlink id)) (unlink id e) := by
  have hnone := unlink_nodeID_eq_none.mpr he
  have hmem := mem_of_last ht
  refine ⟨t.id, by simpa using href, ?_, unlink id t, ?_, by simpa using hcreated, ?_⟩
  · have hkey : calibrationLedgerKey (unlink id e) = "name:" ++ e.nodeName := by
      unfold calibrationLedgerKey
      rw [hnone]
      simp
    have hlast : lastOfKey (rows.map (unlink id)) ("name:" ++ e.nodeName) = some (unlink id t) := by
      unfold lastOfKey
      rw [last_map, ← map_some, ← ht]
      congr 1
      refine last_congr fun r hr => ?_
      rw [Bool.eq_iff_iff, decide_eq_true_eq, key_unlink_name (hshape r hr)]
    rw [hkey, activeOf, hlast]
    simp [hk]
  · obtain ⟨x, hx⟩ : ∃ x, lastSet rows t.id = some x := last_isSome hmem (by simp [hk])
    have hxt : x = t := by
      have := of_last hx
      simp only [Bool.and_eq_true, decide_eq_true_eq] at this
      exact hids.eq_of_key (mem_of_last hx) hmem this.2
    rw [lastSet_unlink, hx, hxt]
    rfl
  · have htn := of_last ht
    simp only [named, Bool.and_eq_true, Bool.or_eq_true, decide_eq_true_eq] at htn
    rw [unlink_nodeID_eq_none.mpr htn.1, hnone]

end unlinking

theorem FleetOk.delete (hok : FleetOk s) {id : String} (hcareful : NamesFollow id s.ledger) :
    FleetOk { s with nodes := s.nodes.filter (·.id ≠ id), ledger := s.ledger.map (unlink id) } where
  shapes := fun n hn => hok.shapes n (mem_of_mem_filter hn)
  ids := hok.ids.congr (by simp)
  ordered := pairwise_map.mpr (hok.ordered.imp fun h => by simpa using h)
  past := by
    intro e he
    obtain ⟨x, hx, rfl⟩ := mem_map.mp he
    simpa using hok.past x hx
  accepted := by
    have hshape : ∀ r ∈ s.ledger, ∀ n ∈ r.nodeID, validUUIDShape n = true := by
      intro r hr n hn
      obtain ⟨x, hx, rfl⟩ := mem_map.mp ((Accepted.rowValid hok.accepted hr).2.2 n hn)
      exact hok.shapes x hx
    rw [accepted_iff]
    intro before' e' after' hsplit
    -- the row at this place before the deletion
    obtain ⟨before, rest, hledger, rfl, hrest⟩ := map_eq_append_iff.mp hsplit
    obtain ⟨e, after, rfl, rfl, -⟩ := map_eq_cons_iff.mp hrest
    obtain ⟨⟨hv, heff, hnode⟩, hfits⟩ := accepted_iff.mp hok.accepted before e after hledger
    have hmem : ∀ r ∈ before, r ∈ s.ledger := fun r hr => hledger ▸ mem_append_left _ hr
    have hmeme : e ∈ s.ledger := by rw [hledger]; simp
    refine ⟨⟨by simpa using hv, by simpa using heff, fun n hn => ?_⟩, fun hk => ?_⟩
    · obtain ⟨hn, hne⟩ := unlink_nodeID_eq_some.mp hn
      obtain ⟨x, hx, rfl⟩ := mem_map.mp (hnode n hn)
      exact mem_map.mpr ⟨x, mem_filter.mpr ⟨hx, by simpa using hne⟩, rfl⟩
    · rw [unlink_kind] at hk
      by_cases he : e.nodeID = none ∨ e.nodeID = some id
      · have hi : s.ledger[before.length]? = some e := by rw [hledger]; simp
        have htake : s.ledger.take before.length = before := by rw [hledger]; simp
        have hlen : before.length < s.ledger.length := by rw [hledger]; simp
        obtain ⟨t, ht, htk, href⟩ := hcareful before.length hlen e hi hk he
        rw [htake] at ht
        have hord := hok.ordered
        rw [hledger] at hord
        have hids : Table.Keyed (·.id) before := by
          have := hok.ids
          rw [hledger, Table.Keyed, map_append] at this
          exact this.of_append_left
        exact revokeFits_unlink_name (fun r hr => hshape r (hmem r hr)) he ht htk href hids
          ((pairwise_append.mp hord).2.2 t (mem_of_last ht) e mem_cons_self)
      · rw [not_or] at he
        obtain ⟨n, hn⟩ := ne_none_iff_exists'.mp he.1
        exact revokeFits_unlink_other (hshape e hmeme n hn) (fun h => he.2 (h ▸ hn)) hn (hfits hk)

theorem FleetOk.step (hok : FleetOk s) {e : FleetEvent} (hst : FleetStep s e s')
    (hcareful : Careful s e) : FleetOk s' := by
  obtain ⟨htime, h⟩ := hst
  cases e with
  | addNode id name resetDay =>
    simp only [fleetStep] at h
    split_ifs at h
    cases h
    refine { hok with shapes := fun n hn => ?_, accepted := hok.accepted.mono ?_ }
    · rcases Table.mem_snoc.mp hn with hn | hn
      · exact hok.shapes n hn
      · rw [hn]
        exact id.shape
    · simp [Fleet.nodeIDs]
  | updateNode id name resetDay =>
    cases h
    refine { hok with shapes := fun n hn => ?_, accepted := ?_ }
    · obtain ⟨x, hx, rfl⟩ := mem_update.mp hn
      split_ifs <;> exact hok.shapes x hx
    · have hids : (update s.nodes (·.id = id) fun n =>
          { n with name := name, trafficResetDay := resetDay }).map (·.id) = s.nodes.map (·.id) :=
        map_update fun _ _ _ => rfl
      show Accepted (map _ _) s.ledger
      rw [hids]
      exact hok.accepted
  | deleteNode id =>
    cases h
    exact hok.delete hcareful
  | create nodeID metrics request actor id now =>
    obtain ⟨node, -, -, ledger, change, hh, rfl⟩ := request_spec h
    exact hok.create boundaryOf_dvd (htime now rfl) hh
  | revoke nodeID requestID eventID actor id now =>
    obtain ⟨node, hn, rfl, ledger, change, hh, rfl⟩ := request_spec h
    exact hok.revoke (mem_map_of_mem hn) (htime now rfl) hcareful hh
  | replace nodeID metrics request eventID actor ids now =>
    obtain ⟨node, hn, rfl, ledger, change, hh, rfl⟩ := request_spec h
    exact hok.replace (mem_map_of_mem hn) boundaryOf_dvd (htime now rfl) hcareful hh

end steps

/-- The steps that succeed and are careful. -/
def CarefulStep (s : Fleet) (e : FleetEvent) (s' : Fleet) : Prop := FleetStep s e s' ∧ Careful s e

/-- After careful steps a restore accepts the ledger. -/
theorem careful_ledger_accepted {t : Int} {es : List FleetEvent} {s : Fleet}
    (h : Lts.Run CarefulStep { clock := t } es s) :
    validateCalibrationLedger s.ledger s.nodeIDs = .ok () :=
  (Lts.Run.inv h (FleetOk.start t) fun _ _ _ hok hst => hok.step hst.1 hst.2).accepted

/-! ## A node that is renamed -/

def sampleNodeID : Uuid := ⟨"9b2d2f3a-0c1e-4a8e-b1b9-0f4c7d5e6a01", by decide⟩

def sampleRevokeID : Uuid := ⟨"1c8e1f0b-4a7d-4c55-9d3e-2b6f8a9c0d12", by decide⟩

/-- Add a node, calibrate it, perhaps rename it, revoke the calibration and delete the node. -/
def sampleEvents (name : String) : List FleetEvent :=
  [.addNode sampleNodeID "edge" default,
    .create sampleNodeID.text none sampleRequest sampleActor sampleEventID sampleMidnight,
    .updateNode sampleNodeID.text name default,
    .revoke sampleNodeID.text sampleRevokeID.text sampleEventID.text sampleActor sampleRevokeID
      (sampleMidnight + second), .deleteNode sampleNodeID.text]

/-- The step as a function. -/
def fleetNext (s : Fleet) (e : FleetEvent) : Option Fleet :=
  if e.time?.all fun now => s.clock ≤ now then (fleetStep s e).toOption else none

theorem fleetNext_step {s s' : Fleet} {e : FleetEvent} (h : fleetNext s e = some s') : FleetStep s e s' := by
  unfold fleetNext at h
  split_ifs at h with htime
  refine ⟨fun now hnow => by rw [hnow] at htime; simpa using htime, ?_⟩
  cases hf : fleetStep s e with
  | error err => rw [hf] at h; exact nomatch h
  | ok s₁ => rw [hf] at h; cases h; rfl

/-- The revocation is under the new name, where the restore finds no calibration to take back. -/
theorem renamed_ledger_refused : ∃ s, Lts.Run FleetStep { clock := sampleMidnight } (sampleEvents "core") s ∧
      validateCalibrationLedger s.ledger s.nodeIDs = .error (.notActive sampleRevokeID.text) := by
  exact Lts.Run.computed fleetNext (fun _ _ _ => fleetNext_step) (by decide +kernel)

/-- Under one name the ledger is accepted. -/
theorem careful_ledger_sample : ∃ s, Lts.Run CarefulStep { clock := sampleMidnight }
    (sampleEvents "edge") s ∧ s.ledger.length = 2 ∧
      validateCalibrationLedger s.ledger s.nodeIDs = .ok () := by
  obtain ⟨s, hrun, hlen⟩ : ∃ s, Lts.Run CarefulStep { clock := sampleMidnight } (sampleEvents "edge") s ∧
      s.ledger.length = 2 := by
    refine Lts.Run.computed (fun s e => if Careful s e then fleetNext s e else none) (fun s e s' hn => ?_)
      (by decide +kernel)
    split_ifs at hn with hc
    exact ⟨fleetNext_step hn, hc⟩
  exact ⟨s, hrun, hlen, careful_ledger_accepted hrun⟩

end Beat.Backup
