import Beat.Lib.Run
import Beat.Lib.Table

/-!
# Work items that are held by lease

A ledger is a table of items and a table of their tries. An item waits, is held under a token, or is
done with a result; a try is open while the item is held for it. Items stand in lanes, and a lane
serves one item at a time. A `Write` is one change of the ledger: a new item, a hold, a settlement (some
items stop being active or wait again, and their tries are closed), or the removal of an item that is
done.

* `Ledger.Ok`: the tries of an item are numbered from one without a gap, the open one is the last try
  of an item that is held, no item is tried more than `limit` times, and a lane holds one item.
* `Ledger.Ok.write`, `Ledger.Ok.run`: every write keeps it, and so does a run of writes.
* `forall_items`: a property of single items along a run of writes, with one premise for each write.
  `done_stays` and `held_stays` are its cases: what is done stays done, and what is known of the token
  of an item stays true while no new token breaks it.
-/

namespace Leases

open List

variable {ι κ τ ω : Type}

/-- Where an item stands. -/
inductive Stage (τ ω : Type) where
  | waiting
  | held (token : τ)
  | done (result : ω)
  deriving DecidableEq

/-- The stage is `held`. -/
def Stage.IsHeld (s : Stage τ ω) : Prop := ∃ token, s = .held token

/-- The stage is `done`. -/
def Stage.IsDone (s : Stage τ ω) : Prop := ∃ result, s = .done result

structure Item (ι κ τ ω : Type) where
  id : ι
  lane : κ
  stage : Stage τ ω
  tries : Nat

/-- One try of an item. -/
structure Entry (ι : Type) where
  item : ι
  number : Nat
  isOpen : Bool

structure Ledger (ι κ τ ω : Type) where
  items : List (Item ι κ τ ω)
  entries : List (Entry ι)

theorem Stage.not_isHeld_waiting : ¬ (Stage.waiting : Stage τ ω).IsHeld := fun ⟨_, h⟩ => nomatch h

variable [DecidableEq ι]

namespace Ledger

variable (l : Ledger ι κ τ ω)

/-- The tries of an item, in the order of the table. -/
def entriesOf (id : ι) : List (Entry ι) := l.entries.filter (·.item = id)

/-! ## Writes -/

def add (x : Item ι κ τ ω) : Ledger ι κ τ ω := { l with items := l.items ++ [x] }

/-- The item is held under a token, for a new try. -/
def hold (x : Item ι κ τ ω) (token : τ) : Ledger ι κ τ ω where
  items := Table.update l.items (·.id = x.id) fun y =>
    { y with stage := .held token, tries := y.tries + 1 }
  entries := l.entries ++ [⟨x.id, x.tries + 1, true⟩]

/-- The items for which `next` has a stage go there, and their tries are closed. -/
def settle (next : ι → Option (Stage τ ω)) : Ledger ι κ τ ω where
  items := l.items.map fun x => { x with stage := (next x.id).getD x.stage }
  entries := l.entries.map fun e => { e with isOpen := e.isOpen && (next e.item).isNone }

/-- The item and its tries are gone. -/
def remove (id : ι) : Ledger ι κ τ ω where
  items := l.items.filter (·.id ≠ id)
  entries := l.entries.filter (·.item ≠ id)

end Ledger

/-- What a write brings into the ledger. -/
inductive Label (ι τ : Type) where
  | add (id : ι)
  | hold (id : ι) (token : τ)
  | settle
  | remove (id : ι)

/-- One change of the ledger, under its conditions. -/
inductive Write (limit : Nat) : Ledger ι κ τ ω → Label ι τ → Ledger ι κ τ ω → Prop
  | add {l x} (hnew : ∀ y ∈ l.items, y.id ≠ x.id)
      (hwaiting : x.stage = .waiting) (hzero : x.tries = 0) : Write limit l (.add x.id) (l.add x)
  | hold {l x token} (hx : x ∈ l.items) (hwaiting : x.stage = .waiting) (hlt : x.tries < limit)
      (hfree : ∀ y ∈ l.items, y.lane = x.lane → ¬ y.stage.IsHeld) :
      Write limit l (.hold x.id token) (l.hold x token)
  | settle {l next} (hnext : ∀ x ∈ l.items, ∀ s, next x.id = some s →
        ¬ x.stage.IsDone ∧ ¬ s.IsHeld ∧ (s = .waiting → x.tries < limit)) :
      Write limit l .settle (l.settle next)
  | remove {l id} (hdone : ∀ x ∈ l.items, x.id = id → x.stage.IsDone) :
      Write limit l (.remove id) (l.remove id)

/-! ## The invariant -/

/-- What holds of every ledger that starts empty. -/
structure Ledger.Ok (limit : Nat) (l : Ledger ι κ τ ω) : Prop where
  keyed : Table.Keyed Item.id l.items
  known : ∀ e ∈ l.entries, ∃ x ∈ l.items, x.id = e.item
  numbered : ∀ x ∈ l.items, (l.entriesOf x.id).map Entry.number = range' 1 x.tries
  open_iff : ∀ x ∈ l.items, ∀ e ∈ l.entriesOf x.id,
    (e.isOpen = true ↔ x.stage.IsHeld ∧ e.number = x.tries)
  held_pos : ∀ x ∈ l.items, x.stage.IsHeld → 0 < x.tries
  bounded : ∀ x ∈ l.items, x.tries ≤ limit
  waiting_lt : ∀ x ∈ l.items, x.stage = .waiting → x.tries < limit
  lanes : ∀ x ∈ l.items, ∀ y ∈ l.items, x.stage.IsHeld → y.stage.IsHeld → x.lane = y.lane → x = y

namespace Ledger

variable {limit : Nat} {l l' : Ledger ι κ τ ω}

variable {id : ι} {e : Entry ι} {x : Item ι κ τ ω} {token : τ} {next : ι → Option (Stage τ ω)}

theorem mem_entriesOf : e ∈ l.entriesOf id ↔ e ∈ l.entries ∧ e.item = id := by
  unfold entriesOf
  rw [mem_filter, decide_eq_true_eq]

theorem Ok.empty : (⟨[], []⟩ : Ledger ι κ τ ω).Ok limit where
  keyed := Table.Keyed.nil
  known := fun _ h => nomatch h
  numbered := fun _ h => nomatch h
  open_iff := fun _ h => nomatch h
  held_pos := fun _ h => nomatch h
  bounded := fun _ h => nomatch h
  waiting_lt := fun _ h => nomatch h
  lanes := fun _ h => nomatch h

/-- A try that is open belongs to an item that is held, and is its last one. -/
theorem Ok.of_open (h : l.Ok limit) (he : e ∈ l.entries) (ho : e.isOpen = true) :
    ∃ x ∈ l.items, x.id = e.item ∧ x.stage.IsHeld ∧ e.number = x.tries := by
  obtain ⟨x, hx, hid⟩ := h.known e he
  have hmem : e ∈ l.entriesOf x.id := mem_entriesOf.mpr ⟨he, hid.symm⟩
  exact ⟨x, hx, hid, (h.open_iff x hx e hmem).mp ho⟩

/-- The number of a try is at most the number of tries. -/
theorem Ok.number_le (h : l.Ok limit) (hx : x ∈ l.items) (he : e ∈ l.entriesOf x.id) : e.number ≤ x.tries := by
  have hmem := mem_map_of_mem (f := Entry.number) he
  rw [h.numbered x hx, mem_range'_1] at hmem
  omega

theorem Ok.add (h : l.Ok limit) (hnew : ∀ y ∈ l.items, y.id ≠ x.id) (hwaiting : x.stage = .waiting)
    (hzero : x.tries = 0) (hlimit : 0 < limit) : (l.add x).Ok limit := by
  have hmem : ∀ {y}, y ∈ (l.add x).items → y ∈ l.items ∨ y = x := by
    intro y hy
    exact (mem_append.mp hy).imp id mem_singleton.mp
  have hnil : l.entriesOf x.id = [] := by
    refine filter_eq_nil_iff.mpr fun e he heq => ?_
    obtain ⟨y, hy, hid⟩ := h.known e he
    exact hnew y hy (hid.trans (of_decide_eq_true heq))
  refine ⟨h.keyed.append hnew, fun e he => ?_, fun y hy => ?_, fun y hy e he => ?_,
    fun y hy hheld => ?_, fun y hy => ?_, fun y hy hw => ?_, fun y hy z hz h1 h2 hlane => ?_⟩
  · obtain ⟨y, hy, hid⟩ := h.known e he
    exact ⟨y, mem_append_left _ hy, hid⟩
  · obtain hy | rfl := hmem hy
    · exact h.numbered y hy
    · change (l.entriesOf y.id).map _ = _
      rw [hnil, hzero]
      rfl
  · obtain hy | rfl := hmem hy
    · exact h.open_iff y hy e he
    · change e ∈ l.entriesOf y.id at he
      rw [hnil] at he
      cases he
  · obtain hy | rfl := hmem hy
    · exact h.held_pos y hy hheld
    · rw [hwaiting] at hheld
      exact absurd hheld Stage.not_isHeld_waiting
  · obtain hy | rfl := hmem hy
    · exact h.bounded y hy
    · omega
  · obtain hy | rfl := hmem hy
    · exact h.waiting_lt y hy hw
    · omega
  · obtain hy | rfl := hmem hy
    · obtain hz | rfl := hmem hz
      · exact h.lanes y hy z hz h1 h2 hlane
      · rw [hwaiting] at h2
        exact absurd h2 Stage.not_isHeld_waiting
    · rw [hwaiting] at h1
      exact absurd h1 Stage.not_isHeld_waiting

/-- An item of the ledger after a hold: the one that is held now, or another one as it was. -/
theorem Ok.mem_hold (h : l.Ok limit) {y : Item ι κ τ ω} (hx : x ∈ l.items) (hy : y ∈ (l.hold x token).items) :
    y = { x with stage := .held token, tries := x.tries + 1 } ∨ (y ∈ l.items ∧ y.id ≠ x.id) := by
  obtain ⟨z, hz, rfl⟩ := Table.mem_update.mp hy
  by_cases hid : z.id = x.id
  · rw [h.keyed.eq_of_key hz hx hid, if_pos (by simp)]
    exact .inl rfl
  · rw [if_neg (by simpa using hid)]
    exact .inr ⟨hz, hid⟩

theorem entriesOf_hold_self : (l.hold x token).entriesOf x.id = l.entriesOf x.id ++ [⟨x.id, x.tries + 1, true⟩] := by
  unfold entriesOf hold
  rw [filter_append, filter_cons_of_pos (by simp), filter_nil]

theorem entriesOf_hold_ne (hne : id ≠ x.id) : (l.hold x token).entriesOf id = l.entriesOf id := by
  unfold entriesOf hold
  rw [filter_append, filter_cons_of_neg (by simpa using hne.symm), filter_nil, append_nil]

theorem Ok.hold (h : l.Ok limit) (hx : x ∈ l.items) (hwaiting : x.stage = .waiting) (hlt : x.tries < limit)
    (hfree : ∀ y ∈ l.items, y.lane = x.lane → ¬ y.stage.IsHeld) : (l.hold x token).Ok limit := by
  refine ⟨h.keyed.update fun _ _ _ => rfl, fun e he => ?_, fun y hy => ?_, fun y hy e he => ?_,
    fun y hy hheld => ?_, fun y hy => ?_, fun y hy hw => ?_, fun y hy z hz h1 h2 hlane => ?_⟩
  · have hid : ∃ y ∈ l.items, y.id = e.item := by
      obtain he | he := Table.mem_snoc.mp he
      · exact h.known e he
      · rw [he]
        exact ⟨x, hx, rfl⟩
    obtain ⟨y, hy, hid⟩ := hid
    refine ⟨_, Table.mem_update.mpr ⟨y, hy, rfl⟩, ?_⟩
    split
    · exact hid
    · exact hid
  · obtain rfl | ⟨hy, hne⟩ := h.mem_hold hx hy
    · -- the numbers so far, and one more
      rw [entriesOf_hold_self, map_append, h.numbered x hx, range'_concat]
      simp [Nat.add_comm]
    · rw [entriesOf_hold_ne hne]
      exact h.numbered y hy
  · obtain rfl | ⟨hy, hne⟩ := h.mem_hold hx hy
    · rw [entriesOf_hold_self] at he
      obtain he | he := Table.mem_snoc.mp he
      · -- an earlier try: it is closed, and its number is too small
        have hle := h.number_le hx he
        have hclosed : ¬ e.isOpen = true := fun ho => by
          have := ((h.open_iff x hx e he).mp ho).1
          rw [hwaiting] at this
          exact Stage.not_isHeld_waiting this
        refine ⟨fun ho => absurd ho hclosed, fun ⟨_, hn⟩ => ?_⟩
        change e.number = x.tries + 1 at hn
        omega
      · rw [he]
        exact ⟨fun _ => ⟨⟨token, rfl⟩, rfl⟩, fun _ => rfl⟩
    · rw [entriesOf_hold_ne hne] at he
      exact h.open_iff y hy e he
  · obtain rfl | ⟨hy, -⟩ := h.mem_hold hx hy
    · exact Nat.succ_pos _
    · exact h.held_pos y hy hheld
  · obtain rfl | ⟨hy, -⟩ := h.mem_hold hx hy
    · exact hlt
    · exact h.bounded y hy
  · obtain rfl | ⟨hy, -⟩ := h.mem_hold hx hy
    · cases hw
    · exact h.waiting_lt y hy hw
  · obtain rfl | ⟨hy, -⟩ := h.mem_hold hx hy
    · obtain rfl | ⟨hz, -⟩ := h.mem_hold hx hz
      · rfl
      · exact absurd h2 (hfree z hz hlane.symm)
    · obtain rfl | ⟨hz, -⟩ := h.mem_hold hx hz
      · exact absurd h1 (hfree y hy hlane)
      · exact h.lanes y hy z hz h1 h2 hlane

theorem entriesOf_settle : (l.settle next).entriesOf id =
      (l.entriesOf id).map fun e => { e with isOpen := e.isOpen && (next e.item).isNone } := by
  unfold entriesOf settle
  rw [filter_map]
  rfl

theorem Ok.settle (h : l.Ok limit) (hnext : ∀ x ∈ l.items, ∀ s, next x.id = some s →
      ¬ x.stage.IsDone ∧ ¬ s.IsHeld ∧ (s = .waiting → x.tries < limit)) : (l.settle next).Ok limit := by
  -- an item that is held afterwards was not settled
  have hheld : ∀ x ∈ l.items, ((next x.id).getD x.stage).IsHeld → next x.id = none := by
    intro x hx hh
    cases hn : next x.id with
    | none => rfl
    | some s =>
      rw [hn] at hh
      exact absurd hh (hnext x hx s hn).2.1
  have hheld' : ∀ x ∈ l.items, ((next x.id).getD x.stage).IsHeld → x.stage.IsHeld := by
    intro x hx hh
    rwa [hheld x hx hh] at hh
  refine ⟨?_, fun e he => ?_, fun y hy => ?_, fun y hy e he => ?_, fun y hy hh => ?_, fun y hy => ?_,
    fun y hy hw => ?_, fun y hy z hz h1 h2 hlane => ?_⟩
  · have := h.keyed
    unfold Table.Keyed Ledger.settle at *
    rwa [map_map]
  · obtain ⟨e, hmem, rfl⟩ := mem_map.mp he
    obtain ⟨x, hx, hid⟩ := h.known e hmem
    exact ⟨_, mem_map_of_mem hx, hid⟩
  · obtain ⟨x, hx, rfl⟩ := mem_map.mp hy
    rw [entriesOf_settle, map_map]
    exact h.numbered x hx
  · obtain ⟨x, hx, rfl⟩ := mem_map.mp hy
    rw [entriesOf_settle] at he
    obtain ⟨e, hmem, rfl⟩ := mem_map.mp he
    have hitem : e.item = x.id := (mem_entriesOf.mp hmem).2
    rw [hitem, Bool.and_eq_true, Option.isNone_iff_eq_none, h.open_iff x hx e hmem]
    constructor
    · rintro ⟨⟨hh, hn⟩, hnone⟩
      rw [hnone]
      exact ⟨hh, hn⟩
    · rintro ⟨hh, hn⟩
      exact ⟨⟨hheld' x hx hh, hn⟩, hheld x hx hh⟩
  · obtain ⟨x, hx, rfl⟩ := mem_map.mp hy
    exact h.held_pos x hx (hheld' x hx hh)
  · obtain ⟨x, hx, rfl⟩ := mem_map.mp hy
    exact h.bounded x hx
  · obtain ⟨x, hx, rfl⟩ := mem_map.mp hy
    cases hn : next x.id with
    | none =>
      rw [hn] at hw
      exact h.waiting_lt x hx hw
    | some s =>
      rw [hn] at hw
      exact (hnext x hx s hn).2.2 hw
  · obtain ⟨x, hx, rfl⟩ := mem_map.mp hy
    obtain ⟨x', hx', rfl⟩ := mem_map.mp hz
    rw [h.lanes x hx x' hx' (hheld' x hx h1) (hheld' x' hx' h2) hlane]

theorem Ok.remove (h : l.Ok limit) (id : ι) : (l.remove id).Ok limit := by
  have hmem : ∀ {y}, y ∈ (l.remove id).items → y ∈ l.items ∧ y.id ≠ id := by
    intro y hy
    exact (mem_filter.mp hy).imp_right of_decide_eq_true
  have hentries : ∀ {i : ι}, i ≠ id → (l.remove id).entriesOf i = l.entriesOf i := by
    intro i hne
    unfold entriesOf Ledger.remove
    rw [filter_filter]
    refine filter_congr fun e _ => ?_
    by_cases he : e.item = i
    · simp [he, hne]
    · simp [he]
  refine ⟨h.keyed.filter _, fun e he => ?_, fun y hy => ?_, fun y hy e he => ?_,
    fun y hy => h.held_pos y (hmem hy).1, fun y hy => h.bounded y (hmem hy).1,
    fun y hy => h.waiting_lt y (hmem hy).1,
    fun y hy z hz => h.lanes y (hmem hy).1 z (hmem hz).1⟩
  · obtain ⟨he, hne⟩ := mem_filter.mp he
    obtain ⟨x, hx, hid⟩ := h.known e he
    refine ⟨x, mem_filter.mpr ⟨hx, ?_⟩, hid⟩
    rwa [hid]
  · rw [hentries (hmem hy).2]
    exact h.numbered y (hmem hy).1
  · rw [hentries (hmem hy).2] at he
    exact h.open_iff y (hmem hy).1 e he

/-- Every write keeps the invariant. -/
theorem Ok.write (h : l.Ok limit) (hlimit : 0 < limit) {w : Label ι τ} (hw : Write limit l w l') : l'.Ok limit := by
  cases hw with
  | add hnew hwaiting hzero => exact h.add hnew hwaiting hzero hlimit
  | hold hx hwaiting hlt hfree => exact h.hold hx hwaiting hlt hfree
  | settle hnext => exact h.settle hnext
  | remove _ => exact h.remove _

theorem Ok.run (h : l.Ok limit) (hlimit : 0 < limit) {ws : List (Label ι τ)}
    (hr : Lts.Run (Write limit) l ws l') : l'.Ok limit :=
  hr.inv h fun _ _ _ hok hw => hok.write hlimit hw

end Ledger

/-! ## Single items along a run -/

section Items

variable {limit : Nat} {l l' : Ledger ι κ τ ω} {ws : List (Label ι τ)}

/-- A property of single items that holds of new items, and that a hold and a settlement keep. -/
theorem forall_items {P : Item ι κ τ ω → Prop} (hok : l.Ok limit) (hlimit : 0 < limit)
    (hr : Lts.Run (Write limit) l ws l') (h0 : ∀ x ∈ l.items, P x)
    (hadd : ∀ x : Item ι κ τ ω, .add x.id ∈ ws → x.stage = .waiting → P x)
    (hhold : ∀ (x : Item ι κ τ ω) (token : τ), .hold x.id token ∈ ws → x.stage = .waiting → P x →
      P { x with stage := .held token, tries := x.tries + 1 })
    (hsettle : ∀ (x : Item ι κ τ ω) (s : Stage τ ω), ¬ x.stage.IsDone → ¬ s.IsHeld → P x →
      P { x with stage := s }) :
    ∀ x ∈ l'.items, P x := by
  induction hr with
  | nil => exact h0
  | @snoc es e m m' hr hw ih =>
    have ih := ih (fun x hx => hadd x (mem_append_left _ hx))
      (fun x token hx => hhold x token (mem_append_left _ hx))
    have hlast : e ∈ es ++ [e] := mem_concat_self
    intro y hy
    cases hw with
    | @add x hnew hwaiting _ =>
      obtain hy | hy := Table.mem_snoc.mp hy
      · exact ih y hy
      · rw [hy]
        exact hadd x hlast hwaiting
    | @hold x token hx hwaiting hlt hfree =>
      obtain rfl | ⟨hy, -⟩ := (hok.run hlimit hr).mem_hold hx hy
      · exact hhold x token hlast hwaiting (ih x hx)
      · exact ih y hy
    | @settle next hnext =>
      obtain ⟨x, hx, rfl⟩ := mem_map.mp hy
      cases hn : next x.id with
      | none => exact ih x hx
      | some s =>
        obtain ⟨hnd, hnh, -⟩ := hnext x hx s hn
        exact hsettle x s hnd hnh (ih x hx)
    | remove _ => exact ih y (mem_filter.mp hy).1

/-- An item that is done stays so, until it is removed. -/
theorem done_stays (id : ι) (result : ω) (hok : l.Ok limit) (hlimit : 0 < limit)
    (hr : Lts.Run (Write limit) l ws l') (h0 : ∀ x ∈ l.items, x.id = id → x.stage = .done result)
    (hnew : .add id ∉ ws) : ∀ x ∈ l'.items, x.id = id → x.stage = .done result := by
  refine forall_items hok hlimit hr h0 (fun x hx _ hid => absurd (hid ▸ hx) hnew)
    (fun x token _ hw h hid => ?_) fun x s hnd _ h hid => absurd ⟨result, h hid⟩ hnd
  have := h hid
  rw [hw] at this
  cases this

/-- What holds of the token and the tries of an item while it is held, if the new tokens fulfil it. -/
theorem held_stays (id : ι) {Q : τ → Nat → Prop} (hok : l.Ok limit) (hlimit : 0 < limit)
    (hr : Lts.Run (Write limit) l ws l')
    (h0 : ∀ x ∈ l.items, x.id = id → ∀ token, x.stage = .held token → Q token x.tries)
    (hnew : ∀ token n, .hold id token ∈ ws → Q token n) :
    ∀ x ∈ l'.items, x.id = id → ∀ token, x.stage = .held token → Q token x.tries := by
  refine forall_items hok hlimit hr h0 (fun x _ hw _ token heq => ?_)
    (fun x t hx _ _ hid token heq => ?_) fun x s _ hns _ _ token heq => absurd ⟨token, heq⟩ hns
  · rw [hw] at heq
    cases heq
  · cases heq
    exact hnew t _ (hid ▸ hx)

end Items

end Leases
