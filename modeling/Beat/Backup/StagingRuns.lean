import Beat.Backup.ReconcileSteps
import Beat.Backup.Staging

/-!
# Staged restores over whole runs

A staged record is to be the one that the journal names (`Matched`), so that the next start applies it.
`CallOk` says what each call relies on: from the transition to `staging` until it returns, a call holds
its row in that state. Two calls for different backups can both pass the check of the journal before
either writes it (`two_restores_staged`); `CarefulCheck` keeps that out.

* `Unnoticed`: a change of the world that no other call notices; `Unnoticed.callOk`, `Unnoticed.matched`.
* `HolderChange`: what the one call that holds a row may do besides.
* `serverOk_step`: every careful step keeps the invariant; `reconcileUntil_safe`: so does every start.
-/

namespace Beat.Backup

open List Option Function Reconciler

/-- The pending journal names the record and its generation. -/
def Names (journal : Option BackupJournal) (r : BackupRecord) : Prop :=
  ∃ j, journal = some j ∧ j.state = .pending ∧ j.backupID = r.id ∧
    j.generation = r.restoreGeneration ∧ j.generation ≠ ""

/-- Every staged record is the one of the journal. -/
def Matched (w : World) : Prop := ∀ r ∈ w.records, r.state = .staged → Names w.journal r

/-- No record but that of `id` is staged. -/
def StagedOnly (w : World) (id : String) : Prop :=
  ∀ r ∈ w.records, r.state = .staged → r.id = id

/-- The row is in the state `staging` with the generation of the call. -/
def Held (w : World) (staging : BackupRecord) : Prop :=
  staging.restoreGeneration ≠ "" ∧
    ∃ r ∈ w.records, r.id = staging.id ∧ r.state = .staging ∧
      r.restoreGeneration = staging.restoreGeneration

/-- The row is being deleted, or is gone. -/
def Doomed (w : World) (id : String) : Prop := ∀ r ∈ w.records, r.id = id → r.state = .deleting

/-- The backup of a call that has passed the check of the journal. -/
def Call.past : Call → Option String
  | .validate r | .claim r => some r.id
  | .publish st | .confirm st | .abort st | .clear st _ | .remove st _ | .rollback st _ => some st.id
  | _ => none

/-- The record of a call that holds its row in the state `staging`. -/
def Call.holds : Call → Option BackupRecord
  | .publish st | .confirm st | .abort st | .clear st _ | .remove st _ | .rollback st _ => some st
  | _ => none

/-- The record of a call that is to confirm its journal. -/
def Call.confirms : Call → Option BackupRecord
  | .confirm st => some st
  | _ => none

/-- The record of a call that has marked its row. -/
def Call.dooms : Call → Option BackupRecord
  | .removeArchive r | .removeRecord r => some r
  | _ => none

/-- What the records that a call has read look like. -/
def Call.Sound : Call → Prop
  | .check r | .validate r | .claim r => stageable r.state = true
  | .clear st r | .remove st r | .rollback st r => r.id = st.id
  | .mark r => undeletable r.state = false ∧ r.state ≠ .deleting
  | _ => True

/-- What a call relies on. -/
structure CallOk (w : World) (c : Call) : Prop where
  sound : c.Sound
  only : ∀ id, c.past = some id → StagedOnly w id
  held : ∀ st, c.holds = some st → Held w st
  named : ∀ st, c.confirms = some st → Names w.journal st
  doomed : ∀ r, c.dooms = some r → Doomed w r.id

structure ServerOk (s : Server) : Prop where
  ids : Table.Keyed (·.id) s.world.records
  matched : Matched s.world
  call : ∀ n c, s.calls n = some c → CallOk s.world c
  same : ∀ n m c d a b, s.calls n = some c → s.calls m = some d → c.past = some a → d.past = some b →
    a = b
  one : ∀ n m c d st st', s.calls n = some c → s.calls m = some d → c.holds = some st →
    d.holds = some st' → n = m

variable {st r : BackupRecord} {c : Call} {w w' : World} {id : String} {s s' : Reconciler} {now : Int}
  {io : Faults} {next : BackupRecord} {n : Nat}

theorem Call.past_of_holds (h : c.holds = some st) : c.past = some st.id := by
  cases c <;> simp_all [Call.holds, Call.past]

theorem Call.holds_of_confirms (h : c.confirms = some st) : c.holds = some st := by
  cases c <;> simp_all [Call.holds, Call.confirms]

/-- For the clauses that do not speak of a call. -/
theorem vacuous {α : Type} {x : Option α} {P : α → Prop} (hx : x = none) : ∀ a, x = some a → P a := by
  intro a h
  rw [hx] at h
  cases h

/-- While a row is held, nothing is staged. -/
theorem none_staged (hk : Table.Keyed (·.id) w.records) (ho : StagedOnly w st.id) (hh : Held w st) :
    ∀ r ∈ w.records, r.state ≠ .staged := by
  intro r hr hst
  obtain ⟨-, x, hx, hid, hstate, -⟩ := hh
  have heq : r = x := hk.eq_of_key hr hx ((ho r hr hst).trans hid.symm)
  rw [heq, hstate] at hst
  cases hst

/-! ## Changes of the world -/

/-- A change that no call under way notices. -/
structure Unnoticed (w w' : World) : Prop where
  ids : Table.Keyed (·.id) w.records → Table.Keyed (·.id) w'.records
  staged : ∀ r ∈ w'.records, r.state = .staged → r ∈ w.records
  staging : ∀ r ∈ w.records, r.state = .staging → r ∈ w'.records
  journal : w'.journal = w.journal
  doomed : ∀ id, Doomed w id → Doomed w' id

/-- A change by the call that holds the row of `id`. -/
structure HolderChange (id : String) (w w' : World) : Prop where
  ids : Table.Keyed (·.id) w.records → Table.Keyed (·.id) w'.records
  staged : ∀ r ∈ w'.records, r.state = .staged → r ∈ w.records ∨ r.id = id
  doomed : ∀ id, Doomed w id → Doomed w' id

theorem Unnoticed.refl (w : World) : Unnoticed w w where
  ids := id
  staged _ h _ := h
  staging _ h _ := h
  journal := rfl
  doomed _ h := h

theorem Unnoticed.callOk (h : Unnoticed w w') (hc : CallOk w c) : CallOk w' c where
  sound := hc.sound
  only id hid r hr hst := hc.only id hid r (h.staged r hr hst) hst
  held st hst := by
    obtain ⟨hg, r, hr, hid, hstate, hgen⟩ := hc.held st hst
    exact ⟨hg, r, h.staging r hr hstate, hid, hstate, hgen⟩
  named st hst := by rw [h.journal]; exact hc.named st hst
  doomed r hr := h.doomed _ (hc.doomed r hr)

theorem Unnoticed.matched (h : Unnoticed w w') (hm : Matched w) : Matched w' := by
  intro r hr hst
  rw [h.journal]
  exact hm r (h.staged r hr hst) hst

theorem HolderChange.callOk (h : HolderChange id w w') (hc : CallOk w c) (hfree : c.holds = none)
    (hsame : ∀ a, c.past = some a → a = id) : CallOk w' c where
  sound := hc.sound
  only a ha r hr hst := by
    rcases h.staged r hr hst with hold | hnew
    · exact hc.only a ha r hold hst
    · rw [hnew, hsame a ha]
  held st hst := by rw [hfree] at hst; cases hst
  named st hst := by rw [Call.holds_of_confirms hst] at hfree; cases hfree
  doomed r hr := h.doomed _ (hc.doomed r hr)

section Transition
variable {w : World} {records : List BackupRecord} {next : BackupRecord} {expected : BackupState}

section

variable (h : transition w.records next expected = some records)

include h

theorem mem_transition (hr : r ∈ records) : r = next ∨ r ∈ w.records ∧ ¬ (r.id = next.id ∧ r.state = expected) := by
  obtain ⟨-, rfl⟩ := transition_eq_some h
  obtain ⟨x, hx, rfl⟩ := Table.mem_update.mp hr
  by_cases hp : x.id = next.id ∧ x.state = expected
  · exact .inl (by simp [hp.1, hp.2])
  · refine .inr ?_
    have hfalse : (decide (x.id = next.id) && decide (x.state = expected)) = false := by
      simpa using hp
    simp only [hfalse, Bool.false_eq_true, if_false]
    exact ⟨hx, hp⟩

theorem mem_transition_of_state (hr : r ∈ w.records) (hne : r.state ≠ expected) : r ∈ records := by
  obtain ⟨-, rfl⟩ := transition_eq_some h
  exact Table.mem_update.mpr ⟨r, hr, by simp [hne]⟩

theorem keyed_transition (hk : Table.Keyed (·.id) w.records) : Table.Keyed (·.id) records := by
  obtain ⟨-, rfl⟩ := transition_eq_some h
  refine hk.update fun r _ hp => ?_
  simp only [Bool.and_eq_true, decide_eq_true_eq] at hp
  exact hp.1.symm

/-- A row that is being deleted is not what the transition expects. -/
theorem doomed_transition (hne : expected ≠ .deleting) (id : String) (hd : Doomed w id) :
    Doomed { w with records := records } id := by
  intro r hr hid
  rcases mem_transition h hr with rfl | ⟨hold, -⟩
  · obtain ⟨⟨x, hx, hxid, hxs⟩, -⟩ := transition_eq_some h
    exact absurd (hxs.symm.trans (hd x hx (hxid.trans hid))) hne
  · exact hd r hold hid

theorem unnoticed_transition (hnext : next.state ≠ .staged) (hstaging : expected ≠ .staging)
    (hdel : expected ≠ .deleting) : Unnoticed w { w with records := records } where
  ids := keyed_transition h
  staged r hr hst := by
    rcases mem_transition h hr with rfl | ⟨hold, -⟩
    · exact absurd hst hnext
    · exact hold
  staging r hr hst := mem_transition_of_state h hr (by rw [hst]; exact Ne.symm hstaging)
  journal := rfl
  doomed := doomed_transition h hdel

theorem holderChange_transition (hid : next.state = .staged → next.id = id) (hdel : expected ≠ .deleting) :
    HolderChange id w { w with records := records } where
  ids := keyed_transition h
  staged r hr hst := by
    rcases mem_transition h hr with rfl | ⟨hold, -⟩
    · exact .inr (hid hst)
    · exact .inl hold
  doomed := doomed_transition h hdel

end

end Transition

theorem unnoticed_deleteRecord (hd : Doomed w id) : Unnoticed w { w with records := deleteRecord w.records id } where
  ids hk := hk.filter _
  staged _ hr _ := (mem_filter.mp hr).1
  staging r hr hst := by
    refine mem_filter.mpr ⟨hr, decide_eq_true fun hid => ?_⟩
    have := hd r hr hid
    rw [hst] at this
    cases this
  journal := rfl
  doomed _ h r hr := h r (mem_filter.mp hr).1

theorem holderChange_journal (w : World) (id : String) (journal : Option BackupJournal) :
    HolderChange id w { w with journal := journal } where
  ids hk := hk
  staged _ hr _ := .inl hr
  doomed _ h := h

/-! ## The steps of a call -/

/-- What a step of a call can do: the world and the place after it. -/
inductive CallExit (w : World) (luck : Luck) : Call → World → Option Call → Prop
  | returned (c : Call) : CallExit w luck c w none
  | read {id : String} {r : BackupRecord} : stageable r.state = true →
      CallExit w luck (.stage id) w (some (.check r))
  | checked {r : BackupRecord} : w.journalAllows r.id = true →
      CallExit w luck (.check r) w (some (.validate r))
  | validated {r : BackupRecord} : CallExit w luck (.validate r) w (some (.claim r))
  | claimed {r : BackupRecord} {records : List BackupRecord} :
      transition w.records (stagingRecord luck r) r.state = some records →
      CallExit w luck (.claim r) { w with records := records } (some (.publish (stagingRecord luck r)))
  | published {st : BackupRecord} :
      CallExit w luck (.publish st) { w with journal := some (journalOf st) } (some (.confirm st))
  | unpublished {st : BackupRecord} : CallExit w luck (.publish st) w (some (.abort st))
  | confirmed {st : BackupRecord} {records : List BackupRecord} :
      transition w.records (stagedRecord luck st) .staging = some records →
      CallExit w luck (.confirm st) { w with records := records } none
  | unconfirmed {st : BackupRecord} : CallExit w luck (.confirm st) w (some (.abort st))
  | aborting {st r : BackupRecord} : r.id = st.id →
      CallExit w luck (.abort st) w (some (.clear st r))
  | clearing {st r : BackupRecord} : CallExit w luck (.clear st r) w (some (.remove st r))
  | skipped {st r : BackupRecord} : CallExit w luck (.clear st r) w (some (.rollback st r))
  | cleared {st r : BackupRecord} :
      CallExit w luck (.remove st r) { w with journal := none } (some (.rollback st r))
  | rolledBack {st r : BackupRecord} {records : List BackupRecord} :
      r.state = .staging ∨ r.state = .staged →
      transition w.records (Reconciler.rolledBack luck.now r) r.state = some records →
      CallExit w luck (.rollback st r) { w with records := records } none
  | found {id : String} {r : BackupRecord} : undeletable r.state = false → r.state ≠ .deleting →
      CallExit w luck (.delete id) w (some (.mark r))
  | resumed {id : String} {r : BackupRecord} : r ∈ w.records → r.state = .deleting →
      CallExit w luck (.delete id) w (some (.removeArchive r))
  | marked {r : BackupRecord} {records : List BackupRecord} :
      transition w.records (deletingRecord luck r) r.state = some records →
      CallExit w luck (.mark r) { w with records := records } (some (.removeArchive r))
  | archiveRemoved {r : BackupRecord} :
      CallExit w luck (.removeArchive r) (w.removeEntry r.filename) (some (.removeRecord r))
  | removed {r : BackupRecord} :
      CallExit w luck (.removeRecord r) { w with records := deleteRecord w.records r.id } none

/-- The two ends of a transition. -/
theorem commitCall_exit {luck : Luck} {expected : BackupState} {onOk onError : Option Call}
    {P : World → Option Call → Prop} (hok : ∀ records, transition w.records next expected = some records →
      P { w with records := records } onOk) (herr : P w onError) :
    P (commitCall w luck next expected onOk onError).1
      (commitCall w luck next expected onOk onError).2 := by
  unfold commitCall
  split
  · split
    · exact hok _ ‹_›
    · exact herr
  · exact herr

theorem record_spec (h : w.record id = some r) : r ∈ w.records ∧ r.id = id :=
  ⟨mem_of_find?_eq_some h, by simpa using find?_some h⟩

theorem callStep_exit (w : World) (luck : Luck) (c : Call) :
    CallExit w luck c (callStep w luck c).1 (callStep w luck c).2 := by
  cases c with
  | stage id =>
    simp only [callStep]
    split
    · split
      · rename_i h
        exact .read (Bool.and_eq_true_iff.mp h).2
      · exact .returned _
    · exact .returned _
  | check r =>
    simp only [callStep]
    split
    · rename_i h
      exact .checked (Bool.and_eq_true_iff.mp h).2
    · exact .returned _
  | validate r =>
    simp only [callStep]
    split
    · exact .validated
    · exact .returned _
  | claim r => exact commitCall_exit (fun _ => .claimed) (.returned _)
  | publish st =>
    simp only [callStep]
    split
    · exact .published
    · exact .unpublished
  | confirm st => exact commitCall_exit (fun _ => .confirmed) .unconfirmed
  | abort st =>
    simp only [callStep]
    split
    · rename_i r hr
      split
      · exact .aborting (record_spec hr).2
      · exact .returned _
    · exact .returned _
  | clear st r =>
    simp only [callStep]
    split
    · split
      · exact .clearing
      · exact .skipped
    · exact .returned _
  | remove st r =>
    simp only [callStep]
    split
    · exact .cleared
    · exact .returned _
  | rollback st r =>
    simp only [callStep]
    split
    · rename_i hstate
      exact commitCall_exit (fun _ => .rolledBack hstate) (.returned _)
    · exact .returned _
  | delete id =>
    simp only [callStep]
    split
    · rename_i r hr
      split
      · rename_i h
        split
        · exact .resumed (record_spec hr).1 ‹_›
        · exact .found (by simpa using (Bool.and_eq_true_iff.mp h).2) ‹_›
      · exact .returned _
    · exact .returned _
  | mark r => exact commitCall_exit (fun _ => .marked) (.returned _)
  | removeArchive r =>
    simp only [callStep]
    split
    · exact .archiveRemoved
    · exact .returned _
  | removeRecord r =>
    simp only [callStep]
    split
    · exact .removed
    · exact .returned _

/-! ## Steps of the server -/

section Advance
variable {s : Server} {n : Nat} {c : Call} {w' : World} {c' : Option Call} {d : Call}

/-- What the other calls may be, as far as a call that goes on to `d` is concerned. -/
structure Room (s : Server) (n : Nat) (c d : Call) : Prop where
  past : ∀ a, d.past = some a → c.past = some a ∨
    ∀ m e b, m ≠ n → s.calls m = some e → e.past = some b → b = a
  holds : ∀ st, d.holds = some st → (∃ st', c.holds = some st') ∨
    ∀ m e, m ≠ n → s.calls m = some e → e.holds = none

/-- A call that goes on without another claim on a backup. -/
theorem Room.of_same (hp : ∀ a, d.past = some a → c.past = some a)
    (hh : ∀ st, d.holds = some st → ∃ st', c.holds = some st') : Room s n c d :=
  ⟨fun a ha => .inl (hp a ha), fun st hst => .inl (hh st hst)⟩

theorem of_update {calls : Nat → Option Call} {m : Nat} (h : update calls n c' m = some d) :
    m = n ∧ c' = some d ∨ m ≠ n ∧ calls m = some d := by
  by_cases hm : m = n
  · subst hm
    rw [update_self] at h
    exact .inl ⟨rfl, h⟩
  · rw [update_of_ne hm] at h
    exact .inr ⟨hm, h⟩

/-- A call in the place `n`, with no claim that another call has. -/
theorem ServerOk.put (h : ServerOk s) (hids : Table.Keyed (·.id) w'.records) (hm : Matched w')
    (hothers : ∀ m d, m ≠ n → s.calls m = some d → CallOk w' d)
    (hnew : ∀ d, c' = some d → CallOk w' d ∧ ∀ m e, m ≠ n → s.calls m = some e →
      (∀ a b, d.past = some a → e.past = some b → a = b) ∧ ∀ st, d.holds = some st → e.holds = none) :
    ServerOk { world := w', calls := update s.calls n c' } where
  ids := hids
  matched := hm
  call m d hd := by
    rcases of_update hd with ⟨-, hd⟩ | ⟨hmn, hd⟩
    · exact (hnew d hd).1
    · exact hothers m d hmn hd
  same m k d e a b hd he ha hb := by
    rcases of_update hd with ⟨-, hd'⟩ | ⟨hmn, hd'⟩ <;>
      rcases of_update he with ⟨-, he'⟩ | ⟨hkn, he'⟩
    · rw [hd'] at he'
      cases he'
      exact some.inj (ha.symm.trans hb)
    · exact ((hnew d hd').2 k e hkn he').1 a b ha hb
    · exact (((hnew e he').2 m d hmn hd').1 b a hb ha).symm
    · exact h.same _ _ _ _ _ _ hd' he' ha hb
  one m k d e st st' hd he hst hst' := by
    rcases of_update hd with ⟨hm, hd'⟩ | ⟨hmn, hd'⟩ <;>
      rcases of_update he with ⟨hk, he'⟩ | ⟨hkn, he'⟩
    · exact hm.trans hk.symm
    · rw [((hnew d hd').2 k e hkn he').2 st hst] at hst'; cases hst'
    · rw [((hnew e he').2 m d hmn hd').2 st' hst'] at hst; cases hst
    · exact h.one _ _ _ _ _ _ hd' he' hst hst'

theorem ServerOk.advance (h : ServerOk s) (hc : s.calls n = some c)
    (hids : Table.Keyed (·.id) w'.records) (hm : Matched w')
    (hothers : ∀ m d, m ≠ n → s.calls m = some d → CallOk w' d)
    (hnew : ∀ d, c' = some d → CallOk w' d ∧ Room s n c d) :
    ServerOk { world := w', calls := update s.calls n c' } := by
  refine h.put hids hm hothers fun d hd => ⟨(hnew d hd).1, fun m e hmn he => ⟨fun a b ha hb => ?_, fun st hst => ?_⟩⟩
  · rcases (hnew d hd).2.past a ha with hp | hp
    · exact h.same _ _ _ _ _ _ hc he hp hb
    · exact (hp m e b hmn he hb).symm
  · rcases (hnew d hd).2.holds st hst with ⟨st₀, hp⟩ | hp
    · by_contra hne
      obtain ⟨st', hst'⟩ := Option.ne_none_iff_exists'.mp hne
      exact hmn (h.one _ _ _ _ _ _ he hc hst' hp)
    · exact hp m e hmn he

theorem ServerOk.advance_unnoticed (h : ServerOk s) (hc : s.calls n = some c) (hq : Unnoticed s.world w')
    (hnew : ∀ d, c' = some d → CallOk w' d ∧ Room s n c d) : ServerOk { world := w', calls := update s.calls n c' } :=
  h.advance hc (hq.ids h.ids) (hq.matched h.matched)
    (fun m d _ hd => hq.callOk (h.call m d hd)) hnew

/-- A call that goes on, and leaves the world as it is. -/
theorem ServerOk.goes_on (h : ServerOk s) (hc : s.calls n = some c) (hd : CallOk s.world d) (hroom : Room s n c d) :
    ServerOk { s with calls := update s.calls n (some d) } :=
  h.advance_unnoticed hc (.refl _) fun _ he => some.inj he ▸ ⟨hd, hroom⟩

/-- The call that holds the row is alone with it. -/
theorem ServerOk.advance_holder (h : ServerOk s) (hc : s.calls n = some c) (hst : c.holds = some st)
    (hq : HolderChange st.id s.world w') (hm : Matched w') (hnew : ∀ d, c' = some d → CallOk w' d ∧ Room s n c d) :
    ServerOk { world := w', calls := update s.calls n c' } := by
  refine h.advance hc (hq.ids h.ids) hm (fun m d hmn hd => ?_) hnew
  refine hq.callOk (h.call m d hd) ?_ fun a ha =>
    h.same _ _ _ _ _ _ hd hc ha (Call.past_of_holds hst)
  cases hh : d.holds with
  | none => rfl
  | some st' => exact absurd (h.one _ _ _ _ _ _ hd hc hh hst) hmn

end Advance

/-- A call that checks the journal is the only one, or the others past the check are for the same
backup. -/
def CarefulCheck (s : Server) : ServerEvent → Prop
  | .step n _ => ∀ r, s.calls n = some (.check r) → ∀ m c id, m ≠ n → s.calls m = some c →
      c.past = some id → id = r.id
  | _ => True

/-- What a journal that lets a backup pass says about the staged records. -/
theorem stagedOnly_of_allows (hm : Matched w) (h : w.journalAllows id = true) : StagedOnly w id := by
  intro r hr hst
  obtain ⟨j, hj, hpending, hid, -, -⟩ := hm r hr hst
  unfold World.journalAllows at h
  rw [hj] at h
  simp only [all_some, hpending, decide_true, Bool.true_and, Bool.not_eq_true',
    decide_eq_false_iff_not, not_not] at h
  exact hid.symm.trans h

section Steps
variable {s : Server} {n : Nat} {luck : Luck} {r st : BackupRecord} {records : List BackupRecord}

theorem ServerOk.none_staged (h : ServerOk s) (hc : s.calls n = some c) (hst : c.holds = some st) :
    ∀ x ∈ s.world.records, x.state ≠ .staged :=
  Backup.none_staged h.ids ((h.call n c hc).only _ (Call.past_of_holds hst))
    ((h.call n c hc).held st hst)

/-- Nothing is staged, whatever the journal. -/
theorem matched_of_none (h : ∀ x ∈ w.records, x.state ≠ .staged) : Matched w :=
  fun x hx hst => absurd hst (h x hx)

section

variable (h : ServerOk s)

include h

theorem ServerOk.checked (hc : s.calls n = some (.check r))
    (hcare : CarefulCheck s (.step n luck)) (ha : s.world.journalAllows r.id = true) :
    ServerOk { s with calls := update s.calls n (some (.validate r)) } := by
  refine h.goes_on hc ⟨(h.call n _ hc).sound, ?_, vacuous rfl, vacuous rfl, vacuous rfl⟩ ⟨?_, vacuous rfl⟩
  · intro id hid
    cases hid
    exact stagedOnly_of_allows h.matched ha
  · intro a hp
    cases hp
    exact .inr fun m e b hm he hb => hcare r hc m e b hm he hb

/-- Nobody holds the row of a record that is still to be claimed. -/
theorem ServerOk.claimed (hc : s.calls n = some (.claim r))
    (ht : transition s.world.records (stagingRecord luck r) r.state = some records) :
    ServerOk { world := { s.world with records := records }
               calls := update s.calls n (some (.publish (stagingRecord luck r))) } := by
  have hok := h.call n _ hc
  have hstate : stageable r.state = true := hok.sound
  have hun : Unnoticed s.world { s.world with records := records } :=
    unnoticed_transition ht nofun (by rintro he; rw [he] at hstate; cases hstate)
      (by rintro he; rw [he] at hstate; cases hstate)
  obtain ⟨⟨x, hx, hxid, hxs⟩, hrec⟩ := transition_eq_some ht
  refine h.advance_unnoticed hc hun fun d hd => ?_
  cases hd
  refine ⟨⟨trivial, ?_, ?_, vacuous rfl, vacuous rfl⟩, ?_, ?_⟩
  · intro id hid
    cases hid
    exact (hun.callOk hok).only _ rfl
  · intro st hst
    cases hst
    refine ⟨luck.generation.text_ne_empty, stagingRecord luck r, ?_, rfl, rfl, rfl⟩
    rw [hrec]
    exact Table.mem_update.mpr ⟨x, hx, by simp [hxid, hxs]⟩
  · intro a ha
    exact .inl ha
  · intro st _
    refine .inr fun m e hm he => ?_
    cases hh : e.holds with
    | none => rfl
    | some st' =>
      -- the other call holds the row of the same backup, which is not `staging` here
      have hsame : st'.id = r.id := h.same _ _ _ _ _ _ he hc (Call.past_of_holds hh) rfl
      obtain ⟨-, y, hy, hyid, hys, -⟩ := (h.call m e he).held st' hh
      have hxy : y = x := h.ids.eq_of_key hy hx (hyid.trans (hsame.trans hxid.symm))
      rw [← hxs, ← hxy, hys] at hstate
      cases hstate

theorem ServerOk.published (hc : s.calls n = some (.publish st)) :
    ServerOk { world := { s.world with journal := some (journalOf st) }
               calls := update s.calls n (some (.confirm st)) } := by
  have hok := h.call n _ hc
  have hheld := hok.held st rfl
  refine h.advance_holder hc rfl (holderChange_journal _ _ _)
    (matched_of_none (h.none_staged hc rfl)) fun d hd => ?_
  cases hd
  refine ⟨⟨trivial, hok.only, hok.held, ?_, vacuous rfl⟩, .of_same (fun _ ha => ha) fun _ _ => ⟨_, rfl⟩⟩
  intro st' hst'
  cases hst'
  exact ⟨_, rfl, rfl, rfl, rfl, hheld.1⟩

theorem ServerOk.confirmed (hc : s.calls n = some (.confirm st))
    (ht : transition s.world.records (stagedRecord luck st) .staging = some records) :
    ServerOk { world := { s.world with records := records }
               calls := update s.calls n none } := by
  refine h.advance_holder hc rfl (holderChange_transition ht (fun _ => rfl) nofun) ?_ (vacuous rfl)
  intro x hx hst
  rcases mem_transition ht hx with rfl | ⟨hold, -⟩
  · exact (h.call n _ hc).named st rfl
  · exact absurd hst (h.none_staged hc rfl x hold)

theorem ServerOk.cleared (hc : s.calls n = some (.remove st r)) :
    ServerOk { world := { s.world with journal := none }
               calls := update s.calls n (some (.rollback st r)) } := by
  have hok := h.call n _ hc
  refine h.advance_holder hc rfl (holderChange_journal _ _ _)
    (matched_of_none (h.none_staged hc rfl)) fun d hd => ?_
  cases hd
  exact ⟨⟨hok.sound, hok.only, hok.held, vacuous rfl, vacuous rfl⟩,
    .of_same (fun _ ha => ha) fun _ _ => ⟨_, rfl⟩⟩

theorem ServerOk.rolledBack (hc : s.calls n = some (.rollback st r)) (hstate : r.state = .staging ∨ r.state = .staged)
    (ht : transition s.world.records (Reconciler.rolledBack luck.now r) r.state = some records) :
    ServerOk { world := { s.world with records := records }
               calls := update s.calls n none } := by
  have hne := previousRestoreState_ne r.previousState
  refine h.advance_holder hc rfl (holderChange_transition ht (fun hs => absurd hs hne) ?_) ?_
    (vacuous rfl)
  · rcases hstate with hs | hs <;> rw [hs] <;> nofun
  · refine matched_of_none fun x hx => ?_
    rcases mem_transition ht hx with rfl | ⟨hold, -⟩
    · exact hne
    · exact h.none_staged hc rfl x hold

theorem ServerOk.marked (hc : s.calls n = some (.mark r))
    (ht : transition s.world.records (deletingRecord luck r) r.state = some records) :
    ServerOk { world := { s.world with records := records }
               calls := update s.calls n (some (.removeArchive r)) } := by
  obtain ⟨hund, hdel⟩ : undeletable r.state = false ∧ r.state ≠ .deleting := (h.call n _ hc).sound
  have hstaging : r.state ≠ .staging := by
    intro he
    rw [he] at hund
    cases hund
  obtain ⟨⟨x, hx, hxid, hxs⟩, -⟩ := transition_eq_some ht
  refine h.advance_unnoticed hc (unnoticed_transition ht nofun hstaging hdel) fun d hd => ?_
  cases hd
  refine ⟨⟨trivial, vacuous rfl, vacuous rfl, vacuous rfl, ?_⟩, .of_same (vacuous rfl) (vacuous rfl)⟩
  rintro _ ⟨⟩
  intro y hy hyid
  rcases mem_transition ht hy with rfl | ⟨hold, hnot⟩
  · rfl
  · have hyx : y = x := h.ids.eq_of_key hold hx (hyid.trans hxid.symm)
    exact absurd ⟨hyid, hyx ▸ hxs⟩ hnot

/-- Every step of a call keeps the invariant. -/
theorem ServerOk.callStep (hc : s.calls n = some c) (hcare : CarefulCheck s (.step n luck)) :
    ServerOk { world := (Backup.callStep s.world luck c).1
               calls := update s.calls n (Backup.callStep s.world luck c).2 } := by
  have hok := h.call n c hc
  have hexit := callStep_exit s.world luck c
  generalize (Backup.callStep s.world luck c).1 = w' at hexit
  generalize (Backup.callStep s.world luck c).2 = c' at hexit
  cases hexit with
  | returned => exact h.advance_unnoticed hc (.refl _) (vacuous rfl)
  | read hstate =>
    exact h.goes_on hc ⟨hstate, vacuous rfl, vacuous rfl, vacuous rfl, vacuous rfl⟩
      (.of_same (vacuous rfl) (vacuous rfl))
  | checked ha => exact h.checked hc hcare ha
  | validated =>
    exact h.goes_on hc ⟨hok.sound, hok.only, vacuous rfl, vacuous rfl, vacuous rfl⟩
      (.of_same (fun _ ha => ha) (vacuous rfl))
  | claimed ht => exact h.claimed hc ht
  | published => exact h.published hc
  | unpublished | unconfirmed =>
    exact h.goes_on hc ⟨trivial, hok.only, hok.held, vacuous rfl, vacuous rfl⟩
      (.of_same (fun _ ha => ha) fun _ _ => ⟨_, rfl⟩)
  | confirmed ht => exact h.confirmed hc ht
  | aborting hid =>
    exact h.goes_on hc ⟨hid, hok.only, hok.held, vacuous rfl, vacuous rfl⟩
      (.of_same (fun _ ha => ha) fun _ _ => ⟨_, rfl⟩)
  | clearing | skipped =>
    exact h.goes_on hc ⟨hok.sound, hok.only, hok.held, vacuous rfl, vacuous rfl⟩
      (.of_same (fun _ ha => ha) fun _ _ => ⟨_, rfl⟩)
  | cleared => exact h.cleared hc
  | rolledBack hstate ht => exact h.rolledBack hc hstate ht
  | found hund hdel =>
    exact h.goes_on hc ⟨⟨hund, hdel⟩, vacuous rfl, vacuous rfl, vacuous rfl, vacuous rfl⟩
      (.of_same (vacuous rfl) (vacuous rfl))
  | resumed hr hdel =>
    refine h.goes_on hc ⟨trivial, vacuous rfl, vacuous rfl, vacuous rfl, ?_⟩ (.of_same (vacuous rfl) (vacuous rfl))
    rintro _ ⟨⟩
    intro y hy hyid
    rw [h.ids.eq_of_key hy hr hyid]
    exact hdel
  | marked ht => exact h.marked hc ht
  | archiveRemoved =>
    refine h.advance_unnoticed hc ⟨id, fun _ hr _ => hr, fun _ hr _ => hr, rfl, fun _ hd => hd⟩
      fun d hd => ?_
    cases hd
    refine ⟨⟨trivial, vacuous rfl, vacuous rfl, vacuous rfl, ?_⟩, .of_same (vacuous rfl) (vacuous rfl)⟩
    rintro _ ⟨⟩
    exact hok.doomed _ rfl
  | removed => exact h.advance_unnoticed hc (unnoticed_deleteRecord (hok.doomed _ rfl)) (vacuous rfl)

end

end Steps

/-! ## Starts -/

/-- What the reconciliation of a record does to the staged ones: it makes none, and `r` is staged
afterwards only if the journal is kept for it. -/
structure Passes (r : BackupRecord) (s s' : Reconciler) : Prop where
  ids : Table.Keyed (·.id) s.world.records → Table.Keyed (·.id) s'.world.records
  staged : ∀ x ∈ s'.world.records, x.state = .staged →
    x ∈ s.world.records ∧ (x = r → s'.journalKept = true)
  worldJournal : s'.world.journal = s.world.journal
  journal : s'.journal = s.journal
  kept : s.journalKept = true → s'.journalKept = true

/-- A step that leaves the table alone, on a record that is not staged. -/
theorem Passes.idle (hr : r.state ≠ .staged) (hw : s'.world = s.world) (hj : s'.journal = s.journal)
    (hk : s'.journalKept = s.journalKept) : Passes r s s' where
  ids h := by rw [hw]; exact h
  staged x hx hst := by
    rw [hw] at hx
    exact ⟨hx, fun he => absurd (he ▸ hst) hr⟩
  worldJournal := by rw [hw]
  journal := hj
  kept h := hk.trans h

theorem passes_transition (s : Reconciler) (now : Int) (hid : next.id = r.id) (hnext : next.state ≠ .staged) :
    Passes r s (s.transition now next r.state) := by
  unfold Reconciler.transition
  split
  · rename_i records ht
    refine ⟨keyed_transition ht, fun x hx hst => ?_, rfl, rfl, id⟩
    rcases mem_transition ht hx with rfl | ⟨hold, hnot⟩
    · exact absurd hst hnext
    · exact ⟨hold, fun he => absurd ⟨he ▸ hid.symm, he ▸ rfl⟩ hnot⟩
  · rename_i ht
    refine ⟨id, fun x hx _ => ⟨hx, fun he => ?_⟩, rfl, rfl, id⟩
    -- the row itself is what the transition expects
    subst he
    unfold Backup.transition at ht
    rw [if_pos (any_eq_true.mpr ⟨x, hx, by simp [hid]⟩)] at ht
    cases ht

theorem passes_reconcileRecord (h : reconcileRecord now io s r = .ok s') : Passes r s s' := by
  cases reconcileRecord_exit h with
  | idle outcome hr _ => exact .idle hr rfl rfl rfl
  | confirmed => exact ⟨id, fun x hx _ => ⟨hx, fun _ => rfl⟩, rfl, rfl, fun _ => rfl⟩
  | moved next outcome hid _ hne _ _ =>
    obtain ⟨hids, hstaged, hworld, hjournal, hkept⟩ := passes_transition s now hid hne
    exact ⟨hids, hstaged, hworld, hjournal, hkept⟩
  | deleted outcome hr _ =>
    refine ⟨fun hk => hk.filter _, fun x hx hst => ⟨(mem_filter.mp hx).1, ?_⟩, rfl, rfl, id⟩
    rintro rfl
    rw [hst] at hr
    cases hr

/-- In the middle of the records, with `rest` to come. -/
structure Passing (rest : List BackupRecord) (s : Reconciler) : Prop where
  ids : Table.Keyed (·.id) s.world.records
  matched : Matched s.world
  journal : s.journal = s.world.journal
  pending : ∀ x ∈ s.world.records, x.state = .staged → x ∈ rest ∨ s.journalKept = true

theorem Passing.step {rest : List BackupRecord} (h : Passing (r :: rest) s) (hp : Passes r s s') :
    Passing rest s' where
  ids := hp.ids h.ids
  matched x hx hst := by
    rw [hp.worldJournal]
    exact h.matched x (hp.staged x hx hst).1 hst
  journal := by rw [hp.journal, hp.worldJournal, h.journal]
  pending x hx hst := by
    obtain ⟨hold, hself⟩ := hp.staged x hx hst
    rcases h.pending x hold hst with hmem | hkept
    · rcases mem_cons.mp hmem with he | hrest
      · exact .inr (hself he)
      · exact .inl hrest
    · exact .inr (hp.kept hkept)

theorem Passing.run {done rest : List BackupRecord} (h : Passing (done ++ rest) s)
    (hf : done.foldlM (reconcileRecord now io) s = .ok s') : Passing rest s' := by
  induction done generalizing s with
  | nil => cases hf; exact h
  | cons r done ih =>
    obtain ⟨s₁, hstep, hrest⟩ := Fallible.foldlM_cons_ok hf
    exact ih (h.step (passes_reconcileRecord hstep)) hrest

/-- Unique ids, and every staged record is that of the journal. -/
def Safe (w : World) : Prop := Table.Keyed (·.id) w.records ∧ Matched w

theorem Safe.passing (h : Safe w) : Passing w.records { world := w, journal := w.journal } :=
  ⟨h.1, h.2, rfl, fun _ hx _ => .inl hx⟩

/-- The journal of a staged record is kept. -/
theorem Passing.resolveJournal (h : Passing [] s) (hr : s.resolveJournal io = .ok s') : Safe s'.world := by
  obtain ⟨hrecords, -, -, hjournal⟩ := resolveJournal_spec hr
  refine ⟨hrecords ▸ h.ids, fun x hx hst => ?_⟩
  rw [hrecords] at hx
  rcases h.pending x hx hst with hmem | hkept
  · cases hmem
  · rw [hjournal, if_neg (by simp [hkept])]
    exact h.matched x hx hst

theorem Safe.same (h : Safe s.world) (hs : SameTable s s') : Safe s'.world := by
  refine ⟨hs.records ▸ h.1, fun x hx hst => ?_⟩
  rw [hs.journal]
  exact h.2 x (hs.records ▸ hx) hst

theorem Safe.expire (h : Safe s.world) (now : Int) : Safe (s.expireTerminalRecords now).world :=
  ⟨h.1.filter _, fun x hx hst => h.2 x (mem_filter.mp hx).1 hst⟩

/-- What the records and the journal establish and the sweep and the expiry keep holds however far a start comes. -/
theorem reconcileUntil_rule {P : World → Prop} {stop : ReconcileStop} (hr : reconcileUntil now io w stop = .ok w')
    (hrecords : ∀ n s, (w.records.take n).foldlM (reconcileRecord now io) { world := w, journal := w.journal } = .ok s →
      P s.world)
    (hjournal : ∀ s s', w.records.foldlM (reconcileRecord now io) { world := w, journal := w.journal } = .ok s →
      s.resolveJournal io = .ok s' → P s'.world)
    (hsweep : ∀ {s s'} {l : List (String × Entry)}, (∀ e ∈ l, sweepable w.records e = true) → SameTable s s' →
      (s'.world.entries = s.world.entries.filter fun e => !l.any fun x => x.1 = e.1 && sweeps x) →
        P s.world → P s'.world)
    (hexpire : ∀ s : Reconciler, P s.world → P (s.expireTerminalRecords now).world) : P w' := by
  unfold reconcileUntil at hr
  split at hr
  case h_1 n =>
    split at hr
    · cases hr
    rename_i s hfold
    cases hr
    exact hrecords n s hfold
  case h_2 =>
    split at hr
    · cases hr
    rename_i s hfold
    obtain ⟨s₁, hj, rfl⟩ := Fallible.map_eq_ok hr
    exact hjournal s s₁ hfold hj
  case h_3 n =>
    split at hr
    · cases hr
    rename_i s hfold
    split at hr
    · cases hr
    rename_i s₁ hj
    obtain ⟨s₂, hswept, rfl⟩ := Fallible.map_eq_ok hr
    obtain ⟨hsame, hentries⟩ := sweep_entries hswept
    exact hsweep (fun e he => (mem_filter.mp (mem_of_mem_take he)).2) hsame hentries (hjournal s s₁ hfold hj)
  case h_4 =>
    obtain ⟨⟨w₁, outcome⟩, hstart, rfl⟩ := Fallible.map_eq_ok hr
    unfold reconcileStartup at hstart
    split at hstart
    · cases hstart
    rename_i s hfold
    split at hstart
    · cases hstart
    rename_i s₁ hj
    split at hstart
    · cases hstart
    rename_i s₂ hswept
    cases hstart
    obtain ⟨hsame, -, hentries⟩ := sweepFilesystem_spec hswept
    exact hexpire s₂ (hsweep (fun e he => (mem_filter.mp he).2) hsame hentries (hjournal s s₁ hfold hj))

/-- However far a start comes. -/
theorem reconcileUntil_safe {stop : ReconcileStop} (h : Safe w) (hr : reconcileUntil now io w stop = .ok w') :
    Safe w' := by
  refine reconcileUntil_rule hr (fun n s hfold => ?_) (fun s s' hfold hj => ?_) (fun _ hsame _ hs => hs.same hsame)
    fun s hs => hs.expire now
  · have hpassing : Passing (w.records.drop n) s := by
      refine Passing.run ?_ hfold
      rw [take_append_drop]
      exact h.passing
    exact ⟨hpassing.ids, hpassing.matched⟩
  · have hpassing : Passing [] s := Passing.run (by simpa using h.passing) hfold
    exact hpassing.resolveJournal hj

/-! ## Runs -/

theorem ServerOk.start {s s' : Server} (h : ServerOk s) (hs : s.start n c = some s') (hsound : c.Sound)
    (hpast : c.past = none) (hdooms : c.dooms = none) : ServerOk s' := by
  have hholds : c.holds = none := by
    cases hh : c.holds with
    | none => rfl
    | some st => rw [Call.past_of_holds hh] at hpast; cases hpast
  have hconfirms : c.confirms = none := by
    cases hh : c.confirms with
    | none => rfl
    | some st => rw [Call.holds_of_confirms hh] at hholds; cases hholds
  unfold Server.start at hs
  split at hs
  · cases hs
    refine h.put h.ids h.matched (fun m d _ hd => h.call m d hd) fun d hd => ?_
    cases hd
    exact ⟨⟨hsound, vacuous hpast, vacuous hholds, vacuous hconfirms, vacuous hdooms⟩,
      fun m e _ _ => ⟨fun a b ha => (nomatch hpast.symm.trans ha), vacuous hholds⟩⟩
  · cases hs

/-- A server without calls. -/
theorem Safe.serverOk (h : Safe w) : ServerOk { world := w } :=
  ⟨h.1, h.2, fun _ _ hc => (nomatch hc), fun _ _ _ _ _ _ hc => (nomatch hc),
    fun _ _ _ _ _ _ hc => (nomatch hc)⟩

/-- Every careful step keeps the invariant. -/
theorem serverOk_step {s s' : Server} {e : ServerEvent} (h : ServerOk s) (hcare : CarefulCheck s e)
    (hs : ServerStep s e s') : ServerOk s' := by
  unfold ServerStep at hs
  cases e with
  | stageRestore n id => exact h.start hs trivial rfl rfl
  | delete n id => exact h.start hs trivial rfl rfl
  | step n luck =>
    obtain ⟨c, hc, rfl⟩ := map_eq_some_iff.mp hs
    exact h.callStep hc hcare
  | restart now io stop =>
    simp only [serverNext] at hs
    split at hs
    · rename_i w hr
      cases hs
      exact (reconcileUntil_safe ⟨h.ids, h.matched⟩ hr).serverOk
    · cases hs

/-- The steps of a server whose checks of the journal are careful. -/
def CarefulServerStep (s : Server) (e : ServerEvent) (s' : Server) : Prop :=
  CarefulCheck s e ∧ ServerStep s e s'

/-- The database that the next start finds, with the row of the backup. -/
def World.database (w : World) (id : String) : Content :=
  .database .before ((w.record id).map fun r =>
    { state := r.state
      previousState := r.previousState
      restoreGeneration := r.restoreGeneration })

theorem Safe.authorized (h : Safe w) (hr : r ∈ w.records) (hst : r.state = .staged) :
    ∃ j, w.journal = some j ∧ j.state = .pending ∧ j.backupID = r.id ∧ j.generation = r.restoreGeneration ∧
      restoreAuthorized (some (w.database j.backupID)) j.toRestoreJournal = true := by
  obtain ⟨j, hj, hpending, hid, hgen, hne⟩ := h.2 r hr hst
  refine ⟨j, hj, hpending, hid, hgen, ?_⟩
  have hrow : w.record j.backupID = some r := by
    refine Table.find?_eq_some_of_unique hr (by simp [hid]) fun x hx hq => ?_
    exact h.1.eq_of_key hx hr (by simpa [hid] using hq)
  have hne' : r.restoreGeneration ≠ "" := hgen ▸ hne
  unfold restoreAuthorized World.database
  rw [hrow]
  simp [hst, hgen, hne']

/-- **Staged restores.** In a run whose calls check the journal while no call for another backup is
past its own check, every staged record is the one the next start is authorised to apply, and at most
one record is staged. -/
theorem staged_restore_is_applied {w : World} {es : List ServerEvent} {s : Server} (h0 : Safe w)
    (hrun : Lts.Run CarefulServerStep { world := w } es s) :
    (∀ r ∈ s.world.records, r.state = .staged → ∃ j, s.world.journal = some j ∧
      j.state = .pending ∧ j.backupID = r.id ∧ j.generation = r.restoreGeneration ∧
      restoreAuthorized (some (s.world.database j.backupID)) j.toRestoreJournal = true) ∧
    (∀ r ∈ s.world.records, ∀ r' ∈ s.world.records, r.state = .staged → r'.state = .staged → r = r') := by
  have hok : ServerOk s := hrun.inv h0.serverOk fun _ _ _ hi hst => serverOk_step hi hst.1 hst.2
  have hsafe : Safe s.world := ⟨hok.ids, hok.matched⟩
  refine ⟨fun r hr hst => hsafe.authorized hr hst, fun r hr r' hr' hst hst' => ?_⟩
  obtain ⟨j, hj, -, hid, -⟩ := hsafe.authorized hr hst
  obtain ⟨j', hj', -, hid', -⟩ := hsafe.authorized hr' hst'
  rw [hj] at hj'
  cases hj'
  exact hok.ids.eq_of_key hr hr' (hid.symm.trans hid')

/-! ## Two calls, one after the other and crossing -/

/-- A call that is alone is careful. -/
theorem alone_steps {lucks : List Luck} {s s' : Server} (h : ∀ m, m ≠ n → s.calls m = none)
    (hr : Lts.runFn serverNext s (lucks.map (.step n)) = some s') :
    Lts.Run CarefulServerStep s (lucks.map (.step n)) s' ∧ ∀ m, m ≠ n → s'.calls m = none := by
  induction lucks generalizing s with
  | nil => cases hr; exact ⟨.nil, h⟩
  | cons luck lucks ih =>
    obtain ⟨s₁, hstep, hrest⟩ := bind_eq_some_iff.mp hr
    have halone : ∀ m, m ≠ n → s₁.calls m = none := fun m hm => by
      obtain ⟨c, -, rfl⟩ := map_eq_some_iff.mp hstep
      exact (update_of_ne hm _ _).trans (h m hm)
    obtain ⟨hrun, hend⟩ := ih halone hrest
    refine ⟨.cons ⟨fun r _ m c id hm hc => ?_, hstep⟩ hrun, hend⟩
    rw [h m hm] at hc
    cases hc

/-- The call from its start to its end, with `k` steps. -/
def stageAlone (n k : Nat) (id : String) (luck : Luck) : List ServerEvent :=
  .stageRestore n id :: (replicate k luck).map (.step n)

theorem alone_run {luck : Luck} {k : Nat} {id : String} {s s' : Server} (h : ∀ m, s.calls m = none)
    (hr : Lts.runFn serverNext s (stageAlone n k id luck) = some s') :
    Lts.Run CarefulServerStep s (stageAlone n k id luck) s' ∧ ∀ m, m ≠ n → s'.calls m = none := by
  obtain ⟨s₁, hstart, hrest⟩ := bind_eq_some_iff.mp hr
  have halone : ∀ m, m ≠ n → s₁.calls m = none := fun m hm => by
    have hstart : s.start n (.stage id) = some s₁ := hstart
    rw [Server.start, h n] at hstart
    cases hstart
    exact (update_of_ne hm _ _).trans (h m)
  obtain ⟨hrun, hend⟩ := alone_steps halone hrest
  exact ⟨.cons ⟨trivial, hstart⟩ hrun, hend⟩

def readyBackup (id filename : String) : BackupRecord :=
  { id := id, filename := filename, state := .ready, createdAt := 0, updatedAt := 0 }

def twoBackups : World where
  records := [readyBackup "a" "beat-a.zip", readyBackup "b" "beat-b.zip"]
  entries := [("beat-a.zip", .regular true), ("beat-b.zip", .regular true)]

theorem safe_twoBackups : Safe twoBackups :=
  ⟨by decide, matched_of_none (by decide)⟩

def firstLuck : Luck := { generation := ⟨"3f2504e0-4f89-41d3-9a0c-0305e82c3321", by decide⟩ }
def secondLuck : Luck := { generation := ⟨"3f2504e0-4f89-41d3-9a0c-0305e82c3322", by decide⟩ }

/-- The backup `a` is staged, and its restore is the one of the next start. A call for `b` after it is refused. -/
theorem staged_restore_is_applied_sample : ∃ s,
    Lts.Run CarefulServerStep { world := twoBackups } (stageAlone 0 6 "a" firstLuck ++ stageAlone 1 2 "b" secondLuck) s ∧
      s.calls 1 = none ∧ (∃ r ∈ s.world.records, r.id = "b" ∧ r.state = .ready) ∧
      ∃ r ∈ s.world.records, r.id = "a" ∧ r.state = .staged ∧
        ∃ j, s.world.journal = some j ∧ j.state = .pending ∧ j.backupID = r.id ∧
          j.generation = r.restoreGeneration ∧
          restoreAuthorized (some (s.world.database j.backupID)) j.toRestoreJournal = true := by
  obtain ⟨s₁, hfirst, hreturned, s, hsecond, hrefused, hready, r, hr, hid, hstaged⟩ :
      ∃ s₁ ∈ Lts.runFn serverNext { world := twoBackups } (stageAlone 0 6 "a" firstLuck), s₁.calls 0 = none ∧
      ∃ s ∈ Lts.runFn serverNext s₁ (stageAlone 1 2 "b" secondLuck), s.calls 1 = none ∧
        (∃ r ∈ s.world.records, r.id = "b" ∧ r.state = .ready) ∧
        ∃ r ∈ s.world.records, r.id = "a" ∧ r.state = .staged := by decide +kernel
  obtain ⟨hrun₁, hend⟩ := alone_run (fun _ => rfl) hfirst
  have hidle (m : Nat) : s₁.calls m = none := by
    by_cases hm : m = 0
    · rw [hm, hreturned]
    · exact hend m hm
  have hrun := hrun₁.append (alone_run hidle hsecond).1
  exact ⟨s, hrun, hrefused, hready, r, hr, hid, hstaged, (staged_restore_is_applied safe_twoBackups hrun).1 r hr hstaged⟩

/-- Two calls that pass the check of the journal before either of them writes it. -/
def crossing : List ServerEvent :=
  [.stageRestore 0 "a", .stageRestore 1 "b", .step 0 firstLuck, .step 1 secondLuck,
    .step 0 firstLuck, .step 1 secondLuck] ++
  replicate 4 (.step 0 firstLuck) ++ replicate 4 (.step 1 secondLuck)

/-- Both calls succeed: two records are staged, and no journal names the first. -/
theorem two_restores_staged : Safe twoBackups ∧ ∃ s, Lts.Run ServerStep { world := twoBackups } crossing s ∧
      (∃ r ∈ s.world.records, r.id = "a" ∧ r.state = .staged ∧
        ¬ ∃ j, s.world.journal = some j ∧ j.backupID = r.id) ∧
      ∃ r ∈ s.world.records, r.id = "b" ∧ r.state = .staged := by
  exact ⟨safe_twoBackups, Lts.Run.computed serverNext (fun _ _ _ h => h) (by decide +kernel)⟩

end Beat.Backup
