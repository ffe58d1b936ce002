import Beat.Backup.Reconcile
import Beat.Lib.Fallible

/-!
# The steps of a reconciliation

A reconciliation that returns without an error and defers nothing, on a world with unique ids and file
names. `settle` is what becomes of a record, `Mid` the state in the middle of the records, and
`Finished` the world at the end.

* `RecordExit`: what the reconciliation of a record can do, whether or not it defers.
* `Mid.step`: one record; `Mid.run`: all of them.
* `sweep_entries`: what the sweep of the directory leaves.
* `finished`: the world at the end, from the world before.
-/

namespace Beat.Backup

open List
namespace Reconciler

/-! ## Counting -/

theorem deferred_transition (s : Reconciler) (now : Int) (next : BackupRecord)
    (expected : BackupState) : s.outcome.deferred ≤ (s.transition now next expected).outcome.deferred := by
  unfold transition
  split
  · exact Nat.le_refl _
  · exact Nat.le_succ _

/-- What the reconciliation of a record can do. -/
inductive RecordExit (now : Int) (r : BackupRecord) (s : Reconciler) : Reconciler → Prop
  /-- The record is left alone. -/
  | idle (outcome : ReconcileOutcome) : r.state ≠ .staged →
      s.outcome.deferred ≤ outcome.deferred → RecordExit now r s { s with outcome := outcome }
  /-- The journal is kept for it. -/
  | confirmed : RecordExit now r s { s with journalKept := true }
  | moved (next : BackupRecord) (outcome : ReconcileOutcome) : next.id = r.id →
      next.filename = r.filename → next.state ≠ .staged →
      ¬ (r.state = .validated ∧ s.world.archiveIsRegular r.filename = some true) →
      (s.transition now next r.state).outcome.deferred ≤ outcome.deferred →
      RecordExit now r s { s.transition now next r.state with outcome := outcome }
  | deleted (outcome : ReconcileOutcome) : r.state = .deleting →
      s.outcome.deferred ≤ outcome.deferred →
      RecordExit now r s { s with
        world := { s.world.removeEntry r.filename with
          records := deleteRecord s.world.records r.id }
        outcome := outcome }

theorem previousRestoreState_ne (p : Option BackupState) : previousRestoreState p ≠ .staged := by
  unfold previousRestoreState
  split <;> nofun

theorem afterRunning_keys (now : Int) (complete : Bool) (r : BackupRecord) :
    (afterRunning now complete r).id = r.id ∧ (afterRunning now complete r).filename = r.filename ∧
      (afterRunning now complete r).state ≠ .staged := by
  unfold afterRunning
  split <;> exact ⟨rfl, rfl, nofun⟩

section RecordExit
variable {now : Int} {io : Faults} {s s' : Reconciler} {r : BackupRecord}

theorem reconcileRunning_exit (hr : r.state = .running) : RecordExit now r s (s.reconcileRunning now r) := by
  obtain ⟨hid, hname, hne⟩ := afterRunning_keys now (s.world.archiveIsComplete r.filename) r
  have hmoved (outcome : ReconcileOutcome)
      (hle : (s.transition now (afterRunning now (s.world.archiveIsComplete r.filename) r)
        r.state).outcome.deferred ≤ outcome.deferred) :
      RecordExit now r s { s.transition now (afterRunning now
        (s.world.archiveIsComplete r.filename) r) r.state with outcome := outcome } :=
    .moved _ outcome hid hname hne (by simp [hr]) hle
  rw [hr] at hmoved
  unfold reconcileRunning
  dsimp only
  split <;> exact hmoved _ (Nat.le_refl _)

theorem reconcileDeleting_exit (hr : r.state = .deleting) : RecordExit now r s (s.reconcileDeleting io r) := by
  unfold reconcileDeleting
  split
  · exact .deleted _ hr (Nat.le_refl _)
  · exact .idle _ (by simp [hr]) (Nat.le_succ _)

theorem reconcileStaged_exit (hr : r.state ≠ .validated) : RecordExit now r s (s.reconcileStaged now r) := by
  have hne : (rolledBack now r).state ≠ .staged := previousRestoreState_ne _
  unfold reconcileStaged
  split
  · exact .confirmed
  · exact .moved (rolledBack now r) _ rfl rfl hne (fun h => hr h.1) (Nat.le_refl _)

theorem reconcileArchivePresence_exit (hr : r.state ≠ .staged)
    (h : s.reconcileArchivePresence now r = .ok s') : RecordExit now r s s' := by
  have hne : (archiveMissing now r).state ≠ .staged := nofun
  unfold reconcileArchivePresence at h
  split at h
  · cases h
  · cases h
    exact .idle _ hr (Nat.le_refl _)
  · rename_i hmissing
    cases h
    exact .moved (archiveMissing now r) _ rfl rfl hne (by simp [hmissing]) (Nat.le_refl _)

theorem reconcileRecord_exit (h : reconcileRecord now io s r = .ok s') : RecordExit now r s s' := by
  unfold reconcileRecord at h
  split at h
  case h_1 hr => cases h; exact reconcileRunning_exit hr
  case h_2 hr => cases h; exact reconcileDeleting_exit hr
  case h_3 hr => cases h; exact reconcileStaged_exit (by simp [hr])
  case h_4 hr => cases h; exact reconcileStaged_exit (by simp [hr])
  case h_5 hr => exact reconcileArchivePresence_exit (by simp [hr]) h
  case h_6 hr => exact reconcileArchivePresence_exit (by simp [hr]) h
  case h_7 hr => cases h; exact .idle _ (by simp [hr]) (Nat.le_refl _)
  case h_8 hr => cases h; exact .idle _ (by simp [hr]) (Nat.le_refl _)
  case h_9 hr => cases h; exact .idle _ (by simp [hr]) (Nat.le_refl _)

end RecordExit

variable {now : Int} {io : Faults} {s s' : Reconciler} {w : World}

theorem deferred_reconcileRecord {r : BackupRecord} (h : reconcileRecord now io s r = .ok s') :
    s.outcome.deferred ≤ s'.outcome.deferred := by
  cases reconcileRecord_exit h with
  | idle outcome _ hle => exact hle
  | confirmed => exact Nat.le_refl _
  | moved next outcome _ _ _ _ hle => exact Nat.le_trans (deferred_transition ..) hle
  | deleted outcome _ hle => exact hle

theorem deferred_foldlM {rest : List BackupRecord} (h : rest.foldlM (reconcileRecord now io) s = .ok s') :
    s.outcome.deferred ≤ s'.outcome.deferred :=
  Fallible.foldlM_inv (I := fun b => s.outcome.deferred ≤ b.outcome.deferred) h (Nat.le_refl _)
    fun _ _ _ _ hle hstep => Nat.le_trans hle (deferred_reconcileRecord hstep)

/-! ## The records -/

/-- What becomes of a record: `none` once it is deleted. -/
def settle (now : Int) (w : World) (r : BackupRecord) : Option BackupRecord :=
  match r.state with
  | .running =>
    some { afterRunning now (w.archiveIsComplete r.filename) r with reconciledAt := some now }
  | .deleting => none
  | .staging | .staged =>
    some (if stagedRestoreConfirmed w w.journal r then r
      else { rolledBack now r with reconciledAt := some now })
  | .ready | .validated =>
    some (if w.archiveIsRegular r.filename = some true then r
      else { archiveMissing now r with reconciledAt := some now })
  | .failed | .interrupted | .missing => some r

theorem settle_keys {r r' : BackupRecord} (h : settle now w r = some r') :
    r'.id = r.id ∧ r'.filename = r.filename ∧ r'.createdAt = r.createdAt := by
  unfold settle at h
  split at h
  · cases h
    unfold afterRunning
    split <;> exact ⟨rfl, rfl, rfl⟩
  · cases h
  · cases h; split <;> exact ⟨rfl, rfl, rfl⟩
  · cases h; split <;> exact ⟨rfl, rfl, rfl⟩
  · cases h; split <;> exact ⟨rfl, rfl, rfl⟩
  · cases h; split <;> exact ⟨rfl, rfl, rfl⟩
  all_goals cases h; exact ⟨rfl, rfl, rfl⟩

/-- Whether a record that is done has had its archive removed. -/
def removesEntry (done : List BackupRecord) (e : String × Entry) : Bool :=
  done.any fun r => r.state = .deleting && r.filename = e.1

/-- The state after the records `done`, with `rest` to come. -/
structure Mid (now : Int) (w : World) (done rest : List BackupRecord) (s : Reconciler) : Prop where
  records : s.world.records = done.filterMap (settle now w) ++ rest
  entries : s.world.entries = w.entries.filter fun e => !removesEntry done e
  journal : s.journal = w.journal
  worldJournal : s.world.journal = w.journal
  kept : s.journalKept = done.any (stagedRestoreConfirmed w w.journal)

section Records
variable {now : Int} {io : Faults} {w : World} {done rest : List BackupRecord} {r : BackupRecord}
  {s s' : Reconciler}

section

variable (hk : w.Keyed) (hw : w.records = done ++ r :: rest)

include hk hw

/-- The other records have other ids. -/
theorem ids_ne (now : Int) : (∀ x ∈ done.filterMap (settle now w), x.id ≠ r.id) ∧ ∀ x ∈ rest, x.id ≠ r.id := by
  have hnodup := hk.ids
  rw [Table.Keyed, hw, map_append, map_cons, nodup_append, nodup_cons] at hnodup
  refine ⟨fun x hx heq => ?_, fun x hx heq => hnodup.2.1.1 (heq ▸ mem_map_of_mem hx)⟩
  obtain ⟨y, hy, hsettle⟩ := mem_filterMap.mp hx
  rw [(settle_keys hsettle).1] at heq
  exact hnodup.2.2 _ (mem_map_of_mem hy) _ (.head _) heq

variable (h : Mid now w done (r :: rest) s)

include h

/-- The archive of a record that is still to come has not been touched. -/
theorem Mid.entry : s.world.entry r.filename = w.entry r.filename := by
  have hne : ∀ x ∈ done, x.filename ≠ r.filename := by
    intro x hx heq
    have hnodup := hk.filenames
    rw [Table.Keyed, hw, map_append, nodup_append] at hnodup
    exact hnodup.2.2 _ (mem_map_of_mem hx) _ (mem_map_of_mem (.head _)) heq
  unfold World.entry
  rw [h.entries, find?_filter]
  congr 1
  refine Table.find?_congr fun e _ => ?_
  by_cases he : e.1 = r.filename
  · have hnot : removesEntry done e = false := by
      refine any_eq_false.mpr fun x hx hp => ?_
      simp only [Bool.and_eq_true, decide_eq_true_eq] at hp
      exact hne x hx (hp.2.trans he)
    simp [hnot, he]
  · simp [he]

theorem Mid.archiveIsRegular : s.world.archiveIsRegular r.filename = w.archiveIsRegular r.filename := by
  unfold World.archiveIsRegular
  rw [h.entry hk hw]

theorem Mid.confirmed : stagedRestoreConfirmed s.world s.journal r = stagedRestoreConfirmed w w.journal r := by
  unfold stagedRestoreConfirmed
  rw [h.archiveIsRegular hk hw, h.journal]

/-- The compare-and-set of the next record finds it, and changes no other. -/
theorem Mid.transition {next : BackupRecord} (hid : next.id = r.id) :
    s.transition now next r.state = { s with world := { s.world with
      records := done.filterMap (settle now w) ++ { next with reconciledAt := some now } :: rest } } := by
  obtain ⟨hpre, hpost⟩ := ids_ne hk hw now
  have hcas : Backup.transition s.world.records { next with reconciledAt := some now } r.state
      = some (done.filterMap (settle now w) ++ { next with reconciledAt := some now } :: rest) := by
    unfold Backup.transition
    rw [h.records, if_pos (by simp [hid])]
    simp only [hid]
    rw [Table.update_middle (by simp) (fun x hx => by simp [hpre x hx]) fun x hx => by simp [hpost x hx]]
  unfold Reconciler.transition
  rw [hcas]

end

theorem removesEntry_append (done : List BackupRecord) (r : BackupRecord) (e : String × Entry) :
    removesEntry (done ++ [r]) e = (removesEntry done e || (r.state = .deleting && r.filename = e.1)) := by
  simp [removesEntry]

/-- A record that is not deleted, and does not confirm the journal. -/
theorem Mid.snoc_some (h : Mid now w done (r :: rest) s) {r' : BackupRecord}
    (hsettle : settle now w r = some r') (hd : r.state ≠ .deleting)
    (hrecords : s'.world.records = done.filterMap (settle now w) ++ r' :: rest)
    (hentries : s'.world.entries = s.world.entries) (hj : s'.journal = s.journal)
    (hwj : s'.world.journal = s.world.journal)
    (hkept : s'.journalKept = (s.journalKept || stagedRestoreConfirmed w w.journal r)) :
    Mid now w (done ++ [r]) rest s' where
  records := by simp [hrecords, hsettle]
  entries := by
    rw [hentries, h.entries]
    refine filter_congr fun e _ => ?_
    rw [removesEntry_append]
    simp [hd]
  journal := hj.trans h.journal
  worldJournal := hwj.trans h.worldJournal
  kept := by rw [hkept, h.kept]; simp

theorem not_confirmed_of_state (h : r.state ≠ .staged) : stagedRestoreConfirmed w w.journal r = false := by
  simp [stagedRestoreConfirmed, h]

section

variable (hk : w.Keyed) (hw : w.records = done ++ r :: rest) (h : Mid now w done (r :: rest) s)

include hk hw h

theorem Mid.step_running (hr : r.state = .running) : Mid now w (done ++ [r]) rest (s.reconcileRunning now r) := by
  have hcomplete : s.world.archiveIsComplete r.filename = w.archiveIsComplete r.filename := by
    unfold World.archiveIsComplete
    rw [h.entry hk hw]
  have hid : (afterRunning now (w.archiveIsComplete r.filename) r).id = r.id := by
    unfold afterRunning; split <;> rfl
  have hcas := h.transition hk hw hid
  rw [hr] at hcas
  have hsettle : settle now w r
      = some { afterRunning now (w.archiveIsComplete r.filename) r with reconciledAt := some now } := by
    unfold settle; rw [hr]
  refine h.snoc_some hsettle (by simp [hr]) ?_ ?_ ?_ ?_ ?_ <;> unfold reconcileRunning <;>
    rw [hcomplete] <;> dsimp only <;> rw [hcas] <;> split <;>
    simp [not_confirmed_of_state (w := w) (r := r) (by simp [hr])]

theorem Mid.step_deleting (hr : r.state = .deleting)
    (hd : (s.reconcileDeleting io r).outcome.deferred ≤ s.outcome.deferred) :
    Mid now w (done ++ [r]) rest (s.reconcileDeleting io r) := by
  unfold reconcileDeleting at hd ⊢
  split at hd
  · rename_i hcond
    rw [if_pos hcond]
    obtain ⟨hpre, hpost⟩ := ids_ne hk hw now
    constructor
    · rw [deleteRecord, h.records, filter_append, filter_eq_self.mpr (by simpa using hpre),
        filter_cons_of_neg (by simp), filter_eq_self.mpr (by simpa using hpost)]
      simp [settle, hr]
    · show (s.world.entries.filter (·.1 ≠ r.filename)) = _
      rw [h.entries, filter_filter]
      refine filter_congr fun e _ => ?_
      rw [removesEntry_append]
      by_cases he : e.1 = r.filename
      · simp [he, hr]
      · simp [he, hr, Ne.symm he]
    · exact h.journal
    · exact h.worldJournal
    · show s.journalKept = _
      rw [h.kept]
      simp [not_confirmed_of_state (w := w) (r := r) (by simp [hr])]
  · exact absurd hd (Nat.not_succ_le_self _)

theorem Mid.step_staged (hr : r.state = .staging ∨ r.state = .staged) :
    Mid now w (done ++ [r]) rest (s.reconcileStaged now r) := by
  have hd : r.state ≠ .deleting := by rcases hr with hr | hr <;> simp [hr]
  have hsettle : settle now w r = some (if stagedRestoreConfirmed w w.journal r then r
      else { rolledBack now r with reconciledAt := some now }) := by
    unfold settle
    rcases hr with hr | hr <;> rw [hr]
  unfold reconcileStaged
  rw [h.confirmed hk hw]
  by_cases hc : stagedRestoreConfirmed w w.journal r
  · rw [if_pos hc] at hsettle ⊢
    exact h.snoc_some hsettle hd h.records rfl rfl rfl (by simp [hc])
  · rw [if_neg hc] at hsettle ⊢
    rw [h.transition hk hw (show (rolledBack now r).id = r.id from rfl)]
    exact h.snoc_some hsettle hd rfl rfl rfl rfl (by simp [hc])

theorem Mid.step_present (hr : r.state = .ready ∨ r.state = .validated)
    (hok : s.reconcileArchivePresence now r = .ok s') : Mid now w (done ++ [r]) rest s' := by
  have hd : r.state ≠ .deleting := by rcases hr with hr | hr <;> simp [hr]
  have hnc : stagedRestoreConfirmed w w.journal r = false :=
    not_confirmed_of_state (by rcases hr with hr | hr <;> simp [hr])
  have hsettle : settle now w r = some (if w.archiveIsRegular r.filename = some true then r
      else { archiveMissing now r with reconciledAt := some now }) := by
    unfold settle
    rcases hr with hr | hr <;> rw [hr]
  unfold reconcileArchivePresence at hok
  rw [h.archiveIsRegular hk hw] at hok
  split at hok
  · cases hok
  · rename_i hreg
    cases hok
    rw [if_pos hreg] at hsettle
    exact h.snoc_some hsettle hd h.records rfl rfl rfl (by simp [hnc])
  · rename_i hreg
    rw [if_neg (by simp [hreg])] at hsettle
    rw [h.transition hk hw (show (archiveMissing now r).id = r.id from rfl)] at hok
    cases hok
    exact h.snoc_some hsettle hd rfl rfl rfl rfl (by simp [hnc])

theorem Mid.step (hok : reconcileRecord now io s r = .ok s')
    (hd : s'.outcome.deferred ≤ s.outcome.deferred) : Mid now w (done ++ [r]) rest s' := by
  unfold reconcileRecord at hok
  split at hok
  case h_1 hr => cases hok; exact h.step_running hk hw hr
  case h_2 hr => cases hok; exact h.step_deleting hk hw hr hd
  case h_3 hr => cases hok; exact h.step_staged hk hw (.inl hr)
  case h_4 hr => cases hok; exact h.step_staged hk hw (.inr hr)
  case h_5 hr => exact h.step_present hk hw (.inl hr) hok
  case h_6 hr => exact h.step_present hk hw (.inr hr) hok
  all_goals
    rename_i hr
    cases hok
    exact h.snoc_some (by unfold settle; rw [hr]) (by simp [hr]) h.records rfl rfl rfl
      (by simp [not_confirmed_of_state (w := w) (r := r) (by simp [hr])])

end

/-- All records that are to come. -/
theorem Mid.run (h : Mid now w done rest s) (hk : w.Keyed) (hw : w.records = done ++ rest)
    (hok : rest.foldlM (reconcileRecord now io) s = .ok s')
    (hd : s'.outcome.deferred ≤ s.outcome.deferred) : Mid now w w.records [] s' := by
  induction rest generalizing done s with
  | nil =>
    cases hok
    rw [hw, append_nil]
    exact h
  | cons r rest ih =>
    obtain ⟨s₁, hstep, hrest⟩ := Fallible.foldlM_cons_ok hok
    have h₁ := deferred_reconcileRecord hstep
    have h₂ := deferred_foldlM hrest
    exact ih (h.step hk hw hstep (by omega)) (by rw [hw, append_assoc]; rfl) hrest (by omega)

end Records

/-! ## The directory -/

/-- The entries that `sweepEntry` removes or moves. -/
def sweeps (e : String × Entry) : Bool := e.2.isRegular && (isPartial e.1 || isArchiveName e.1)

/-- What a part of the sweep keeps. -/
structure SameTable (s s' : Reconciler) : Prop where
  records : s'.world.records = s.world.records
  journal : s'.world.journal = s.world.journal
  deferred : s.outcome.deferred ≤ s'.outcome.deferred

theorem SameTable.trans {s₁ s₂ : Reconciler} (h : SameTable s s₁) (h' : SameTable s₁ s₂) : SameTable s s₂ :=
  ⟨h'.records.trans h.records, h'.journal.trans h.journal, Nat.le_trans h.deferred h'.deferred⟩

theorem sweepEntry_spec {e : String × Entry} (h : sweepEntry io s e = .ok s') : SameTable s s' ∧
      s'.world.entries = if sweeps e then s.world.entries.filter (·.1 ≠ e.1) else s.world.entries := by
  unfold sweepEntry at h
  split at h
  · rename_i hreg
    cases h
    exact ⟨⟨rfl, rfl, Nat.le_refl _⟩, by simp at hreg; simp [sweeps, hreg]⟩
  · rename_i hreg
    simp only [Bool.not_eq_true', Bool.not_eq_false] at hreg
    split at h
    · rename_i hpartial
      split at h
      · cases h
      · cases h
        exact ⟨⟨rfl, rfl, Nat.le_refl _⟩, by simp [sweeps, hreg, hpartial, World.removeEntry]⟩
    · rename_i hpartial
      split at h
      · rename_i hname
        cases h
        exact ⟨⟨rfl, rfl, Nat.le_refl _⟩, by simp at hname hpartial; simp [sweeps, hpartial, hname]⟩
      · rename_i hname
        have hsweeps : sweeps e = true := by simp at hname; simp [sweeps, hreg, hname]
        rw [if_pos hsweeps]
        unfold quarantine at h
        split at h
        · cases h
        dsimp only at h
        split at h
        · cases h; exact ⟨⟨rfl, rfl, Nat.le_succ _⟩, rfl⟩
        · cases h; exact ⟨⟨rfl, rfl, Nat.le_refl _⟩, rfl⟩

theorem sweep_entries {l : List (String × Entry)} (h : l.foldlM (sweepEntry io) s = .ok s') : SameTable s s' ∧
      s'.world.entries = s.world.entries.filter fun e => !l.any fun x => x.1 = e.1 && sweeps x := by
  induction l generalizing s with
  | nil => cases h; exact ⟨⟨rfl, rfl, Nat.le_refl _⟩, by simp⟩
  | cons x l ih =>
    obtain ⟨s₁, hstep, hrest⟩ := Fallible.foldlM_cons_ok h
    obtain ⟨hsame₁, hentries₁⟩ := sweepEntry_spec hstep
    obtain ⟨hsame, hentries⟩ := ih hrest
    refine ⟨hsame₁.trans hsame, ?_⟩
    rw [hentries, hentries₁]
    split
    · rename_i hsweeps
      rw [filter_filter]
      refine filter_congr fun e _ => ?_
      by_cases hx : e.1 = x.1
      · simp [hx, hsweeps]
      · simp [hx, Ne.symm hx]
    · rename_i hsweeps
      refine filter_congr fun e _ => ?_
      simp [hsweeps]

/-! ## The world at the end -/

/-- The world after a reconciliation that defers nothing. -/
structure Finished (now : Int) (w w' : World) : Prop where
  records : w'.records = (w.records.filterMap (settle now w)).filter fun r => !isExpired now r
  entries : ∀ e, e ∈ w'.entries ↔ e ∈ w.entries ∧ removesEntry w.records e = false ∧
    ¬ (sweepable w.records e = true ∧ sweeps e = true)
  journal : w'.journal = if ¬ w.records.any (stagedRestoreConfirmed w w.journal) ∧
    w.journal.any (fun j => j.state = .pending && !j.offline) then none else w.journal
  stale : w'.staleJournals = []
  keyed : Table.Keyed (·.1) w'.entries

theorem resolveJournal_spec (h : s.resolveJournal io = .ok s') :
    s'.world.records = s.world.records ∧ s'.world.entries = s.world.entries ∧
      s'.outcome.deferred = s.outcome.deferred ∧ s'.world.journal = if ¬ s.journalKept ∧
        s.journal.any (fun j => j.state = .pending && !j.offline) then none else s.world.journal := by
  unfold resolveJournal at h
  split at h
  · rename_i hj
    cases h
    exact ⟨rfl, rfl, rfl, by simp [hj]⟩
  · rename_i journal hj
    split at h
    · rename_i hkeep
      cases h
      refine ⟨rfl, rfl, rfl, ?_⟩
      rw [if_neg]
      rw [hj]
      rintro ⟨hk, hp⟩
      simp only [Option.any_some, Bool.and_eq_true, decide_eq_true_eq, Bool.not_eq_true'] at hp
      rcases hkeep with hkeep | hkeep | hkeep
      · exact hk hkeep
      · exact hkeep hp.1
      · rw [hp.2] at hkeep; cases hkeep
    · rename_i hkeep
      split at h
      · cases h
      cases h
      refine ⟨rfl, rfl, rfl, ?_⟩
      rw [if_pos]
      rw [hj]
      simpa using hkeep

theorem sweepFilesystem_spec {known : List BackupRecord} (h : s.sweepFilesystem io known = .ok s') :
    SameTable s s' ∧ s'.world.staleJournals = [] ∧ s'.world.entries = s.world.entries.filter fun e =>
        !(s.world.entries.filter (sweepable known)).any fun x => x.1 = e.1 && sweeps x := by
  unfold sweepFilesystem at h
  split at h
  · cases h
  rename_i s₁ hfold
  obtain ⟨hsame, hentries⟩ := sweep_entries hfold
  unfold sweepStaleJournals at h
  split at h
  · cases h
  · cases h
    exact ⟨⟨hsame.records, hsame.journal, hsame.deferred⟩, rfl, hentries⟩

theorem finished {w' : World} {outcome : ReconcileOutcome} (hk : w.Keyed)
    (h : reconcileStartup now io w = .ok (w', outcome)) (hd : outcome.deferred = 0) : Finished now w w' := by
  unfold reconcileStartup at h
  split at h
  · cases h
  rename_i s₁ hrecords
  split at h
  · cases h
  rename_i s₂ hjournal
  split at h
  · cases h
  rename_i s₃ hsweep
  cases h
  obtain ⟨hrec₂, hent₂, hdef₂, hj₂⟩ := resolveJournal_spec hjournal
  obtain ⟨hsame₃, hstale₃, hent₃⟩ := sweepFilesystem_spec hsweep
  have hdef₃ : s₃.outcome.deferred = 0 := hd
  have hstart : Mid now w [] w.records { world := w, journal := w.journal } :=
    ⟨rfl, by simp [removesEntry], rfl, rfl, rfl⟩
  have hmid := hstart.run hk rfl hrecords (by have := hsame₃.deferred; show _ ≤ 0; omega)
  constructor
  · show s₃.world.records.filter _ = _
    rw [hsame₃.records, hrec₂, hmid.records, append_nil]
  · intro e
    show e ∈ s₃.world.entries ↔ _
    rw [hent₃, mem_filter, hent₂, hmid.entries, mem_filter, and_assoc]
    refine and_congr_right fun he => ?_
    rw [Bool.not_eq_true', Bool.not_eq_true']
    refine and_congr_right fun hremoves => ?_
    rw [any_eq_false]
    constructor
    · rintro hnone ⟨hsweepable, hsweeps⟩
      refine hnone e (mem_filter.mpr ⟨mem_filter.mpr ⟨he, ?_⟩, hsweepable⟩) ?_
      · rw [hremoves]; rfl
      · simp [hsweeps]
    · intro hnot x hx hp
      obtain ⟨hx, hsweepable⟩ := mem_filter.mp hx
      simp only [Bool.and_eq_true, decide_eq_true_eq] at hp
      have hxe : x = e := hk.entries.eq_of_key (mem_filter.mp hx).1 he hp.1
      rw [hxe] at hsweepable hp
      exact hnot ⟨hsweepable, hp.2⟩
  · show s₃.world.journal = _
    rw [hsame₃.journal, hj₂, hmid.kept, hmid.journal, hmid.worldJournal]
  · exact hstale₃
  · show Table.Keyed _ s₃.world.entries
    rw [hent₃, hent₂, hmid.entries]
    exact (hk.entries.filter _).filter _

theorem entry_eq_some (hk : Table.Keyed (·.1) w.entries) {name : String} {k : Entry} :
    w.entry name = some k ↔ (name, k) ∈ w.entries := by
  unfold World.entry
  rw [Option.map_eq_some_iff]
  constructor
  · rintro ⟨e, he, rfl⟩
    have hname := find?_some he
    simp only [decide_eq_true_eq] at hname
    rw [← hname]
    exact mem_of_find?_eq_some he
  · intro hmem
    refine ⟨(name, k), Table.find?_eq_some_of_unique hmem (by simp) fun x hx hp => ?_, rfl⟩
    simp only [decide_eq_true_eq] at hp
    exact hk.eq_of_key hx hmem hp

end Reconciler
end Beat.Backup
