import Beat.Backup.ReconcileSteps

/-!
# What a reconciliation leaves

A settled world is one that a reconciliation has nothing to do with (`Settled`). A reconciliation that
defers nothing reaches one, unless a step moves a record into a state whose own check has passed.

* `settled_again`: a settled world is left as it is.
* `reconcile_settles_iff`: the world is settled exactly if `Reconcilable` holds of the world before.
* `rolled_back_without_archive`: a staged record whose archive is gone is rolled back to a state that
  claims an archive.
-/

namespace Beat.Backup

open List
namespace Reconciler

/-! ## Settled worlds -/

/-- The world that a reconciliation is to reach. -/
structure Settled (w : World) : Prop where
  states : ∀ r ∈ w.records, r.state ≠ .running ∧ r.state ≠ .staging ∧ r.state ≠ .deleting
  staged : ∀ r ∈ w.records, r.state = .staged → stagedRestoreConfirmed w w.journal r = true
  archives : ∀ r ∈ w.records, r.state = .ready ∨ r.state = .validated →
    w.archiveIsRegular r.filename = some true
  partials : ∀ e ∈ w.entries, e.2.isRegular = true → isPartial e.1 = false
  recorded : ∀ e ∈ w.entries, isArchiveName e.1 = true → ∃ r ∈ w.records, r.filename = e.1
  journal : ∀ j, w.journal = some j → j.state = .pending → j.offline = false →
    ∃ r ∈ w.records, stagedRestoreConfirmed w w.journal r = true

/-- A reconciler that has changed nothing. -/
def idle (w : World) (kept : Bool) : Reconciler :=
  { world := w, journal := w.journal, journalKept := kept }

variable {now : Int} {io : Faults} {w : World} {s : Reconciler} {e : String × Entry}

/-- Every record is left alone. -/
theorem Settled.records_again (h : Settled w) {rs : List BackupRecord} (hrs : ∀ r ∈ rs, r ∈ w.records) (kept : Bool) :
    rs.foldlM (reconcileRecord now io) (idle w kept)
      = .ok (idle w (kept || rs.any (stagedRestoreConfirmed w w.journal))) := by
  induction rs generalizing kept with
  | nil => simp [foldlM_nil, pure, Except.pure]
  | cons r rs ih =>
    have hr := hrs r (.head _)
    obtain ⟨h1, h2, h3⟩ := h.states r hr
    have hstep : reconcileRecord now io (idle w kept) r
        = .ok (idle w (kept || stagedRestoreConfirmed w w.journal r)) := by
      unfold reconcileRecord
      split
      case h_1 hs => exact absurd hs h1
      case h_2 hs => exact absurd hs h3
      case h_3 hs => exact absurd hs h2
      case h_4 hs =>
        have hc := h.staged r hr hs
        simp [reconcileStaged, idle, hc]
      case h_5 hs =>
        have hreg := h.archives r hr (.inl hs)
        simp [reconcileArchivePresence, idle, hreg,
          not_confirmed_of_state (w := w) (r := r) (by simp [hs])]
      case h_6 hs =>
        have hreg := h.archives r hr (.inr hs)
        simp [reconcileArchivePresence, idle, hreg,
          not_confirmed_of_state (w := w) (r := r) (by simp [hs])]
      all_goals
        rename_i hs
        simp [not_confirmed_of_state (w := w) (r := r) (by simp [hs])]
    rw [foldlM_cons, hstep]
    show rs.foldlM _ _ = _
    rw [ih (fun x hx => hrs x (.tail _ hx)), any_cons, Bool.or_assoc]

theorem Settled.journal_again (h : Settled w) :
    resolveJournal io (idle w (w.records.any (stagedRestoreConfirmed w w.journal)))
      = .ok (idle w (w.records.any (stagedRestoreConfirmed w w.journal))) := by
  unfold resolveJournal
  split
  · rfl
  · rename_i j hj
    rw [if_pos]
    by_cases hp : j.state = .pending
    · by_cases ho : j.offline = false
      · obtain ⟨r, hr, hc⟩ := h.journal j hj hp ho
        exact .inl (any_eq_true.mpr ⟨r, hr, hc⟩)
      · exact .inr (.inr (by simpa using ho))
    · exact .inr (.inl hp)

theorem sweepEntry_idle (h : sweeps e = false) : sweepEntry io s e = .ok s := by
  unfold sweepEntry
  by_cases hreg : e.2.isRegular
  · simp only [sweeps, hreg, Bool.true_and, Bool.or_eq_false_iff] at h
    simp [hreg, h.1, h.2]
  · simp [hreg]

theorem sweep_idle {l : List (String × Entry)} (h : ∀ e ∈ l, sweeps e = false) :
    l.foldlM (sweepEntry io) s = .ok s := by
  induction l with
  | nil => rfl
  | cons e l ih =>
    rw [foldlM_cons, sweepEntry_idle (h e (.head _))]
    exact ih fun x hx => h x (.tail _ hx)

theorem Settled.directory_again (h : Settled w) (hstale : w.staleJournals = []) (kept : Bool) :
    sweepFilesystem io w.records (idle w kept) = .ok (idle w kept) := by
  have hnone : ∀ e ∈ w.entries.filter (sweepable w.records), sweeps e = false := by
    intro e he
    obtain ⟨he, hs⟩ := mem_filter.mp he
    by_contra hsweeps
    simp only [sweeps, Bool.not_eq_false, Bool.and_eq_true, Bool.or_eq_true] at hsweeps
    rcases hsweeps.2 with hp | hp
    · exact absurd hp (by simp [h.partials e he hsweeps.1])
    · obtain ⟨r, hr, hname⟩ := h.recorded e he hp
      simp only [sweepable, Bool.and_eq_true, Bool.not_eq_true', any_eq_false,
        decide_eq_true_eq] at hs
      exact hs.2 r hr hname
  unfold sweepFilesystem
  have hfold : (w.entries.filter (sweepable w.records)).foldlM (sweepEntry io) (idle w kept)
      = .ok (idle w kept) := sweep_idle hnone
  cases w
  simp_all [sweepStaleJournals, idle]

/-- A settled world without old records and temporary files is left as it is. -/
theorem settled_again (h : Settled w) (hstale : w.staleJournals = [])
    (hold : ∀ r ∈ w.records, isExpired now r = false) (io : Faults) : reconcileStartup now io w = .ok (w, {}) := by
  have hrecords : w.records.foldlM (reconcileRecord now io) (idle w false) = _ :=
    h.records_again (fun _ hr => hr) false
  rw [Bool.false_or] at hrecords
  have hkeep : (w.records.filter fun r => !isExpired now r) = w.records :=
    filter_eq_self.mpr fun r hr => by simp [hold r hr]
  have hnone : w.records.filter (isExpired now) = [] :=
    filter_eq_nil_iff.mpr fun r hr => by simp [hold r hr]
  unfold reconcileStartup
  rw [show ({ world := w, journal := w.journal } : Reconciler) = idle w false from rfl, hrecords]
  dsimp only
  rw [h.journal_again]
  dsimp only
  rw [h.directory_again hstale]
  simp [expireTerminalRecords, idle, hkeep, hnone]

/-! ## When a reconciliation settles the world -/

/-- The record is past its retention at the end of the reconciliation. -/
def expires (now : Int) (w : World) (r : BackupRecord) : Bool :=
  r.createdAt < now - BackupTerminalRetention &&
    match r.state with
    | .failed | .interrupted | .missing => true
    | .running => !w.archiveIsComplete r.filename
    | .ready | .validated => w.archiveIsRegular r.filename ≠ some true
    | .staging | .staged | .deleting => false

/-- What the world before must be like: a record that is rolled back, or taken over as complete, has
a regular archive; no record keeps a partial file; a file named like an archive that no record names
is regular; and no record expires whose archive is in the directory. -/
structure Reconcilable (now : Int) (w : World) : Prop where
  rolledBack : ∀ r ∈ w.records, r.state = .staging ∨ r.state = .staged →
    stagedRestoreConfirmed w w.journal r = false → w.archiveIsRegular r.filename = some true
  running : ∀ r ∈ w.records, r.state = .running → w.archiveIsComplete r.filename = true →
    w.archiveIsRegular r.filename = some true
  partials : ∀ r ∈ w.records, r.state ≠ .deleting → isPartial r.filename = true →
    (w.entry r.filename).any Entry.isRegular = false
  unrecorded : ∀ e ∈ w.entries, isArchiveName e.1 = true → (∀ r ∈ w.records, r.filename ≠ e.1) →
    e.2.isRegular = true
  kept : ∀ e ∈ w.entries, isArchiveName e.1 = true → ∀ r ∈ w.records, r.filename = e.1 →
    expires now w r = false

section Settles
variable {now : Int} {w w' : World} {r r' : BackupRecord} {name : String}

theorem isTerminal_previous (p : Option BackupState) : isTerminal (previousRestoreState p) = false := by
  unfold previousRestoreState
  split <;> rfl

theorem previousRestoreState_cases (p : Option BackupState) :
    previousRestoreState p = .ready ∨ previousRestoreState p = .validated := by
  unfold previousRestoreState
  split
  · exact .inl rfl
  · exact .inr rfl
  · exact .inr rfl

/-- Whether the record is past its retention, and the states that are left, with what the world before
says about the archive. -/
theorem settle_state (h : settle now w r = some r') : isExpired now r' = expires now w r ∧
      ((isTerminal r'.state = true) ∨ (r'.state = .staged ∧ r' = r ∧ stagedRestoreConfirmed w w.journal r = true) ∨
      ((r'.state = .ready ∨ r'.state = .validated) ∧ (w.archiveIsRegular r.filename = some true ∨
          (r.state = .running ∧ w.archiveIsComplete r.filename = true) ∨
          ((r.state = .staging ∨ r.state = .staged) ∧ stagedRestoreConfirmed w w.journal r = false)))) := by
  obtain ⟨-, -, hcreated⟩ := settle_keys h
  unfold isExpired expires
  rw [hcreated]
  unfold settle at h
  split at h <;> rename_i hs <;> rw [hs]
  · cases h
    unfold afterRunning
    split <;> rename_i hc
    · exact ⟨by simp [hc, isTerminal], .inr (.inr ⟨.inl rfl, .inr (.inl ⟨rfl, hc⟩)⟩)⟩
    · exact ⟨by simp [hc, isTerminal], .inl rfl⟩
  · cases h
  · cases h
    have hnc : stagedRestoreConfirmed w w.journal r = false := not_confirmed_of_state (by simp [hs])
    rw [if_neg (by simp [hnc])]
    exact ⟨congrArg _ (isTerminal_previous _),
      .inr (.inr ⟨previousRestoreState_cases _, .inr (.inr ⟨.inl rfl, hnc⟩)⟩)⟩
  · cases h
    split <;> rename_i hc
    · exact ⟨by rw [hs]; rfl, .inr (.inl ⟨hs, rfl, hc⟩)⟩
    · exact ⟨congrArg _ (isTerminal_previous _),
        .inr (.inr ⟨previousRestoreState_cases _, .inr (.inr ⟨.inr rfl, by simpa using hc⟩)⟩)⟩
  · cases h
    split <;> rename_i hc
    · exact ⟨by simp [hs, hc, isTerminal], .inr (.inr ⟨.inl hs, .inl hc⟩)⟩
    · exact ⟨by simp [hc, isTerminal, archiveMissing], .inl rfl⟩
  · cases h
    split <;> rename_i hc
    · exact ⟨by simp [hs, hc, isTerminal], .inr (.inr ⟨.inr hs, .inl hc⟩)⟩
    · exact ⟨by simp [hc, isTerminal, archiveMissing], .inl rfl⟩
  all_goals cases h; exact ⟨by rw [hs]; rfl, .inl (by rw [hs]; rfl)⟩

theorem Finished.mem_records (h : Finished now w w') :
    r' ∈ w'.records ↔ ∃ r ∈ w.records, settle now w r = some r' ∧ expires now w r = false := by
  rw [h.records, mem_filter, mem_filterMap]
  constructor
  · rintro ⟨⟨r, hr, hsettle⟩, hold⟩
    rw [(settle_state hsettle).1] at hold
    exact ⟨r, hr, hsettle, by simpa using hold⟩
  · rintro ⟨r, hr, hsettle, hold⟩
    refine ⟨⟨r, hr, hsettle⟩, ?_⟩
    rw [(settle_state hsettle).1, hold]
    rfl

/-- The archive of a record that is not deleted stays where it is. -/
theorem Finished.entry_kept (h : Finished now w w') (hk : w.Keyed) (hr : r ∈ w.records) (hd : r.state ≠ .deleting)
    (he : e ∈ w.entries) (hname : r.filename = e.1) : e ∈ w'.entries := by
  refine (h.entries e).mpr ⟨he, ?_, ?_⟩
  · refine any_eq_false.mpr fun x hx hp => ?_
    simp only [Bool.and_eq_true, decide_eq_true_eq] at hp
    have hxr : x = r := hk.filenames.eq_of_key hx hr (hp.2.trans hname.symm)
    exact hd (hxr ▸ hp.1)
  · rintro ⟨hs, -⟩
    simp only [sweepable, Bool.and_eq_true, Bool.not_eq_true', any_eq_false,
      decide_eq_true_eq] at hs
    exact hs.2 r hr hname

theorem Finished.entry (h : Finished now w w') (hk : w.Keyed) (hr : r ∈ w.records)
    (hd : r.state ≠ .deleting) : w'.entry r.filename = w.entry r.filename := by
  refine Option.ext fun k => ?_
  rw [entry_eq_some h.keyed, entry_eq_some hk.entries]
  constructor
  · intro he
    exact ((h.entries _).mp he).1
  · intro he
    exact h.entry_kept hk hr hd he rfl

theorem Finished.archiveIsRegular (h : Finished now w w') (hk : w.Keyed) (hr : r ∈ w.records)
    (hd : r.state ≠ .deleting) : w'.archiveIsRegular r.filename = w.archiveIsRegular r.filename := by
  unfold World.archiveIsRegular
  rw [h.entry hk hr hd]

/-- The name of an entry that is left and that no record had is not one that is swept. -/
theorem Finished.not_swept (h : Finished now w w') (he : e ∈ w'.entries) (hq : e.1 ≠ BackupQuarantineDir)
    (hnone : ∀ r ∈ w.records, r.filename ≠ e.1) : sweeps e = false := by
  have hnot := ((h.entries e).mp he).2.2
  by_contra hsweeps
  refine hnot ⟨?_, by simpa using hsweeps⟩
  simp only [sweepable, Bool.and_eq_true, Bool.not_eq_true', any_eq_false, decide_eq_true_eq]
  exact ⟨by simpa using hq, hnone⟩

theorem ne_quarantineDir_of_isPartial (h : isPartial name = true) : name ≠ BackupQuarantineDir := by
  rintro rfl
  exact absurd h (by decide)

theorem not_quarantineDir_of_archive (h : isArchiveName name = true) : name ≠ BackupQuarantineDir := by
  rintro rfl
  exact absurd h (by decide)

/-- What confirms a record before confirms it at the end. -/
theorem Finished.confirmed (h : Finished now w w') (hk : w.Keyed) (hr : r ∈ w.records)
    (hc : stagedRestoreConfirmed w w.journal r = true) : stagedRestoreConfirmed w' w'.journal r = true := by
  have hstate : r.state = .staged := by
    simp only [stagedRestoreConfirmed, Bool.and_eq_true, decide_eq_true_eq] at hc
    exact hc.1
  have hjournal : w'.journal = w.journal := by
    rw [h.journal, if_neg]
    rintro ⟨hnone, -⟩
    exact hnone (any_eq_true.mpr ⟨r, hr, hc⟩)
  unfold stagedRestoreConfirmed at hc ⊢
  rw [hjournal, h.archiveIsRegular hk hr (by simp [hstate])]
  exact hc

theorem settle_confirmed (hc : stagedRestoreConfirmed w w.journal r = true) :
    settle now w r = some r ∧ expires now w r = false := by
  have hstate : r.state = .staged := by
    simp only [stagedRestoreConfirmed, Bool.and_eq_true, decide_eq_true_eq] at hc
    exact hc.1
  constructor
  · unfold settle
    rw [hstate]
    simp [hc]
  · simp [expires, hstate]

theorem settle_not_deleting (h : settle now w r = some r') : r.state ≠ .deleting := by
  intro hs
  rw [settle, hs] at h
  cases h

theorem Finished.settled (h : Finished now w w') (hk : w.Keyed) (hc : Reconcilable now w) : Settled w' where
  states r' hr' := by
    obtain ⟨r, -, hsettle, -⟩ := h.mem_records.mp hr'
    rcases (settle_state hsettle).2 with ht | ⟨hs, -⟩ | ⟨hs | hs, -⟩
    · refine ⟨?_, ?_, ?_⟩ <;> intro hs <;> rw [hs] at ht <;> cases ht
    · simp [hs]
    · simp [hs]
    · simp [hs]
  staged r' hr' hs := by
    obtain ⟨r, hr, hsettle, -⟩ := h.mem_records.mp hr'
    rcases (settle_state hsettle).2 with ht | ⟨-, rfl, hconf⟩ | ⟨hs' | hs', -⟩
    · rw [hs] at ht; cases ht
    · exact h.confirmed hk hr hconf
    · rw [hs] at hs'; cases hs'
    · rw [hs] at hs'; cases hs'
  archives r' hr' hs := by
    obtain ⟨r, hr, hsettle, -⟩ := h.mem_records.mp hr'
    rw [(settle_keys hsettle).2.1, h.archiveIsRegular hk hr (settle_not_deleting hsettle)]
    rcases (settle_state hsettle).2 with ht | ⟨hs', -⟩ | ⟨-, hreg | ⟨hrun, hcomp⟩ | ⟨hst, hnc⟩⟩
    · rcases hs with hs | hs <;> rw [hs] at ht <;> cases ht
    · rcases hs with hs | hs <;> rw [hs] at hs' <;> cases hs'
    · exact hreg
    · exact hc.running r hr hrun hcomp
    · exact hc.rolledBack r hr hst hnc
  partials e he hreg := by
    by_contra hp
    rw [Bool.not_eq_false] at hp
    obtain ⟨hw, hremoves, -⟩ := (h.entries e).mp he
    by_cases hknown : ∃ r ∈ w.records, r.filename = e.1
    · obtain ⟨r, hr, hname⟩ := hknown
      have hd : r.state ≠ .deleting := by
        intro hs
        have := any_eq_false.mp hremoves r hr
        simp [hs, hname] at this
      have hnot := hc.partials r hr hd (by rw [hname]; exact hp)
      rw [hname, (entry_eq_some hk.entries).mpr hw, Option.any_some, hreg] at hnot
      cases hnot
    · have := h.not_swept he (ne_quarantineDir_of_isPartial hp)
        (fun r hr hname => hknown ⟨r, hr, hname⟩)
      simp [sweeps, hreg, hp] at this
  recorded e he hname := by
    obtain ⟨hw, hremoves, -⟩ := (h.entries e).mp he
    by_cases hknown : ∃ r ∈ w.records, r.filename = e.1
    · obtain ⟨r, hr, hfile⟩ := hknown
      cases hsettle : settle now w r with
      | none =>
        have hs : r.state = .deleting := by
          unfold settle at hsettle
          split at hsettle <;> first | assumption | cases hsettle
        have := any_eq_false.mp hremoves r hr
        simp [hs, hfile] at this
      | some r' =>
        refine ⟨r', h.mem_records.mpr ⟨r, hr, hsettle, hc.kept e hw hname r hr hfile⟩, ?_⟩
        rw [(settle_keys hsettle).2.1, hfile]
    · have hnone : ∀ r ∈ w.records, r.filename ≠ e.1 := fun r hr hfile => hknown ⟨r, hr, hfile⟩
      have hreg := hc.unrecorded e hw hname hnone
      have := h.not_swept he (not_quarantineDir_of_archive hname) hnone
      simp [sweeps, hreg, hname] at this
  journal j hj hp ho := by
    have hjournal := h.journal
    rw [hj] at hjournal
    split at hjournal
    · cases hjournal
    rename_i hkeep
    have hconf : w.records.any (stagedRestoreConfirmed w w.journal) = true := by
      by_contra hnone
      exact hkeep ⟨hnone, by rw [← hjournal]; simp [hp, ho]⟩
    obtain ⟨r, hr, hc⟩ := any_eq_true.mp hconf
    obtain ⟨hsettle, hold⟩ := @settle_confirmed now w r hc
    exact ⟨r, h.mem_records.mpr ⟨r, hr, hsettle, hold⟩, h.confirmed hk hr hc⟩

/-- A record that ends ready or validated is in the table, so its archive must be there. -/
theorem Finished.archive_of_settled (h : Finished now w w') (hk : w.Keyed) (hs : Settled w')
    (hr : r ∈ w.records) (hsettle : settle now w r = some r')
    (hstate : r'.state = .ready ∨ r'.state = .validated) : w.archiveIsRegular r.filename = some true := by
  have hold : expires now w r = false := by
    rw [← (settle_state hsettle).1, isExpired]
    rcases hstate with hstate | hstate <;> simp [hstate, isTerminal]
  have := hs.archives r' (h.mem_records.mpr ⟨r, hr, hsettle, hold⟩) hstate
  rwa [(settle_keys hsettle).2.1, h.archiveIsRegular hk hr (settle_not_deleting hsettle)] at this

theorem Finished.reconcilable (h : Finished now w w') (hk : w.Keyed) (hs : Settled w') : Reconcilable now w where
  rolledBack r hr hstate hnc := by
    have hsettle : settle now w r = some { rolledBack now r with reconciledAt := some now } := by
      unfold settle
      rcases hstate with hstate | hstate <;> rw [hstate] <;> simp [hnc]
    exact h.archive_of_settled hk hs hr hsettle (previousRestoreState_cases _)
  running r hr hstate hcomplete := by
    have hsettle : settle now w r = some { afterRunning now true r with reconciledAt := some now } := by
      unfold settle
      rw [hstate, hcomplete]
    exact h.archive_of_settled hk hs hr hsettle (.inl rfl)
  partials r hr hd hp := by
    cases hentry : w.entry r.filename with
    | none => rfl
    | some k =>
      by_contra hreg
      simp only [Option.any_some, Bool.not_eq_false] at hreg
      have he := h.entry_kept hk hr hd ((entry_eq_some hk.entries).mp hentry) rfl
      have := hs.partials _ he hreg
      rw [hp] at this
      cases this
  unrecorded e he hname hnone := by
    by_contra hreg
    have he' : e ∈ w'.entries := by
      refine (h.entries e).mpr ⟨he, ?_, fun hsw => ?_⟩
      · exact any_eq_false.mpr fun r hr hp => by simp [hnone r hr] at hp
      · simp [sweeps, hreg] at hsw
    obtain ⟨r', hr', hfile⟩ := hs.recorded e he' hname
    obtain ⟨r, hr, hsettle, -⟩ := h.mem_records.mp hr'
    exact hnone r hr ((settle_keys hsettle).2.1 ▸ hfile)
  kept e he hname r hr hfile := by
    by_contra hold
    rw [Bool.not_eq_false] at hold
    have hd : r.state ≠ .deleting := by
      intro hs
      simp [expires, hs] at hold
    obtain ⟨r', hr', hfile'⟩ := hs.recorded e (h.entry_kept hk hr hd he hfile) hname
    obtain ⟨x, hx, hsettle, hkeep⟩ := h.mem_records.mp hr'
    have hxr : x = r := hk.filenames.eq_of_key hx hr
      (((settle_keys hsettle).2.1 ▸ hfile').trans hfile.symm)
    rw [hxr, hold] at hkeep
    cases hkeep

end Settles

end Reconciler

open Reconciler

/-- A reconciliation that returns without an error and defers nothing reaches a settled world that a
second one leaves as it is, exactly if the world before is reconcilable. -/
theorem reconcile_settles_iff {now : Int} {io : Faults} {w w' : World} {outcome : ReconcileOutcome}
    (hk : w.Keyed) (hok : reconcileStartup now io w = .ok (w', outcome)) (hd : outcome.deferred = 0) :
    (Settled w' ∧ ∀ io', reconcileStartup now io' w' = .ok (w', {})) ↔ Reconcilable now w := by
  have h := finished hk hok hd
  constructor
  · rintro ⟨hs, -⟩
    exact h.reconcilable hk hs
  · intro hc
    have hs := h.settled hk hc
    refine ⟨hs, settled_again hs h.stale fun r' hr' => ?_⟩
    obtain ⟨r, -, hsettle, hold⟩ := h.mem_records.mp hr'
    rw [(settle_state hsettle).1, hold]

/-- A backup that was running when the server stopped, and an upload that was not finished. -/
def cutOffWorld : World where
  records := [{ id := "a", filename := "beat-a.zip", state := .running, createdAt := 0, updatedAt := 0 }]
  entries := [("beat-a.zip", .regular true), ("beat-b.zip.partial", .regular false)]

/-- The archive was complete. -/
def takenOverWorld : World where
  records := [{
    id := "a"
    filename := "beat-a.zip"
    state := .ready
    previousState := some .running
    createdAt := 0
    completedAt := some 1
    updatedAt := 1
    reconciledAt := some 1 }]
  entries := [("beat-a.zip", .regular true)]

theorem reconcile_settles_sample :
    reconcileStartup 1 {} cutOffWorld = .ok (takenOverWorld, { recovered := 1, partialRemoved := 1 }) ∧
      Settled takenOverWorld := by
  have hk : cutOffWorld.Keyed := ⟨by decide, by decide, by decide⟩
  have hc : Reconcilable 1 cutOffWorld :=
    ⟨by decide +kernel, by decide +kernel, by decide +kernel, by decide +kernel, by decide +kernel⟩
  have hok : reconcileStartup 1 {} cutOffWorld
      = .ok (takenOverWorld, { recovered := 1, partialRemoved := 1 }) := by decide +kernel
  exact ⟨hok, ((reconcile_settles_iff hk hok rfl).mpr hc).1⟩

/-- A restore is staged, and its archive has been removed from the directory. -/
def lostArchive : World where
  records := [{
    id := "a"
    filename := "beat-a.zip"
    state := .staged
    previousState := some .validated
    restoreGeneration := "g"
    createdAt := 0
    updatedAt := 0 }]
  journal := some { backupID := "a", generation := "g" }

/-- The record is validated again, without an archive. -/
def rolledBackWorld : World where
  records := [{
    id := "a"
    filename := "beat-a.zip"
    state := .validated
    createdAt := 0
    updatedAt := 1
    reconciledAt := some 1 }]

/-- The staged record is rolled back to `validated` without a look at its archive, so one
reconciliation leaves it there, and the next one changes it to `missing`. -/
theorem rolled_back_without_archive : lostArchive.Keyed ∧ reconcileStartup 1 {} lostArchive
        = .ok (rolledBackWorld, { rolledBack := 1, journalsRemoved := 1 }) ∧
      ¬ Settled rolledBackWorld ∧
      reconcileStartup 1 {} rolledBackWorld ≠ .ok (rolledBackWorld, {}) := by
  refine ⟨⟨by decide, by decide, by decide⟩, by decide +kernel, fun h => ?_, by decide +kernel⟩
  have hpresent := h.archives _ (mem_singleton_self _) (.inr rfl)
  exact absurd hpresent (by decide)

end Beat.Backup
