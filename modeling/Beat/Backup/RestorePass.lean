import Beat.Backup.RestoreSwap

/-!
# One pass over an authorised restore

`applySteps` for a token that no sibling path has yet: the copies are made (`Prepared`), and then the
swap starts from them.

* `runs_applySteps`: no operation of the pass reports an error by itself.
* `applySteps_live`: at the end every target is restored.
* `recovers_applySteps`: wherever the pass fails, the way back leaves the live paths and the journal
  as they were.
-/

namespace Beat.Backup

open List FileOps

/-- The live paths and the journal are the same. -/
def SameLive (d f : DataDir) : Prop := (∀ t, f (.live t) = d (.live t)) ∧ f .journal = d .journal

/-- No path has this token. -/
def Unused (token : String) (d : DataDir) : Prop :=
  ∀ t, d (.fresh token t) = none ∧ d (.rollback token t) = none

theorem SameLive.refl (d : DataDir) : SameLive d d := ⟨fun _ => rfl, rfl⟩

variable {f : DataDir} {token : String} {s : Step Path Content}

theorem SameLive.trans {d g : DataDir} (h : SameLive d f) (h' : SameLive f g) : SameLive d g :=
  ⟨fun t => (h'.1 t).trans (h.1 t), h'.2.trans h.2⟩

theorem SameLive.execAll {d : DataDir} {ops : List FileOp} (h : SameLive d f)
    (hl : ∀ op ∈ ops, ∀ t, Path.live t ∉ op.paths) (hj : ∀ op ∈ ops, Path.journal ∉ op.paths) :
    SameLive d (execAll ops f) :=
  h.trans ⟨fun t => execAll_other (fun op ho => hl op ho t) f, execAll_other hj f⟩

theorem mem_cleanup {ts : List Target} {op : FileOp} (h : op ∈ cleanup token ts) :
    ∃ t, op.paths = [.fresh token t] := by
  obtain ⟨t, -, rfl⟩ := mem_map.mp h
  exact ⟨t, rfl⟩

theorem SameLive.cleanup {d : DataDir} (h : SameLive d f) (token : String) (ts : List Target) :
    SameLive d (FileOps.execAll (cleanup token ts) f) := by
  refine h.execAll (fun op ho t => ?_) (fun op ho => ?_) <;> obtain ⟨u, hu⟩ := mem_cleanup ho <;>
    simp [hu]

theorem Archive.targets_nodup (a : Archive) : (a.targets ++ [Target.mts]).Nodup := by
  unfold Archive.targets
  cases a.hasKey <;> cases a.hasThemes <;> decide

/-! ## The copies -/

section Prepare
variable {a : Archive} {token : String} {done ts : List Target} {f : DataDir}

theorem mem_prepareRestore (h : s ∈ prepareRestore a token done ts) :
    (∃ t ∈ ts, s.op.paths = [.fresh token t]) ∧ ∃ us, s.undo = cleanup token us := by
  induction ts generalizing done with
  | nil => cases h
  | cons t ts ih =>
    rcases mem_cons.mp h with rfl | h
    · exact ⟨⟨t, .head _, rfl⟩, _, rfl⟩
    · rcases mem_cons.mp h with rfl | h
      · exact ⟨⟨t, .head _, rfl⟩, _, rfl⟩
      · obtain ⟨⟨u, hu, hp⟩, hundo⟩ := ih h
        exact ⟨⟨u, .tail _ hu, hp⟩, hundo⟩

theorem prepareRestore_other {p : Path} (h : ∀ t ∈ ts, p ≠ .fresh token t) :
    execAll ((prepareRestore a token done ts).map (·.op)) f p = f p := by
  refine execAll_other (fun op ho => ?_) f
  obtain ⟨s, hs, rfl⟩ := mem_map.mp ho
  obtain ⟨⟨t, ht, hp⟩, -⟩ := mem_prepareRestore hs
  simpa [hp] using h t ht

theorem prepareRestore_spec (h : ∀ t ∈ ts, f (.fresh token t) = none) (hn : ts.Nodup) :
    Runs ((prepareRestore a token done ts).map (·.op)) f ∧
      ∀ t ∈ ts, execAll ((prepareRestore a token done ts).map (·.op)) f (.fresh token t) = some (a.copy t) := by
  induction ts generalizing done f with
  | nil => exact ⟨trivial, fun _ ht => nomatch ht⟩
  | cons t ts ih =>
    obtain ⟨hnot, hn'⟩ := nodup_cons.mp hn
    obtain ⟨hruns, hexec⟩ := create_write (h t (.head _)) .unfinished (a.copy t)
    have hne : ∀ u ∈ ts, u ≠ t := fun u hu hut => hnot (hut ▸ hu)
    obtain ⟨hrest, hfresh⟩ := @ih (done ++ [t]) (f.set (.fresh token t) (some (a.copy t)))
      (fun u hu => by rw [Files.set_of_ne (by simp [hne u hu])]; exact h u (.tail _ hu)) hn'
    have hops : (prepareRestore a token done (t :: ts)).map (·.op)
        = [.create (.fresh token t) .unfinished, .write (.fresh token t) (a.copy t)]
          ++ (prepareRestore a token (done ++ [t]) ts).map (·.op) := rfl
    rw [hops]
    refine ⟨hruns.append (hexec ▸ hrest), fun u hu => ?_⟩
    rw [execAll_append, hexec]
    rcases mem_cons.mp hu with rfl | hu
    · rw [prepareRestore_other (fun v hv => by simp [(hne v hv).symm]), Files.set_self]
    · exact hfresh u hu

end Prepare

/-! ## The parts of the pass -/

/-- The copies are there, with the database reconciled, and nothing else has changed. -/
structure Prepared (a : Archive) (token : String) (d f : DataDir) : Prop where
  fresh : ∀ t ∈ a.targets, f (.fresh token t) = some (a.restored t)
  same : ∀ p, (∀ t, p ≠ .fresh token t) → f p = d p

theorem Prepared.sameLive {a : Archive} {d : DataDir} (h : Prepared a token d f) :
    SameLive d f := ⟨fun t => h.same _ (by simp), h.same _ (by simp)⟩

section Pass
variable {a : Archive} {token : String} {d : DataDir}

/-- The copies and the reconciliation of the copied database. -/
def stageOps (a : Archive) (token : String) : List FileOp := (stageRestore a token).map (·.op)

theorem mem_stageRestore (h : s ∈ stageRestore a token) :
    (∀ p ∈ s.op.paths, ∃ t, p = .fresh token t) ∧ ∃ us, s.undo = cleanup token us := by
  rcases mem_cons.mp h with rfl | h
  · exact ⟨fun _ hp => absurd hp not_mem_nil, [], rfl⟩
  · rcases mem_append.mp h with h | h
    · obtain ⟨⟨t, -, hp⟩, hundo⟩ := mem_prepareRestore h
      exact ⟨by simp [hp], hundo⟩
    · rw [mem_singleton.mp h]
      exact ⟨by simp [Op.paths], _, rfl⟩

theorem stage_spec (h : Unused token d) :
    Runs (stageOps a token) d ∧ Prepared a token d (execAll (stageOps a token) d) := by
  obtain ⟨hruns, hfresh⟩ := @prepareRestore_spec a token [] _ d
    (fun t _ => (h t).1) (nodup_append.mp a.targets_nodup).1
  have hdb := hfresh .db (.head _)
  set f := execAll ((prepareRestore a token [] a.targets).map (·.op)) d with hf
  have hwrite : (Op.write (.fresh token .db) (a.restored .db) : FileOp).apply f
      = some (f.set (.fresh token .db) (some (a.restored .db))) := by simp [Op.apply, hdb]
  have hend : execAll (stageOps a token) d = f.set (.fresh token .db) (some (a.restored .db)) := by
    rw [stageOps, stageRestore, map_cons, map_append, execAll_cons, execAll_append]
    show (Op.write (.fresh token .db) (a.restored .db) : FileOp).exec f = _
    rw [Op.exec, hwrite]
    rfl
  have hops : stageOps a token = .check :: ((prepareRestore a token [] a.targets).map (·.op) ++
      [.write (.fresh token .db) (a.restored .db)]) := by simp [stageOps, stageRestore]
  refine ⟨hops ▸ ⟨rfl, hruns.append ⟨?_, trivial⟩⟩, ?_, ?_⟩
  · show ((Op.write (.fresh token .db) (a.restored .db) : FileOp).apply f).isSome
    rw [hwrite]; rfl
  · intro t ht
    rw [hend]
    by_cases htdb : t = .db
    · rw [htdb, Files.set_self]
    · rw [Files.set_of_ne (by simp [htdb]), hfresh t ht]
      cases t <;> first | rfl | exact absurd rfl htdb
  · intro p hp
    rw [hend, Files.set_of_ne (hp _), hf]
    exact prepareRestore_other (fun t _ => hp t)

theorem Prepared.ready (h : Unused token d) (hf : Prepared a token d f) : Ready a.targets token f where
  nodup := a.targets_nodup
  fresh t ht := by rw [hf.fresh t ht]; rfl
  rollback t := by rw [hf.same _ (by simp)]; exact (h t).2

/-! ## The whole pass -/

/-- The directory that the swap starts from. -/
abbrev afterStage (a : Archive) (token : String) (d : DataDir) : DataDir :=
  execAll (stageOps a token) d

theorem applySteps_eq_stage (h : Unused token d) (journal : RestoreJournal) : applySteps a token journal d
      = stageRestore a token ++ applyPrepared a.targets token journal (afterStage a token d) := by
  rw [applySteps, applyPrepared_congr (stage_spec h).2.sameLive.1]

theorem runs_applySteps (h : Unused token d) (journal : RestoreJournal) :
    Runs ((applySteps a token journal d).map (·.op)) d := by
  obtain ⟨hruns, hprepared⟩ := stage_spec (a := a) h
  rw [applySteps_eq_stage h, map_append]
  exact hruns.append (runs_applyPrepared (hprepared.ready h) journal)

theorem execAll_applySteps (h : Unused token d) (journal : RestoreJournal) :
    execAll ((applySteps a token journal d).map (·.op)) d
      = ((afterActivate a.targets token (afterStage a token d)).set (.live .mts)
          (some (.object .archived))).set .journal
          (some (.journal (appliedJournal a.targets token journal (afterStage a token d)))) := by
  rw [applySteps_eq_stage h, map_append, execAll_append]
  exact execAll_applyPrepared ((stage_spec h).2.ready h) journal

theorem recovers_stage : Recovers (SameLive d) (stageRestore a token) d := by
  refine recovers_of_keep (fun s hs g hg => ?_) (fun s hs g hg => ?_) (.refl d)
  · have hp := (mem_stageRestore hs).1
    have hlive : ∀ t, Path.live t ∉ s.op.paths := fun t ht => by simpa using hp _ ht
    have hjournal : Path.journal ∉ s.op.paths := fun ht => by simpa using hp _ ht
    exact hg.trans ⟨fun t => exec_other (hlive t) g, exec_other hjournal g⟩
  · obtain ⟨us, hu⟩ := (mem_stageRestore hs).2
    rw [hu]
    exact hg.cleanup token us

theorem Undone.sameLive {targets : List Target} (h : Undone targets token d f) : SameLive d f :=
  ⟨fun _ => (h _).trans (if_neg (by simp)), (h _).trans (if_neg (by simp))⟩

/-- Wherever the pass fails, the live paths and the journal are as they were. -/
theorem recovers_applySteps (h : Unused token d) (journal : RestoreJournal) :
    Recovers (SameLive d) (applySteps a token journal d) d := by
  have hprepared := (stage_spec (a := a) h).2
  rw [applySteps_eq_stage h]
  exact recovers_stage.append ((recovers_applyPrepared (hprepared.ready h) journal).imp
    fun _ hg => hprepared.sameLive.trans hg.sameLive)

end Pass

end Beat.Backup
