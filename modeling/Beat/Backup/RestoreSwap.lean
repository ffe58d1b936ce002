import Beat.Backup.Restore

/-!
# The swap of a restore

`applyPrepared` moves the live paths away, makes the copies live, imports the metrics and writes the
journal, for any list of targets whose copies are there (`Ready`). What the directory holds after the
live paths are moved away is `Preserved`, after the copies are made live `Activated`.

* `runs_applyPrepared`: no operation of the swap reports an error by itself.
* `recovers_applyPrepared`: wherever the swap fails, the way back leaves the directory as it was,
  without the copies.
* `failed_restore_undone`: the outcome of the swap, for an operation that fails anywhere in it.
-/

namespace Beat.Backup

open List FileOps

theorem apart_preserve (token : String) : Apart Path.live (Path.rollback token) :=
  ⟨fun _ _ h => Path.live.inj h, fun _ _ h => (Path.rollback.inj h).2, fun _ _ h => nomatch h⟩

theorem apart_activate (token : String) : Apart (Path.fresh token) Path.live :=
  ⟨fun _ _ h => (Path.fresh.inj h).2, fun _ _ h => Path.live.inj h, fun _ _ h => nomatch h⟩

/-- The targets are different paths, each has its copy, and no rollback path has the token. -/
structure Ready (targets : List Target) (token : String) (d : DataDir) : Prop where
  nodup : (targets ++ [Target.mts]).Nodup
  fresh : ∀ t ∈ targets, (d (.fresh token t)).isSome
  rollback : ∀ t, d (.rollback token t) = none

/-- The directory is as before, but the copies are removed. -/
def Undone (targets : List Target) (token : String) (d f : DataDir) : Prop :=
  ∀ p, f p = if p ∈ targets.map (Path.fresh token) then none else d p

section Swap
variable {targets : List Target} {token : String} {journal : RestoreJournal} {d : DataDir}

theorem Ready.mts_not_target (h : Ready targets token d) : Target.mts ∉ targets :=
  fun hm => (nodup_append.mp h.nodup).2.2 _ hm _ (.head _) rfl

theorem cleanup_spec (token : String) (targets : List Target) (d : DataDir) :
    Undone targets token d (execAll (cleanup token targets) d) := by
  induction targets generalizing d with
  | nil => intro p; simp [cleanup]
  | cons t ts ih =>
    intro p
    have hremove : (Op.remove (.fresh token t) : FileOp).exec d = d.set (.fresh token t) none := rfl
    show execAll (cleanup token ts) ((Op.remove (.fresh token t) : FileOp).exec d) p = _
    rw [hremove, ih _ p, map_cons]
    by_cases hts : p ∈ ts.map (Path.fresh token)
    · rw [if_pos hts, if_pos (mem_cons_of_mem _ hts)]
    · rw [if_neg hts]
      by_cases hp : p = .fresh token t
      · rw [hp, Files.set_self, if_pos (mem_cons_self ..)]
      · rw [Files.set_of_ne hp, if_neg (by simp [hp] at hts ⊢; exact hts)]

/-! ## The parts of the swap -/

/-- The live paths of the targets and of the metric store are free and kept at the rollback paths. -/
structure Preserved (targets : List Target) (token : String) (d f : DataDir) : Prop where
  fresh : ∀ t, f (.fresh token t) = d (.fresh token t)
  gone : ∀ t ∈ targets ++ [.mts], f (.live t) = none
  kept : ∀ t ∉ targets ++ [.mts], f (.live t) = d (.live t)
  rollback : ∀ t ∈ targets ++ [.mts], f (.rollback token t) = d (.live t)

/-- The targets are restored, the metric store is still missing. -/
structure Activated (targets : List Target) (token : String) (d f : DataDir) : Prop where
  restored : ∀ t ∈ targets, f (.live t) = d (.fresh token t)
  noMetrics : f (.live .mts) = none
  kept : ∀ t ∉ targets ++ [.mts], f (.live t) = d (.live t)
  rollback : ∀ t ∈ targets ++ [.mts], f (.rollback token t) = d (.live t)

/-- The directories between the parts of the swap. -/
abbrev afterPreserve (targets : List Target) (token : String) (d : DataDir) : DataDir :=
  execAll (moveAll .live (.rollback token) (movedOld targets d)) d

abbrev afterActivate (targets : List Target) (token : String) (d : DataDir) : DataDir :=
  execAll (moveAll (.fresh token) .live targets) (afterPreserve targets token d)

theorem movable_preserve (h : Ready targets token d) :
    Movable Path.live (Path.rollback token) (movedOld targets d) d where
  nodup := h.nodup.filter _
  present _ ht := (mem_filter.mp ht).2
  absent t _ := h.rollback t

theorem preserved (h : Ready targets token d) : Preserved targets token d (afterPreserve targets token d) where
  fresh t := moveAll_other (by simp) d
  gone t ht := by
    by_cases hmoved : t ∈ movedOld targets d
    · exact (moveAll_moved (apart_preserve token) (movable_preserve h) hmoved).2
    · have hnone : d (.live t) = none := by
        by_contra hsome
        exact hmoved (mem_filter.mpr ⟨ht, Option.isSome_iff_ne_none.mpr hsome⟩)
      rw [moveAll_other, hnone]
      intro u hu
      refine ⟨fun heq => hmoved ?_, by simp⟩
      rwa [Path.live.inj heq]
  kept t ht := by
    refine moveAll_other (fun u hu => ⟨fun heq => ht ?_, by simp⟩) d
    rw [Path.live.inj heq]
    exact (mem_filter.mp hu).1
  rollback t ht := by
    by_cases hmoved : t ∈ movedOld targets d
    · exact (moveAll_moved (apart_preserve token) (movable_preserve h) hmoved).1
    · have hnone : d (.live t) = none := by
        by_contra hsome
        exact hmoved (mem_filter.mpr ⟨ht, Option.isSome_iff_ne_none.mpr hsome⟩)
      rw [moveAll_other, hnone, h.rollback]
      intro u hu
      refine ⟨by simp, fun heq => hmoved ?_⟩
      rwa [(Path.rollback.inj heq).2]

theorem movable_activate (h : Ready targets token d) :
    Movable (Path.fresh token) Path.live targets (afterPreserve targets token d) where
  nodup := (nodup_append.mp h.nodup).1
  present t ht := by
    rw [(preserved h).fresh t]
    exact h.fresh t ht
  absent t ht := (preserved h).gone t (mem_append_left _ ht)

theorem activated (h : Ready targets token d) : Activated targets token d (afterActivate targets token d) where
  restored t ht := by
    rw [(moveAll_moved (apart_activate token) (movable_activate h) ht).1]
    exact (preserved h).fresh t
  noMetrics := by
    rw [moveAll_other]
    · exact (preserved h).gone .mts (mem_append_right _ (.head _))
    · intro u hu
      exact ⟨by simp, fun heq => h.mts_not_target (Path.live.inj heq ▸ hu)⟩
  kept t ht := by
    rw [moveAll_other]
    · exact (preserved h).kept t ht
    · intro u hu
      exact ⟨by simp, fun heq => ht (Path.live.inj heq ▸ mem_append_left _ hu)⟩
  rollback t ht := by
    rw [moveAll_other (by simp)]
    exact (preserved h).rollback t ht

/-! ## The whole swap -/

/-- The metric store, the last check and the journal. -/
def finishOps (targets : List Target) (token : String) (journal : RestoreJournal) (d : DataDir) : List FileOp :=
  [.create (.live .mts) .unfinished, .write (.live .mts) (.object .archived), .check,
    .replace .journal (.journal (appliedJournal targets token journal d))]

theorem applyPrepared_ops (targets : List Target) (token : String) (journal : RestoreJournal)
    (d : DataDir) : (applyPrepared targets token journal d).map (·.op) = (preserveOld targets token d).map (·.op) ++
        (moveAll (.fresh token) .live targets ++ finishOps targets token journal d) := by
  simp [applyPrepared, activateTargets, importMetrics, completeRestore, finishOps]

theorem execAll_preserveOld (targets : List Target) (token : String) (d : DataDir) :
    execAll ((preserveOld targets token d).map (·.op)) d = afterPreserve targets token d :=
  execAll_lookSteps ..

theorem finish_spec (targets : List Target) (token : String) (journal : RestoreJournal) (d : DataDir)
    {f : DataDir} (hf : f (.live .mts) = none) : Runs (finishOps targets token journal d) f ∧
      execAll (finishOps targets token journal d) f = (f.set (.live .mts) (some (.object .archived))).set .journal
            (some (.journal (appliedJournal targets token journal d))) := by
  obtain ⟨hruns, hexec⟩ := create_write hf .unfinished (.object .archived)
  have hops : finishOps targets token journal d
      = [.create (.live .mts) .unfinished, .write (.live .mts) (.object .archived)]
        ++ [.check, .replace .journal (.journal (appliedJournal targets token journal d))] := rfl
  rw [hops, execAll_append, hexec]
  exact ⟨hruns.append ⟨rfl, rfl, trivial⟩, rfl⟩

section

variable (h : Ready targets token d)

include h

theorem runs_applyPrepared (journal : RestoreJournal) :
    Runs ((applyPrepared targets token journal d).map (·.op)) d := by
  rw [applyPrepared_ops]
  have hpreserve : Runs ((preserveOld targets token d).map (·.op)) d :=
    runs_lookSteps (apart_preserve token) (movable_preserve h)
  refine hpreserve.append ?_
  rw [execAll_preserveOld]
  exact (movable_activate h).runs (apart_activate token) |>.append
    (finish_spec targets token journal d (activated h).noMetrics).1

theorem execAll_applyPrepared (journal : RestoreJournal) :
    execAll ((applyPrepared targets token journal d).map (·.op)) d
      = ((afterActivate targets token d).set (.live .mts) (some (.object .archived))).set .journal
          (some (.journal (appliedJournal targets token journal d))) := by
  rw [applyPrepared_ops, execAll_append, execAll_preserveOld, execAll_append,
    (finish_spec targets token journal d (activated h).noMetrics).2]

/-! ## The ways back -/

theorem restoreOld_spec : execAll (restoreOld token (movedOld targets d)) (afterPreserve targets token d) = d :=
  moveAll_back (apart_preserve token) (movable_preserve h)

theorem undoSwap_spec :
    execAll (undoSwap token targets (movedOld targets d)) (afterActivate targets token d) = d := by
  rw [undoSwap, execAll_append, moveAll_back (apart_activate token) (movable_activate h), restoreOld_spec h]

/-- After the swap the way back removes the metric store first, whatever it holds by then. -/
theorem rollbackApplied_spec {f : DataDir} (hf : f.set (.live .mts) none = afterActivate targets token d) :
    Undone targets token d (execAll (rollbackApplied targets token d) f) := by
  have hremove : (Op.remove (.live .mts) : FileOp).exec f = afterActivate targets token d := hf
  rw [rollbackApplied, execAll_cons, hremove, execAll_append, undoSwap_spec h]
  exact cleanup_spec token targets d

theorem recovers_finish (journal : RestoreJournal) : Recovers (Undone targets token d)
      (importMetrics targets token d ++ completeRestore targets token journal d) (afterActivate targets token d) := by
  have hnone := (activated h).noMetrics
  have hcreate : (Op.create (.live .mts) .unfinished : FileOp).exec (afterActivate targets token d)
      = (afterActivate targets token d).set (.live .mts) (some .unfinished) := by
    simp [Op.exec, Op.apply, hnone]
  have hwrite : (Op.write (.live .mts) (.object .archived) : FileOp).exec
      ((afterActivate targets token d).set (.live .mts) (some .unfinished))
      = (afterActivate targets token d).set (.live .mts) (some (.object .archived)) := by
    simp [Op.exec, Op.apply, Files.set_set]
  have hback : ∀ v, Undone targets token d (execAll (rollbackApplied targets token d)
      ((afterActivate targets token d).set (.live .mts) v)) := fun v =>
    rollbackApplied_spec h (by rw [Files.set_set, Files.set_eq_self hnone])
  refine ⟨?_, ?_, ?_, ?_, trivial⟩
  · exact rollbackApplied_spec h (Files.set_eq_self hnone)
  · rw [hcreate]; exact hback _
  · rw [hcreate, hwrite]; exact hback _
  · rw [hcreate, hwrite]; exact hback _

/-- Wherever the swap fails, the directory is as it was, without the copies. -/
theorem recovers_applyPrepared (journal : RestoreJournal) :
    Recovers (Undone targets token d) (applyPrepared targets token journal d) d := by
  have hpreserve : Recovers (Undone targets token d) (preserveOld targets token d) d :=
    recovers_lookSteps (apart_preserve token) (movable_preserve h) (cleanup_spec token targets d)
  have hactivate : Recovers (Undone targets token d) (activateTargets targets token d)
      (afterPreserve targets token d) := by
    refine recovers_moveSteps (apart_activate token) (movable_activate h) ?_
    rw [execAll_append, restoreOld_spec h]
    exact cleanup_spec token targets d
  refine hpreserve.append ?_
  rw [execAll_preserveOld]
  refine hactivate.append ?_
  rw [activateTargets, moveSteps_ops]
  exact recovers_finish h journal

end

/-- Which targets are moved depends on the live paths alone. -/
theorem applyPrepared_congr {f : DataDir} (h : ∀ t, f (.live t) = d (.live t)) :
    applyPrepared targets token journal f = applyPrepared targets token journal d := by
  have hlive : (fun t => (f (.live t)).isSome) = fun t => (d (.live t)).isSome :=
    funext fun t => by rw [h t]
  have hmoved : movedOld targets f = movedOld targets d := by rw [movedOld, hlive]; rfl
  simp only [applyPrepared, preserveOld, activateTargets, importMetrics, completeRestore,
    rollbackApplied, appliedJournal, rollbackOf, hlive, hmoved]

end Swap

/-! ## The outcome of a restore -/

/-- The operations of `applyValidated` from the swap on, and whether it returns without an error. -/
def applyValidated (targets : List Target) (token : String) (journal : RestoreJournal)
    (fault : Option Nat) (d : DataDir) : List FileOp × Bool :=
  script fault (applyPrepared targets token journal d) d

/-- A restore with a failing operation anywhere in the swap returns an error, and leaves every live path
and the journal as they were, no copy, and no rollback path. One that returns without an error leaves the
copies live, what was live before at the rollback paths, and the journal applied with the rollback paths. -/
theorem failed_restore_undone {targets : List Target} {token : String} {journal : RestoreJournal}
    {fault : Option Nat} {d : DataDir} (h : Ready targets token d)
    (hj : d .journal = some (.journal journal)) : ((applyValidated targets token journal fault d).2 = false →
      (∀ t, execAll (applyValidated targets token journal fault d).1 d (.live t) = d (.live t)) ∧
      (∀ t ∈ targets, execAll (applyValidated targets token journal fault d).1 d (.fresh token t) = none) ∧
      (∀ t, execAll (applyValidated targets token journal fault d).1 d (.rollback token t) = none) ∧
      execAll (applyValidated targets token journal fault d).1 d .journal = some (.journal journal)) ∧
    ((applyValidated targets token journal fault d).2 = true →
      (∀ t ∈ targets, execAll (applyValidated targets token journal fault d).1 d (.live t)
        = d (.fresh token t)) ∧ execAll (applyValidated targets token journal fault d).1 d (.live .mts)
        = some (.object .archived) ∧ (∀ t ∈ targets ++ [.mts],
        execAll (applyValidated targets token journal fault d).1 d (.rollback token t) = d (.live t)) ∧
      execAll (applyValidated targets token journal fault d).1 d .journal = some (.journal { journal with
            state := .applied
            sqliteRollback := if Target.db ∈ targets ∧ (d (.live .db)).isSome then
              some (.rollback token .db) else none
            mtsRollback := if (d (.live .mts)).isSome then
              some (.rollback token .mts) else none })) ∧
    (fault = none → (applyValidated targets token journal fault d).2 = true) ∧
    ∀ n < (applyPrepared targets token journal d).length, fault = some n →
      (applyValidated targets token journal fault d).2 = false := by
  refine ⟨fun hok => ?_, fun hok => ?_, fun hfault => ?_, fun n hn hfault => hfault ▸ script_fault hn d⟩
  · have hundone := script_recovers (recovers_applyPrepared h journal) hok
    refine ⟨fun t => ?_, fun t ht => ?_, fun t => ?_, ?_⟩
    · exact (hundone _).trans (if_neg (by simp))
    · exact (hundone _).trans (if_pos (mem_map_of_mem ht))
    · exact (hundone _).trans ((if_neg (by simp)).trans (h.rollback t))
    · exact (hundone _).trans ((if_neg (by simp)).trans hj)
  · have hact := activated h
    have hend : execAll (applyValidated targets token journal fault d).1 d
        = ((afterActivate targets token d).set (.live .mts) (some (.object .archived))).set .journal
            (some (.journal (appliedJournal targets token journal d))) := by
      rw [applyValidated, script_true hok, execAll_applyPrepared h]
    rw [hend]
    refine ⟨fun t ht => ?_, ?_, fun t ht => ?_, ?_⟩
    · have hne : t ≠ .mts := fun heq => h.mts_not_target (heq ▸ ht)
      rw [Files.set_of_ne (by simp), Files.set_of_ne (by simp [hne]), hact.restored t ht]
    · rw [Files.set_of_ne (by simp), Files.set_self]
    · rw [Files.set_of_ne (by simp), Files.set_of_ne (by simp), hact.rollback t ht]
    · rw [Files.set_self]
      simp [appliedJournal, rollbackOf, movedOld, h.mts_not_target]
  · rw [applyValidated, hfault, script_ok (runs_applyPrepared h journal)]

/-- A directory with the copies of a database, a key, `geoip` and a path of no archive; the key and
that path are not live. -/
def preparedDir : DataDir where
  get
    | .live .db => some (.database .before none)
    | .live .geoip => some (.object .before)
    | .live .mts => some (.object .before)
    | .fresh "1" .db => some (.database .reconciled none)
    | .fresh "1" .key => some (.object .archived)
    | .fresh "1" .geoip => some (.object .archived)
    | .fresh "1" (.other "plugins" true) => some (.object .archived)
    | .journal => some (.journal { generation := "g" })
    | _ => none

theorem failed_restore_undone_sample :
    (applyValidated [.db, .key, .geoip, .other "plugins" true] "1" { generation := "g" } (some 9)
        preparedDir).2 = false ∧
      execAll (applyValidated [.db, .key, .geoip, .other "plugins" true] "1" { generation := "g" }
        (some 9) preparedDir).1 preparedDir (.live .db) = some (.database .before none) := by
  have hready : Ready [.db, .key, .geoip, .other "plugins" true] "1" preparedDir :=
    ⟨by decide, by decide +kernel, fun _ => rfl⟩
  have hfailed : (applyValidated [.db, .key, .geoip, .other "plugins" true] "1"
      { generation := "g" } (some 9) preparedDir).2 = false := by decide +kernel
  exact ⟨hfailed, ((failed_restore_undone hready rfl).1 hfailed).1 .db⟩

end Beat.Backup
