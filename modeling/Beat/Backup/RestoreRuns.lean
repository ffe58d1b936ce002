import Beat.Backup.RestorePass
import Beat.Lib.Run

/-!
# Starts that crash while a restore is applied

The server is started again and again on a data directory with a pending restore, and the process
may die in each start. `CarefulStart` says that it does not die between the first and the last operation
on a live path. The authorisation of the restore is read from the live database, which is the first
path to be moved away, so a process that dies later is not taken up again.

* `pass_crash`: a careful crash leaves the live paths and the journal as they were, or all restored.
* `Phase`: the invariant of careful starts; `Phase.start`: a start keeps it.
* `restore_atomic`: every start that returns from the restore serves the restored directory.
* `torn_restore_serves_empty`: a crash right after the database was moved away is followed by a start
  on an empty database, and the journal is discarded.
-/

namespace Beat.Backup

open List FileOps

/-! ## Which operations name the journal -/

/-- No operation names the journal. -/
def NoJournal (ops : List FileOp) : Prop := ∀ op ∈ ops, Path.journal ∉ op.paths

theorem NoJournal.append {xs ys : List FileOp} (hx : NoJournal xs) (hy : NoJournal ys) :
    NoJournal (xs ++ ys) := fun op ho => (mem_append.mp ho).elim (hx op) (hy op)

theorem noJournal_cleanup (token : String) (ts : List Target) : NoJournal (cleanup token ts) := by
  intro op ho
  obtain ⟨t, hp⟩ := mem_cleanup ho
  simp [hp]

theorem noJournal_moveAll {src dst : Target → Path} (hs : ∀ t, Path.journal ≠ src t)
    (hd : ∀ t, Path.journal ≠ dst t) (ts : List Target) : NoJournal (moveAll src dst ts) := by
  intro op ho
  obtain ⟨t, -, rfl⟩ := mem_map.mp ho
  simp [Op.paths, hs, hd]

theorem noJournal_restoreOld (token : String) (ts : List Target) :
    NoJournal (restoreOld token ts) := noJournal_moveAll (by simp) (by simp) _

theorem noJournal_rollbackApplied (targets : List Target) (token : String) (d : DataDir) :
    NoJournal (rollbackApplied targets token d) := by
  have hundo : NoJournal (undoSwap token targets (movedOld targets d) ++ cleanup token targets) :=
    ((noJournal_moveAll (by simp) (by simp) _).append (noJournal_restoreOld token _)).append
      (noJournal_cleanup token _)
  intro op ho
  rcases mem_cons.mp ho with rfl | ho
  · simp [Op.paths]
  · exact hundo op ho

/-- The steps of a pass but the last one, which writes the journal. -/
def swapSteps (a : Archive) (token : String) (d : DataDir) : List (Step Path Content) :=
  stageRestore a token ++ (preserveOld a.targets token d ++ (activateTargets a.targets token d ++
    (importMetrics a.targets token d ++ [⟨.check, rollbackApplied a.targets token d⟩])))

theorem applySteps_eq (a : Archive) (token : String) (journal : RestoreJournal) (d : DataDir) :
    applySteps a token journal d = swapSteps a token d ++
      [⟨.replace .journal (.journal (appliedJournal a.targets token journal d)),
        rollbackApplied a.targets token d⟩] := by
  simp [applySteps, applyPrepared, swapSteps, completeRestore]

section MoveSteps
variable {src dst : Target → Path} {after : List FileOp} {done ts : List Target}
  {s : Step Path Content}

theorem noJournal_moveSteps (hs : ∀ t, Path.journal ≠ src t) (hd : ∀ t, Path.journal ≠ dst t)
    (ha : NoJournal after) (h : s ∈ moveSteps src dst after done ts) :
    Path.journal ∉ s.op.paths ∧ NoJournal s.undo := by
  induction ts generalizing done with
  | nil => cases h
  | cons t ts ih =>
    rcases mem_cons.mp h with rfl | h
    · exact ⟨by simp [Op.paths, hs, hd], (noJournal_moveAll hd hs _).append ha⟩
    · exact ih h

theorem noJournal_lookSteps {here : Target → Bool} (hs : ∀ t, Path.journal ≠ src t)
    (hd : ∀ t, Path.journal ≠ dst t) (ha : NoJournal after) (h : s ∈ lookSteps here src dst after done ts) :
    Path.journal ∉ s.op.paths ∧ NoJournal s.undo := by
  induction ts generalizing done with
  | nil => cases h
  | cons t ts ih =>
    have hback := fun us => (noJournal_moveAll hd hs us).append ha
    rcases mem_cons.mp h with rfl | h
    · exact ⟨by simp [Op.paths], hback _⟩
    · split at h
      · rcases mem_cons.mp h with rfl | h
        · exact ⟨by simp [Op.paths, hs, hd], hback _⟩
        · exact ih h
      · exact ih h

end MoveSteps

variable {d f d₀ : DataDir} {a : Archive} {generation : String} {s : Start}

theorem noJournal_swapSteps {token : String} {s : Step Path Content} (h : s ∈ swapSteps a token d) :
    Path.journal ∉ s.op.paths ∧ NoJournal s.undo := by
  have hback := noJournal_rollbackApplied a.targets token d
  have hclean := noJournal_cleanup token a.targets
  simp only [swapSteps, mem_append] at h
  rcases h with h | h | h | h | h
  · obtain ⟨hp, us, hu⟩ := mem_stageRestore h
    exact ⟨fun hj => by simpa using hp _ hj, hu ▸ noJournal_cleanup token us⟩
  · exact noJournal_lookSteps (by simp) (by simp) hclean h
  · exact noJournal_moveSteps (by simp) (by simp) ((noJournal_restoreOld token _).append hclean) h
  · simp only [importMetrics, mem_cons, not_mem_nil, or_false] at h
    rcases h with rfl | rfl
    · exact ⟨by simp [Op.paths], hback⟩
    · exact ⟨by simp [Op.paths], hback⟩
  · rw [mem_singleton.mp h]
    exact ⟨by simp [Op.paths], hback⟩

/-! ## A pass that crashes -/

def Path.isLive : Path → Bool
  | .live _ => true
  | _ => false

/-- The operations name no live path. -/
def Quiet (ops : List FileOp) : Prop := ∀ op ∈ ops, op.paths.any Path.isLive = false

instance (ops : List FileOp) : Decidable (Quiet ops) := decidableBAll _ ops

theorem Quiet.execAll {ops : List FileOp} (h : Quiet ops) (f : DataDir) (t : Target) :
    execAll ops f (.live t) = f (.live t) := by
  refine execAll_other (fun op ho hlive => ?_) f
  have := any_eq_false.mp (h op ho) _ hlive
  exact this rfl

section Pass
variable {a : Archive} {token : String} {d : DataDir} {journal : RestoreJournal} {fault : Option Nat}

/-- The operations of one pass, and whether it ends without an error. -/
abbrev pass (a : Archive) (token : String) (journal : RestoreJournal) (fault : Option Nat) (d : DataDir) :
    List FileOp × Bool := script fault (applySteps a token journal d) d

/-- What a pass without an error leaves at the live paths. -/
def PassRestored (a : Archive) (d f : DataDir) : Prop :=
  ∀ t, f (.live t) = if t ∈ a.targets ∨ t = .mts then some (a.restored t) else d (.live t)

/-- The journal changes with the last operation of a pass without an error, and not before. -/
theorem pass_journal (n : Nat) : execAll ((pass a token journal fault d).1.take n) d .journal = d .journal ∨
      ((pass a token journal fault d).2 = true ∧ (pass a token journal fault d).1.take n
          = (applySteps a token journal d).map (·.op)) := by
  cases hok : (pass a token journal fault d).2 with
  | false =>
    refine .inl (execAll_other (fun op ho => ?_) d)
    rcases mem_script_false hok (mem_of_mem_take ho) with ⟨s, hs, rfl⟩ | ⟨s, hs, hu⟩
    · rw [applySteps_eq, dropLast_concat] at hs
      exact (noJournal_swapSteps hs).1
    · rw [applySteps_eq] at hs
      rcases mem_append.mp hs with hs | hs
      · exact (noJournal_swapSteps hs).2 op hu
      · rw [mem_singleton.mp hs] at hu
        exact noJournal_rollbackApplied a.targets token d op hu
  | true =>
    rw [script_true hok, applySteps_eq, map_append]
    by_cases hn : n ≤ ((swapSteps a token d).map (·.op)).length
    · rw [take_append_of_le_length hn]
      refine .inl (execAll_other (fun op ho => ?_) d)
      obtain ⟨s, hs, rfl⟩ := mem_map.mp (mem_of_mem_take ho)
      exact (noJournal_swapSteps hs).1
    · refine .inr ⟨rfl, take_of_length_le ?_⟩
      rw [length_append, map_singleton, length_singleton]
      omega

theorem not_quiet_applySteps : ¬ Quiet ((applySteps a token journal d).map (·.op)) := by
  intro hq
  have hmem : Op.rename (.fresh token .db) (.live .db) ∈ (applySteps a token journal d).map (·.op) := by
    rw [applySteps, map_append, applyPrepared_ops]
    exact mem_append_right _ (mem_append_right _ (mem_append_left _ (.head _)))
  exact absurd (hq _ hmem) (by simp [Op.paths, Path.isLive])

theorem pass_true (h : Unused token d) (hok : (pass a token journal fault d).2 = true) :
    PassRestored a d (execAll (pass a token journal fault d).1 d) := by
  rw [script_true hok]
  intro t
  have hprepared := (stage_spec (a := a) h).2
  have hact := activated (hprepared.ready h)
  rw [execAll_applySteps h, Files.set_of_ne (by simp)]
  by_cases hmts : t = .mts
  · rw [if_pos (.inr hmts), hmts, Files.set_self]
    rfl
  · rw [Files.set_of_ne (by simp [hmts])]
    by_cases htarget : t ∈ a.targets
    · rw [if_pos (.inl htarget), hact.restored t htarget, hprepared.fresh t htarget]
    · rw [if_neg (by simp [htarget, hmts]), hact.kept t (by simp [htarget, hmts]), hprepared.sameLive.1 t]

theorem pass_false (h : Unused token d) (hok : (pass a token journal fault d).2 = false) :
    SameLive d (execAll (pass a token journal fault d).1 d) :=
  script_recovers (recovers_applySteps h journal) hok

theorem pass_crash (h : Unused token d) {n : Nat} (hq : Quiet ((pass a token journal fault d).1.take n) ∨
      Quiet ((pass a token journal fault d).1.drop n)) :
    SameLive d (execAll ((pass a token journal fault d).1.take n) d) ∨
      PassRestored a d (execAll ((pass a token journal fault d).1.take n) d) := by
  have hwhole : ∀ t, Quiet ((pass a token journal fault d).1.drop n) →
      execAll ((pass a token journal fault d).1.take n) d (.live t)
        = execAll (pass a token journal fault d).1 d (.live t) := fun t hdrop => by
    rw [← hdrop.execAll, ← execAll_append, take_append_drop]
  cases hok : (pass a token journal fault d).2 with
  | false =>
    -- The way back has been taken: it names no journal, and the live paths end as they began.
    have hj := (@pass_journal a token d journal fault n).resolve_right
      (fun hr => by rw [hok] at hr; exact absurd hr.1 (by simp))
    refine .inl ⟨fun t => ?_, hj⟩
    rcases hq with hq | hq
    · exact hq.execAll d t
    · rw [hwhole t hq]
      exact (pass_false h hok).1 t
  | true =>
    rcases hq with hq | hq
    · rcases @pass_journal a token d journal fault n with hj | ⟨-, hall⟩
      · exact .inl ⟨fun t => hq.execAll d t, hj⟩
      · exact absurd (hall ▸ hq) not_quiet_applySteps
    · refine .inr fun t => ?_
      rw [hwhole t hq]
      exact pass_true h hok t

/-- The journal, if there is one, can be read. -/
def JournalOk (d : DataDir) : Prop := ∀ c, d .journal = some c → ∃ j, c = .journal j

theorem pass_journalOk (h : Unused token d) (hj : JournalOk d) (n : Nat) :
    JournalOk (execAll ((pass a token journal fault d).1.take n) d) := by
  intro c hc
  rcases @pass_journal a token d journal fault n with hsame | ⟨-, hall⟩
  · exact hj c (hsame ▸ hc)
  · rw [hall, execAll_applySteps h, Files.set_self] at hc
    exact ⟨_, (Option.some.inj hc).symm⟩

end Pass

/-! ## The directories that careful starts reach -/

/-- What the restore puts at a live path. -/
def Content.isRestored : Target → Content → Bool
  | .db, .database .reconciled _ => true
  | .db, _ => false
  | _, c => c = .object .archived

theorem isRestored_restored (a : Archive) (t : Target) : (a.restored t).isRestored t = true := by
  cases t <;> rfl

/-- The live paths are those before the restore. -/
def BeforeRestore (d₀ d : DataDir) : Prop := ∀ t, d (.live t) = d₀ (.live t)

/-- Every path that the archive restores is restored; the others are as before. -/
def Restored (a : Archive) (d₀ d : DataDir) : Prop :=
  ∀ t, if t ∈ a.targets ∨ t = .mts then (d (.live t)).any (Content.isRestored t) = true
    else d (.live t) = d₀ (.live t)

/-- A pending restore that the staged row of the live database authorises. -/
structure PendingRestore (generation : String) (d : DataDir) : Prop where
  ne : generation ≠ ""
  journal : d .journal = some (.journal { generation := generation })
  staged : ∃ row, d (.live .db) = some (.database .before (some row)) ∧ row.state = .staged ∧
    row.restoreGeneration = generation

/-- The token of the start is new, and its process does not die between the first and the last
operation on a live path. -/
structure CarefulStart (a : Archive) (s : Start) (d : DataDir) : Prop where
  token : Unused s.token d
  crash : ∀ n, s.crash = some n →
    Quiet ((applyPending a s d).1.take n) ∨ Quiet ((applyPending a s d).1.drop n)

def Restart (a : Archive) (d : DataDir) (s : Start) (d' : DataDir) : Prop :=
  CarefulStart a s d ∧ d' = startServer a s d

/-- Nothing has happened yet, or everything. -/
def Phase (a : Archive) (d₀ d : DataDir) : Prop :=
  SameLive d₀ d ∨ (Restored a d₀ d ∧ JournalOk d)

theorem Restored.of_live (h : Restored a d₀ d) (hf : ∀ t, f (.live t) = d (.live t)) : Restored a d₀ f := fun t => by
  rw [hf t]
  exact h t

theorem PassRestored.restored (h : PassRestored a d f) (hd : BeforeRestore d₀ d ∨ Restored a d₀ d) :
    Restored a d₀ f := by
  intro t
  rw [h t]
  by_cases ht : t ∈ a.targets ∨ t = .mts
  · rw [if_pos ht, if_pos ht, Option.any_some, isRestored_restored]
  · rw [if_neg ht, if_neg ht]
    rcases hd with hd | hd
    · exact hd t
    · have := hd t
      rwa [if_neg ht] at this

theorem Phase.live (h : Phase a d₀ d) : BeforeRestore d₀ d ∨ Restored a d₀ d := h.imp (·.1) (·.1)

theorem Phase.journalOk (h : Phase a d₀ d) (h₀ : PendingRestore generation d₀) : JournalOk d := by
  rcases h with h | h
  · intro c hc
    rw [h.2, h₀.journal] at hc
    exact ⟨_, (Option.some.inj hc).symm⟩
  · exact h.2

/-- A live directory as before the restore is authorised. -/
theorem authorized_of_sameLive (h₀ : PendingRestore generation d₀) (h : SameLive d₀ d) :
    restoreAuthorized (d (.live .db)) { generation := generation } = true := by
  obtain ⟨row, hdb, hstate, hgen⟩ := h₀.staged
  simp [restoreAuthorized, h₀.ne, h.1 .db, hdb, hstate, hgen]

/-- Either the restore is passed over, once it is done, or a pass is made. -/
theorem applyPending_cases (h₀ : PendingRestore generation d₀) (h : Phase a d₀ d) (s : Start) :
    (applyPending a s d = ([], true) ∧ Restored a d₀ d) ∨
      ∃ journal, applyPending a s d = pass a s.token journal s.fault d := by
  rcases h with h | ⟨h, hj⟩
  · refine .inr ⟨{ generation := generation }, ?_⟩
    rw [applyPending, h.2, h₀.journal]
    dsimp only
    rw [if_neg (by simp), if_pos (authorized_of_sameLive h₀ h)]
  · unfold applyPending
    split
    · exact .inl ⟨rfl, h⟩
    · rename_i journal _
      split
      · exact .inl ⟨rfl, h⟩
      · split
        · exact .inr ⟨journal, rfl⟩
        · exact .inl ⟨rfl, h⟩
    · rename_i c hne hc
      obtain ⟨j, rfl⟩ := hj c hc
      exact absurd rfl (hne j)

/-! ## Serving -/

theorem Restored.target (h : Restored a d₀ d) {t : Target} (ht : t ∈ a.targets ∨ t = .mts) :
    ∃ c, d (.live t) = some c ∧ c.isRestored t = true := by
  have := h t
  rw [if_pos ht] at this
  exact (Option.any_eq_true _ _).mp this

theorem Restored.database (h : Restored a d₀ d) : ∃ row, d (.live .db) = some (.database .reconciled row) := by
  obtain ⟨c, hc, hr⟩ := h.target (t := .db) (.inl (.head _))
  unfold Content.isRestored at hr
  split at hr
  · exact ⟨_, hc⟩
  · cases hr
  · contradiction

/-- Both stores exist, so opening them creates nothing. -/
theorem Restored.openServerStores (h : Restored a d₀ d) : openServerStores d = d := by
  obtain ⟨row, hdb⟩ := h.database
  obtain ⟨c, hmts, -⟩ := h.target (t := .mts) (.inr rfl)
  simp [Backup.openServerStores, Op.exec, Op.apply, hdb, hmts]

theorem resolveJournal_cases (kept : Bool) (journal : Option RestoreJournal) :
    journal.elim [] (resolveJournal kept) = [] ∨ journal.elim [] (resolveJournal kept) = [.remove .journal] := by
  cases journal with
  | none => exact .inl rfl
  | some j =>
    rw [Option.elim_some, resolveJournal]
    split
    · exact .inl rfl
    · exact .inr rfl

/-- The reconciliation writes the row of the backup, and may remove the journal. -/
theorem reconcile_restored (h : Restored a d₀ d) :
    ∃ row ops, reconcile d = .write (.live .db) (.database .reconciled row) :: ops ∧
      (ops = [] ∨ ops = [.remove .journal]) := by
  obtain ⟨row, hdb⟩ := h.database
  unfold reconcile
  rw [hdb]
  exact ⟨_, _, rfl, resolveJournal_cases _ _⟩

theorem serve_restored (h : Restored a d₀ d) (hj : JournalOk d) : Restored a d₀ (serve d) ∧ JournalOk (serve d) := by
  obtain ⟨row, hdb⟩ := h.database
  obtain ⟨row', ops, hrec, hops⟩ := reconcile_restored h
  have hwrite : (Op.write (.live .db) (.database .reconciled row') : FileOp).exec d
      = d.set (.live .db) (some (.database .reconciled row')) := by
    simp [Op.exec, Op.apply, hdb]
  rw [serve, h.openServerStores, hrec, execAll_cons, hwrite]
  constructor
  · intro t
    have hlive : execAll ops (d.set (.live .db) (some (.database .reconciled row'))) (.live t)
        = d.set (.live .db) (some (.database .reconciled row')) (.live t) := by
      refine execAll_other (fun op ho => ?_) _
      rcases hops with rfl | rfl
      · cases ho
      · rw [mem_singleton.mp ho]
        simp [Op.paths]
    rw [hlive]
    by_cases ht : t = .db
    · subst ht
      rfl
    · rw [Files.set_of_ne (by simp [ht])]
      exact h t
  · intro c hc
    rcases hops with rfl | rfl
    · rw [execAll_nil, Files.set_of_ne (by simp)] at hc
      exact hj c hc
    · simp [Op.exec, Op.apply] at hc

/-! ## Careful starts -/

theorem Phase.of_sameLive (h : Phase a d₀ d) (hf : SameLive d f) : Phase a d₀ f := by
  rcases h with h | ⟨h, hj⟩
  · exact .inl (h.trans hf)
  · exact .inr ⟨h.of_live hf.1, fun c hc => hj c (hf.2 ▸ hc)⟩

section

variable (h₀ : PendingRestore generation d₀)

include h₀

/-- A start that returns from the restore without an error has a restored directory. -/
theorem Phase.returned (h : Phase a d₀ d) (ht : Unused s.token d) (hok : (applyPending a s d).2 = true) :
    Restored a d₀ (execAll (applyPending a s d).1 d) ∧ JournalOk (execAll (applyPending a s d).1 d) := by
  rcases applyPending_cases h₀ h s with ⟨hap, hr⟩ | ⟨journal, hap⟩
  · rw [hap]
    exact ⟨hr, h.journalOk h₀⟩
  · rw [hap] at hok ⊢
    have hj := @pass_journalOk a s.token d journal s.fault ht (h.journalOk h₀)
      (pass a s.token journal s.fault d).1.length
    rw [take_length] at hj
    exact ⟨(pass_true ht hok).restored h.live, hj⟩

/-- A start whose restore reports an error leaves the live paths as they were. -/
theorem Phase.failed (h : Phase a d₀ d) (ht : Unused s.token d)
    (hok : (applyPending a s d).2 = false) : Phase a d₀ (execAll (applyPending a s d).1 d) := by
  rcases applyPending_cases h₀ h s with ⟨hap, -⟩ | ⟨journal, hap⟩
  · rw [hap] at hok
    cases hok
  · rw [hap] at hok ⊢
    exact h.of_sameLive (pass_false ht hok)

theorem Phase.start (h : Phase a d₀ d) (hc : CarefulStart a s d) : Phase a d₀ (startServer a s d) := by
  unfold startServer
  cases hcrash : s.crash with
  | some n =>
    have hq := hc.crash n hcrash
    dsimp only
    rcases applyPending_cases h₀ h s with ⟨hap, -⟩ | ⟨journal, hap⟩
    · rw [hap, take_nil]
      exact h
    · rw [hap] at hq ⊢
      rcases pass_crash hc.token hq with hsame | hrestored
      · exact h.of_sameLive hsame
      · exact .inr ⟨hrestored.restored h.live, pass_journalOk hc.token (h.journalOk h₀) n⟩
  | none =>
    dsimp only
    split
    · rename_i hok
      obtain ⟨hr, hj⟩ := h.returned h₀ hc.token hok
      exact .inr (serve_restored hr hj)
    · rename_i hok
      exact h.failed h₀ hc.token (Bool.not_eq_true _ ▸ hok)

theorem Phase.run {starts : List Start} (hr : Lts.Run (Restart a) d₀ starts d) : Phase a d₀ d := by
  refine hr.inv (.inl (.refl d₀)) fun d s d' h hst => ?_
  obtain ⟨hc, rfl⟩ := hst
  exact h.start h₀ hc

/-- A start without an input or output error returns from the restore. -/
theorem Phase.ok (h : Phase a d₀ d) (ht : Unused s.token d)
    (hfault : s.fault = none) : (applyPending a s d).2 = true := by
  rcases applyPending_cases h₀ h s with ⟨hap, -⟩ | ⟨journal, hap⟩
  · rw [hap]
  · rw [hap, hfault, pass, script_ok (runs_applySteps ht journal)]

end

/-- Starts that are careful about the swap: whenever the restore returns without an error, every live
path is the restored one, and the server serves that directory; a restore that reports an error
leaves either all paths of before or all restored ones; and the first start without a crash or an
input or output error ends with the restore applied. -/
theorem restore_atomic {a : Archive} {generation : String} {d₀ d : DataDir} {starts : List Start}
    {s : Start} (h₀ : PendingRestore generation d₀) (hr : Lts.Run (Restart a) d₀ starts d)
    (ht : Unused s.token d) (hcrash : s.crash = none) : ((applyPending a s d).2 = true →
      Restored a d₀ (execAll (applyPending a s d).1 d) ∧ Restored a d₀ (startServer a s d)) ∧
    ((applyPending a s d).2 = false → BeforeRestore d₀ (startServer a s d) ∨ Restored a d₀ (startServer a s d)) ∧
    (s.fault = none → (applyPending a s d).2 = true) := by
  have h := Phase.run h₀ hr
  refine ⟨fun hok => ?_, fun hok => ?_, h.ok h₀ ht⟩
  · obtain ⟨hr, hj⟩ := h.returned h₀ ht hok
    refine ⟨hr, ?_⟩
    rw [startServer, hcrash]
    rw [if_pos hok]
    exact (serve_restored hr hj).1
  · rw [startServer, hcrash]
    rw [if_neg (by rw [hok]; exact Bool.false_ne_true)]
    exact (h.failed h₀ ht hok).live

/-! ## A directory, and two starts on it -/

/-- A directory without theme packages and GeoIP files, and a restore staged as generation `g`. -/
def sampleDir : DataDir where
  get
    | .live .db => some (.database .before (some ⟨.staged, some .validated, "g"⟩))
    | .live .key => some (.object .before)
    | .live .mts => some (.object .before)
    | .journal => some (.journal { generation := "g" })
    | _ => none

def sampleArchive : Archive := ⟨true, false, none⟩

theorem pending_sampleDir : PendingRestore "g" sampleDir :=
  ⟨by decide, rfl, _, rfl, rfl, rfl⟩

theorem unused_sampleDir (token : String) : Unused token sampleDir := fun _ => ⟨rfl, rfl⟩

def Path.token : Path → Option String
  | .fresh token _ | .rollback token _ => some token
  | _ => none

theorem Unused.execAll {token : String} {ops : List FileOp} (h : Unused token d)
    (hops : ∀ op ∈ ops, ∀ p ∈ op.paths, p.token ≠ some token) : Unused token (execAll ops d) := by
  intro t
  rw [execAll_other (fun op ho hp => hops op ho _ hp rfl), execAll_other (fun op ho hp => hops op ho _ hp rfl)]
  exact h t

/-- The process dies while the copies are made. -/
def copyCrash : Start := { token := "1", crash := some 5 }

/-- The process dies right after the database was moved away. -/
def swapCrash : Start := { token := "1", crash := some 10 }

def nextStart : Start := { token := "2" }

theorem careful_copyCrash : CarefulStart sampleArchive copyCrash sampleDir where
  token := unused_sampleDir _
  crash n hn := by
    cases hn
    exact .inl (by decide +kernel)

theorem restore_atomic_sample :
    (applyPending sampleArchive nextStart (startServer sampleArchive copyCrash sampleDir)).2 = true ∧
      Restored sampleArchive sampleDir
        (startServer sampleArchive nextStart (startServer sampleArchive copyCrash sampleDir)) := by
  have hunused : Unused nextStart.token (startServer sampleArchive copyCrash sampleDir) :=
    (unused_sampleDir _).execAll (by decide +kernel)
  obtain ⟨hreturned, -, hok⟩ := restore_atomic pending_sampleDir
    (.snoc .nil ⟨careful_copyCrash, rfl⟩) hunused rfl
  exact ⟨hok rfl, (hreturned (hok rfl)).2⟩

/-- What a crash inside the swap leaves. -/
def tornDir : DataDir := startServer sampleArchive swapCrash sampleDir

/-- The next start takes the journal for unconfirmed, because the row that confirms it has been moved
away with the database: the restore returns without an error, the live paths are neither those of
before nor the restored ones, and the server runs on an empty database without the journal. -/
theorem torn_restore_serves_empty :
    PendingRestore "g" sampleDir ∧ Unused swapCrash.token sampleDir ∧ Unused nextStart.token tornDir ∧
      applyPending sampleArchive nextStart tornDir = ([], true) ∧
      ¬ BeforeRestore sampleDir tornDir ∧ ¬ Restored sampleArchive sampleDir tornDir ∧
      startServer sampleArchive nextStart tornDir (.live .db) = some (.database .empty none) ∧
      startServer sampleArchive nextStart tornDir .journal = none := by
  have hgone : tornDir (.live .db) = none := by decide +kernel
  refine ⟨pending_sampleDir, unused_sampleDir _, (unused_sampleDir _).execAll (by decide +kernel),
    by decide +kernel, fun h => ?_, fun h => ?_, by decide +kernel, by decide +kernel⟩
  · have hdb := h .db
    cases hdb
  · obtain ⟨row, hdb⟩ := h.database
    cases hdb

end Beat.Backup
