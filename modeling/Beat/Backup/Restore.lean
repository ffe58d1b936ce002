import Beat.Lib.Files

/-!
# Restoring a backup when the server starts

The data directory while a staged restore is applied: the live paths, their `.restore-new-<token>`
and `.restore-rollback-<token>` siblings, and the journal `restore.pending.json`. `applyPending`
gives the file operations that a start does, with the way back when one of them reports an error;
`startServer` is a whole start: the restore, opening the stores, and the reconciliation of the
journal with the row that staged it. The process may die after any number of the operations.

Only one backup is followed, the one of the journal. Of the database the model keeps where its data
comes from and the row of this backup.
-/

namespace Beat.Backup

open FileOps

/-! ## The data directory -/

/-- What a restore replaces: the database, `admin-data.key`, `themes/packages`, `geoip` and the
directory of the metric store. The swap takes any list of targets; `other` is one that no archive
has today. -/
inductive Target where
  | db | key | themes | geoip | mts
  | other (name : String) (dir : Bool)
  deriving DecidableEq, Repr

def Target.isDir : Target → Bool
  | .db | .key => false
  | .themes | .geoip | .mts => true
  | .other _ dir => dir

inductive Path where
  | live (t : Target)
  | fresh (token : String) (t : Target)
  | rollback (token : String) (t : Target)
  | journal
  deriving DecidableEq, Repr

instance : HasDirs Path where
  isDir
    | .live t | .fresh _ t | .rollback _ t => t.isDir
    | .journal => false

/-- Where the data of a path comes from: it was there before the restore, it is a copy from the
archive, such a copy after `reconcileRestoredState`, or a new store without data. -/
inductive Origin where
  | before | archived | reconciled | empty
  deriving DecidableEq, Repr

inductive BackupState where
  | running | ready | failed | validated | staging | staged | interrupted | missing | deleting
  deriving DecidableEq, Repr

/-- The row of the backup in `admin_backups`. -/
structure BackupRow where
  state : BackupState
  previousState : Option BackupState := none
  restoreGeneration : String := ""
  deriving DecidableEq, Repr

inductive JournalState where
  | pending | applied
  deriving DecidableEq, Repr

structure RestoreJournal where
  state : JournalState := .pending
  generation : String
  /-- `RestoreOriginOffline`: written by the command of the local operator. -/
  offline : Bool := false
  sqliteRollback : Option Path := none
  mtsRollback : Option Path := none
  deriving DecidableEq, Repr

/-- What a path holds; `unfinished` is a file or directory that is still being filled. -/
inductive Content where
  | object (origin : Origin)
  | unfinished
  | database (origin : Origin) (row : Option BackupRow)
  | journal (journal : RestoreJournal)
  deriving DecidableEq, Repr

abbrev DataDir := Files Path Content

/-- The operations are those of the library, on the paths of the data directory. -/
abbrev FileOp := Op Path Content

/-- A validated archive: the entries it need not have, and the row of the backup in its database. -/
structure Archive where
  hasKey : Bool
  hasThemes : Bool
  row : Option BackupRow
  deriving DecidableEq, Repr

/-- `prepared.targets`, in the order in which they are prepared. The metric store is not one of
them, it is filled in place. -/
def Archive.targets (a : Archive) : List Target :=
  .db :: ((if a.hasKey then [.key] else []) ++ (if a.hasThemes then [.themes] else []) ++ [.geoip])

/-- The copy of an archive's entry. -/
def Archive.copy (a : Archive) : Target → Content
  | .db => .database .archived a.row
  | _ => .object .archived

/-- What the restore makes live. The reconciliation of the copied database does not write the rows
of the backups. -/
def Archive.restored (a : Archive) : Target → Content
  | .db => .database .reconciled a.row
  | _ => .object .archived

/-! ## `ApplyPending` -/

/-- Whether the journal may replace the live database: an online journal needs the staged row with
its generation. A database that is absent or cannot be read does not confirm it. -/
def restoreAuthorized (db : Option Content) (journal : RestoreJournal) : Bool :=
  if journal.offline then true
  else if journal.generation = "" then false
  else
    match db with
    | some (.database _ (some row)) =>
      row.state = .staged && row.restoreGeneration = journal.generation
    | _ => false

def cleanup (token : String) (targets : List Target) : List FileOp :=
  targets.map fun t => .remove (.fresh token t)

/-- Copies the entries to the new paths, after those that are `done`. A path that cannot be created
is left alone, except for the database, which is a target from the start; a copy that fails
removes its own path. -/
def prepareRestore (a : Archive) (token : String) : List Target → List Target → List (Step Path Content)
  | _, [] => []
  | done, t :: ts =>
    ⟨.create (.fresh token t) .unfinished, cleanup token (if t = .db then [.db] else done)⟩ ::
    ⟨.write (.fresh token t) (a.copy t), cleanup token (done ++ [t])⟩ ::
      prepareRestore a token (done ++ [t]) ts

section

variable (targets : List Target) (token : String) (journal : RestoreJournal) (d : DataDir)

/-- The targets that have a live path: the others are not preserved. -/
def movedOld : List Target :=
  (targets ++ [Target.mts]).filter fun t => (d (.live t)).isSome

def restoreOld (moved : List Target) : List FileOp :=
  moveAll (.rollback token) .live moved.reverse

def undoSwap (movedNew moved : List Target) : List FileOp :=
  moveAll .live (.fresh token) movedNew.reverse ++ restoreOld token moved

/-- `live → .restore-rollback`, each live path inspected first; a failure puts back those that were
moved. -/
def preserveOld : List (Step Path Content) :=
  lookSteps (fun t => (d (.live t)).isSome) .live (.rollback token) (cleanup token targets) []
    (targets ++ [Target.mts])

/-- `.restore-new → live`; a failure undoes the whole swap. -/
def activateTargets : List (Step Path Content) :=
  moveSteps (.fresh token) .live (restoreOld token (movedOld targets d) ++ cleanup token targets) []
    targets

/-- `rollbackApplied`, which is also what a failed import of the metrics does. -/
def rollbackApplied : List FileOp :=
  .remove (.live .mts) :: (undoSwap token targets (movedOld targets d) ++ cleanup token targets)

def importMetrics : List (Step Path Content) :=
  [⟨.create (.live .mts) .unfinished, rollbackApplied targets token d⟩,
    ⟨.write (.live .mts) (.object .archived), rollbackApplied targets token d⟩]

/-- The entry of a path in the `rollbacks` of the swap. -/
def rollbackOf (t : Target) : Option Path :=
  if t ∈ movedOld targets d then some (.rollback token t) else none

/-- The journal that `completeJournal` writes. -/
def appliedJournal :
    RestoreJournal :=
  { journal with
    state := .applied
    sqliteRollback := rollbackOf targets token d .db
    mtsRollback := rollbackOf targets token d .mts }

/-- `validateApplied` and `completeJournal`. -/
def completeRestore :
    List (Step Path Content) :=
  [⟨.check, rollbackApplied targets token d⟩,
    ⟨.replace .journal (.journal (appliedJournal targets token journal d)), rollbackApplied targets token d⟩]

/-- The part of `applyValidated` after the copies are made: the swap, the import of the metrics, the
last check and the journal. -/
def applyPrepared :
    List (Step Path Content) :=
  preserveOld targets token d ++ (activateTargets targets token d ++
    (importMetrics targets token d ++ completeRestore targets token journal d))

end

/-- The archive is validated again, its entries are copied and the copied database is reconciled. -/
def stageRestore (a : Archive) (token : String) : List (Step Path Content) :=
  ⟨.check, []⟩ :: (prepareRestore a token [] a.targets ++
    [⟨.write (.fresh token .db) (a.restored .db), cleanup token a.targets⟩])

/-- The steps of an authorised restore. -/
def applySteps (a : Archive) (token : String) (journal : RestoreJournal) (d : DataDir) : List (Step Path Content) :=
  stageRestore a token ++ applyPrepared a.targets token journal d

/-- A start of the server. `token` is the time of the restore; `fault` is an operation that reports
an error by itself; the process dies after `crash` operations. -/
structure Start where
  token : String
  fault : Option Nat := none
  crash : Option Nat := none
  deriving DecidableEq, Repr

/-- The operations that `ApplyPending` does, and whether it returns without an error. -/
def applyPending (a : Archive) (s : Start) (d : DataDir) : List FileOp × Bool :=
  match d .journal with
  | none => ([], true)
  | some (.journal journal) =>
    if journal.state ≠ .pending then ([], true)
    else if restoreAuthorized (d (.live .db)) journal then
      script s.fault (applySteps a s.token journal d) d
    else ([], true)
  | some _ => ([], false)

/-! ## Opening the stores and `Reconcile` -/

/-- A store whose path is absent is created without data. -/
def openServerStores (d : DataDir) : DataDir :=
  execAll [.create (.live .db) (.database .empty none), .create (.live .mts) (.object .empty)] d

def previousRestoreState : Option BackupState → BackupState
  | some .ready => .ready
  | some .validated => .validated
  | _ => .validated

/-- A staged row and a journal with its generation. Nothing here removes the archive. -/
def stagedRestoreConfirmed (row : BackupRow) (journal : RestoreJournal) : Bool :=
  row.state = .staged && journal.state = .pending && !journal.offline && journal.generation ≠ "" &&
    journal.generation = row.restoreGeneration

/-- The row after `reconcileStaged`, and whether it keeps the journal. The rows of other states do
not decide about the journal. -/
def reconcileRow (journal : Option RestoreJournal) (row : BackupRow) : BackupRow × Bool :=
  if row.state = .staging ∨ row.state = .staged then
    if journal.any (stagedRestoreConfirmed row) then (row, true)
    else ({ state := previousRestoreState row.previousState }, false)
  else (row, false)

/-- `resolveJournal`: an online journal that no staged row confirms is removed. -/
def resolveJournal (kept : Bool) (journal : RestoreJournal) : List FileOp :=
  if kept ∨ journal.state ≠ .pending ∨ journal.offline then [] else [.remove .journal]

/-- The operations of `Reconcile`: the row of the backup, and then the journal. -/
def reconcile (d : DataDir) : List FileOp :=
  match d (.live .db) with
  | some (.database origin row) =>
    let journal := match d .journal with
      | some (.journal j) => some j
      | _ => none
    let reconciled := row.map (reconcileRow journal)
    .write (.live .db) (.database origin (reconciled.map (·.1))) ::
      (journal.elim [] (resolveJournal (reconciled.any (·.2))))
  | _ => []

/-- The directory that the server is started on. -/
def serve (d : DataDir) : DataDir :=
  execAll (reconcile (openServerStores d)) (openServerStores d)

/-- One start. A process that dies, or whose restore reports an error, does not serve. -/
def startServer (a : Archive) (s : Start) (d : DataDir) : DataDir :=
  match s.crash with
  | some n => execAll ((applyPending a s d).1.take n) d
  | none =>
    if (applyPending a s d).2 then serve (execAll (applyPending a s d).1 d)
    else execAll (applyPending a s d).1 d

end Beat.Backup
