import Beat.Backup.Records

/-!
# Startup reconciliation

`Service.Reconcile` aligns the records, the archives and the journal before the server takes requests:
every record by its state (`reconcileRecord`), then the journal (`resolveJournal`), the backup
directory (`sweepFilesystem`) and the records past their retention (`expireTerminalRecords`). The
decisions about the records and the directory are made on the records read at the start.
-/

namespace Beat.Backup

/-- `ReconcileOutcome`. -/
structure ReconcileOutcome where
  recovered : Nat := 0
  interrupted : Nat := 0
  missing : Nat := 0
  rolledBack : Nat := 0
  deleted : Nat := 0
  expired : Nat := 0
  quarantined : Nat := 0
  partialRemoved : Nat := 0
  journalsRemoved : Nat := 0
  deferred : Nat := 0
  deriving DecidableEq, Repr

/-- What the file system and the database do by themselves: a file that cannot be removed, an archive
that cannot be moved to `quarantine`, a row of the inventory that cannot be written, and the random
characters for a name that is taken there. -/
structure Faults where
  remove : String → Bool := fun _ => false
  move : String → Bool := fun _ => false
  inventory : String → Bool := fun _ => false
  suffix : String → String := fun _ => ""

inductive ReconcileError where
  | filename | journal | sweep (name : String)
  deriving DecidableEq, Repr

/-- `reconciler`: the world, what was counted, and the journal as it was loaded. -/
structure Reconciler where
  world : World
  outcome : ReconcileOutcome := {}
  journal : Option BackupJournal
  journalKept : Bool := false
  deriving DecidableEq

def BackupPartialSuffix : String := ".partial"
def BackupArchivePrefix : String := "beat-"
def BackupArchiveSuffix : String := ".zip"
def BackupQuarantineDir : String := "quarantine"
def JournalName : String := "restore.pending.json"

/-- 90 days, in nanoseconds. -/
def BackupTerminalRetention : Int := 90 * 24 * 3600 * 1000000000

namespace Reconciler

variable (now : Int) (io : Faults) (s : Reconciler) (record : BackupRecord)

/-- A state that has changed meanwhile is counted and left alone. -/
def transition (now : Int) (next : BackupRecord) (expected : BackupState) : Reconciler :=
  match Backup.transition s.world.records { next with reconciledAt := some now } expected with
  | some records => { s with world := { s.world with records := records } }
  | none => { s with outcome := { s.outcome with deferred := s.outcome.deferred + 1 } }

/-! ## Records -/

/-- A backup that was cut off, or one whose archive is complete nevertheless. -/
def afterRunning (complete : Bool) (record : BackupRecord) : BackupRecord :=
  if complete then
    { record with
      state := .ready
      previousState := some record.state
      updatedAt := now
      completedAt := some now
      errorMessage := "" }
  else
    { record with
      state := .interrupted
      previousState := some record.state
      updatedAt := now
      errorMessage := "backup interrupted by restart" }

def reconcileRunning : Reconciler :=
  let complete := s.world.archiveIsComplete record.filename
  let s := s.transition now (afterRunning now complete record) .running
  if complete then { s with outcome := { s.outcome with recovered := s.outcome.recovered + 1 } }
  else { s with outcome := { s.outcome with interrupted := s.outcome.interrupted + 1 } }

def reconcileDeleting : Reconciler :=
  if s.world.archiveRemovable record.filename ∧
      ¬ ((s.world.entry record.filename).isSome ∧ io.remove record.filename) then
    { s with
      world := { s.world.removeEntry record.filename with
        records := deleteRecord s.world.records record.id }
      outcome := { s.outcome with deleted := s.outcome.deleted + 1 } }
  else { s with outcome := { s.outcome with deferred := s.outcome.deferred + 1 } }

/-- The staged row, the pending online journal of its generation, and its archive. -/
def stagedRestoreConfirmed (world : World) (journal : Option BackupJournal) (record : BackupRecord) : Bool :=
  record.state = .staged && journal.any fun j =>
    j.state = .pending && !j.offline && j.backupID = record.id && j.generation ≠ "" &&
      j.generation = record.restoreGeneration && world.archiveIsRegular record.filename = some true

def rolledBack : BackupRecord :=
  { record with
    state := previousRestoreState record.previousState
    previousState := none
    restoreGeneration := ""
    updatedAt := now }

def reconcileStaged : Reconciler :=
  if stagedRestoreConfirmed s.world s.journal record then { s with journalKept := true }
  else
    let s := s.transition now (rolledBack now record) record.state
    { s with outcome := { s.outcome with rolledBack := s.outcome.rolledBack + 1 } }

def archiveMissing : BackupRecord :=
  { record with state := .missing, previousState := some record.state, updatedAt := now }

def reconcileArchivePresence :
    Except ReconcileError Reconciler :=
  match s.world.archiveIsRegular record.filename with
  | none => .error .filename
  | some true => .ok s
  | some false =>
    let s := s.transition now (archiveMissing now record) record.state
    .ok { s with outcome := { s.outcome with missing := s.outcome.missing + 1 } }

def reconcileRecord :
    Except ReconcileError Reconciler :=
  match record.state with
  | .running => .ok (s.reconcileRunning now record)
  | .deleting => .ok (s.reconcileDeleting io record)
  | .staging | .staged => .ok (s.reconcileStaged now record)
  | .ready | .validated => s.reconcileArchivePresence now record
  | .failed | .interrupted | .missing => .ok s

/-! ## The journal, the directory and the retention -/

/-- The online journal that no staged record confirms is removed. -/
def resolveJournal : Except ReconcileError Reconciler :=
  match s.journal with
  | none => .ok s
  | some journal =>
    if s.journalKept ∨ journal.state ≠ .pending ∨ journal.offline then .ok s
    else if io.remove JournalName then .error .journal
    else .ok { s with
      world := { s.world with journal := none }
      outcome := { s.outcome with journalsRemoved := s.outcome.journalsRemoved + 1 } }

/-- A name that is taken in `quarantine` gets random characters. -/
def quarantineName (taken : List String) (name : String) : String :=
  if name ∈ taken then
    String.ofList (name.toList.take (name.length - BackupArchiveSuffix.length)) ++ "-" ++
      io.suffix name ++ BackupArchiveSuffix
  else name

def quarantine (name : String) : Except ReconcileError Reconciler :=
  if io.move name then .error (.sweep name)
  else
    let moved := { s.world.removeEntry name with
      quarantine := quarantineName io s.world.quarantine name :: s.world.quarantine }
    if io.inventory name then
      .ok { s with
        world := moved
        outcome := { s.outcome with deferred := s.outcome.deferred + 1 } }
    else
      .ok { s with
        world := { moved with inventory := if name ∈ s.world.inventory then s.world.inventory
          else name :: s.world.inventory }
        outcome := { s.outcome with quarantined := s.outcome.quarantined + 1 } }

def isPartial (name : String) : Bool := BackupPartialSuffix.toList.isSuffixOf name.toList

/-- `beat-*.zip`. -/
def isArchiveName (name : String) : Bool :=
  BackupArchivePrefix.toList.isPrefixOf name.toList &&
    BackupArchiveSuffix.toList.isSuffixOf name.toList

/-- Only regular files are touched. -/
def sweepEntry (entry : String × Entry) : Except ReconcileError Reconciler :=
  if !entry.2.isRegular then .ok s
  else if isPartial entry.1 then
    if io.remove entry.1 then .error (.sweep entry.1)
    else .ok { s with
      world := s.world.removeEntry entry.1
      outcome := { s.outcome with partialRemoved := s.outcome.partialRemoved + 1 } }
  else if !isArchiveName entry.1 then .ok s
  else s.quarantine io entry.1

/-- The entries that no record names; `known` are the records read at the start. -/
def sweepable (known : List BackupRecord) (entry : String × Entry) : Bool :=
  entry.1 ≠ BackupQuarantineDir && !known.any (·.filename = entry.1)

def sweepStaleJournals : Except ReconcileError Reconciler :=
  match s.world.staleJournals.find? io.remove with
  | some name => .error (.sweep name)
  | none => .ok { s with
      world := { s.world with staleJournals := [] }
      outcome := { s.outcome with
        partialRemoved := s.outcome.partialRemoved + s.world.staleJournals.length } }

def sweepFilesystem (known : List BackupRecord) (s : Reconciler) : Except ReconcileError Reconciler :=
  match (s.world.entries.filter (sweepable known)).foldlM (sweepEntry io) s with
  | .error e => .error e
  | .ok s => s.sweepStaleJournals io

/-- `BackupTerminalStates`. -/
def isTerminal : BackupState → Bool
  | .failed | .interrupted | .missing => true
  | _ => false

def isExpired : Bool :=
  record.createdAt < now - BackupTerminalRetention && isTerminal record.state

def expireTerminalRecords : Reconciler :=
  { s with
    world := { s.world with records := s.world.records.filter fun r => !isExpired now r }
    outcome := { s.outcome with
      expired := s.outcome.expired + (s.world.records.filter (isExpired now)).length } }

end Reconciler

open Reconciler

/-- `Reconcile`, at one instant. -/
def reconcileStartup (now : Int) (io : Faults) (w : World) : Except ReconcileError (World × ReconcileOutcome) :=
  match w.records.foldlM (reconcileRecord now io) { world := w, journal := w.journal } with
  | .error e => .error e
  | .ok s =>
    match s.resolveJournal io with
    | .error e => .error e
    | .ok s =>
      match s.sweepFilesystem io w.records with
      | .error e => .error e
      | .ok s => .ok ((s.expireTerminalRecords now).world, (s.expireTerminalRecords now).outcome)

end Beat.Backup
