import Beat.Backup.Reconcile
import Beat.Lib.Run
import Beat.Model

/-!
# Staging a restore

`StageRestore` and `Delete` (`backup/upload.go`, `backup/service_lifecycle.go`) as calls that take one
durable step at a time: each reading of the table or the journal, each transaction and each change of a
file is a step of its own, and the steps of any number of calls may be mixed. The guard that
`StageRestore` takes is a shared lock, so it keeps no call out. A crash ends all calls, and the
`Reconcile` of the next start may be cut off as well (`reconcileUntil`).

A transaction, a rename and a removal that returns an error has not happened.
-/

namespace Beat.Backup

/-- Where a call is: the next thing it does. From `publish` on, `staging` is the record that the call
wrote with the new generation. -/
inductive Call where
  /-- `StageRestore`, before it reads the record. -/
  | stage (id : String)
  /-- `rejectConflictingJournal`. -/
  | check (record : BackupRecord)
  | validate (record : BackupRecord)
  /-- The transition to `staging`. -/
  | claim (record : BackupRecord)
  /-- `writeJournal`. -/
  | publish (staging : BackupRecord)
  /-- The transition to `staged`. -/
  | confirm (staging : BackupRecord)
  /-- `abortStaging`, before it reads the record. -/
  | abort (staging : BackupRecord)
  /-- `clearJournal`, before it reads the journal. -/
  | clear (staging record : BackupRecord)
  /-- `clearJournal`, which has read a journal of this backup. -/
  | remove (staging record : BackupRecord)
  | rollback (staging record : BackupRecord)
  /-- `Delete`, before it reads the record. -/
  | delete (id : String)
  /-- The transition to `deleting`. -/
  | mark (record : BackupRecord)
  | removeArchive (record : BackupRecord)
  /-- The removal of the row. -/
  | removeRecord (record : BackupRecord)
  deriving DecidableEq, Repr

/-- What a step meets: whether the operation succeeds, the clock, and the next random generation. -/
structure Luck where
  ok : Bool := true
  now : Int := 0
  generation : Uuid

def stagingRecord (luck : Luck) (record : BackupRecord) : BackupRecord :=
  { record with
    state := .staging
    previousState := some record.state
    restoreGeneration := luck.generation.text
    updatedAt := luck.now }

def stagedRecord (luck : Luck) (staging : BackupRecord) : BackupRecord :=
  { staging with state := .staged, updatedAt := luck.now }

def deletingRecord (luck : Luck) (record : BackupRecord) : BackupRecord :=
  { record with previousState := some record.state, state := .deleting, updatedAt := luck.now }

def journalOf (staging : BackupRecord) : BackupJournal :=
  { backupID := staging.id, generation := staging.restoreGeneration }

def World.record (w : World) (id : String) : Option BackupRecord := w.records.find? (·.id = id)

/-- Whether `rejectConflictingJournal` lets the backup pass. -/
def World.journalAllows (w : World) (id : String) : Bool :=
  w.journal.all fun j => !(j.state = .pending && j.backupID ≠ id)

def stageable : BackupState → Bool
  | .ready | .validated => true
  | _ => false

/-- The states that `Delete` refuses. -/
def undeletable : BackupState → Bool
  | .running | .staging | .staged => true
  | _ => false

/-- A transition, and where the call goes on after it or after an error. -/
def commitCall (w : World) (luck : Luck) (next : BackupRecord) (expected : BackupState)
    (onOk onError : Option Call) : World × Option Call :=
  if luck.ok then
    match transition w.records next expected with
    | some records => ({ w with records := records }, onOk)
    | none => (w, onError)
  else (w, onError)

/-- One step of a call; a call that goes nowhere has returned. -/
def callStep (w : World) (luck : Luck) : Call → World × Option Call
  | .stage id =>
    match w.record id with
    | some record => (w, if luck.ok && stageable record.state then some (.check record) else none)
    | none => (w, none)
  | .check record =>
    (w, if luck.ok && w.journalAllows record.id then some (.validate record) else none)
  | .validate record =>
    (w, if luck.ok && w.archiveIsComplete record.filename then some (.claim record) else none)
  | .claim record =>
    commitCall w luck (stagingRecord luck record) record.state
      (some (.publish (stagingRecord luck record))) none
  | .publish staging =>
    if luck.ok then ({ w with journal := some (journalOf staging) }, some (.confirm staging))
    else (w, some (.abort staging))
  | .confirm staging =>
    commitCall w luck (stagedRecord luck staging) .staging none (some (.abort staging))
  | .abort staging =>
    match w.record staging.id with
    | some record => (w, if luck.ok then some (.clear staging record) else none)
    | none => (w, none)
  | .clear staging record =>
    if luck.ok then
      (w, some (if w.journal.any (·.backupID = staging.id) then .remove staging record
        else .rollback staging record))
    else (w, none)
  | .remove staging record =>
    if luck.ok then ({ w with journal := none }, some (.rollback staging record)) else (w, none)
  | .rollback _ record =>
    if record.state = .staging ∨ record.state = .staged then
      commitCall w luck (Reconciler.rolledBack luck.now record) record.state none none
    else (w, none)
  | .delete id =>
    match w.record id with
    | some record =>
      (w, if luck.ok && !undeletable record.state then
          some (if record.state = .deleting then .removeArchive record else .mark record)
        else none)
    | none => (w, none)
  | .mark record =>
    commitCall w luck (deletingRecord luck record) record.state (some (.removeArchive record)) none
  | .removeArchive record =>
    if luck.ok && w.archiveRemovable record.filename then
      (w.removeEntry record.filename, some (.removeRecord record))
    else (w, none)
  | .removeRecord record =>
    if luck.ok then ({ w with records := deleteRecord w.records record.id }, none) else (w, none)

/-! ## Restarts -/

/-- How far the `Reconcile` of a start comes before the next crash or error. -/
inductive ReconcileStop where
  | records (n : Nat)
  | journal
  | entries (n : Nat)
  | finish
  deriving DecidableEq, Repr

open Reconciler in
/-- `Reconcile` until it stops. -/
def reconcileUntil (now : Int) (io : Faults) (w : World) : ReconcileStop → Except ReconcileError World
  | .records n =>
    match (w.records.take n).foldlM (reconcileRecord now io) { world := w, journal := w.journal } with
    | .error e => .error e
    | .ok s => .ok s.world
  | .journal =>
    match w.records.foldlM (reconcileRecord now io) { world := w, journal := w.journal } with
    | .error e => .error e
    | .ok s => (s.resolveJournal io).map (·.world)
  | .entries n =>
    match w.records.foldlM (reconcileRecord now io) { world := w, journal := w.journal } with
    | .error e => .error e
    | .ok s =>
      match s.resolveJournal io with
      | .error e => .error e
      | .ok s =>
        (((s.world.entries.filter (sweepable w.records)).take n).foldlM (sweepEntry io) s).map (·.world)
  | .finish => (reconcileStartup now io w).map (·.1)

/-- The world and the calls that are under way, by number. -/
structure Server where
  world : World
  calls : Nat → Option Call := fun _ => none

inductive ServerEvent where
  | stageRestore (n : Nat) (id : String)
  | delete (n : Nat) (id : String)
  | step (n : Nat) (luck : Luck)
  /-- A crash, and a start that comes as far as `stop`. -/
  | restart (now : Int) (io : Faults) (stop : ReconcileStop)

def Server.start (s : Server) (n : Nat) (call : Call) : Option Server :=
  if (s.calls n).isNone then some { s with calls := Function.update s.calls n (some call) } else none

def serverNext (s : Server) : ServerEvent → Option Server
  | .stageRestore n id => s.start n (.stage id)
  | .delete n id => s.start n (.delete id)
  | .step n luck =>
    (s.calls n).map fun call =>
      { world := (callStep s.world luck call).1
        calls := Function.update s.calls n (callStep s.world luck call).2 }
  | .restart now io stop =>
    match reconcileUntil now io s.world stop with
    | .ok world => some { world := world }
    | .error _ => none

def ServerStep (s : Server) (e : ServerEvent) (s' : Server) : Prop := serverNext s e = some s'

end Beat.Backup
