import Beat.Backup.Restore
import Beat.Lib.Table

/-!
# Backup records, archives and the journal

The rows of `admin_backups`, the backup directory with its archives, and the journal of a staged
restore, for any number of backups. The table is a list of rows whose ids and file names are unique
(`World.Keyed`), the directory a list of named entries.
-/

namespace Beat.Backup

/-- `model.BackupRecord`: the fields that a change of the state reads or writes. -/
structure BackupRecord where
  id : String
  filename : String
  state : BackupState
  previousState : Option BackupState := none
  restoreGeneration : String := ""
  errorMessage : String := ""
  createdAt : Int
  completedAt : Option Int := none
  updatedAt : Int
  reconciledAt : Option Int := none
  deriving DecidableEq, Repr

/-- The journal, with the backup it is for. -/
structure BackupJournal extends RestoreJournal where
  backupID : String
  deriving DecidableEq, Repr

/-- An entry of the backup directory. `complete` says whether `validateArchive` accepts the file, or
the file that a symbolic link leads to. -/
inductive Entry where
  | regular (complete : Bool)
  | link (complete : Bool)
  | other
  deriving DecidableEq, Repr

def Entry.isRegular : Entry → Bool
  | .regular _ => true
  | _ => false

/-- `validateArchive` follows symbolic links. -/
def Entry.isComplete : Entry → Bool
  | .regular complete | .link complete => complete
  | .other => false

structure World where
  records : List BackupRecord
  journal : Option BackupJournal := none
  /-- The backup directory. -/
  entries : List (String × Entry) := []
  /-- The directory `quarantine`, and the table of what was moved there. -/
  quarantine : List String := []
  inventory : List String := []
  /-- Temporary files of journals that were not published. -/
  staleJournals : List String := []
  deriving DecidableEq, Repr

/-- The constraints of the table, and one entry to a name. -/
structure World.Keyed (w : World) : Prop where
  ids : Table.Keyed (·.id) w.records
  filenames : Table.Keyed (·.filename) w.records
  entries : Table.Keyed (·.1) w.entries

def World.entry (w : World) (name : String) : Option Entry :=
  (w.entries.find? (·.1 = name)).map (·.2)

/-- `archivePath` accepts a name that is its own base name. -/
def validFilename (name : String) : Bool :=
  name ≠ "" && (name = "/" || !name.toList.contains '/')

/-- `Transition`: the compare-and-set of a record's state, `none` for `ErrBackupStateConflict`. -/
def transition (records : List BackupRecord) (next : BackupRecord) (expected : BackupState) :
    Option (List BackupRecord) :=
  if records.any fun r => r.id = next.id && r.state = expected then
    some (Table.update records (fun r => r.id = next.id && r.state = expected) fun _ => next)
  else none

/-- `Delete`, which does not look at the state. -/
def deleteRecord (records : List BackupRecord) (id : String) : List BackupRecord :=
  records.filter (·.id ≠ id)

/-- Whether `removeArchive` succeeds: the file is absent or a regular one. -/
def World.archiveRemovable (w : World) (filename : String) : Bool :=
  validFilename filename && (w.entry filename).all Entry.isRegular

def World.removeEntry (w : World) (name : String) : World :=
  { w with entries := w.entries.filter (·.1 ≠ name) }

/-- `archiveIsRegular`, `none` for a file name that is not accepted. -/
def World.archiveIsRegular (w : World) (filename : String) : Option Bool :=
  if validFilename filename then some ((w.entry filename).any Entry.isRegular) else none

def World.archiveIsComplete (w : World) (filename : String) : Bool :=
  validFilename filename && (w.entry filename).any Entry.isComplete

/-! ## The table and the directory -/

theorem transition_eq_some {records records' : List BackupRecord} {next : BackupRecord}
    {expected : BackupState} (h : transition records next expected = some records') :
    (∃ r ∈ records, r.id = next.id ∧ r.state = expected) ∧
      records' = Table.update records (fun r => r.id = next.id && r.state = expected) fun _ => next := by
  unfold transition at h
  split at h
  · rename_i hany
    obtain ⟨r, hr, hp⟩ := List.any_eq_true.mp hany
    simp only [Bool.and_eq_true, decide_eq_true_eq] at hp
    exact ⟨⟨r, hr, hp.1, hp.2⟩, (Option.some.inj h).symm⟩
  · cases h

theorem entry_removeEntry_of_ne (w : World) {name other : String} (h : other ≠ name) :
    (w.removeEntry name).entry other = w.entry other := by
  unfold World.entry World.removeEntry
  congr 1
  rw [List.find?_filter]
  refine Table.find?_congr fun x _ => ?_
  by_cases hx : x.1 = other
  · simp [hx, h]
  · simp [hx]

end Beat.Backup
