import Beat.Lib.Run
import Beat.Secrets.Keyring
import Mathlib.Data.List.Sort

/-!
# Rotation of the root key

`rotateRoot` (`applicationsecrets/root_rotation.go`), `RecoverRootFiles` and `recoverRootJournal`
(`applicationsecrets/root_recovery.go`) and the journal (`applicationsecrets/root_journal.go`), one
durable step at a time. Both programs hold the lifecycle lease, so one of them runs at a time, and the
server only runs between them.

A rotation fills `.root-key-rotation.prepare` with the old root, the new root and a journal, renames it
to `.root-key-rotation`, commits the registry under the new root, publishes the new root as
`admin-data.key`, renames the directory to `.root-key-rotation.complete` and removes it file by file. A
crash or an error may come before any of these steps.

Not modelled: owners and modes of files, `checkpointSQLite`, which changes nothing that is read here,
and the temporary `.beat-root-publish-*` in the data directory, which nothing reads.
-/

namespace Beat.Secrets

def maxRootGeneration : Nat := 9223372036854775807

inductive RotationError where
  | secret (e : SecretError)
  | notExist
  | exists
  | notEmpty
  | ambiguousState
  | invalidJournal
  | generationMismatch
  | sameRoot
  | pendingRestore
  | unexpectedArtifact
  | fault
  deriving DecidableEq, Repr

/-- `rootJournal`. -/
structure RootJournal where
  version : Nat
  previousFingerprint : Fingerprint
  nextFingerprint : Fingerprint
  previousGeneration : Nat
  nextGeneration : Nat
  deriving DecidableEq

/-! ## Directories -/

inductive FileContent where
  | key (root : RootKey)
  | journal (journal : RootJournal)
  deriving DecidableEq

/-- The files of a rotation directory. -/
abbrev RotationDirectory := List (String × FileContent)

namespace RotationDirectory

variable (d : RotationDirectory)

def file (name : String) : Option FileContent :=
  (d.find? fun f => f.1 = name).map (·.2)

def names : List String := d.map (·.1)

def remove (name : String) : RotationDirectory := d.filter (·.1 ≠ name)

/-- `os.ReadDir`. -/
def readDir : List String := d.names.insertionSort (· ≤ ·)

def readRootKey (name : String) : Except RotationError RootKey :=
  match d.file name with
  | some (.key root) => .ok root
  | _ => .error .notExist

def readRootJournal : Except RotationError RootJournal :=
  match d.file "journal.json" with
  | some (.journal j) =>
    if j.version ≠ 1 ∨ j.previousGeneration < 1 ∨ j.nextGeneration ≠ j.previousGeneration + 1 ∨
        j.previousFingerprint = j.nextFingerprint then
      .error .invalidJournal
    else .ok j
  | _ => .error .notExist

/-- `os.CreateTemp`, and the content in one synced write. -/
def createTemp (name : String) (content : FileContent) :
    Except RotationError RotationDirectory :=
  if name ∈ d.names then .error .exists else .ok (d ++ [(name, content)])

/-- A rename of a file that replaces none. -/
def rename (source target : String) : Except RotationError RotationDirectory :=
  match d.file source with
  | none => .error .notExist
  | some content =>
    if target ∈ d.names then .error .exists else .ok (d.remove source ++ [(target, content)])

/-- `removeRotationFile`. -/
def removeRotationFile (name : String) : Except RotationError RotationDirectory :=
  if name ≠ "old.key" ∧ name ≠ "next.key" ∧ name ≠ "journal.json" ∧
      ¬ ".beat-secret-".toList.isPrefixOf name.toList then
    .error .unexpectedArtifact
  else if name ∈ d.names then .ok (d.remove name)
  else .error .notExist

end RotationDirectory

/-- The three names of a rotation directory. -/
inductive RotationKind where
  | journal | prepare | complete
  deriving DecidableEq, Repr

def rotationDirectories : List RotationKind := [.journal, .prepare, .complete]

abbrev RotationDirectories := RotationKind → Option RotationDirectory

/-- `rootRotationMarker`. -/
def rootRotationMarker (dirs : RotationDirectories) : Except RotationError (Option RotationKind) :=
  match rotationDirectories.filter fun kind => (dirs kind).isSome with
  | [] => .ok none
  | [kind] => .ok (some kind)
  | _ => .error .ambiguousState

/-- A rename of a directory that replaces none. -/
def renameDirectory (dirs : RotationDirectories) (source target : RotationKind) :
    Except RotationError RotationDirectories :=
  match dirs source, dirs target with
  | some d, none => .ok (Function.update (Function.update dirs source none) target (some d))
  | none, _ => .error .notExist
  | some _, some _ => .error .exists

/-! ## The programs -/

inductive Program where
  | rotateRoot | recoverRootFiles
  deriving DecidableEq, Repr

/-- What a rotation has to carry on with: the two roots and the generation of the old one. -/
structure Rotator where
  old : RootKey
  next : RootKey
  generation : Nat
  deriving DecidableEq

/-- Where a program is: the next durable step. -/
inductive Place where
  /-- The program is to look for a rotation directory. -/
  | entered (program : Program)
  | makeDirectory (old : RootKey) (generation : Nat)
  | saveOld (old : RootKey) (generation : Nat)
  | renameOld (old : RootKey) (generation : Nat) (temp : String)
  /-- `prepareNextRoot`. -/
  | saveNext (old : RootKey) (generation : Nat)
  | renameNext (rotator : Rotator) (temp : String)
  | saveJournal (rotator : Rotator)
  | renameJournal (rotator : Rotator) (temp : String)
  | publishJournal (rotator : Rotator)
  | rewrap (rotator : Rotator)
  | publishNext
  | validateSnapshot
  /-- `publishJournalRoot` of a recovery, for the file of this name. -/
  | publishRoot (name : String)
  /-- The first rename of `finishRootJournal`. -/
  | finish
  /-- `removeRotationDirectory`, with the entries that it still has to remove. -/
  | remove (kind : RotationKind) (names : List String)
  deriving DecidableEq

/-- The temporary file that the deferred removal of `publishNewPrivateFile` is for. -/
def Place.temp : Place → Option String
  | .renameOld _ _ temp | .renameNext _ temp | .renameJournal _ temp => some temp
  | _ => none

/-- What a crash leaves. -/
structure RootDisk where
  db : Database
  /-- `admin-data.key`. -/
  admin : Option RootKey
  dirs : RotationDirectories := fun _ => none
  /-- The root of each generation that was ever committed. -/
  roots : Nat → Option RootKey

structure RootWorld extends RootDisk where
  /-- `restore.pending.json` holds a restore that is not applied. -/
  restorePending : Bool := false
  place : Option Place := none
  /-- What the last program returned; a crash returns nothing. -/
  result : Option (Except RotationError Unit) := none

/-- The random bytes of a step: a new root, and the name of a temporary file. -/
structure RootLuck where
  root : RootKey
  suffix : String

def RootLuck.temp (luck : RootLuck) : String := ".beat-secret-" ++ luck.suffix

namespace RootWorld

variable (w : RootWorld)

def goto (place : Place) : RootWorld := { w with place := some place }

def returned (result : Except RotationError Unit) : RootWorld :=
  { w with place := none, result := some result }

/-- Carry on with the value, or return the error. -/
def proceed {α : Type} (w : RootWorld) (x : Except RotationError α) (f : α → RootWorld) : RootWorld :=
  match x with
  | .ok a => f a
  | .error e => w.returned (.error e)

def setDir (kind : RotationKind) (d : Option RotationDirectory) : RootWorld :=
  { w with dirs := Function.update w.dirs kind d }

/-- A step in the directory `prepare`. -/
def inPrepare (f : RotationDirectory → Except RotationError RotationDirectory)
    (next : Place) : RootWorld :=
  w.proceed (match w.dirs .prepare with | some d => f d | none => .error .notExist) fun d =>
    (w.setDir .prepare (some d)).goto next

end RootWorld

def asRotation {α : Type} (x : Except SecretError α) : Except RotationError α := x.mapError .secret

section Steps

variable (fingerprint : RootKey → Fingerprint) (w : RootWorld)

def Rotator.journal (r : Rotator) : RootJournal where
  version := 1
  previousFingerprint := fingerprint r.old
  nextFingerprint := fingerprint r.next
  previousGeneration := r.generation
  nextGeneration := r.generation + 1

/-- `rewrapKey`: the row that was just read gets its key under the new root. -/
def rewrapKey (old next : RootKey) (key : RegistryKey) : Except SecretError RegistryKey :=
  match (unwrapDataKey old key).bind fun material => wrapDataKey next material key.generation with
  | some wrapped => .ok { key with wrapped := wrapped }
  | none => .error .ciphertext

/-- The transaction of `rewrap`: the keys that `readRegistry` returns and the row of the state, which
has to be as the rotation has found it. -/
def Database.rewrap (db : Database) (r : Rotator) : Except SecretError Database := do
  let keys ← db.readRegistry.mapM (rewrapKey r.old r.next)
  if db.state.rootFingerprint = fingerprint r.old ∧ db.state.rootGeneration = r.generation ∧
      db.state.phase = .ready then
    .ok { db with
      registry := keys ++ db.registry.drop (maximumDataKeys + 1)
      state := { db.state with
        rootFingerprint := fingerprint r.next
        rootGeneration := r.generation + 1 } }
  else .error .unhealthy

namespace RootWorld

/-- The root of `admin-data.key`, if it is that of the database. -/
def validAdmin : Except RotationError RootKey :=
  match w.admin with
  | none => .error .notExist
  | some root => (asRotation (w.db.validateWithRoot fingerprint root)).map fun _ => root

/-- `verifyCurrentRoot`. -/
def verifyCurrentRoot (journal : RootJournal) : Except RotationError Unit :=
  match w.admin with
  | none => .ok ()
  | some root =>
    if fingerprint root ≠ journal.previousFingerprint ∧ fingerprint root ≠ journal.nextFingerprint then
      .error (.secret .unhealthy)
    else .ok ()

/-- The file of the journal's directory that holds the root of the database, and its fingerprint. -/
def chooseRoot (state : LifecycleState) (journal : RootJournal) : Except RotationError (String × Fingerprint) :=
  if state.rootGeneration = journal.previousGeneration ∧
      state.rootFingerprint = journal.previousFingerprint then
    .ok ("old.key", journal.previousFingerprint)
  else if state.rootGeneration = journal.nextGeneration ∧
      state.rootFingerprint = journal.nextFingerprint then
    .ok ("next.key", journal.nextFingerprint)
  else .error .generationMismatch

/-- `recoverPublishedJournal`, up to the publication of the file that it returns. -/
def recoverPublishedJournal (d : RotationDirectory) : Except RotationError String := do
  let journal ← d.readRootJournal
  let state ← asRotation w.db.readState
  let choice ← chooseRoot state journal
  let root ← d.readRootKey choice.1
  if fingerprint root ≠ choice.2 then .error (.secret .unhealthy)
  else do
    let _ ← asRotation (w.db.validateWithRoot fingerprint root)
    w.verifyCurrentRoot fingerprint journal
    .ok choice.1

/-- `recoverRootJournal`, where there is a rotation directory. -/
def recoverRootJournal (kind : RotationKind) (d : RotationDirectory) : RootWorld :=
  match kind with
  | .journal => w.proceed (w.recoverPublishedJournal fingerprint d) fun name => w.goto (.publishRoot name)
  | .prepare | .complete =>
    w.proceed (w.validAdmin fingerprint) fun _ => w.goto (.remove kind d.readDir)

/-- The first half of `prepare`. -/
def prepare : RootWorld :=
  w.proceed (w.validAdmin fingerprint) fun old =>
    if w.db.state.rootGeneration = maxRootGeneration then w.returned (.error (.secret .unhealthy))
    else w.goto (.makeDirectory old w.db.state.rootGeneration)

/-- The start of either program, up to its first durable step. -/
def enter (program : Program) : RootWorld :=
  if program = .rotateRoot ∧ w.restorePending = true then w.returned (.error .pendingRestore)
  else
    w.proceed (rootRotationMarker w.dirs) fun marker =>
      match marker.bind fun kind => (w.dirs kind).map (kind, ·), program with
      | some (kind, d), _ => w.recoverRootJournal fingerprint kind d
      | none, .recoverRootFiles => w.returned (.ok ())
      | none, .rotateRoot => w.prepare fingerprint

/-- `publishJournalRoot`. -/
def publishJournalRoot (name : String) (next : Place) : RootWorld :=
  w.proceed (match w.dirs .journal with | some d => d.readRootKey name | none => .error .notExist)
    fun root => { w with admin := some root }.goto next

/-- The transaction of `rewrap`, which also records the root of the new generation. -/
def commitRewrap (r : Rotator) : RootWorld :=
  w.proceed (asRotation (w.db.rewrap fingerprint r)) fun db =>
    { w with db := db, roots := Function.update w.roots (r.generation + 1) (some r.next) }.goto
      .publishNext

/-- One turn of the loop of `removeRotationDirectory`, or the removal of the empty directory. -/
def removeNext (kind : RotationKind) : List String → RootWorld
  | name :: names =>
    w.proceed (match w.dirs kind with | some d => d.removeRotationFile name | none => .error .notExist)
      fun d => (w.setDir kind (some d)).goto (.remove kind names)
  | [] =>
    match w.dirs kind with
    | none => w.returned (.error .notExist)
    | some (_ :: _) => w.returned (.error .notEmpty)
    | some [] => (w.setDir kind none).returned (.ok ())

/-- The next durable step of the program. -/
def advance (luck : RootLuck) : Place → RootWorld
  | .entered program => w.enter fingerprint program
  | .makeDirectory old generation =>
    if (w.dirs .prepare).isSome then w.returned (.error .exists)
    else (w.setDir .prepare (some [])).goto (.saveOld old generation)
  | .saveOld old generation =>
    w.inPrepare (·.createTemp luck.temp (.key old)) (.renameOld old generation luck.temp)
  | .renameOld old generation temp => w.inPrepare (·.rename temp "old.key") (.saveNext old generation)
  | .saveNext old generation =>
    if fingerprint old = fingerprint luck.root then w.returned (.error .sameRoot)
    else
      w.inPrepare (·.createTemp luck.temp (.key luck.root))
        (.renameNext ⟨old, luck.root, generation⟩ luck.temp)
  | .renameNext r temp => w.inPrepare (·.rename temp "next.key") (.saveJournal r)
  | .saveJournal r =>
    w.inPrepare (·.createTemp luck.temp (.journal (r.journal fingerprint))) (.renameJournal r luck.temp)
  | .renameJournal r temp => w.inPrepare (·.rename temp "journal.json") (.publishJournal r)
  | .publishJournal r =>
    w.proceed (renameDirectory w.dirs .prepare .journal) fun dirs => { w with dirs := dirs }.goto (.rewrap r)
  | .rewrap r => w.commitRewrap fingerprint r
  | .publishNext => w.publishJournalRoot "next.key" .validateSnapshot
  | .validateSnapshot => w.proceed (w.validAdmin fingerprint) fun _ => w.goto .finish
  | .publishRoot name => w.publishJournalRoot name .finish
  | .finish =>
    w.proceed (renameDirectory w.dirs .journal .complete) fun dirs =>
      { w with dirs := dirs }.goto (.remove .complete ((dirs .complete).getD []).readDir)
  | .remove kind names => w.removeNext kind names

/-- An error that is not of the program's own making: it returns, and may remove its temporary file. -/
def faulted (removes : Bool) (place : Place) : RootWorld :=
  let w := match place.temp, w.dirs .prepare with
    | some temp, some d => if removes then w.setDir .prepare (some (d.remove temp)) else w
    | _, _ => w
  w.returned (.error .fault)

end RootWorld

/-- What may happen next. -/
inductive RootEvent where
  | call (program : Program)
  | advance (luck : RootLuck)
  | fault (removes : Bool)
  | crash
  /-- The server has run and has left this database behind. -/
  | serve (db : Database)

/-- The server has found no rotation directory; it leaves the root alone, and every key of its registry
is under that root. -/
def RootWorld.maySave (db : Database) : Bool :=
  w.place.isNone && rotationDirectories.all (fun kind => (w.dirs kind).isNone) &&
    db.state.rootFingerprint = w.db.state.rootFingerprint &&
    db.state.rootGeneration = w.db.state.rootGeneration &&
    w.admin.any fun root => db.registry.all fun key => (unwrapDataKey root key).isSome

def rootNext : RootEvent → Option RootWorld
  | .call program => if w.place.isNone then some { w with place := some (.entered program) } else none
  | .advance luck => w.place.map (w.advance fingerprint luck)
  | .fault removes => w.place.map (w.faulted removes)
  | .crash => some { w with place := none, result := none }
  | .serve db => if w.maySave db then some { w with db := db } else none

def RootStep (e : RootEvent) (w' : RootWorld) : Prop :=
  rootNext fingerprint w e = some w'

end Steps

end Beat.Secrets
