import Beat.Backup.Staging
import Beat.Backup.Upload

/-!
# Publishing an upload

`FinalizeUpload` step by step (`backup/upload_session_finalize.go`): the assembly, the rename of the
archive, the record and the session are durable steps of their own, and the record and the session are
written in two transactions. `FinalizeUpload` holds `uploadMu`, so one such call runs at a time;
`CancelUpload`, `Expire` and `UploadChunk` run beside it. A crash ends all calls and is followed by a
start, whose `Reconcile` knows nothing of sessions.

The temporary file of the assembly is left out: no other step reads it.
-/

namespace Beat.Backup

/-- Where `FinalizeUpload` is: the next thing it does. -/
inductive FinalizePhase where
  /-- It has the lock and is to read the session and its chunks. -/
  | read
  | assemble (chunks : List UploadChunk)
  | rename (content : Bytes)
  /-- `validateArchive`, on the archive of this name. -/
  | validate (name : String) (content : Bytes)
  /-- The record is next. -/
  | create (name : String)
  /-- `MarkValidated` is next, for the record of this id. -/
  | mark (id name : String)
  /-- The way back from a `MarkValidated` that failed: first the archive, then the record. -/
  | removeArchive (id name : String)
  | removeRecord (id : String)
  /-- The staging directory is to be removed. -/
  | discard
  deriving DecidableEq, Repr

/-- The record of a call between its creation and the end of it. -/
def FinalizePhase.pending : FinalizePhase → Option String
  | .mark id _ | .removeArchive id _ | .removeRecord id => some id
  | _ => none

/-- Where `CancelUpload` is, once it has seen an open session. -/
inductive CancelPhase where
  | set | discard
  deriving DecidableEq, Repr

/-- What a step meets: whether its own operation succeeds, with the text of the error if not, whether the
transition to `quarantined` and the removal of a file do, and the random ids. -/
structure PublishLuck where
  ok : Bool := true
  reason : String := ""
  quarantines : Bool := true
  removes : Bool := true
  name : Uuid
  id : Uuid
  now : Int := 0

def uploadName (id : Uuid) : String := "beat-upload-v1-" ++ id.text ++ ".zip"

structure Publisher where
  upload : Upload
  world : World
  finalize : Option FinalizePhase := none
  cancels : Nat → Option CancelPhase := fun _ => none
  /-- The ids of all records that were created from the session. -/
  created : List String := []

/-- The record of an uploaded archive. -/
def uploadedRecord (id name : String) (now : Int) : BackupRecord where
  id := id
  filename := name
  state := .validated
  createdAt := now
  completedAt := some now
  updatedAt := now

/-- `Create`: the id and the file name are unique. -/
def createRecord (records : List BackupRecord) (record : BackupRecord) : Option (List BackupRecord) :=
  if records.any fun r => r.id = record.id || r.filename = record.filename then none
  else some (records ++ [record])

def World.putEntry (w : World) (name : String) (entry : Entry) : World :=
  { w with entries := w.entries.filter (·.1 ≠ name) ++ [(name, entry)] }

/-- `os.Remove`, whose error is ignored. -/
def World.tryRemove (w : World) (removes : Bool) (name : String) : World :=
  if removes then w.removeEntry name else w

namespace Publisher

/-- The call returns. -/
def returned (s : Publisher) : Publisher := { s with finalize := none }

def tryQuarantine (s : Publisher) (luck : PublishLuck) (reason : String) : Publisher :=
  if luck.quarantines then { s with upload := s.upload.quarantine reason } else s

/-- One step of `FinalizeUpload`. -/
def finalizeStep (d : Digest) (validate : Bytes → Except String Unit) (s : Publisher) (luck : PublishLuck) : FinalizePhase → Publisher
  | .read =>
    if luck.ok = false ∨ s.upload.session.state ≠ .opened then s.returned
    else
      match checkUploadCompleteness s.upload.session s.upload.listChunks with
      | .error _ => s.returned
      | .ok () => { s with finalize := some (.assemble s.upload.listChunks) }
  | .assemble chunks =>
    if luck.ok then
      match copyUploadChunks d (s.upload.staging.getD ⟨fun _ => none⟩) chunks with
      | .error _ => (s.tryQuarantine luck "backup upload staging state is inconsistent").returned
      | .ok content =>
        if (content.length : Int) ≠ s.upload.session.declaredBytes ∨
            d.sum content ≠ s.upload.session.declaredDigest then
          (s.tryQuarantine luck "archive digest does not match the declaration").returned
        else { s with finalize := some (.rename content) }
    else s.returned
  | .rename content =>
    if luck.ok then
      { s with
        world := s.world.putEntry (uploadName luck.name) (.regular (validate content).isOk)
        finalize := some (.validate (uploadName luck.name) content) }
    else s.returned
  | .validate name content =>
    match (if luck.ok then validate content else .error luck.reason) with
    | .ok () => { s with finalize := some (.create name) }
    | .error reason =>
      ({ s with world := s.world.tryRemove luck.removes name }.tryQuarantine luck reason).returned
  | .create name =>
    match (if luck.ok then createRecord s.world.records (uploadedRecord luck.id.text name luck.now)
      else none) with
    | some records =>
      { s with
        world := { s.world with records := records }
        created := s.created ++ [luck.id.text]
        finalize := some (.mark luck.id.text name) }
    | none => { s with world := s.world.tryRemove luck.removes name }.returned
  | .mark id name =>
    match (if luck.ok then s.upload.markValidated id else none) with
    | some upload => { s with upload := upload, finalize := some .discard }
    | none => { s with finalize := some (.removeArchive id name) }
  | .removeArchive id name =>
    { s with world := s.world.tryRemove luck.removes name, finalize := some (.removeRecord id) }
  | .removeRecord id =>
    if luck.ok then
      { s with world := { s.world with records := deleteRecord s.world.records id } }.returned
    else s.returned
  | .discard => { s with upload := { s.upload with staging := none } }.returned

/-- One step of `CancelUpload`. -/
def cancelStep (s : Publisher) (n : Nat) (ok : Bool) : CancelPhase → Publisher
  | .set =>
    match (if ok then s.upload.setState .cancelled "cancelled by owner" else none) with
    | some upload =>
      { s with upload := upload, cancels := Function.update s.cancels n (some .discard) }
    | none => { s with cancels := Function.update s.cancels n none }
  | .discard =>
    { s with
      upload := { s.upload with staging := none }
      cancels := Function.update s.cancels n none }

end Publisher

inductive PublishEvent where
  | finalize
  | finalizeStep (luck : PublishLuck)
  | cancel (n : Nat)
  | cancelStep (n : Nat) (ok : Bool)
  | expire (picked : Bool) (now : Int)
  | chunk (request : UploadChunkRequest) (clock : UploadClock)
  /-- A crash, and a start that comes as far as `stop`. -/
  | restart (now : Int) (io : Faults) (stop : ReconcileStop)

def publishNext (d : Digest) (validate : Bytes → Except String Unit) (s : Publisher) : PublishEvent → Option Publisher
  | .finalize => if s.finalize.isNone then some { s with finalize := some .read } else none
  | .finalizeStep luck => s.finalize.map (s.finalizeStep d validate luck)
  | .cancel n =>
    if (s.cancels n).isSome then none
    else if s.upload.session.state = .opened then
      some { s with cancels := Function.update s.cancels n (some .set) }
    else some s
  | .cancelStep n ok => (s.cancels n).map (s.cancelStep n ok)
  | .expire picked now => some { s with upload := s.upload.expire picked now }
  | .chunk request clock => some { s with upload := (s.upload.uploadChunk d request clock).1 }
  | .restart now io stop =>
    match reconcileUntil now io s.world stop with
    | .ok world => some { upload := s.upload, world := world, created := s.created }
    | .error _ => none

def PublishStep (d : Digest) (validate : Bytes → Except String Unit) (s : Publisher) (e : PublishEvent)
    (s' : Publisher) : Prop := publishNext d validate s e = some s'

end Beat.Backup
