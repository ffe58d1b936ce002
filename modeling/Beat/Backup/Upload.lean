import Beat.Lib.Files
import Beat.Lib.Run
import Beat.Model
import Mathlib.Algebra.Ring.Int.Defs
import Mathlib.Data.List.Sort

/-!
# Uploads in chunks

One session of a resumable upload: its row, the rows of its chunks, and the files of its staging
directory (`backup/upload_session*.go`, `store/backup_upload*.go`, `model/backup_upload.go`). The
calls are those of the owner, there are no errors of the file system or the database, and each call is
done as a whole. The digest is a parameter (`Digest`), and so is the check of a finished archive.
-/

namespace Beat.Backup

open FileOps

abbrev Bytes := List UInt8

def validDigest (digest : String) : Bool :=
  digest.utf8ByteSize = 64 && digest.toList.all fun c => "0123456789abcdef".toList.contains c

/-- SHA-256 in its text form. -/
structure Digest where
  sum : Bytes → String
  valid : ∀ b, validDigest (sum b) = true

/-! ## Geometry -/

def MinimumBackupUploadChunkBytes : Int := 2 ^ 20
def MaximumBackupUploadChunkBytes : Int := 64 * 2 ^ 20
def MaximumBackupUploadChunks : Int := 4096
def MaximumBackupUploadArchiveBytes : Int := 4 * 2 ^ 30

/-- The size of the chunks and their number. -/
def backupUploadGeometry (sizeBytes : Int) : Option (Int × Int) :=
  if sizeBytes < 0 ∨ MaximumBackupUploadArchiveBytes < sizeBytes then none
  else if sizeBytes = 0 then some (MinimumBackupUploadChunkBytes, 1)
  else
    let chunkBytes := (sizeBytes + MaximumBackupUploadChunks - 1) / MaximumBackupUploadChunks
    let chunkBytes :=
      if chunkBytes < MinimumBackupUploadChunkBytes then MinimumBackupUploadChunkBytes else chunkBytes
    let chunkBytes :=
      if MaximumBackupUploadChunkBytes < chunkBytes then MaximumBackupUploadChunkBytes else chunkBytes
    let count := (sizeBytes + chunkBytes - 1) / chunkBytes
    if count < 1 ∨ MaximumBackupUploadChunks < count then none else some (chunkBytes, count)

def offsetForBackupUploadChunk (index chunkBytes : Int) : Int :=
  if index < 0 ∨ chunkBytes ≤ 0 then -1 else index * chunkBytes

def backupUploadChunkSize (index chunkBytes declaredBytes : Int) : Int :=
  if index < 0 ∨ MaximumBackupUploadChunks ≤ index ∨ chunkBytes ≤ 0 ∨ declaredBytes < 0 then -1
  else if declaredBytes ≤ index * chunkBytes then 0
  else if declaredBytes - index * chunkBytes < chunkBytes then declaredBytes - index * chunkBytes
  else chunkBytes

/-! ## Rows and files -/

inductive UploadState where
  /-- `open`. -/
  | opened
  | quarantined | validated | cancelled | expired
  deriving DecidableEq, Repr

structure UploadSession where
  declaredBytes : Int
  declaredDigest : String
  chunkBytes : Int
  chunkCount : Int
  receivedBytes : Int := 0
  receivedChunks : Int := 0
  state : UploadState := .opened
  backupID : String := ""
  lastError : String := ""
  expiresAt : Int
  deriving DecidableEq, Repr

structure UploadChunk where
  index : Int
  offset : Int
  sizeBytes : Int
  digest : String
  createdAt : Int
  deriving DecidableEq, Repr

/-- The session, its chunks, and its staging directory until that is removed. -/
structure Upload where
  session : UploadSession
  chunks : List UploadChunk := []
  staging : Option (Files Int Bytes) := some ⟨fun _ => none⟩

inductive UploadError where
  | closed | chunkRange | digest | chunkDigest | chunkConflict | incomplete | staging
  /-- The staging directory is gone. -/
  | io
  /-- `validateArchive` refuses the archive. -/
  | archive (reason : String)
  deriving DecidableEq, Repr

/-- 24 hours, in nanoseconds. -/
def BackupUploadSessionTTL : Int := 24 * 3600 * 1000000000

def startUpload (sizeBytes : Int) (digest : String) (now : Int) : Except UploadError Upload :=
  if !validDigest digest then .error .digest
  else
    match backupUploadGeometry sizeBytes with
    | none => .error .chunkRange
    | some (chunkBytes, chunkCount) =>
      .ok
        { session :=
            { declaredBytes := sizeBytes
              declaredDigest := digest
              chunkBytes := chunkBytes
              chunkCount := chunkCount
              expiresAt := now + BackupUploadSessionTTL } }

/-! ## The store -/

inductive UploadStoreError where
  | closed | state | chunkConflict
  deriving DecidableEq, Repr

def mapUploadChunkError : UploadStoreError → UploadError
  | .chunkConflict => .chunkConflict
  | .state | .closed => .closed

namespace Upload

variable (u : Upload)

def isWritable : Bool :=
  u.session.state = .opened || u.session.state = .quarantined

/-- `SetState`; `none` is `ErrBackupUploadState`. -/
def setState (state : UploadState) (reason : String) : Option Upload :=
  if u.isWritable then some { u with session := { u.session with state := state, lastError := reason } }
  else none

/-- `quarantine` ignores the error. -/
def quarantine (reason : String) : Upload := (u.setState .quarantined reason).getD u

def expired : Upload :=
  { u with session := { u.session with state := .expired, lastError := "session expired" } }

/-- `Expire` takes 256 sessions at a time; this one may not be among them. -/
def expire (picked : Bool) (now : Int) : Upload :=
  if picked ∧ u.isWritable ∧ u.session.expiresAt ≤ now then u.expired else u

def chunk (index : Int) : Option UploadChunk := u.chunks.find? (·.index = index)

def listChunks : List UploadChunk := u.chunks.insertionSort (·.index ≤ ·.index)

/-- The new row and the counters of the session. -/
def insertChunk (chunk : UploadChunk) : Upload :=
  { u with
    chunks := u.chunks ++ [chunk]
    session := { u.session with
      receivedBytes := u.session.receivedBytes + chunk.sizeBytes
      receivedChunks := u.session.receivedChunks + 1 } }

def appendChunk (chunk : UploadChunk) (now : Int) : Upload × Except UploadStoreError UploadChunk :=
  if u.session.state ≠ .opened then (u, .error .closed)
  else if u.session.expiresAt ≤ now then (u.expired, .error .closed)
  else if chunk.index < 0 ∨ u.session.chunkCount ≤ chunk.index ∨
      backupUploadChunkSize chunk.index u.session.chunkBytes u.session.declaredBytes ≠ chunk.sizeBytes ∨
      chunk.offset ≠ offsetForBackupUploadChunk chunk.index u.session.chunkBytes then
    (u, .error .state)
  else
    match u.chunk chunk.index with
    | some existing =>
      if existing.digest = chunk.digest ∧ existing.sizeBytes = chunk.sizeBytes then (u, .ok existing)
      else
        ({ u with session := { u.session with
            state := .quarantined
            lastError := "chunk " ++ toString existing.index ++ " conflicts with recorded digest " ++
              existing.digest } }, .error .chunkConflict)
    | none => (u.insertChunk chunk, .ok chunk)

/-- `MarkValidated`; `none` is `ErrBackupUploadClosed`. -/
def markValidated (backupID : String) : Option Upload :=
  if u.session.state = .opened then
    some { u with session :=
      { u.session with state := .validated, backupID := backupID, lastError := "" } }
  else none

/-! ## `UploadChunk` -/

end Upload

structure UploadChunkRequest where
  index : Int
  offset : Int
  sizeBytes : Int
  digest : String
  body : Bytes
  deriving DecidableEq, Repr

/-- At most one byte more than announced is read. -/
def writeChunkFile (d : Digest) (files : Files Int Bytes) (request : UploadChunkRequest) :
    Except UploadError (String × Files Int Bytes) :=
  let content := request.body.take (request.sizeBytes + 1).toNat
  if (content.length : Int) ≠ request.sizeBytes then .error .chunkRange
  else if d.sum content ≠ request.digest then .error .chunkDigest
  else .ok (d.sum content, files.set request.index (some content))

/-- What the clock says at the start of a call and when the row is made, and whether an `Expire` of the
call takes this session. -/
structure UploadClock where
  now : Int
  later : Int
  picked : Bool
  deriving DecidableEq, Repr

namespace Upload

def removeChunkFile (u : Upload) (index : Int) : Upload :=
  { u with staging := u.staging.map (·.set index none) }

/-- `UploadChunk`, from the point where the file of the chunk is published. -/
def recordChunk (u : Upload) (request : UploadChunkRequest) (digest : String) (later : Int) :
    Upload × Except UploadError UploadChunk :=
  match u.chunk request.index with
  | some existing =>
    if existing.digest = digest ∧ existing.sizeBytes = request.sizeBytes then
      (u.removeChunkFile request.index, .ok existing)
    else
      ((u.removeChunkFile request.index).quarantine "chunk conflicts with an earlier attempt",
        .error .chunkConflict)
  | none =>
    match u.appendChunk
        { index := request.index
          offset := request.offset
          sizeBytes := request.sizeBytes
          digest := digest
          createdAt := later } later with
    | (u, .ok stored) => (u, .ok stored)
    | (u, .error e) => (u.removeChunkFile request.index, .error (mapUploadChunkError e))

def uploadChunk (d : Digest) (u : Upload) (request : UploadChunkRequest) (clock : UploadClock) :
    Upload × Except UploadError UploadChunk :=
  if u.session.state ≠ .opened then (u, .error .closed)
  else if u.session.expiresAt ≤ clock.now then (u.expire clock.picked clock.now, .error .closed)
  else
    let expected := backupUploadChunkSize request.index u.session.chunkBytes u.session.declaredBytes
    if expected ≤ 0 ∨ request.sizeBytes ≠ expected ∨
        request.offset ≠ offsetForBackupUploadChunk request.index u.session.chunkBytes then
      (u, .error .chunkRange)
    else if !validDigest request.digest then (u, .error .digest)
    else
      match u.staging with
      | none => (u, .error .io)
      | some files =>
        match writeChunkFile d files request with
        | .error e => (u, .error e)
        | .ok (digest, files) =>
          { u with staging := some files }.recordChunk request digest clock.later

end Upload

/-! ## `FinalizeUpload` and `CancelUpload` -/

/-- The loop of `checkUploadCompleteness`, from `position` on and with `total` bytes so far. -/
def chunksComplete (session : UploadSession) : Int → Int → List UploadChunk → Except UploadError Unit
  | _, total, [] => if total ≠ session.declaredBytes then .error .incomplete else .ok ()
  | position, total, chunk :: chunks =>
    if chunk.index ≠ position ∨
        chunk.sizeBytes ≠ backupUploadChunkSize position session.chunkBytes session.declaredBytes ∨
        chunk.offset ≠ offsetForBackupUploadChunk position session.chunkBytes ∨
        session.declaredBytes < total + chunk.sizeBytes then
      .error .staging
    else chunksComplete session (position + 1) (total + chunk.sizeBytes) chunks

def checkUploadCompleteness (session : UploadSession) (chunks : List UploadChunk) : Except UploadError Unit :=
  if (chunks.length : Int) ≠ session.chunkCount then .error .incomplete
  else chunksComplete session 0 0 chunks

def copyUploadChunk (d : Digest) (files : Files Int Bytes) (chunk : UploadChunk) : Except UploadError Bytes :=
  match files chunk.index with
  | none => .error .staging
  | some content =>
    if (content.length : Int) ≠ chunk.sizeBytes ∨ d.sum content ≠ chunk.digest then .error .staging
    else .ok content

def copyUploadChunks (d : Digest) (files : Files Int Bytes) : List UploadChunk → Except UploadError Bytes
  | [] => .ok []
  | chunk :: chunks =>
    match copyUploadChunk d files chunk with
    | .error e => .error e
    | .ok content =>
      match copyUploadChunks d files chunks with
      | .error e => .error e
      | .ok rest => .ok (content ++ rest)

namespace Upload

/-- The bytes of `assembleArchive`. Without the directory there is no file of a chunk. -/
def assembleArchive (d : Digest) (u : Upload) : Except UploadError Bytes :=
  copyUploadChunks d (u.staging.getD ⟨fun _ => none⟩) u.listChunks

/-- `FinalizeUpload`; `backupID` is the id of the new record, `validate` is `validateArchive` with the text of
its error. The answer is the archive that was published. -/
def finalizeUpload (d : Digest) (validate : Bytes → Except String Unit) (u : Upload) (backupID : String) :
    Upload × Except UploadError Bytes :=
  if u.session.state ≠ .opened then (u, .error .closed)
  else
    match checkUploadCompleteness u.session u.listChunks with
    | .error e => (u, .error e)
    | .ok () =>
      match u.assembleArchive d with
      | .error .staging => (u.quarantine "backup upload staging state is inconsistent", .error .staging)
      | .error e => (u, .error e)
      | .ok content =>
        if (content.length : Int) ≠ u.session.declaredBytes ∨ d.sum content ≠ u.session.declaredDigest then
          (u.quarantine "archive digest does not match the declaration", .error .chunkDigest)
        else
          match validate content with
          | .error reason => (u.quarantine reason, .error (.archive reason))
          | .ok () =>
            match u.markValidated backupID with
            | none => (u, .error .closed)
            | some u => ({ u with staging := none }, .ok content)

def cancelUpload (u : Upload) : Upload × Except UploadError Unit :=
  if u.session.state ≠ .opened then (u, .error .closed)
  else
    match u.setState .cancelled "cancelled by owner" with
    | none => (u, .error .closed)
    | some u => ({ u with staging := none }, .ok ())

end Upload

inductive UploadEvent where
  | chunk (request : UploadChunkRequest) (clock : UploadClock)
  | cancel
  | expire (picked : Bool) (now : Int)
  | finalize (backupID : String)
  deriving DecidableEq, Repr

/-- What the caller is told. -/
inductive UploadAnswer where
  | chunk (answer : Except UploadError UploadChunk)
  | cancel (answer : Except UploadError Unit)
  | expire
  | finalize (answer : Except UploadError Bytes)

def uploadStep (d : Digest) (validate : Bytes → Except String Unit) (u : Upload) : UploadEvent → Upload × UploadAnswer
  | .chunk request clock =>
    ((u.uploadChunk d request clock).1, .chunk (u.uploadChunk d request clock).2)
  | .cancel => (u.cancelUpload.1, .cancel u.cancelUpload.2)
  | .expire picked now => (u.expire picked now, .expire)
  | .finalize backupID =>
    ((u.finalizeUpload d validate backupID).1, .finalize (u.finalizeUpload d validate backupID).2)

/-- A call and its answer. -/
def UploadCall (d : Digest) (validate : Bytes → Except String Unit) (u : Upload) (e : UploadEvent × UploadAnswer)
    (u' : Upload) : Prop := uploadStep d validate u e.1 = (u', e.2)

end Beat.Backup
