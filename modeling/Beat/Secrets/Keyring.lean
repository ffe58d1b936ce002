import Beat.Lib.Fallible
import Beat.Lib.Sealed
import Beat.Model
import Mathlib.Algebra.Ring.Nat
import Mathlib.Data.List.Dedup
import Mathlib.Data.String.Basic

/-!
# The key registry and what it seals

`applicationsecrets/registry.go`, `applicationsecrets/sources.go`, `applicationsecrets/validation.go`
and the v2 envelopes of `secretbox`. The root key of the data directory wraps the data keys of the
registry, and the data keys seal the secrets: columns of several tables, and the chunks of operation
artifacts, of which the database holds the id of the key only.

Encryption is ideal (`Aead.Box`). A root key and the material of a data key are 32 bytes, the id of a
data key is 16 bytes that are not all zero; the fingerprint of a root is a function of it of which
nothing is assumed. The database is one that has left the legacy formats behind: the column
`ssh_keys.private_key` is gone.
-/

namespace Beat.Secrets

open Fallible Option

open Aead (Box)

def maximumDataKeys : Nat := 5

def batchSize : Nat := 64

def maximumSecretBytes : Nat := 1048576

def maximumResourceCiphertextBytes : Nat := maximumSecretBytes + 128

abbrev RootKey := BitVec 256

abbrev Fingerprint := BitVec 256

/-- What `parseDataKeyID` accepts. -/
structure KeyId where
  bits : BitVec 128
  ne_zero : bits ≠ 0
  deriving DecidableEq

structure DataKey where
  id : KeyId
  material : BitVec 256
  deriving DecidableEq

inductive SecretError where
  | unhealthy
  | ciphertext
  | keyLimit
  /-- The errors of `Seal`: a plaintext that is too long, authenticated data that are not valid. -/
  | secretTooLarge
  | invalidAAD
  /-- The error of `WrapDataKey`. -/
  | invalidWrappedKey
  /-- The error of `requireOne`. -/
  | notOneRow
  /-- A primary key or a unique index of SQLite. -/
  | constraint
  deriving DecidableEq, Repr

/-! ## Envelopes -/

structure ResourceAAD where
  domain : String := "beat"
  namesp : String
  rowID : String
  field : String
  revision : String := ""
  payloadVersion : String := "v2"
  deriving DecidableEq

/-- `resourceAAD`: the named parts are there, without control characters, and fit into 1024 bytes. -/
def ResourceAAD.valid (aad : ResourceAAD) : Bool :=
  aad.domain = "beat" && aad.namesp ≠ "" && aad.rowID ≠ "" && aad.field ≠ "" &&
    aad.payloadVersion ≠ "" &&
    [aad.namesp, aad.rowID, aad.field, aad.revision, aad.payloadVersion].all
      (fun value => !value.toList.any isControl) &&
    ([aad.domain, aad.namesp, aad.rowID, aad.field, aad.revision, aad.payloadVersion].map
      (fun component => 2 + component.utf8ByteSize)).sum ≤ 1024

/-- A v2 envelope. Its header names the data key, and is authenticated with the rest. -/
abbrev Envelope := Box DataKey ResourceAAD (List UInt8)

/-- `EnvelopeDataKeyID`. -/
def Envelope.dataKeyID (envelope : Envelope) : KeyId := envelope.key.id

/-- The header, the tag and the text. -/
def Envelope.size (envelope : Envelope) : Nat := 42 + 16 + envelope.plain.length

/-- `DataCipher.Seal`. -/
def DataKey.seal (key : DataKey) (plaintext : List UInt8) (aad : ResourceAAD) : Except SecretError Envelope :=
  if plaintext.length > maximumSecretBytes then .error .secretTooLarge
  else if !aad.valid then .error .invalidAAD
  else .ok ⟨key, aad, plaintext⟩

/-- `DataCipher.Open`. -/
def DataKey.unseal (key : DataKey) (envelope : Envelope) (aad : ResourceAAD) : Except SecretError (List UInt8) :=
  if !aad.valid then .error .invalidAAD
  else
    match Box.unseal envelope key aad with
    | some plaintext => .ok plaintext
    | none => .error .ciphertext

/-! ## The registry -/

inductive KeyState where
  | active | decryptOnly
  deriving DecidableEq, Repr

/-- A data key under a root, bound to the id and the generation of its row (`dataKeyAAD`). -/
abbrev WrappedKey := Box RootKey (KeyId × Nat) (BitVec 256)

structure RegistryKey where
  id : KeyId
  wrapped : WrappedKey
  generation : Nat
  state : KeyState
  createdAt : Int
  activatedAt : Int
  retireAfter : Option Int := none
  deriving DecidableEq

/-- `WrapDataKey`. -/
def wrapDataKey (root : RootKey) (key : DataKey) (generation : Nat) : Option WrappedKey :=
  if generation < 1 then none else some ⟨root, (key.id, generation), key.material⟩

/-- `UnwrapDataKey`. -/
def unwrapDataKey (root : RootKey) (key : RegistryKey) : Option DataKey :=
  if key.generation < 1 then none
  else (key.wrapped.unseal root (key.id, key.generation)).map (DataKey.mk key.id)

theorem unwrapDataKey_eq_some {root : RootKey} {key : RegistryKey} {cipher : DataKey} :
    unwrapDataKey root key = some cipher ↔
      1 ≤ key.generation ∧ key.wrapped = ⟨root, (key.id, key.generation), cipher.material⟩ ∧ cipher.id = key.id := by
  unfold unwrapDataKey
  split
  · rename_i h
    simp only [reduceCtorEq, false_iff]
    exact fun h' => absurd h'.1 (by omega)
  · rename_i h
    rw [map_eq_some_iff]
    constructor
    · rintro ⟨material, hopen, rfl⟩
      obtain ⟨hkey, haad, hplain⟩ := Aead.unseal_eq_some.mp hopen
      exact ⟨by omega, by cases hw : key.wrapped; simp_all, rfl⟩
    · rintro ⟨-, hw, hid⟩
      exact ⟨cipher.material, by rw [hw, Aead.unseal_mk], by rw [← hid]⟩

inductive Phase where
  | pending | backfill | sanitize | ready | rotating
  deriving DecidableEq, Repr

/-- The row of `application_secret_state`. The id of the last rotation is `none` where its text is not
that of a UUID. -/
structure LifecycleState where
  phase : Phase
  generation : Nat
  rootGeneration : Nat
  rootFingerprint : Fingerprint
  activeID : KeyId
  cursorSource : Nat := 0
  cursorID : String := ""
  rotationID : Option Uuid := none
  deriving DecidableEq

/-! ## Resources -/

/-- How SQLite stores the value of a column. A value of one class is never equal to one of the other. -/
inductive StorageClass where
  | blob | text
  deriving DecidableEq, Repr

/-- A row of a table with a secret column. The authenticated data are what `scan` makes of the row. The
identities of the hops of a diagnostic are stored as text (`diagnostics/hop.go`), all other secrets as
bytes. -/
structure SecretResource where
  id : String
  aad : ResourceAAD
  ciphertext : Option Envelope
  required : Bool
  storage : StorageClass := .blob
  deriving DecidableEq

/-- What `oversizedColumn` finds. -/
def SecretResource.invalid (resource : SecretResource) : Bool :=
  resource.ciphertext.any fun envelope => envelope.size > maximumResourceCiphertextBytes

/-- The rows of a table in the order of their primary key. -/
structure ResourceTable where
  rows : List SecretResource
  ordered : rows.Pairwise (·.id < ·.id)

/-- `readBatch`: the rows behind the cursor, at most `batchSize` of them. The empty cursor stands before
all rows. -/
def ResourceTable.readBatch (table : ResourceTable) (cursor : String) : Except SecretError (List SecretResource) :=
  let batch := (table.rows.filter fun r => cursor < r.id ∨ cursor = "").take batchSize
  if batch.any fun r => r.id = "" || r.invalid then .error .ciphertext else .ok batch

structure Database where
  state : LifecycleState
  /-- In the order of the generations. -/
  registry : List RegistryKey
  /-- The tables of `sourcesForDatabase`, in its order. -/
  sources : List ResourceTable
  /-- The column `data_key_id` of `operation_artifact_chunks`. -/
  frames : List KeyId := []
  /-- Whether `validateNotificationState` succeeds. -/
  notificationsReady : Bool := true

/-- `readState`. -/
def Database.readState (db : Database) : Except SecretError LifecycleState :=
  if db.state.generation > 1 && db.state.rotationID.isNone then .error .unhealthy else .ok db.state

def Database.readRegistry (db : Database) : List RegistryKey := db.registry.take (maximumDataKeys + 1)

/-! ## The keyring -/

structure Keyring where
  active : KeyId
  ciphers : List DataKey

def Keyring.cipher (ring : Keyring) (id : KeyId) : Option DataKey :=
  ring.ciphers.find? fun key => key.id = id

/-- `keyring.Seal`. -/
def Keyring.seal (ring : Keyring) (plaintext : List UInt8) (aad : ResourceAAD) : Except SecretError Envelope :=
  match ring.cipher ring.active with
  | some key => key.seal plaintext aad
  | none => .error .unhealthy

/-- `keyring.Open`. -/
def Keyring.unseal (ring : Keyring) (envelope : Envelope) (aad : ResourceAAD) : Except SecretError (List UInt8) :=
  match ring.cipher (Envelope.dataKeyID envelope) with
  | some key => key.unseal envelope aad
  | none => .error .ciphertext

def validateRegistryKey (key : RegistryKey) (state : LifecycleState) : Bool :=
  (1 ≤ key.generation && key.generation ≤ state.generation && 0 < key.createdAt &&
    key.createdAt ≤ key.activatedAt) &&
  match key.state with
  | .active => key.id = state.activeID && key.generation = state.generation && key.retireAfter.isNone
  | .decryptOnly =>
    key.id ≠ state.activeID &&
      (state.phase ≠ .ready || key.retireAfter.any fun retire => key.activatedAt ≤ retire)

/-- One turn of the loop of `loadKeyring`. -/
def loadKey (root : RootKey) (state : LifecycleState) (key : RegistryKey) : Except SecretError DataKey :=
  if validateRegistryKey key state then
    match unwrapDataKey root key with
    | some cipher => .ok cipher
    | none => .error .unhealthy
  else .error .unhealthy

theorem loadKey_eq_ok {root : RootKey} {state : LifecycleState} {key : RegistryKey} {cipher : DataKey} :
    loadKey root state key = .ok cipher ↔
      validateRegistryKey key state = true ∧ unwrapDataKey root key = some cipher := by
  unfold loadKey
  by_cases hv : validateRegistryKey key state = true
  · cases hu : unwrapDataKey root key <;> simp [hv]
  · simp [hv]

section Root

variable (fingerprint : RootKey → Fingerprint)

def Database.loadKeyring (db : Database) (root : RootKey) : Except SecretError Keyring :=
  let keys := db.readRegistry
  if keys.length < 1 ∨ keys.length > maximumDataKeys ∨
      db.state.rootFingerprint ≠ fingerprint root ∨ db.state.rootGeneration < 1 then
    .error .unhealthy
  else do
    let ciphers ← keys.mapM (loadKey root db.state)
    let ring : Keyring := ⟨db.state.activeID, ciphers⟩
    if keys.countP (fun key => key.state = .active) ≠ 1 ∨ (ring.cipher ring.active).isNone then
      .error .unhealthy
    else .ok ring

/-- What a keyring that was loaded is. -/
structure Loads (db : Database) (root : RootKey) (ring : Keyring) : Prop where
  nonempty : 1 ≤ db.readRegistry.length
  length : db.readRegistry.length ≤ maximumDataKeys
  fingerprint : db.state.rootFingerprint = fingerprint root
  rootGeneration : 1 ≤ db.state.rootGeneration
  active : ring.active = db.state.activeID
  ciphers : List.Forall₂ (fun key cipher => loadKey root db.state key = .ok cipher) db.readRegistry
    ring.ciphers
  oneActive : db.readRegistry.countP (fun key => key.state = .active) = 1
  found : (ring.cipher ring.active).isSome

variable {fingerprint}

theorem loadKeyring_eq_ok {db : Database} {root : RootKey} {ring : Keyring} :
    db.loadKeyring fingerprint root = .ok ring ↔ Loads fingerprint db root ring := by
  unfold Database.loadKeyring
  constructor
  · intro h
    dsimp only at h
    split at h
    · cases h
    rename_i hguard
    simp only [not_or, not_lt, ne_eq, not_not] at hguard
    obtain ⟨ciphers, hc, h⟩ := bind_eq_ok h
    split at h
    · cases h
    rename_i hone
    simp only [not_or, ne_eq, not_not, isNone_iff_eq_none] at hone
    cases h
    exact ⟨hguard.1, hguard.2.1, hguard.2.2.1, hguard.2.2.2, rfl, mapM_eq_ok.mp hc,
      hone.1, isSome_iff_ne_none.mpr hone.2⟩
  · intro h
    have hguard : ¬ (db.readRegistry.length < 1 ∨ db.readRegistry.length > maximumDataKeys ∨
        db.state.rootFingerprint ≠ fingerprint root ∨ db.state.rootGeneration < 1) := by
      have := h.nonempty
      have := h.length
      have := h.rootGeneration
      simp only [not_or, ne_eq, not_not]
      exact ⟨by omega, by omega, h.fingerprint, by omega⟩
    rw [if_neg hguard, mapM_eq_ok.mpr h.ciphers]
    obtain ⟨active, ciphers⟩ := ring
    obtain rfl : active = db.state.activeID := h.active
    refine if_neg ?_
    simp only [h.oneActive, ne_eq, not_true_eq_false, false_or, isNone_iff_eq_none]
    exact isSome_iff_ne_none.mp h.found

/-- The registry was read as a whole. -/
theorem Loads.readRegistry_eq {db : Database} {root : RootKey} {ring : Keyring}
    (h : Loads fingerprint db root ring) : db.readRegistry = db.registry := by
  have hlen := h.length
  unfold Database.readRegistry at hlen ⊢
  rw [List.length_take] at hlen
  exact List.take_of_length_le (by unfold maximumDataKeys at hlen ⊢; omega)

end Root

/-! ## Validation -/

/-- `validateResource`: the key that the secret of the row names, if it has one. -/
def validateResource (ring : Keyring) (requireActive : Bool) (resource : SecretResource) :
    Except SecretError (Option KeyId) :=
  match resource.ciphertext with
  | none => if resource.required then .error .ciphertext else .ok none
  | some envelope =>
    if requireActive && Envelope.dataKeyID envelope ≠ ring.active then .error .unhealthy
    else
      match ring.unseal envelope resource.aad with
      | .ok _ => .ok (some (Envelope.dataKeyID envelope))
      | .error _ => .error .ciphertext

/-- `validateSource`, for as many batches as the first argument says. -/
def validateSource (ring : Keyring) (requireActive : Bool) (table : ResourceTable) :
    Nat → String → Except SecretError (List KeyId)
  | 0, _ => .error .unhealthy
  | batches + 1, cursor => do
    let batch ← table.readBatch cursor
    match batch.getLast? with
    | none => .ok []
    | some last => do
      let ids ← batch.mapM (validateResource ring requireActive)
      let rest ← validateSource ring requireActive table batches last.id
      .ok (ids.reduceOption ++ rest)

/-- `operationFrameReferences`: the keys of the chunks, at most one more than the registry can hold,
each as often as it is used. -/
def operationFrameReferences (db : Database) (ring : Keyring) : Except SecretError (List KeyId) :=
  let groups := db.frames.dedup.take (maximumDataKeys + 1)
  if groups.any fun id => (ring.cipher id).isNone then .error .unhealthy
  else .ok (db.frames.filter fun id => id ∈ groups)

/-- `validateResources`: the key of every secret, once for each secret. A table has been read to its
end after one batch more than it has rows. -/
def Database.validateResources (db : Database) (ring : Keyring) (requireActive : Bool) :
    Except SecretError (List KeyId) := do
  let references ← db.sources.mapM fun table =>
    validateSource ring requireActive table (table.rows.length + 1) ""
  let frames ← operationFrameReferences db ring
  .ok (references.flatten ++ frames)

/-- `validateWithRoot` of `root_recovery.go`. -/
def Database.validateWithRoot (fingerprint : RootKey → Fingerprint) (db : Database) (root : RootKey) :
    Except SecretError LifecycleState := do
  let state ← db.readState
  if state.phase ≠ .ready ∨ state.cursorID ≠ "" ∨ state.cursorSource ≠ 0 then .error .unhealthy
  else if !db.notificationsReady then .error .unhealthy
  else do
    let ring ← db.loadKeyring fingerprint root
    let _ ← db.validateResources ring true
    .ok state

/-- What a database that `validateWithRoot` accepts is. -/
structure ValidWith (fingerprint : RootKey → Fingerprint) (db : Database) (root : RootKey) : Prop where
  rotation : db.state.generation ≤ 1 ∨ db.state.rotationID.isSome
  phase : db.state.phase = .ready
  cursorID : db.state.cursorID = ""
  cursorSource : db.state.cursorSource = 0
  notifications : db.notificationsReady = true
  resources : ∃ ring refs, Loads fingerprint db root ring ∧ db.validateResources ring true = .ok refs

theorem readState_eq_ok {db : Database} {state : LifecycleState} : db.readState = .ok state ↔
      state = db.state ∧ (db.state.generation ≤ 1 ∨ db.state.rotationID.isSome) := by
  unfold Database.readState
  split
  · rename_i h
    simp only [Bool.and_eq_true, decide_eq_true_eq, isNone_iff_eq_none] at h
    simp only [reduceCtorEq, h.2, isSome_none, Bool.false_eq_true, or_false, false_iff, not_and]
    intro _
    omega
  · rename_i h
    simp only [Bool.and_eq_true, decide_eq_true_eq, isNone_iff_eq_none, not_and, ← isSome_iff_ne_none] at h
    constructor
    · intro hst
      refine ⟨(Except.ok.inj hst).symm, ?_⟩
      by_cases hg : db.state.generation ≤ 1
      · exact .inl hg
      · exact .inr (h (by omega))
    · rintro ⟨rfl, -⟩
      rfl

theorem validateWithRoot_eq_ok {fingerprint : RootKey → Fingerprint} {db : Database} {root : RootKey}
    {state : LifecycleState} : db.validateWithRoot fingerprint root = .ok state ↔
      state = db.state ∧ ValidWith fingerprint db root := by
  unfold Database.validateWithRoot
  constructor
  · intro h
    obtain ⟨st, hst, h⟩ := bind_eq_ok h
    obtain ⟨rfl, hrot⟩ := readState_eq_ok.mp hst
    split at h
    · cases h
    rename_i hphase
    simp only [not_or, ne_eq, not_not] at hphase
    split at h
    · cases h
    rename_i hnote
    obtain ⟨ring, hring, h⟩ := bind_eq_ok h
    obtain ⟨refs, hrefs, h⟩ := bind_eq_ok h
    cases h
    exact ⟨rfl, hrot, hphase.1, hphase.2.1, hphase.2.2, by simpa using hnote, ring, refs,
      loadKeyring_eq_ok.mp hring, hrefs⟩
  · rintro ⟨rfl, h⟩
    obtain ⟨ring, refs, hring, hrefs⟩ := h.resources
    rw [readState_eq_ok.mpr ⟨rfl, h.rotation⟩]
    change (if _ then _ else _) = _
    rw [if_neg (by simp [h.phase, h.cursorID, h.cursorSource]), if_neg (by simp [h.notifications]),
      loadKeyring_eq_ok.mpr hring]
    change (db.validateResources ring true >>= fun _ => Except.ok db.state) = _
    rw [hrefs]
    rfl

end Beat.Secrets
