import Beat.Lib.Run
import Beat.Secrets.Keyring

/-!
# Rotation of the data keys

`applicationsecrets/service.go`, `applicationsecrets/rotation.go`, `applicationsecrets/backfill.go` and
the start in `applicationsecrets/initialize.go`. `StartRotation` retires keys that are old enough and
not in use, adds an active key and starts a worker, which rewrites the secrets of all tables under that
key, a batch at a time, behind a cursor in the database; `WithWrite` seals and commits in between. A
crash ends the service; `Open` loads the keyring and carries on from the cursor before it serves.

Each transaction is one step. The clock is an input of every step that reads it. A transaction that
fails (`fault`) leaves the database as it was.

Left out are the authorization and the audit event of `StartOwnerRotation`, the column `updated_at`,
and the phases of the first migration from the legacy formats (`pending`, `backfill`, `sanitize`), in
which the secrets are not sealed under data keys yet.
-/

namespace Beat.Secrets

def maxGeneration : Nat := 9223372036854775807

/-- `keyRetention` in seconds. -/
def keyRetention : Int := 604800

/-! ## Tables -/

namespace ResourceTable

/-- The row takes the place of the one with its id, or comes into the table. -/
def put (table : ResourceTable) (row : SecretResource) : ResourceTable where
  rows := table.rows.filter (·.id < row.id) ++ row :: table.rows.filter (row.id < ·.id)
  ordered := by
    refine List.pairwise_append.mpr ⟨table.ordered.filter _, List.pairwise_cons.mpr
      ⟨fun r hr => ?_, table.ordered.filter _⟩, fun a ha b hb => ?_⟩
    · simpa using (List.mem_filter.mp hr).2
    · have ha' : a.id < row.id := by simpa using (List.mem_filter.mp ha).2
      rcases List.mem_cons.mp hb with rfl | hb
      · exact ha'
      · have hb' : row.id < b.id := by simpa using (List.mem_filter.mp hb).2
        exact ha'.trans hb'

def delete (table : ResourceTable) (id : String) : ResourceTable where
  rows := table.rows.filter (·.id ≠ id)
  ordered := table.ordered.filter _

/-- New secrets for rows that are there. -/
def setCiphertexts (table : ResourceTable) (secret : SecretResource → Option Envelope) : ResourceTable where
  rows := table.rows.map fun r => { r with ciphertext := secret r }
  ordered := List.pairwise_map.mpr table.ordered

/-- The `update` of a source, `WHERE id = ? AND column IS ?`, and `requireOne`. The value that was read is
bound as bytes. -/
def update (table : ResourceTable) (id : String) (old new : Envelope) : Except SecretError ResourceTable :=
  let met (r : SecretResource) : Bool := r.id = id && r.storage = .blob && r.ciphertext = some old
  if table.rows.countP met = 1 then
    .ok (table.setCiphertexts fun r => if met r then some new else r.ciphertext)
  else .error .notOneRow

end ResourceTable

/-! ## Writes -/

/-- What a callback of `WithWrite` does: it stores a secret, a row without one, removes a row, or
stores and removes a chunk. -/
inductive Write where
  | put (source : Nat) (id : String) (aad : ResourceAAD) (required : Bool) (storage : StorageClass)
      (plaintext : List UInt8)
  | clear (source : Nat) (id : String) (aad : ResourceAAD)
  | delete (source : Nat) (id : String)
  | putFrame
  | dropFrame (key : KeyId)

/-- A change of one table. -/
def Database.inTable (db : Database) (source : Nat) (f : ResourceTable → ResourceTable) :
    Except SecretError Database :=
  match db.sources[source]? with
  | some table => .ok { db with sources := db.sources.set source (f table) }
  | none => .error .unhealthy

def Database.write (ring : Keyring) (db : Database) : Write → Except SecretError Database
  | .put source id aad required storage plaintext => do
    let envelope ← ring.seal plaintext aad
    db.inTable source (·.put ⟨id, aad, some envelope, required, storage⟩)
  | .clear source id aad => db.inTable source (·.put ⟨id, aad, none, false, .blob⟩)
  | .delete source id => db.inTable source (·.delete id)
  | .putFrame =>
    match ring.cipher ring.active with
    | some key => .ok { db with frames := db.frames ++ [key.id] }
    | none => .error .unhealthy
  | .dropFrame key => .ok { db with frames := db.frames.erase key }

/-- A callback: all of its writes in one transaction. -/
def Database.writeAll (db : Database) (ring : Keyring) (writes : List Write) :
    Except SecretError Database := writes.foldlM (Database.write ring) db

/-- What was last written for each resource. -/
abbrev Secrecy := Nat → String → Option (List UInt8)

def Secrecy.set (plain : Secrecy) (source : Nat) (id : String) (value : Option (List UInt8)) : Secrecy :=
  fun source' id' => if source' = source ∧ id' = id then value else plain source' id'

def Secrecy.write (plain : Secrecy) : Write → Secrecy
  | .put source id _ _ _ plaintext => plain.set source id (some plaintext)
  | .clear source id _ => plain.set source id none
  | .delete source id => plain.set source id none
  | .putFrame | .dropFrame _ => plain

/-! ## The migration -/

/-- `rewriteResource`: the secret of the row under the active key, in the place of the one that was read. -/
def rewriteResource (ring : Keyring) (table : ResourceTable) (resource : SecretResource) :
    Except SecretError ResourceTable :=
  match resource.ciphertext with
  | none => if resource.required then .error .ciphertext else .ok table
  | some envelope =>
    match ring.unseal envelope resource.aad with
    | .error _ => .error .ciphertext
    | .ok plaintext => do
      let ciphertext ← ring.seal plaintext resource.aad
      table.update resource.id envelope ciphertext

/-- `finishMigration`. -/
def Database.finishMigration (db : Database) (ring : Keyring) (now : Int) : Except SecretError Database := do
  let _ ← db.validateResources ring true
  .ok { db with
    registry := db.registry.map fun key =>
      if key.state = .decryptOnly ∧ key.retireAfter = none then
        { key with retireAfter := some (now + keyRetention) }
      else key
    state := { db.state with phase := .ready, cursorSource := 0, cursorID := "" } }

/-- `migrateBatch`. -/
def Database.migrateBatch (db : Database) (ring : Keyring) (now : Int) : Except SecretError Database := do
  let state ← db.readState
  if state.cursorSource = db.sources.length then db.finishMigration ring now
  else
    match db.sources[state.cursorSource]? with
    | none => .error .unhealthy
    | some table => do
      let batch ← table.readBatch state.cursorID
      let table' ← batch.foldlM (rewriteResource ring) table
      let state' := match batch.getLast? with
        | some last => { state with cursorID := last.id }
        | none => { state with cursorSource := state.cursorSource + 1, cursorID := "" }
      .ok { db with sources := db.sources.set state.cursorSource table', state := state' }

/-! ## A new key -/

/-- Whether `retireKeys` removes the key, where the secrets use `references`. -/
def RegistryKey.retires (key : RegistryKey) (references : List KeyId) (now : Int) : Bool :=
  key.state = .decryptOnly && key.retireAfter.any (· ≤ now) && references.count key.id = 0

def Database.retireKeys (db : Database) (ring : Keyring) (now : Int) : Except SecretError Database := do
  let references ← db.validateResources ring true
  let keys := db.readRegistry
  let retired := keys.filter (·.retires references now)
  if keys.length - retired.length ≥ maximumDataKeys then .error .keyLimit
  else .ok { db with registry := db.registry.filter fun key => key ∉ retired }

/-- `insertKey`: the id is the primary key, and at most one key is active. -/
def Database.insertKey (db : Database) (root : RootKey) (key : DataKey) (generation : Nat) (now : Int) :
    Except SecretError Database :=
  match wrapDataKey root key generation with
  | none => .error .invalidWrappedKey
  | some wrapped =>
    if db.registry.any fun k => k.id = key.id || k.state = .active then .error .constraint
    else
      .ok { db with registry := db.registry ++
        [{ id := key.id, wrapped := wrapped, generation := generation, state := .active
           createdAt := now, activatedAt := now }] }

/-- The update that takes the active key out of use. It has to meet one row. -/
def Database.demote (db : Database) : Except SecretError Database :=
  if db.registry.countP (fun key => key.id = db.state.activeID && key.state = .active) = 1 then
    .ok { db with registry := db.registry.map fun key =>
      if key.id = db.state.activeID ∧ key.state = .active then { key with state := .decryptOnly }
      else key }
  else .error .notOneRow

/-- `activateDataKey`, after the checks of `activateAuthorizedRotation`. -/
def Database.activateDataKey (db : Database) (root : RootKey) (ring : Keyring) (now : Int)
    (key : DataKey) (rotation : Uuid) : Except SecretError Database := do
  let state ← db.readState
  if state.generation = maxGeneration ∨ state.phase ≠ .ready then .error .unhealthy
  else do
    let db₁ ← db.retireKeys ring now
    let db₂ ← db₁.demote
    let db₃ ← db₂.insertKey root key (state.generation + 1) now
    .ok { db₃ with state :=
      { state with
        phase := .rotating
        generation := state.generation + 1
        activeID := key.id
        cursorSource := 0
        cursorID := ""
        rotationID := some rotation } }

/-! ## The service -/

structure Service where
  ring : Keyring
  state : LifecycleState
  unhealthy : Bool := false
  /-- A rotation is under way, or `Open` is. -/
  working : Bool := true
  /-- `Open` has returned. -/
  serving : Bool := false

structure SecretsWorld where
  db : Database
  service : Option Service := none
  plain : Secrecy

inductive SecretsEvent where
  /-- `Open`, up to the keyring. -/
  | load
  /-- A turn of the loop of `resume`. -/
  | batch (now : Int)
  /-- The end of `Open` or of `runRotation`. -/
  | finish
  /-- The transaction of the worker fails. -/
  | fault
  | withWrite (writes : List Write)
  /-- `StartRotation`; `reloads` says whether the keyring can be read after the commit. -/
  | startRotation (now : Int) (key : DataKey) (rotation : Uuid) (reloads : Bool)
  | crash

section Steps

variable (fingerprint : RootKey → Fingerprint) (root : RootKey)

/-- `reload`. -/
def Database.reload (db : Database) : Except SecretError (Keyring × LifecycleState) := do
  let state ← db.readState
  let ring ← db.loadKeyring fingerprint root
  .ok (ring, state)

/-- The worker ends with an error. -/
def Service.stopped (service : Service) : Option Service :=
  if service.serving then some { service with unhealthy := true, working := false } else none

def SecretsWorld.batch (w : SecretsWorld) (service : Service) (now : Int) : SecretsWorld :=
  match w.db.migrateBatch service.ring now with
  | .ok db => { w with db := db, service := some { service with state := db.state } }
  | .error _ => { w with service := service.stopped }

/-- The end of the worker: `Open` validates what it has, a rotation only returns. -/
def SecretsWorld.finish (w : SecretsWorld) (service : Service) : SecretsWorld :=
  if service.serving then { w with service := some { service with working := false } }
  else
    match w.db.validateResources service.ring true with
    | .ok _ =>
      if w.db.notificationsReady then
        { w with service := some { service with working := false, serving := true } }
      else { w with service := none }
    | .error _ => { w with service := none }

def SecretsWorld.withWrite (w : SecretsWorld) (service : Service) (writes : List Write) : SecretsWorld :=
  if service.serving && !service.unhealthy then
    match w.db.writeAll service.ring writes with
    | .ok db => { w with db := db, plain := writes.foldl Secrecy.write w.plain }
    | .error _ => w
  else w

def SecretsWorld.startRotation (w : SecretsWorld) (service : Service) (now : Int) (key : DataKey)
    (rotation : Uuid) (reloads : Bool) : SecretsWorld :=
  if !service.serving || service.working then w
  else if service.unhealthy || service.state.phase ≠ .ready then
    { w with service := some { service with unhealthy := true } }
  else
    match w.db.activateDataKey root service.ring now key rotation with
    | .error e =>
      if e = .unhealthy ∨ e = .ciphertext then
        { w with service := some { service with unhealthy := true } }
      else w
    | .ok db =>
      match (if reloads then db.reload fingerprint root else .error .unhealthy) with
      | .ok (ring, state) =>
        { w with db := db, service := some { service with ring := ring, state := state, working := true } }
      | .error _ => { w with db := db, service := some { service with unhealthy := true } }

/-- `Open`, up to the keyring. -/
def SecretsWorld.load (w : SecretsWorld) : SecretsWorld :=
  match w.db.reload fingerprint root with
  | .ok (ring, state) => { w with service := some { ring := ring, state := state } }
  | .error _ => w

def secretsNext (w : SecretsWorld) : SecretsEvent → Option SecretsWorld
  | .load => if w.service.isNone then some (w.load fingerprint root) else none
  | .batch now =>
    match w.service with
    | some service =>
      if service.working && service.state.phase = .rotating then some (w.batch service now) else none
    | none => none
  | .finish =>
    match w.service with
    | some service =>
      if service.working && service.state.phase = .ready then some (w.finish service) else none
    | none => none
  | .fault =>
    match w.service with
    | some service => if service.working then some { w with service := service.stopped } else none
    | none => none
  | .withWrite writes => w.service.map fun service => w.withWrite service writes
  | .startRotation now key rotation reloads =>
    w.service.map fun service => w.startRotation fingerprint root service now key rotation reloads
  | .crash => some { w with service := none }

def SecretsStep (w : SecretsWorld) (e : SecretsEvent) (w' : SecretsWorld) : Prop :=
  secretsNext fingerprint root w e = some w'

end Steps

end Beat.Secrets
