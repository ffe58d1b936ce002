import Beat.Secrets.Migration

/-!
# A data key rotation strands no secret

`secretsOk_run`: in every state of a run, with any clock and any ids, the registry is in order, every
secret is under one of its keys, behind the cursor under the active key, and is the last one written.

To come back after a crash, the keys also have to pass `validateRegistryKey`, no id may be empty, and the
secrets have to be stored as bytes (`Loadable`). The steps that `CarefulSecrets` allows keep this, and then a
start ends the migration (`resumes`). A rotation at a clock not after the epoch, or one that ends with a clock
gone back by more than `keyRetention`, leaves a registry that no later start loads; a rotation with a secret
that is stored as text does not end.
-/

namespace Beat.Secrets

open List Fallible Lts
open Table (Keyed)

/-! ## The invariant of the database -/

/-- The migration has passed the row with this id of the table number `source`. -/
def LifecycleState.Passed (state : LifecycleState) (source : Nat) (id : String) : Prop :=
  state.phase = .ready ∨ source < state.cursorSource ∨
    (source = state.cursorSource ∧ state.cursorID ≠ "" ∧ id ≤ state.cursorID)

variable (fingerprint : RootKey → Fingerprint) (root : RootKey)

structure DataOk (db : Database) : Prop where
  registry : RegistryOk root db
  secrets : ∀ i r, db.Row i r → SecretOk db.registry r
  frames : ∀ id ∈ db.frames, ∃ key ∈ db.registry, key.id = id
  recorded : db.state.rootFingerprint = fingerprint root
  rootGeneration : 1 ≤ db.state.rootGeneration
  rotation : db.state.generation ≤ 1 ∨ db.state.rotationID.isSome
  notifications : db.notificationsReady = true
  phase : db.state.phase = .ready ∨
    (db.state.phase = .rotating ∧ db.state.cursorSource ≤ db.sources.length)
  passed : ∀ i r, db.Row i r → db.state.Passed i r.id → Under db.state.activeID r

/-- The rows hold what was last written, and nothing else. -/
def Remembers (db : Database) (plain : Secrecy) : Prop :=
  ∀ i id p, plain i id = some p ↔
    ∃ r e, db.Row i r ∧ r.id = id ∧ r.ciphertext = some e ∧ e.plain = p

/-- A worker under way has met no error; a healthy service has the keyring and the state of the
database. -/
structure ServiceOk (db : Database) (sv : Service) : Prop where
  worker : sv.working = true → sv.unhealthy = false
  rings : sv.unhealthy = false → Rings db sv.ring ∧ sv.state = db.state

structure SecretsOk (w : SecretsWorld) : Prop where
  data : DataOk fingerprint root w.db
  plain : Remembers w.db w.plain
  service : ∀ sv, w.service = some sv → ServiceOk w.db sv

variable {fingerprint root}

variable {r : SecretResource} {key : DataKey} {table : ResourceTable} {batch : List SecretResource}
  {db db' : Database} {i source : Nat} {plain : Secrecy} {ring : Keyring} {now : Int}
  {rotation : Uuid} {sv : Service} {w w' : SecretsWorld} {e : SecretsEvent} {r' : SecretResource}
  {table' : ResourceTable}

theorem SecretOk.mono {registry registry' : List RegistryKey} (h : SecretOk registry r)
    (hk : ∀ key ∈ registry, (∃ e, r.ciphertext = some e ∧ e.key = key.dataKey) →
      ∃ key' ∈ registry', key'.dataKey = key.dataKey) : SecretOk registry' r := by
  refine ⟨h.required, fun e he => ?_⟩
  obtain ⟨ha, hv, hlen, key, hmem, hkey⟩ := h.secret e he
  obtain ⟨key', hmem', heq⟩ := hk key hmem ⟨e, he, hkey⟩
  exact ⟨ha, hv, hlen, key', hmem', hkey.trans heq.symm⟩

/-! ## A batch -/

/-- What a batch makes of a row. -/
theorem row_migrated (hs : db.sources[db.state.cursorSource]? = some table)
    (h : (db.migrated table key batch).Row i r') :
    ∃ r, db.Row i r ∧ r' = { r with ciphertext :=
      if i = db.state.cursorSource ∧ r ∈ batch then r.resealed key else r.ciphertext } := by
  rw [row_set hs rfl] at h
  split at h
  · rename_i hi
    obtain ⟨r, hr, rfl⟩ := mem_resealBatch.mp h
    exact ⟨r, ⟨table, hi ▸ hs, hr⟩, by simp [hi]⟩
  · rename_i hi
    exact ⟨r', h, by simp [hi]⟩

theorem row_migrated_of (hs : db.sources[db.state.cursorSource]? = some table) (h : db.Row i r) :
    (db.migrated table key batch).Row i { r with ciphertext :=
      if i = db.state.cursorSource ∧ r ∈ batch then r.resealed key else r.ciphertext } := by
  rw [row_set hs rfl]
  split
  · rename_i hi
    obtain ⟨t, ht, hr⟩ := h
    obtain rfl : table = t := Option.some.inj (hs.symm.trans (hi ▸ ht))
    exact mem_resealBatch.mpr ⟨r, hr, by simp [hi]⟩
  · rename_i hi
    simpa [hi] using h

theorem SecretResource.resealed_some {e : Envelope} (h : r.resealed key = some e) :
    ∃ e₀, r.ciphertext = some e₀ ∧ e = ⟨key, r.aad, e₀.plain⟩ := by
  obtain ⟨e₀, h₀, rfl⟩ := Option.map_eq_some_iff.mp h
  exact ⟨e₀, h₀, rfl⟩

/-- The texts stay as they are. -/
theorem remembers_migrated (hs : db.sources[db.state.cursorSource]? = some table) (h : Remembers db plain) :
    Remembers (db.migrated table key batch) plain := by
  intro i id p
  rw [h i id p]
  constructor
  · rintro ⟨r, e, hr, hid, hc, hp⟩
    have hrow : (db.migrated table key batch).Row i _ := row_migrated_of hs hr
    by_cases hb : i = db.state.cursorSource ∧ r ∈ batch
    · refine ⟨_, ⟨key, r.aad, e.plain⟩, hrow, hid, ?_, hp⟩
      simp [hb, SecretResource.resealed, hc]
    · exact ⟨_, e, hrow, hid, by simp [hb, hc], hp⟩
  · rintro ⟨r', e, hr', hid, hc, hp⟩
    obtain ⟨r, hr, rfl⟩ := row_migrated hs hr'
    split at hc
    · obtain ⟨e₀, h₀, rfl⟩ := SecretResource.resealed_some hc
      exact ⟨r, e₀, hr, hid, h₀, hp⟩
    · exact ⟨r, e, hr, hid, hc, hp⟩

/-- Where the cursor has come to, every row was in the batch or behind the old cursor. -/
theorem passed_after (hs : db.sources[db.state.cursorSource]? = some table)
    (hrot : db.state.phase = .rotating)
    (hbatch : batch = (Keyset.behind (·.id) "" table.rows db.state.cursorID).take batchSize)
    (hids : ∀ r ∈ batch, r.id ≠ "") (hr : db.Row i r) (hp : (db.state.after batch).Passed i r.id) :
    (i = db.state.cursorSource ∧ r ∈ batch) ∨ db.state.Passed i r.id := by
  have hrow : i = db.state.cursorSource → r ∈ table.rows := by
    rintro rfl
    obtain ⟨t, ht, hmem⟩ := hr
    rwa [Option.some.inj (hs.symm.trans ht)]
  have hnot : db.state.phase ≠ .ready := by simp [hrot]
  unfold LifecycleState.Passed LifecycleState.after at hp
  cases hlast : batch.getLast? with
  | some last =>
    rw [hlast] at hp
    rcases hp with hready | hlt | ⟨rfl, hne, hle⟩
    · exact absurd hready hnot
    · exact .inr (.inr (.inl hlt))
    · subst hbatch
      exact (Keyset.mem_take_or_le table.ordered hlast hne (hrow rfl) hle).imp (fun hb => ⟨rfl, hb⟩)
        fun hpassed => .inr (.inr ⟨rfl, hpassed⟩)
  | none =>
    rw [hlast] at hp
    rcases hp with hready | hlt | ⟨-, hne, -⟩
    · exact absurd hready hnot
    · by_cases hi : i = db.state.cursorSource
      · -- An empty batch means that nothing is behind the cursor.
        refine .inr (.inr (.inr ⟨hi, (Keyset.mem_or_le_cursor (hrow hi)).resolve_left fun hbehind => ?_⟩))
        rw [getLast?_eq_none_iff.mp hlast, eq_comm, take_eq_nil_iff] at hbatch
        rcases hbatch with hzero | hnil
        · exact absurd hzero (by decide)
        · exact not_mem_nil (hnil ▸ hbehind)
      · exact .inr (.inr (.inl (Nat.lt_of_le_of_ne (Nat.le_of_lt_succ hlt) hi)))
    · exact absurd rfl hne

/-- A batch changes the cursor only. -/
theorem LifecycleState.after_eq (state : LifecycleState) (batch : List SecretResource) :
    ∃ source id, state.after batch = { state with cursorSource := source, cursorID := id } ∧
      source ≤ state.cursorSource + 1 := by
  unfold LifecycleState.after
  split
  · exact ⟨_, _, rfl, Nat.le_succ _⟩
  · exact ⟨_, _, rfl, le_refl _⟩

theorem RegistryOk.congr (h : RegistryOk root db) (hreg : db'.registry = db.registry)
    (hgen : db'.state.generation = db.state.generation) (hactive : db'.state.activeID = db.state.activeID) :
    RegistryOk root db' where
  keyed := hreg ▸ h.keyed
  length := hreg ▸ h.length
  opens := hreg ▸ h.opens
  generations := hreg ▸ hgen ▸ h.generations
  active := hreg ▸ hgen ▸ hactive ▸ h.active
  one := hreg ▸ hactive ▸ h.one

theorem DataOk.migrated {key : RegistryKey} (h : DataOk fingerprint root db) (hk : key ∈ db.registry)
    (hid : key.id = db.state.activeID) (hrot : db.state.phase = .rotating)
    (hs : db.sources[db.state.cursorSource]? = some table)
    (hbatch : batch = (Keyset.behind (·.id) "" table.rows db.state.cursorID).take batchSize)
    (hids : ∀ r ∈ batch, r.id ≠ "") : DataOk fingerprint root (db.migrated table key.dataKey batch) := by
  have hlt := (List.getElem?_eq_some_iff.mp hs).1
  obtain ⟨cursor, cursorID, hafter, hle⟩ := db.state.after_eq batch
  have hstate : (db.migrated table key.dataKey batch).state =
      { db.state with cursorSource := cursor, cursorID := cursorID } := hafter
  refine ⟨h.registry.congr rfl (by rw [hstate]) (by rw [hstate]), fun i r' hr' => ?_, h.frames,
    by rw [hstate]; exact h.recorded, by rw [hstate]; exact h.rootGeneration,
    by rw [hstate]; exact h.rotation, h.notifications, .inr ⟨by rw [hstate]; exact hrot, ?_⟩,
    fun i r' hr' hp => ?_⟩
  · obtain ⟨r, hr, rfl⟩ := row_migrated hs hr'
    have hsec := h.secrets i r hr
    split
    · refine ⟨fun hreq => ?_, fun e he => ?_⟩
      · have := hsec.required hreq
        simpa [SecretResource.resealed] using this
      · obtain ⟨e₀, h₀, rfl⟩ := SecretResource.resealed_some he
        obtain ⟨-, hv, hlen, -⟩ := hsec.secret e₀ h₀
        exact ⟨rfl, hv, hlen, key, hk, rfl⟩
    · exact hsec
  · rw [hstate]
    change cursor ≤ (db.sources.set _ _).length
    rw [length_set]
    omega
  · obtain ⟨r, hr, rfl⟩ := row_migrated hs hr'
    rw [hstate]
    intro e he
    split at he
    · obtain ⟨e₀, h₀, rfl⟩ := SecretResource.resealed_some he
      exact hid
    · rename_i hb
      rcases passed_after hs hrot hbatch hids hr hp with hin | hpassed
      · exact absurd hin hb
      · exact h.passed i r hr hpassed e he

/-- A key after the migration: a key out of use has an end, which it had before or gets now. -/
theorem finished_eq (now : Int) (key : RegistryKey) : ∃ retire,
    (if key.state = .decryptOnly ∧ key.retireAfter = none then
      { key with retireAfter := some (now + keyRetention) } else key) = { key with retireAfter := retire } ∧
    (retire = key.retireAfter ∧ (key.state = .decryptOnly → retire ≠ none) ∨
      key.state = .decryptOnly ∧ key.retireAfter = none ∧ retire = some (now + keyRetention)) := by
  split
  · rename_i hc
    exact ⟨_, rfl, .inr ⟨hc.1, hc.2, rfl⟩⟩
  · rename_i hc
    exact ⟨_, rfl, .inl ⟨rfl, fun hst hnone => hc ⟨hst, hnone⟩⟩⟩

theorem finished_dataKey (now : Int) (key : RegistryKey) :
    (if key.state = .decryptOnly ∧ key.retireAfter = none then
      { key with retireAfter := some (now + keyRetention) } else key).dataKey = key.dataKey := by
  split <;> rfl

theorem mem_finished {k' : RegistryKey} (hk' : k' ∈ (db.finished now).registry) :
    ∃ k ∈ db.registry, ∃ retire, k' = { k with retireAfter := retire } ∧
      (retire = k.retireAfter ∧ (k.state = .decryptOnly → retire ≠ none) ∨
        k.state = .decryptOnly ∧ k.retireAfter = none ∧ retire = some (now + keyRetention)) := by
  obtain ⟨k, hk, rfl⟩ := mem_map.mp hk'
  exact ⟨k, hk, finished_eq now k⟩

theorem DataOk.finished (h : DataOk fingerprint root db) (now : Int)
    (hcursor : db.state.cursorSource = db.sources.length) : DataOk fingerprint root (db.finished now) := by
  have hreg := h.registry
  have hback : ∀ k ∈ db.registry, ∃ retire, { k with retireAfter := retire } ∈ (db.finished now).registry := by
    intro k hk
    obtain ⟨retire, heq, -⟩ := finished_eq now k
    exact ⟨retire, heq ▸ mem_map_of_mem hk⟩
  refine ⟨⟨hreg.keyed.map fun k _ => congrArg DataKey.id (finished_dataKey now k), ?_, fun k' hk' => ?_,
    fun k' hk' => ?_, ?_, fun k' hk' hst => ?_⟩, fun i r hr => ?_, fun id hid => ?_, h.recorded,
    h.rootGeneration, h.rotation, h.notifications, .inl rfl, fun i r hr _ => ?_⟩
  · exact (length_map _).trans_le hreg.length
  · obtain ⟨k, hk, retire, rfl, -⟩ := mem_finished hk'
    exact hreg.opens k hk
  · obtain ⟨k, hk, retire, rfl, -⟩ := mem_finished hk'
    exact hreg.generations k hk
  · obtain ⟨k, hk, hst, hkid, hkgen⟩ := hreg.active
    obtain ⟨retire, hk'⟩ := hback k hk
    exact ⟨_, hk', hst, hkid, hkgen⟩
  · obtain ⟨k, hk, retire, rfl, -⟩ := mem_finished hk'
    exact hreg.one k hk hst
  · refine (h.secrets i r hr).mono fun k hk _ => ?_
    obtain ⟨retire, hk'⟩ := hback k hk
    exact ⟨_, hk', rfl⟩
  · obtain ⟨k, hk, rfl⟩ := h.frames id hid
    obtain ⟨retire, hk'⟩ := hback k hk
    exact ⟨_, hk', rfl⟩
  · -- The cursor stands behind the last table.
    obtain ⟨t, ht, hmem⟩ := hr
    refine h.passed i r ⟨t, ht, hmem⟩ (.inr (.inl ?_))
    rw [hcursor]
    exact (List.getElem?_eq_some_iff.mp ht).1

/-! ## A write -/

theorem row_of_set (hs : db.sources[source]? = some table)
    (h : ({ db with sources := db.sources.set source table' } : Database).Row i r) :
    i = source ∧ r ∈ table'.rows ∨ db.Row i r := by
  rw [row_set hs rfl] at h
  split at h
  · exact .inl ⟨‹_›, h⟩
  · exact .inr h

/-- A change of the rows of one table, where every row that is new is sealed under the active key. -/
theorem DataOk.setTable (h : DataOk fingerprint root db) (hs : db.sources[source]? = some table)
    (hrow : ∀ r ∈ table'.rows, r ∈ table.rows ∨ (SecretOk db.registry r ∧ Under db.state.activeID r)) :
    DataOk fingerprint root { db with sources := db.sources.set source table' } := by
  have hcase : ∀ i r, ({ db with sources := db.sources.set source table' } : Database).Row i r →
      db.Row i r ∨ (SecretOk db.registry r ∧ Under db.state.activeID r) := by
    intro i r hr
    rcases row_of_set hs hr with ⟨rfl, hmem⟩ | hold
    · exact (hrow r hmem).imp_left fun hold => ⟨table, hs, hold⟩
    · exact .inl hold
  refine ⟨h.registry.congr rfl rfl rfl, ?_, h.frames, h.recorded, h.rootGeneration, h.rotation,
    h.notifications, ?_, ?_⟩
  · intro i r hr
    rcases hcase i r hr with hold | hnew
    · exact h.secrets i r hold
    · exact hnew.1
  · rcases h.phase with hready | ⟨hrot, hle⟩
    · exact .inl hready
    · exact .inr ⟨hrot, hle.trans (le_of_eq (length_set ..).symm)⟩
  · intro i r hr hp
    rcases hcase i r hr with hold | hnew
    · exact h.passed i r hold hp
    · exact hnew.2

theorem remembers_set {id : String} {value : Option (List UInt8)} (hs : db.sources[source]? = some table)
    (h : Remembers db plain) (hother : ∀ r, r.id ≠ id → (r ∈ table'.rows ↔ r ∈ table.rows))
    (hthis : ∀ p, value = some p ↔ ∃ r e, r ∈ table'.rows ∧ r.id = id ∧ r.ciphertext = some e ∧ e.plain = p) :
    Remembers { db with sources := db.sources.set source table' } (plain.set source id value) := by
  intro i id' p
  have hrow : ∀ r, ({ db with sources := db.sources.set source table' } : Database).Row i r ↔
      if i = source then r ∈ table'.rows else db.Row i r := fun r => row_set hs rfl
  unfold Secrecy.set
  by_cases hi : i = source
  · subst hi
    have hold : ∀ r, db.Row i r ↔ r ∈ table.rows := fun r => by
      unfold Database.Row
      rw [hs]
      simp
    simp only [hrow, if_true, true_and]
    by_cases hid : id' = id
    · subst hid
      rw [if_pos rfl, hthis p]
    · rw [if_neg hid, h i id' p]
      simp only [hold]
      constructor
      · rintro ⟨r, e, hr, rfl, hc⟩
        exact ⟨r, e, (hother r hid).mpr hr, rfl, hc⟩
      · rintro ⟨r, e, hr, rfl, hc⟩
        exact ⟨r, e, (hother r hid).mp hr, rfl, hc⟩
  · simp only [hrow, hi, if_false, false_and]
    exact h i id' p

/-- A batch reads the row and can rewrite it. -/
def SecretResource.Regular (r : SecretResource) : Prop := r.id ≠ "" ∧ r.Movable

/-- What `validateRegistryKey`, `readBatch` and `rewriteResource` ask for beyond `DataOk`. -/
structure Loadable (db : Database) : Prop where
  times : ∀ key ∈ db.registry, 0 < key.createdAt ∧ key.createdAt ≤ key.activatedAt
  active : ∀ key ∈ db.registry, key.state = .active → key.retireAfter = none
  retire : ∀ key ∈ db.registry, ∀ retire, key.retireAfter = some retire → key.activatedAt ≤ retire
  closed : db.state.phase = .ready → ∀ key ∈ db.registry, key.state = .decryptOnly → key.retireAfter.isSome
  rows : ∀ i r, db.Row i r → r.Regular

theorem Loadable.of_rows (h : Loadable db) (hreg : db'.registry = db.registry)
    (hphase : db'.state.phase = db.state.phase) (hrows : ∀ i r, db'.Row i r → r.Regular) : Loadable db' where
  times := hreg ▸ h.times
  active := hreg ▸ h.active
  retire := hreg ▸ h.retire
  closed hready := hreg ▸ h.closed (hphase.symm.trans hready)
  rows := hrows

/-- The write leaves a row that a batch can rewrite. -/
def Write.Careful : Write → Prop
  | .put _ id _ _ storage _ => id ≠ "" ∧ storage = .blob
  | .clear _ id _ => id ≠ ""
  | .delete _ _ | .putFrame | .dropFrame _ => True

instance : (write : Write) → Decidable write.Careful
  | .put _ id _ _ storage _ => inferInstanceAs (Decidable (id ≠ "" ∧ storage = .blob))
  | .clear _ id _ => inferInstanceAs (Decidable (id ≠ ""))
  | .delete _ _ | .putFrame | .dropFrame _ => inferInstanceAs (Decidable True)

/-- What a write keeps. -/
structure WriteOk (fingerprint : RootKey → Fingerprint) (root : RootKey) (ring : Keyring) (db : Database)
    (plain : Secrecy) : Prop where
  data : DataOk fingerprint root db
  plain : Remembers db plain
  rings : Rings db ring

theorem WriteOk.put {row : SecretResource} (h : WriteOk fingerprint root ring db plain)
    (hok : SecretOk db.registry row) (hu : Under db.state.activeID row)
    (hw : db.inTable source (·.put row) = .ok db') :
    WriteOk fingerprint root ring db' (plain.set source row.id (row.ciphertext.map (·.plain))) ∧
      db'.state = db.state ∧ (row.Regular → Loadable db → Loadable db') := by
  obtain ⟨table, hs, rfl⟩ := inTable_exit hw
  refine ⟨⟨h.data.setTable hs fun r hr => ?_, remembers_set hs h.plain (fun r hne => ?_) fun p => ?_,
    ⟨h.rings.active, h.rings.ciphers⟩⟩, rfl, fun hrow hl => hl.of_rows rfl rfl fun i r hr => ?_⟩
  · rcases mem_put.mp hr with rfl | ⟨hold, -⟩
    · exact .inr ⟨hok, hu⟩
    · exact .inl hold
  · rw [mem_put]
    exact ⟨fun hr => hr.elim (fun heq => absurd (congrArg SecretResource.id heq) hne) (·.1),
      fun hr => .inr ⟨hr, hne⟩⟩
  · rw [Option.map_eq_some_iff]
    constructor
    · rintro ⟨e, he, hp⟩
      exact ⟨row, e, mem_put.mpr (.inl rfl), rfl, he, hp⟩
    · rintro ⟨r, e, hr, hid, he, hp⟩
      rcases mem_put.mp hr with rfl | ⟨-, hne⟩
      · exact ⟨e, he, hp⟩
      · exact absurd hid hne
  · rcases row_of_set hs hr with ⟨rfl, hmem⟩ | hold
    · rcases mem_put.mp hmem with rfl | ⟨hold, -⟩
      · exact hrow
      · exact hl.rows i r ⟨table, hs, hold⟩
    · exact hl.rows i r hold

theorem WriteOk.delete {id : String} (h : WriteOk fingerprint root ring db plain)
    (hw : db.inTable source (·.delete id) = .ok db') :
    WriteOk fingerprint root ring db' (plain.set source id none) ∧ db'.state = db.state ∧
      (Loadable db → Loadable db') := by
  obtain ⟨table, hs, rfl⟩ := inTable_exit hw
  refine ⟨⟨h.data.setTable hs fun r hr => .inl (mem_delete.mp hr).1,
    remembers_set hs h.plain (fun r hne => ?_) fun p => ?_, ⟨h.rings.active, h.rings.ciphers⟩⟩, rfl,
    fun hl => hl.of_rows rfl rfl fun i r hr => ?_⟩
  · rw [mem_delete]
    exact ⟨(·.1), fun hr => ⟨hr, hne⟩⟩
  · simp only [reduceCtorEq, false_iff]
    rintro ⟨r, e, hr, hid, -⟩
    exact (mem_delete.mp hr).2 hid
  · rcases row_of_set hs hr with ⟨rfl, hmem⟩ | hold
    · exact hl.rows i r ⟨table, hs, (mem_delete.mp hmem).1⟩
    · exact hl.rows i r hold

theorem DataOk.setFrames {frames : List KeyId} (h : DataOk fingerprint root db)
    (hf : ∀ id ∈ frames, ∃ key ∈ db.registry, key.id = id) :
    DataOk fingerprint root { db with frames := frames } :=
  ⟨h.registry.congr rfl rfl rfl, h.secrets, hf, h.recorded, h.rootGeneration, h.rotation, h.notifications,
    h.phase, h.passed⟩

theorem WriteOk.setFrames {frames : List KeyId} (h : WriteOk fingerprint root ring db plain)
    (hf : ∀ id ∈ frames, ∃ key ∈ db.registry, key.id = id) :
    WriteOk fingerprint root ring { db with frames := frames } plain ∧ db.state = db.state ∧
      (True → Loadable db → Loadable { db with frames := frames }) :=
  ⟨⟨h.data.setFrames hf, h.plain, ⟨h.rings.active, h.rings.ciphers⟩⟩, rfl, fun _ hl => hl.of_rows rfl rfl hl.rows⟩

/-- A write keeps what it has to, and a careful one a database that can be migrated. -/
theorem WriteOk.write {write : Write} (h : WriteOk fingerprint root ring db plain)
    (hw : db.write ring write = .ok db') :
    WriteOk fingerprint root ring db' (plain.write write) ∧ db'.state = db.state ∧
      (write.Careful → Loadable db → Loadable db') := by
  cases write with
  | put source id aad required storage plaintext =>
    obtain ⟨e, he, hw⟩ := bind_eq_ok hw
    obtain ⟨key, hk, hid, hlen, hv, rfl⟩ := h.rings.seal_ok h.data.registry he
    have hsecret : SecretOk db.registry ⟨id, aad, some ⟨key.dataKey, aad, plaintext⟩, required, storage⟩ := by
      refine ⟨fun _ => rfl, fun e he => ?_⟩
      cases he
      exact ⟨rfl, hv, hlen, key, hk, rfl⟩
    obtain ⟨hok, hstate, hl⟩ := h.put hsecret (fun e he => by cases he; exact hid) hw
    exact ⟨hok, hstate, fun hcare => hl ⟨hcare.1, .inr hcare.2⟩⟩
  | clear source id aad =>
    have hsecret : SecretOk db.registry ⟨id, aad, none, false, .blob⟩ := ⟨fun h => (nomatch h), fun e he => nomatch he⟩
    obtain ⟨hok, hstate, hl⟩ := h.put hsecret (fun e he => nomatch he) hw
    exact ⟨hok, hstate, fun hcare => hl ⟨hcare, .inl rfl⟩⟩
  | delete source id =>
    obtain ⟨hok, hstate, hl⟩ := h.delete hw
    exact ⟨hok, hstate, fun _ => hl⟩
  | putFrame =>
    obtain ⟨key, hk, -, -, hc⟩ := h.rings.cipher_active h.data.registry
    simp only [Database.write, hc, Except.ok.injEq] at hw
    subst hw
    refine h.setFrames fun id hid => ?_
    rcases mem_append.mp hid with hid | hid
    · exact h.data.frames id hid
    · exact ⟨key, hk, (mem_singleton.mp hid).symm⟩
  | dropFrame key =>
    cases hw
    exact h.setFrames fun id hid => h.data.frames id (mem_of_mem_erase hid)

theorem WriteOk.writeAll {writes : List Write} (h : WriteOk fingerprint root ring db plain)
    (hw : db.writeAll ring writes = .ok db') :
    WriteOk fingerprint root ring db' (writes.foldl Secrecy.write plain) ∧ db'.state = db.state ∧
      ((∀ write ∈ writes, write.Careful) → Loadable db → Loadable db') := by
  induction writes generalizing db plain with
  | nil =>
    cases hw
    exact ⟨h, rfl, fun _ hl => hl⟩
  | cons write writes ih =>
    obtain ⟨db₁, hone, hrest⟩ := foldlM_cons_ok hw
    obtain ⟨h₁, hst, hl₁⟩ := h.write hone
    obtain ⟨h₂, hst', hl₂⟩ := ih h₁ hrest
    exact ⟨h₂, hst'.trans hst, fun hrow hl => hl₂ (fun x hx => hrow x (mem_cons_of_mem _ hx))
      (hl₁ (hrow write mem_cons_self) hl)⟩

/-! ## A new key -/

theorem DataOk.activated {kept : List RegistryKey} (h : DataOk fingerprint root db)
    (ha : Activated root db ring now key rotation kept db') : DataOk fingerprint root db' := by
  have hreg := ha.registryOk h.registry
  obtain ⟨refs, hrefs, hkept⟩ := ha.retired
  have hmem : ∀ k ∈ db.registry, k.retires refs now = false →
      k.demoted db.state.activeID ∈ db'.registry := by
    intro k hk hret
    have hk' : k ∈ kept := by
      rw [hkept, mem_filter]
      exact ⟨hk, by simp [hret]⟩
    rw [ha.eq]
    exact mem_append_left _ (mem_map_of_mem hk')
  have heq := ha.eq
  subst heq
  refine ⟨hreg, ?_, ?_, h.recorded, h.rootGeneration, .inr rfl, h.notifications,
    .inr ⟨rfl, Nat.zero_le _⟩, ?_⟩
  · -- In phase `ready` every secret is under the active key, which is not retired.
    intro i r hr
    refine (h.secrets i r hr).mono fun k hk he => ?_
    obtain ⟨e, hc, hkey⟩ := he
    have hid : k.id = db.state.activeID := by
      have := h.passed i r hr (.inl ha.ready) e hc
      unfold Envelope.dataKeyID at this
      rw [hkey] at this
      exact this
    have hactive := h.registry.active_of_id hk hid
    exact ⟨_, hmem k hk (by simp [RegistryKey.retires, hactive]), k.demoted_dataKey _⟩
  · intro id hid
    obtain ⟨k, hk, rfl⟩ := h.frames id hid
    have hcount : refs.count k.id ≠ 0 :=
      (count_pos_iff.mpr (mem_references h.registry h.frames hrefs hid)).ne'
    exact ⟨_, hmem k hk (by simp [RegistryKey.retires, hcount]), k.demoted_id _⟩
  · intro i r hr hp
    rcases hp with hready | hlt | ⟨-, hne, -⟩
    · cases hready
    · exact absurd hlt (Nat.not_lt_zero i)
    · exact absurd rfl hne

/-! ## Every step -/

/-- A new key comes at a time after the epoch; the migration ends at most `keyRetention` before the keys
that it closes were activated; no row has an empty id. -/
def CarefulSecrets (w : SecretsWorld) : SecretsEvent → Prop
  | .startRotation now _ _ _ => 0 < now
  | .batch now => w.db.state.cursorSource = w.db.sources.length →
      ∀ key ∈ w.db.registry, key.state = .decryptOnly → key.retireAfter = none →
        key.activatedAt ≤ now + keyRetention
  | .withWrite writes => ∀ write ∈ writes, write.Careful
  | .load | .finish | .fault | .crash => True

instance (w : SecretsWorld) : (e : SecretsEvent) → Decidable (CarefulSecrets w e)
  | .startRotation now _ _ _ => inferInstanceAs (Decidable (0 < now))
  | .batch now => inferInstanceAs (Decidable (w.db.state.cursorSource = w.db.sources.length →
      ∀ key ∈ w.db.registry, key.state = .decryptOnly → key.retireAfter = none →
        key.activatedAt ≤ now + keyRetention))
  | .withWrite writes => inferInstanceAs (Decidable (∀ write ∈ writes, write.Careful))
  | .load | .finish | .fault | .crash => inferInstanceAs (Decidable True)

def CarefulSecretsStep (fingerprint : RootKey → Fingerprint) (root : RootKey) (w : SecretsWorld)
    (e : SecretsEvent) (w' : SecretsWorld) : Prop :=
  SecretsStep fingerprint root w e w' ∧ CarefulSecrets w e

theorem Loadable.finished (h : Loadable db) (hnow : ∀ key ∈ db.registry, key.state = .decryptOnly →
      key.retireAfter = none → key.activatedAt ≤ now + keyRetention) : Loadable (db.finished now) := by
  refine ⟨fun _ hk' => ?_, fun _ hk' hst => ?_, fun _ hk' retire hret => ?_, fun _ _ hk' hst => ?_, h.rows⟩
  all_goals obtain ⟨k, hk, retire', rfl, hretire⟩ := mem_finished hk'
  · exact h.times k hk
  · rcases hretire with ⟨rfl, -⟩ | ⟨hdec, -⟩
    · exact h.active k hk hst
    · exact nomatch hst.symm.trans hdec
  · rcases hretire with ⟨rfl, -⟩ | ⟨hdec, hnone, rfl⟩
    · exact h.retire k hk retire hret
    · cases hret
      exact hnow k hk hdec hnone
  · rcases hretire with ⟨-, hne⟩ | ⟨-, -, rfl⟩
    · exact Option.isSome_iff_ne_none.mpr (hne hst)
    · rfl

theorem Loadable.activated {kept : List RegistryKey} (h : Loadable db) (hnow : 0 < now)
    (ha : Activated root db ring now key rotation kept db') : Loadable db' := by
  refine ⟨fun k hk => ?_, fun k hk hst => ?_, fun k hk retire hret => ?_, fun hready => ?_, ?_⟩
  · rcases ha.cases hk with ⟨x, hx, state, rfl, -⟩ | rfl
    · exact h.times x hx
    · exact ⟨hnow, le_refl _⟩
  · rcases ha.cases hk with ⟨x, hx, state, rfl, hactive⟩ | rfl
    · exact h.active x hx (hactive hst).1
    · rfl
  · rcases ha.cases hk with ⟨x, hx, state, rfl, -⟩ | rfl
    · exact h.retire x hx retire hret
    · cases hret
  · rw [ha.eq] at hready
    cases hready
  · rw [ha.eq]
    exact h.rows

theorem regular_migrated (hs : db.sources[db.state.cursorSource]? = some table)
    (h : ∀ i r, db.Row i r → r.Regular) : ∀ i r, (db.migrated table key batch).Row i r → r.Regular := by
  intro i r hr
  obtain ⟨r₀, hr₀, rfl⟩ := row_migrated hs hr
  obtain ⟨hid, hmov⟩ := h i r₀ hr₀
  refine ⟨hid, hmov.imp_left fun hnone => ?_⟩
  simp [SecretResource.resealed, hnone]

theorem reload_eq_ok {state : LifecycleState} : db.reload fingerprint root = .ok (ring, state) ↔
      Loads fingerprint db root ring ∧ state = db.state ∧
        (db.state.generation ≤ 1 ∨ db.state.rotationID.isSome) := by
  unfold Database.reload
  constructor
  · intro h
    obtain ⟨st, hst, h⟩ := bind_eq_ok h
    obtain ⟨ring', hring, h⟩ := bind_eq_ok h
    cases h
    exact ⟨loadKeyring_eq_ok.mp hring, readState_eq_ok.mp hst⟩
  · rintro ⟨hl, rfl, hrot⟩
    rw [readState_eq_ok.mpr ⟨rfl, hrot⟩]
    simp only [bind, Except.bind, loadKeyring_eq_ok.mpr hl]

theorem ServiceOk.of_unhealthy (hu : sv.unhealthy = true) (hw : sv.working = false) : ServiceOk db sv :=
  ⟨fun h => by simp [hw] at h, fun h => by simp [hu] at h⟩

theorem ServiceOk.of_rings (hu : sv.unhealthy = false) (hr : Rings db sv.ring) (hs : sv.state = db.state) :
    ServiceOk db sv := ⟨fun _ => hu, fun _ => ⟨hr, hs⟩⟩

section

variable (h : SecretsOk fingerprint root w)

include h

/-- Another service next to the same database. -/
theorem SecretsOk.setService {service : Option Service} (hs : ∀ sv, service = some sv → ServiceOk w.db sv) :
    SecretsOk fingerprint root { w with service := service } := ⟨h.data, h.plain, hs⟩

theorem SecretsOk.none :
    SecretsOk fingerprint root { w with service := none } := h.setService fun _ hx => nomatch hx

theorem SecretsOk.stopped (sv : Service) : SecretsOk fingerprint root { w with service := sv.stopped } := by
  refine h.setService fun x hx => ?_
  unfold Service.stopped at hx
  split at hx
  · cases hx
    exact .of_unhealthy rfl rfl
  · cases hx

/-- A batch by a healthy service. -/
theorem SecretsOk.migrated (hr : Rings w.db ring)
    (hrot : w.db.state.phase = .rotating) (hm : w.db.migrateBatch ring now = .ok db') :
    DataOk fingerprint root db' ∧ Remembers db' w.plain ∧ Rings db' ring ∧
      (CarefulSecrets w (.batch now) → Loadable w.db → Loadable db') := by
  obtain ⟨key, hk, -, hid, -⟩ := h.data.registry.active
  cases migrateBatch_exit hr h.data.registry hk hid h.data.secrets hm with
  | finished hcursor heq =>
    subst heq
    refine ⟨h.data.finished now hcursor, h.plain, ⟨hr.active, ?_⟩, fun hcare hl => hl.finished (hcare hcursor)⟩
    rw [hr.ciphers]
    simp only [Database.finished, map_map]
    exact map_congr_left fun k _ => (finished_dataKey now k).symm
  | moved table hs batch hbatch hids heq =>
    subst heq
    obtain ⟨cursor, cursorID, hafter, -⟩ := w.db.state.after_eq batch
    exact ⟨h.data.migrated hk hid hrot hs hbatch hids, remembers_migrated hs h.plain,
      ⟨hr.active.trans (congrArg LifecycleState.activeID hafter).symm, hr.ciphers⟩,
      fun _ hl => hl.of_rows rfl (congrArg LifecycleState.phase hafter :) (regular_migrated hs hl.rows)⟩

theorem secretsOk_startRotation {reloads : Bool} :
    SecretsOk fingerprint root (w.startRotation fingerprint root sv now key rotation reloads) ∧
      (0 < now → Loadable w.db →
        Loadable (w.startRotation fingerprint root sv now key rotation reloads).db) := by
  unfold SecretsWorld.startRotation
  split
  · exact ⟨h, fun _ hl => hl⟩
  rename_i hidle
  simp only [Bool.or_eq_true, not_or, Bool.not_eq_true] at hidle
  have hstop : ∀ db, ServiceOk db { sv with unhealthy := true } := fun db => .of_unhealthy rfl hidle.2
  split
  · exact ⟨h.setService fun x hx => by cases hx; exact hstop _, fun _ hl => hl⟩
  rename_i hhealthy
  simp only [Bool.or_eq_true, not_or, Bool.not_eq_true] at hhealthy
  split
  · split
    · exact ⟨h.setService fun x hx => by cases hx; exact hstop _, fun _ hl => hl⟩
    · exact ⟨h, fun _ hl => hl⟩
  · rename_i db hdb
    obtain ⟨kept, hact⟩ := activateDataKey_exit h.data.registry hdb
    have hdata := h.data.activated hact
    have hplain : Remembers db w.plain := by
      rw [hact.eq]
      exact h.plain
    split
    · rename_i ring state hreload
      split at hreload
      · obtain ⟨hl, hst, -⟩ := reload_eq_ok.mp hreload
        refine ⟨⟨hdata, hplain, fun x hx => ?_⟩, fun hnow hl => hl.activated hnow hact⟩
        cases hx
        exact .of_rings hhealthy.1 (hl.rings hdata.registry) hst
      · cases hreload
    · exact ⟨⟨hdata, hplain, fun x hx => by cases hx; exact hstop _⟩, fun hnow hl => hl.activated hnow hact⟩

/-- A step keeps the invariant, and a careful one keeps a registry that loads. -/
theorem secretsOk_step (hs : SecretsStep fingerprint root w e w') :
    SecretsOk fingerprint root w' ∧ (CarefulSecrets w e → Loadable w.db → Loadable w'.db) := by
  unfold SecretsStep at hs
  cases e with
  | load =>
    simp only [secretsNext, Option.ite_none_right_eq_some, Option.some.injEq] at hs
    obtain ⟨-, rfl⟩ := hs
    unfold SecretsWorld.load
    split
    · rename_i ring state hreload
      obtain ⟨hl, hst, -⟩ := reload_eq_ok.mp hreload
      refine ⟨h.setService fun x hx => ?_, fun _ hl => hl⟩
      cases hx
      exact .of_rings rfl (hl.rings h.data.registry) hst
    · exact ⟨h, fun _ hl => hl⟩
  | batch now =>
    simp only [secretsNext] at hs
    split at hs
    · rename_i sv hsv
      simp only [Option.ite_none_right_eq_some, Option.some.injEq, Bool.and_eq_true,
        decide_eq_true_eq] at hs
      obtain ⟨⟨hworking, hphase⟩, rfl⟩ := hs
      have hsok := h.service sv hsv
      obtain ⟨hr, hst⟩ := hsok.rings (hsok.worker hworking)
      unfold SecretsWorld.batch
      split
      · rename_i db hdb
        obtain ⟨hd, hp, hr', hl⟩ := h.migrated hr (hst ▸ hphase) hdb
        refine ⟨⟨hd, hp, fun x hx => ?_⟩, hl⟩
        cases hx
        exact .of_rings (hsok.worker hworking) hr' rfl
      · exact ⟨h.stopped sv, fun _ hl => hl⟩
    · cases hs
  | finish =>
    simp only [secretsNext] at hs
    split at hs
    · rename_i sv hsv
      simp only [Option.ite_none_right_eq_some, Option.some.injEq] at hs
      obtain ⟨-, rfl⟩ := hs
      have hsok := h.service sv hsv
      unfold SecretsWorld.finish
      split
      · exact ⟨h.setService fun x hx => by cases hx; exact ⟨fun hf => (nomatch hf), hsok.rings⟩, fun _ hl => hl⟩
      · split
        · split
          · exact ⟨h.setService fun x hx => by cases hx; exact ⟨fun hf => (nomatch hf), hsok.rings⟩, fun _ hl => hl⟩
          · exact ⟨h.none, fun _ hl => hl⟩
        · exact ⟨h.none, fun _ hl => hl⟩
    · cases hs
  | fault =>
    simp only [secretsNext] at hs
    split at hs
    · rename_i sv hsv
      simp only [Option.ite_none_right_eq_some, Option.some.injEq] at hs
      obtain ⟨-, rfl⟩ := hs
      exact ⟨h.stopped sv, fun _ hl => hl⟩
    · cases hs
  | withWrite writes =>
    obtain ⟨sv, hsv, rfl⟩ := Option.map_eq_some_iff.mp hs
    unfold SecretsWorld.withWrite
    split
    · rename_i hserving
      simp only [Bool.and_eq_true, Bool.not_eq_true'] at hserving
      obtain ⟨hr, hst⟩ := (h.service sv hsv).rings hserving.2
      split
      · rename_i db hdb
        obtain ⟨hok, hstate, hl⟩ := WriteOk.writeAll ⟨h.data, h.plain, hr⟩ hdb
        refine ⟨⟨hok.data, hok.plain, fun x hx => ?_⟩, hl⟩
        obtain rfl : sv = x := Option.some.inj (hsv.symm.trans hx)
        exact .of_rings hserving.2 hok.rings (hst.trans hstate.symm)
      · exact ⟨h, fun _ hl => hl⟩
    · exact ⟨h, fun _ hl => hl⟩
  | startRotation now key rotation reloads =>
    obtain ⟨sv, -, rfl⟩ := Option.map_eq_some_iff.mp hs
    exact secretsOk_startRotation h
  | crash =>
    cases hs
    exact ⟨h.none, fun _ hl => hl⟩

end

theorem secretsOk_run {w₀ : SecretsWorld} {es : List SecretsEvent} (h₀ : SecretsOk fingerprint root w₀)
    (h : Run (SecretsStep fingerprint root) w₀ es w) :
    SecretsOk fingerprint root w := h.inv h₀ fun _ _ _ hi hs => (secretsOk_step hi hs).1

/-! ## A registry that loads -/

theorem validateRegistryKey_of {key : RegistryKey} (h : DataOk fingerprint root db) (hl : Loadable db)
    (hk : key ∈ db.registry) : validateRegistryKey key db.state = true := by
  obtain ⟨hcreated, hactivated⟩ := hl.times key hk
  have hgen := h.registry.generations key hk
  have hpos := (unwrapDataKey_eq_some.mp (h.registry.opens key hk)).1
  unfold validateRegistryKey
  simp only [hpos, hgen, hcreated, hactivated, decide_true, Bool.and_self, Bool.true_and]
  cases hstate : key.state with
  | active =>
    obtain ⟨a, ha, hast, haid, hagen⟩ := h.registry.active
    have hid := h.registry.one key hk hstate
    obtain rfl := h.registry.keyed.eq_of_key hk ha (hid.trans haid.symm)
    simp [hid, hagen, hl.active key hk hstate]
  | decryptOnly =>
    have hne : key.id ≠ db.state.activeID := fun heq => by
      rw [h.registry.active_of_id hk heq] at hstate
      cases hstate
    by_cases hready : db.state.phase = .ready
    · obtain ⟨retire, hretire⟩ := Option.isSome_iff_exists.mp (hl.closed hready key hk hstate)
      simp [hne, hretire, hl.retire key hk retire hretire]
    · simp [hne, hready]

/-- A loadable registry loads. -/
theorem loads_of (h : DataOk fingerprint root db) (hl : Loadable db) :
    Loads fingerprint db root ⟨db.state.activeID, db.registry.map RegistryKey.dataKey⟩ := by
  have hread := h.registry.readRegistry_eq
  have hr : Rings db ⟨db.state.activeID, db.registry.map RegistryKey.dataKey⟩ := ⟨rfl, rfl⟩
  obtain ⟨a, ha, hast, haid, -⟩ := h.registry.active
  refine ⟨?_, ?_, h.recorded, h.rootGeneration, rfl, ?_, ?_, ?_⟩
  · rw [hread]
    exact length_pos_of_mem ha
  · rw [hread]
    exact h.registry.length
  · rw [hread, forall₂_map_right_iff, forall₂_same]
    exact fun key hk => loadKey_eq_ok.mpr ⟨validateRegistryKey_of h hl hk, h.registry.opens key hk⟩
  · have hiff : ∀ key ∈ db.registry, (decide (key.state = .active) = true ↔ (key == a) = true) := by
      intro key hk
      rw [decide_eq_true_eq, beq_iff_eq]
      constructor
      · intro hst
        exact h.registry.keyed.eq_of_key hk ha ((h.registry.one key hk hst).trans haid.symm)
      · rintro rfl
        exact hast
    rw [hread, countP_congr hiff]
    exact count_eq_one_of_mem (List.Nodup.of_map _ h.registry.keyed) ha
  · obtain ⟨key, -, -, -, hc⟩ := hr.cipher_active h.registry
    rw [hc]
    rfl

/-! ## A start carries the migration to its end -/

/-- How much of the migration is left: the rows behind the cursor and the tables after it. -/
def Database.left (db : Database) : Nat :=
  match db.sources[db.state.cursorSource]? with
  | none => 0
  | some table =>
    (Keyset.behind (·.id) "" table.rows db.state.cursorID).length + 1 +
      ((db.sources.drop (db.state.cursorSource + 1)).map fun t => t.rows.length + 1).sum

theorem left_of_source (hs : db.sources[db.state.cursorSource]? = some table) :
    db.left = (Keyset.behind (·.id) "" table.rows db.state.cursorID).length + 1 +
      ((db.sources.drop (db.state.cursorSource + 1)).map fun t => t.rows.length + 1).sum := by
  unfold Database.left
  rw [hs]

theorem behind_resealBatch (table : ResourceTable) (key : DataKey) (batch : List SecretResource)
    (cursor : String) : (Keyset.behind (·.id) "" (table.resealBatch key batch).rows cursor).length =
      (Keyset.behind (·.id) "" table.rows cursor).length := by
  unfold Keyset.behind ResourceTable.resealBatch ResourceTable.setCiphertexts
  rw [filter_map, length_map]
  rfl

/-- Each batch leaves less. -/
theorem left_migrated (hs : db.sources[db.state.cursorSource]? = some table)
    (hbatch : batch = (Keyset.behind (·.id) "" table.rows db.state.cursorID).take batchSize)
    (hids : ∀ r ∈ batch, r.id ≠ "") : (db.migrated table key batch).left < db.left := by
  have hlt := (List.getElem?_eq_some_iff.mp hs).1
  rw [left_of_source hs]
  cases hlast : batch.getLast? with
  | some last =>
    have hstate : db.state.after batch = { db.state with cursorID := last.id } := by
      unfold LifecycleState.after
      rw [hlast]
    have hsource : (db.migrated table key batch).sources[(db.migrated table key batch).state.cursorSource]? =
        some (table.resealBatch key batch) := by
      simp only [Database.migrated, hstate]
      exact getElem?_set_self hlt
    rw [left_of_source hsource, behind_resealBatch]
    simp only [Database.migrated, hstate, drop_set_of_lt (show db.state.cursorSource <
      db.state.cursorSource + 1 by omega)]
    have hless : (Keyset.behind (·.id) "" table.rows last.id).length < _ :=
      Keyset.length_behind_last table.ordered (hbatch ▸ hlast) (hids last (mem_of_getLast? hlast))
    omega
  | none =>
    have hstate : db.state.after batch =
        { db.state with cursorSource := db.state.cursorSource + 1, cursorID := "" } := by
      unfold LifecycleState.after
      rw [hlast]
    unfold Database.left
    simp only [Database.migrated, hstate, drop_set_of_lt (show db.state.cursorSource <
      db.state.cursorSource + 1 + 1 by omega), getElem?_set_ne (show db.state.cursorSource ≠
      db.state.cursorSource + 1 by omega)]
    split
    · omega
    · rename_i t ht
      have hdrop := List.drop_eq_getElem_cons (List.getElem?_eq_some_iff.mp ht).1
      rw [hdrop, (List.getElem?_eq_some_iff.mp ht).2, List.map_cons, List.sum_cons, Keyset.behind_start]
      omega

/-- A turn of the migration never fails. -/
theorem SecretsOk.migrateBatch (h : SecretsOk fingerprint root w) (hrows : ∀ i r, w.db.Row i r → r.Regular)
    (hr : Rings w.db ring) (hrot : w.db.state.phase = .rotating) (now : Int) :
    ∃ db', w.db.migrateBatch ring now = .ok db' := by
  have hcursor : w.db.state.cursorSource ≤ w.db.sources.length := by
    rcases h.data.phase with hready | ⟨-, hle⟩
    · rw [hrot] at hready
      cases hready
    · exact hle
  refine migrateBatch_of hr h.data.registry h.data.rotation hcursor
    (fun i r hi => ⟨(hrows i r hi).1, h.data.secrets i r hi⟩) (fun i r hi => (hrows i r hi).2)
    (fun hend i r hi => ?_) h.data.frames
  refine h.data.passed i r hi (.inr (.inl ?_))
  obtain ⟨t, ht, -⟩ := hi
  rw [hend]
  exact (List.getElem?_eq_some_iff.mp ht).1

/-- What a worker has reached when the migration is over. -/
structure Migrated (fingerprint : RootKey → Fingerprint) (root : RootKey) (w : SecretsWorld)
    (serving : Bool) : Prop where
  ok : SecretsOk fingerprint root w
  rows : ∀ i r, w.db.Row i r → r.Regular
  ready : w.db.state.phase = .ready
  service : ∃ sv, w.service = some sv ∧ sv.working = true ∧ sv.serving = serving

theorem migration_finishes {serving : Bool} (h : SecretsOk fingerprint root w)
    (hrows : ∀ i r, w.db.Row i r → r.Regular) (hsv : w.service = some sv) (hworking : sv.working = true)
    (hserving : sv.serving = serving) (hrot : w.db.state.phase = .rotating) :
    Leads (secretsNext fingerprint root) SecretsEvent.batch w
      fun t => Migrated fingerprint root t serving := by
  -- The induction is on what is left; the last turn is the one of `finishMigration`.
  induction hn : w.db.left using Nat.strong_induction_on generalizing w sv with
  | _ n ih =>
    have hsok := h.service sv hsv
    obtain ⟨hr, hst⟩ := hsok.rings (hsok.worker hworking)
    obtain ⟨key, hk, -, hid, -⟩ := h.data.registry.active
    have hturn : ∀ now, ∃ db', BatchExit w.db now key.dataKey db' ∧ secretsNext fingerprint root w (.batch now) =
        some { w with db := db', service := some { sv with state := db'.state } } := fun now => by
      obtain ⟨db', hdb'⟩ := h.migrateBatch hrows hr hrot now
      refine ⟨db', migrateBatch_exit hr h.data.registry hk hid h.data.secrets hdb', ?_⟩
      simp only [secretsNext, hsv, hworking, hst, hrot, decide_true, Bool.and_self, if_true,
        SecretsWorld.batch, hdb']
    cases hs : w.db.sources[w.db.state.cursorSource]? with
    | none =>
      refine .last fun now => ?_
      obtain ⟨db', hexit, hnext⟩ := hturn now
      refine ⟨_, hnext, ?_⟩
      cases hexit with
      | finished hcursor heq =>
        subst heq
        exact ⟨(secretsOk_step h hnext).1, hrows, rfl, _, rfl, hworking, hserving⟩
      | moved table hs' => rw [hs] at hs'; cases hs'
    | some table =>
      obtain ⟨batch, hbatch⟩ : ∃ batch, batch =
        (Keyset.behind (·.id) "" table.rows w.db.state.cursorID).take batchSize := ⟨_, rfl⟩
      have hnext : ∀ now, secretsNext fingerprint root w (.batch now) = some { w with
          db := w.db.migrated table key.dataKey batch
          service := some { sv with state := (w.db.migrated table key.dataKey batch).state } } := fun now => by
        obtain ⟨db', hexit, hnext⟩ := hturn now
        cases hexit with
        | finished hcursor heq =>
          rw [hcursor, getElem?_eq_none (le_refl _)] at hs
          cases hs
        | moved table' hs' batch' hbatch' _ heq =>
          obtain rfl : table = table' := Option.some.inj (hs.symm.trans hs')
          rw [hbatch, ← hbatch', ← heq]
          exact hnext
      have hbids : ∀ r ∈ batch, r.id ≠ "" := fun r hr =>
        (hrows _ r ⟨table, hs, (batch_sublist table _).subset (hbatch ▸ hr)⟩).1
      refine .cons hnext (ih _ ?_ (secretsOk_step h (hnext 0)).1 (regular_migrated hs hrows) rfl hworking
        hserving ?_ rfl)
      · rw [← hn]
        exact left_migrated hs hbatch hbids
      · obtain ⟨_, _, hafter, -⟩ := w.db.state.after_eq batch
        exact (congrArg LifecycleState.phase hafter).trans hrot

/-- From any interrupted cursor, a start that is not disturbed ends the migration and serves. -/
theorem resumes (h : SecretsOk fingerprint root w) (hl : Loadable w.db) (hsv : w.service = none) :
    ∃ n, ∀ clocks : List Int, clocks.length = n → ∃ t sv,
      runFn (secretsNext fingerprint root) w (.load :: clocks.map .batch ++ [.finish]) = some t ∧
        t.service = some sv ∧ sv.serving = true ∧ sv.unhealthy = false ∧ t.db.state.phase = .ready := by
  have hload : secretsNext fingerprint root w .load = some { w with
      service := some { ring := ⟨w.db.state.activeID, w.db.registry.map RegistryKey.dataKey⟩
                        state := w.db.state } } := by
    simp only [secretsNext, hsv, Option.isNone_none, if_true, SecretsWorld.load,
      reload_eq_ok.mpr ⟨loads_of h.data hl, rfl, h.data.rotation⟩]
  have hok := (secretsOk_step h hload).1
  have hfin : Leads (secretsNext fingerprint root) SecretsEvent.batch { w with
      service := some { ring := ⟨w.db.state.activeID, w.db.registry.map RegistryKey.dataKey⟩
                        state := w.db.state } } fun t => Migrated fingerprint root t false := by
    rcases h.data.phase with hready | ⟨hrot, -⟩
    · exact .done ⟨hok, hl.rows, hready, _, rfl, rfl, rfl⟩
    · exact migration_finishes hok hl.rows rfl rfl rfl hrot
  obtain ⟨n, hn⟩ := hfin
  refine ⟨n, fun clocks hlen => ?_⟩
  obtain ⟨t, ht, hm⟩ := hn clocks hlen
  obtain ⟨sv, hsv', hworking, hserving⟩ := hm.service
  have hsok := hm.ok.service sv hsv'
  obtain ⟨hr, hst⟩ := hsok.rings (hsok.worker hworking)
  obtain ⟨refs, hrefs⟩ := validateResources_of hr hm.ok.data.registry
    (fun i r hi => ⟨(hm.rows i r hi).1, hm.ok.data.secrets i r hi⟩)
    (fun i r hi => hm.ok.data.passed i r hi (.inl hm.ready)) hm.ok.data.frames
  have hfinish : secretsNext fingerprint root t .finish =
      some { t with service := some { sv with working := false, serving := true } } := by
    simp only [secretsNext, hsv', hworking, hst, hm.ready, decide_true, Bool.and_self, if_true,
      SecretsWorld.finish, hserving, Bool.false_eq_true, if_false, hrefs, hm.ok.data.notifications]
  refine ⟨{ t with service := some { sv with working := false, serving := true } }, _, ?_, rfl, rfl,
    hsok.worker hworking, hm.ready⟩
  rw [cons_append, runFn, hload, Option.bind_some, runFn_append, ht, Option.bind_some, runFn, hfinish]
  rfl

/-! ## Every run -/

/-- A stopped service next to a database in order, which can be loaded. -/
structure SecretsStart (fingerprint : RootKey → Fingerprint) (root : RootKey) (w : SecretsWorld) : Prop where
  ok : SecretsOk fingerprint root w
  loadable : Loadable w.db
  stopped : w.service = none

/-- In every state of a careful run the registry holds one to five keys and one active key, that of the
state; every secret names a key of the registry and opens to what was last written, and none is lost; in
phase `ready` every secret is under the active key; no turn of the migration fails; and after a crash a
start that is not disturbed ends the migration and serves. -/
theorem data_rotation_strands_nothing {fingerprint : RootKey → Fingerprint} {root : RootKey}
    {w₀ w : SecretsWorld} {es : List SecretsEvent} (hstart : SecretsStart fingerprint root w₀)
    (h : Run (CarefulSecretsStep fingerprint root) w₀ es w) :
    (1 ≤ w.db.registry.length ∧ w.db.registry.length ≤ maximumDataKeys ∧
      ∃ key ∈ w.db.registry, key.state = .active ∧ key.id = w.db.state.activeID ∧
        key.generation = w.db.state.generation ∧ ∀ key' ∈ w.db.registry, key'.state = .active → key' = key) ∧
    (∀ i r e, w.db.Row i r → r.ciphertext = some e → ∃ row ∈ w.db.registry, row.id = Envelope.dataKeyID e ∧
        ∃ key, unwrapDataKey root row = some key ∧
          ∃ p, key.unseal e r.aad = .ok p ∧ w.plain i r.id = some p) ∧
    (∀ i id p, w.plain i id = some p → ∃ r e, w.db.Row i r ∧ r.id = id ∧ r.ciphertext = some e) ∧
    (∀ id ∈ w.db.frames, ∃ key ∈ w.db.registry, key.id = id) ∧
    (w.db.state.phase = .ready → ∀ i r e, w.db.Row i r → r.ciphertext = some e →
      Envelope.dataKeyID e = w.db.state.activeID) ∧
    (∀ sv now, w.service = some sv → sv.unhealthy = false → w.db.state.phase = .rotating →
      ∃ db', w.db.migrateBatch sv.ring now = .ok db') ∧ (∃ n, ∀ clocks : List Int, clocks.length = n → ∃ t sv,
      runFn (secretsNext fingerprint root) w (.crash :: .load :: clocks.map .batch ++ [.finish]) = some t ∧
        t.service = some sv ∧ sv.serving = true ∧ sv.unhealthy = false ∧ t.db.state.phase = .ready) := by
  have hinv : SecretsOk fingerprint root w ∧ Loadable w.db :=
    h.inv (I := fun w => SecretsOk fingerprint root w ∧ Loadable w.db) ⟨hstart.ok, hstart.loadable⟩
      fun _ _ _ hi hs => (secretsOk_step hi.1 hs.1).imp_right fun h => h hs.2 hi.2
  obtain ⟨hok, hl⟩ := hinv
  obtain ⟨a, ha, hast, haid, hagen⟩ := hok.data.registry.active
  refine ⟨⟨length_pos_of_mem ha, hok.data.registry.length, a, ha, hast, haid, hagen, ?_⟩, ?_, ?_,
    hok.data.frames, ?_, ?_, ?_⟩
  · intro key hk hst
    exact hok.data.registry.keyed.eq_of_key hk ha ((hok.data.registry.one key hk hst).trans haid.symm)
  · intro i r e hr hc
    obtain ⟨haad, hv, -, row, hrow, hkey⟩ := (hok.data.secrets i r hr).secret e hc
    refine ⟨row, hrow, ?_, row.dataKey, hok.data.registry.opens row hrow, e.plain,
      DataKey.unseal_of hv hkey haad, (hok.plain i r.id e.plain).mpr ⟨r, e, hr, rfl, hc, rfl⟩⟩
    unfold Envelope.dataKeyID
    rw [hkey]
    rfl
  · intro i id p hp
    obtain ⟨r, e, hr, hid, hc, -⟩ := (hok.plain i id p).mp hp
    exact ⟨r, e, hr, hid, hc⟩
  · intro hready i r e hr hc
    exact hok.data.passed i r hr (.inl hready) e hc
  · intro sv now hsv hhealthy hrot
    exact hok.migrateBatch hl.rows ((hok.service sv hsv).rings hhealthy).1 hrot now
  · obtain ⟨n, hn⟩ := resumes hok.none hl rfl
    exact ⟨n, fun clocks hlen => hn clocks hlen⟩

/-! ## Runs that lock the secrets -/

def sampleAAD : ResourceAAD := { namesp := "ssh_key", rowID := "a", field := "private_key" }

/-- `DiagnosticHopAAD`. -/
def hopAAD : ResourceAAD :=
  { namesp := "diagnostic_hop", rowID := "job", field := "identity", revision := "1", payloadVersion := "v1" }

def sampleUuid : Uuid := ⟨"00000000-0000-4000-8000-000000000001", by decide +kernel⟩

/-- One key, activated at this time, and one secret. The second table is that of the hops. -/
def sampleSecrets (activated : Int) : SecretsWorld where
  db :=
    { state := { phase := .ready, generation := 1, rootGeneration := 1, rootFingerprint := 7
                 activeID := ⟨1, by decide⟩ }
      registry := [{ id := ⟨1, by decide⟩, wrapped := ⟨7, (⟨1, by decide⟩, 1), 3⟩, generation := 1
                     state := .active, createdAt := activated, activatedAt := activated }]
      sources := [⟨[{ id := "a", aad := sampleAAD, required := true
                      ciphertext := some ⟨⟨⟨1, by decide⟩, 3⟩, sampleAAD, [65]⟩ }], pairwise_singleton _ _⟩, ⟨[], .nil⟩] }
  plain source id := if source = 0 ∧ id = "a" then some [65] else none

theorem sampleSecrets_row {activated : Int} (h : (sampleSecrets activated).db.Row i r) :
    i = 0 ∧ r = ⟨"a", sampleAAD, some ⟨⟨⟨1, by decide⟩, 3⟩, sampleAAD, [65]⟩, true, .blob⟩ := by
  obtain ⟨t, ht, hr⟩ := h
  obtain ⟨hi, rfl⟩ := List.getElem?_eq_some_iff.mp ht
  match i with
  | 0 => exact ⟨rfl, List.mem_singleton.mp hr⟩
  | 1 => cases hr

theorem sampleSecrets_registryOk (activated : Int) : RegistryOk 7 (sampleSecrets activated).db where
  keyed := pairwise_singleton _ _
  length := Nat.le_of_ble_eq_true rfl
  opens key hk := by
    obtain rfl := mem_singleton.mp hk
    rfl
  generations key hk := by
    obtain rfl := mem_singleton.mp hk
    exact le_refl _
  active := ⟨_, mem_cons_self, rfl, rfl, rfl⟩
  one key hk _ := by
    obtain rfl := mem_singleton.mp hk
    rfl

theorem sampleSecrets_dataOk (activated : Int) : DataOk id 7 (sampleSecrets activated).db where
  registry := sampleSecrets_registryOk activated
  secrets i r hr := by
    obtain ⟨-, rfl⟩ := sampleSecrets_row hr
    refine ⟨fun _ => rfl, fun e he => ?_⟩
    cases he
    exact ⟨rfl, by decide +kernel, by decide +kernel, _, mem_cons_self, rfl⟩
  frames _ hid := nomatch hid
  recorded := rfl
  rootGeneration := le_refl _
  rotation := .inl (le_refl _)
  notifications := rfl
  phase := .inl rfl
  passed i r hr _ e he := by
    obtain ⟨-, rfl⟩ := sampleSecrets_row hr
    cases he
    rfl

theorem sampleSecrets_remembers (activated : Int) :
    Remembers (sampleSecrets activated).db (sampleSecrets activated).plain := by
  intro i id p
  constructor
  · intro hp
    simp only [sampleSecrets, Option.ite_none_right_eq_some, Option.some.injEq] at hp
    obtain ⟨⟨rfl, rfl⟩, rfl⟩ := hp
    exact ⟨_, _, ⟨_, rfl, mem_cons_self⟩, rfl, rfl, rfl⟩
  · rintro ⟨r, e, hr, rfl, he, rfl⟩
    obtain ⟨rfl, rfl⟩ := sampleSecrets_row hr
    cases he
    rfl

theorem sampleSecrets_loadable {activated : Int} (h : 0 < activated) :
    Loadable (sampleSecrets activated).db where
  times key hk := by
    obtain rfl := mem_singleton.mp hk
    exact ⟨h, le_refl _⟩
  active key hk _ := by
    obtain rfl := mem_singleton.mp hk
    rfl
  retire key hk retire hret := by
    obtain rfl := mem_singleton.mp hk
    cases hret
  closed _ key hk hst := by
    obtain rfl := mem_singleton.mp hk
    cases hst
  rows i r hr := by
    obtain ⟨-, rfl⟩ := sampleSecrets_row hr
    exact ⟨by decide, .inr rfl⟩

theorem sampleSecrets_start {activated : Int} (h : 0 < activated) :
    SecretsStart id 7 (sampleSecrets activated) where
  ok := ⟨sampleSecrets_dataOk activated, sampleSecrets_remembers activated, fun _ hsv => nomatch hsv⟩
  loadable := sampleSecrets_loadable h
  stopped := rfl

/-- A write, a rotation that a crash interrupts after its first batch, and the start after the crash. -/
def carefulRotation : List SecretsEvent :=
  [.load, .finish, .withWrite [.put 0 "b" { sampleAAD with rowID := "b" } true .blob [66]],
    .startRotation 2000 ⟨⟨2, by decide⟩, 4⟩ sampleUuid true, .batch 2000, .crash, .load, .batch 2001]

theorem secretsOk_run_sample : ∃ w, Run (SecretsStep id 7) (sampleSecrets 1000) carefulRotation w ∧
    w.db.registry.length = 2 ∧ w.db.state.phase = .rotating ∧ SecretsOk id 7 w := by
  obtain ⟨w, hr, hlen, hphase⟩ : ∃ w, Run (SecretsStep id 7) (sampleSecrets 1000) carefulRotation w ∧
      w.db.registry.length = 2 ∧ w.db.state.phase = .rotating :=
    Run.computed (secretsNext id 7) (fun _ _ _ h => h) (by decide +kernel)
  exact ⟨w, hr, hlen, hphase, secretsOk_run (sampleSecrets_start (by decide)).ok hr⟩

theorem data_rotation_strands_nothing_sample :
    ∃ w, Run (CarefulSecretsStep id 7) (sampleSecrets 1000) carefulRotation w ∧
      w.db.registry.length = 2 ∧ w.db.state.phase = .rotating ∧ w.plain 0 "b" = some [66] ∧
      ∃ n, ∀ clocks : List Int, clocks.length = n → ∃ t sv,
        runFn (secretsNext id 7) w (.crash :: .load :: clocks.map .batch ++ [.finish]) = some t ∧
          t.service = some sv ∧ sv.serving = true ∧ sv.unhealthy = false ∧ t.db.state.phase = .ready := by
  obtain ⟨w, hr, hlen, hphase, hplain⟩ : ∃ w, Run (CarefulSecretsStep id 7) (sampleSecrets 1000) carefulRotation w ∧
      w.db.registry.length = 2 ∧ w.db.state.phase = .rotating ∧ w.plain 0 "b" = some [66] :=
    Run.computed (fun w e => if CarefulSecrets w e then secretsNext id 7 w e else none)
      (fun _ _ _ h => (Option.ite_none_right_eq_some.mp h).symm) (by decide +kernel)
  obtain ⟨-, -, -, -, -, -, hresumes⟩ :=
    data_rotation_strands_nothing (sampleSecrets_start (by decide)) hr
  exact ⟨w, hr, hlen, hphase, hplain, hresumes⟩

/-- Only the end of the migration reads the clock. -/
theorem migrateBatch_clock (h : db.state.cursorSource ≠ db.sources.length) (now now' : Int) :
    db.migrateBatch ring now = db.migrateBatch ring now' := by
  unfold Database.migrateBatch
  cases hst : db.readState with
  | error e => rfl
  | ok state =>
    obtain ⟨rfl, -⟩ := readState_eq_ok.mp hst
    simp only [bind, Except.bind, if_neg h]

/-- No start comes to its end: it does not read the keyring, or the next batch fails. -/
structure Stranded (fingerprint : RootKey → Fingerprint) (root : RootKey) (w : SecretsWorld) : Prop where
  service : ∀ sv, w.service = some sv →
    sv.serving = false ∧ w.db.reload fingerprint root = .ok (sv.ring, sv.state)
  batches : ∀ ring state, w.db.reload fingerprint root = .ok (ring, state) → state.phase = .rotating ∧
    ∀ now, ∃ e, w.db.migrateBatch ring now = .error e

/-- Nothing happens to the database any more. -/
theorem Stranded.of_step {fingerprint : RootKey → Fingerprint} {root : RootKey} (h : Stranded fingerprint root w)
    (hs : SecretsStep fingerprint root w e w') :
    Stranded fingerprint root w' ∧ w'.db = w.db ∧ w'.plain = w.plain := by
  have hnone : Stranded fingerprint root { w with service := none } := ⟨fun _ hsv => (nomatch hsv), h.batches⟩
  have hstopped : ∀ sv, w.service = some sv → sv.stopped = none := fun sv hsv =>
    if_neg (by simp [(h.service sv hsv).1])
  cases e with
  | load =>
    obtain ⟨-, hs⟩ := Option.ite_none_right_eq_some.mp hs
    cases hs
    unfold SecretsWorld.load
    split
    · rename_i ring state hload
      refine ⟨⟨fun sv hsv => ?_, h.batches⟩, rfl, rfl⟩
      cases hsv
      exact ⟨rfl, hload⟩
    · exact ⟨h, rfl, rfl⟩
  | batch now =>
    simp only [SecretsStep, secretsNext] at hs
    split at hs
    · rename_i sv hsv
      obtain ⟨-, hs⟩ := Option.ite_none_right_eq_some.mp hs
      cases hs
      obtain ⟨err, herr⟩ := (h.batches _ _ (h.service sv hsv).2).2 now
      unfold SecretsWorld.batch
      rw [herr]
      dsimp only
      rw [hstopped sv hsv]
      exact ⟨hnone, rfl, rfl⟩
    · cases hs
  | finish =>
    simp only [SecretsStep, secretsNext] at hs
    split at hs
    · rename_i sv hsv
      simp [(h.batches _ _ (h.service sv hsv).2).1] at hs
    · cases hs
  | fault =>
    simp only [SecretsStep, secretsNext] at hs
    split at hs
    · rename_i sv hsv
      obtain ⟨-, hs⟩ := Option.ite_none_right_eq_some.mp hs
      cases hs
      rw [hstopped sv hsv]
      exact ⟨hnone, rfl, rfl⟩
    · cases hs
  | withWrite writes =>
    obtain ⟨sv, hsv, rfl⟩ := Option.map_eq_some_iff.mp hs
    unfold SecretsWorld.withWrite
    rw [if_neg (by simp [(h.service sv hsv).1])]
    exact ⟨h, rfl, rfl⟩
  | startRotation now key rotation reloads =>
    obtain ⟨sv, hsv, rfl⟩ := Option.map_eq_some_iff.mp hs
    unfold SecretsWorld.startRotation
    rw [if_pos (by simp [(h.service sv hsv).1])]
    exact ⟨h, rfl, rfl⟩
  | crash =>
    cases hs
    exact ⟨hnone, rfl, rfl⟩

theorem Stranded.of_run {fingerprint : RootKey → Fingerprint} {root : RootKey} {es : List SecretsEvent}
    (h : Stranded fingerprint root w) (hr : Run (SecretsStep fingerprint root) w es w') :
    Stranded fingerprint root w' ∧ w'.db = w.db ∧ w'.plain = w.plain :=
  hr.inv (I := fun w' => Stranded fingerprint root w' ∧ w'.db = w.db ∧ w'.plain = w.plain) ⟨h, rfl, rfl⟩
    fun _ _ _ hi hs => by
      obtain ⟨hw, hdb, hplain⟩ := hi.1.of_step hs
      exact ⟨hw, hdb.trans hi.2.1, hplain.trans hi.2.2⟩

/-- `Stranded` for a stopped service, as it is computed. -/
def SecretsWorld.stranded (fingerprint : RootKey → Fingerprint) (root : RootKey) (w : SecretsWorld) : Bool :=
  w.service.isNone &&
    match w.db.reload fingerprint root with
    | .error _ => true
    | .ok (ring, state) => state.phase = .rotating && w.db.state.cursorSource ≠ w.db.sources.length &&
        (w.db.migrateBatch ring 0).toOption.isNone

theorem Stranded.of_stranded {fingerprint : RootKey → Fingerprint} {root : RootKey}
    (h : w.stranded fingerprint root = true) : Stranded fingerprint root w := by
  unfold SecretsWorld.stranded at h
  obtain ⟨hnone, h⟩ := Bool.and_eq_true_iff.mp h
  refine ⟨fun sv hsv => ?_, fun ring state hload => ?_⟩
  · rw [hsv] at hnone
    cases hnone
  · rw [hload] at h
    simp only [Bool.and_eq_true, decide_eq_true_eq] at h
    refine ⟨h.1.1, fun now => ?_⟩
    rw [migrateBatch_clock h.1.2 now 0]
    cases hm : w.db.migrateBatch ring 0 with
    | error err => exact ⟨err, rfl⟩
    | ok db' =>
      rw [hm] at h
      exact nomatch h.2

/-- A rotation started at the epoch never ends: its key is refused at every start. A rotation that ends
eight days before the key that it closes was activated ends in phase `ready`, and no later start serves. A
rotation with the identity of a hop in the database never ends: the update of that row meets no row. -/
theorem data_rotation_locks_secrets : (∃ w, Run (SecretsStep id 7) (sampleSecrets 1000)
        [.load, .finish, .startRotation 0 ⟨⟨2, by decide⟩, 4⟩ sampleUuid true, .crash] w ∧
      ∀ es w', Run (SecretsStep id 7) w es w' →
        w'.db.state.phase = .rotating ∧ w'.service = none ∧ (w'.plain 0 "a").isSome) ∧
    (∃ w, Run (SecretsStep id 7) (sampleSecrets 700000)
        [.load, .finish, .startRotation 700001 ⟨⟨2, by decide⟩, 4⟩ sampleUuid true, .batch 700001,
          .batch 700001, .batch 700001, .batch 8800, .finish, .crash] w ∧ ∀ es w', Run (SecretsStep id 7) w es w' →
        w'.db.state.phase = .ready ∧ w'.service = none ∧ (w'.plain 0 "a").isSome) ∧
    ∃ w, Run (SecretsStep id 7) (sampleSecrets 1000)
        [.load, .finish, .withWrite [.put 1 "job#1" hopAAD false .text [66]],
          .startRotation 2000 ⟨⟨2, by decide⟩, 4⟩ sampleUuid true, .batch 2000, .batch 2000, .batch 2000, .crash] w ∧
      ∀ es w', Run (SecretsStep id 7) w es w' → w'.db.state.phase = .rotating ∧
        (∀ sv, w'.service = some sv → sv.serving = false) ∧ (w'.plain 0 "a").isSome := by
  have hlock : ∀ {t : Int} {es : List SecretsEvent} {phase : Phase},
      (runFn (secretsNext id 7) (sampleSecrets t) es).any (fun w => w.stranded id 7 = true ∧
        w.db.state.phase = phase ∧ (w.db.reload id 7).toOption.isNone ∧ (w.plain 0 "a").isSome) = true →
      ∃ w, Run (SecretsStep id 7) (sampleSecrets t) es w ∧ ∀ es' w', Run (SecretsStep id 7) w es' w' →
        w'.db.state.phase = phase ∧ w'.service = none ∧ (w'.plain 0 "a").isSome := by
    intro t es phase hrun
    obtain ⟨w, hw, hst, hphase, hreload, hplain⟩ := Run.computed _ (fun _ _ _ h => h) hrun
    refine ⟨w, hw, fun es' w' hr => ?_⟩
    obtain ⟨hst', hdb, hp⟩ := (Stranded.of_stranded hst).of_run hr
    refine ⟨hdb ▸ hphase, ?_, hp ▸ hplain⟩
    by_contra hsome
    obtain ⟨sv, hsv⟩ := Option.ne_none_iff_exists'.mp hsome
    rw [← hdb, (hst'.service sv hsv).2] at hreload
    cases hreload
  have hstuck : ∀ {t : Int} {es : List SecretsEvent} {phase : Phase},
      (runFn (secretsNext id 7) (sampleSecrets t) es).any (fun w => w.stranded id 7 = true ∧
        w.db.state.phase = phase ∧ (w.plain 0 "a").isSome) = true →
      ∃ w, Run (SecretsStep id 7) (sampleSecrets t) es w ∧ ∀ es' w', Run (SecretsStep id 7) w es' w' →
        w'.db.state.phase = phase ∧ (∀ sv, w'.service = some sv → sv.serving = false) ∧ (w'.plain 0 "a").isSome := by
    intro t es phase hrun
    obtain ⟨w, hw, hst, hphase, hplain⟩ := Run.computed _ (fun _ _ _ h => h) hrun
    refine ⟨w, hw, fun es' w' hr => ?_⟩
    obtain ⟨hst', hdb, hp⟩ := (Stranded.of_stranded hst).of_run hr
    exact ⟨hdb ▸ hphase, fun sv hsv => (hst'.service sv hsv).1, hp ▸ hplain⟩
  exact ⟨hlock (by decide +kernel), hlock (by decide +kernel), hstuck (by decide +kernel)⟩

end Beat.Secrets
