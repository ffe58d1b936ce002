import Beat.Secrets.RootRotation

/-!
# A root rotation survives crashes

`Shape` says for every place of `rotateRoot` and of a recovery what the disk holds there. Each durable
step leads from the shape of its place to that of the next (`rootOk_step`), and every shape is one of
the three layouts that a recovery can start from (`Layout`): no rotation directory; a directory that is
not yet or no longer the journal, where `admin-data.key` is the root of the database; the journal with
both roots, where the database tells which of them is. `recovery_finishes` takes a recovery from each
of the three to its end.
-/

namespace Beat.Secrets

open List Fallible Function Lts

variable {fingerprint : RootKey → Fingerprint}

/-! ## The registry under a new root -/

variable {old root : RootKey} {db' db : Database} {r : Rotator} {kind : RotationKind} {name : String}
  {d d' : RotationDirectory} {data : FileContent} {v : RootDisk} {generation : Nat} {place : Place}
  {w w' : RootWorld}

theorem rewrapKey_eq_ok {next : RootKey} {key key' : RegistryKey} (h : rewrapKey old next key = .ok key') :
    ∃ cipher, unwrapDataKey old key = some cipher ∧ unwrapDataKey next key' = some cipher ∧
      key' = { key with wrapped := ⟨next, (key.id, key.generation), key.wrapped.plain⟩ } := by
  unfold rewrapKey at h
  split at h
  · rename_i wrapped hw
    obtain ⟨cipher, hold, hnew⟩ := Option.bind_eq_some_iff.mp hw
    obtain ⟨hgen, hwrapped, hid⟩ := unwrapDataKey_eq_some.mp hold
    simp only [wrapDataKey, show ¬ key.generation < 1 by omega, if_false, Option.some.injEq] at hnew
    cases h
    subst hnew
    refine ⟨cipher, hold, unwrapDataKey_eq_some.mpr ⟨hgen, by rw [hid], hid⟩, ?_⟩
    rw [hid, hwrapped]
  · cases h

/-- All of a row of the registry but the root of its key. -/
def RegistryKey.content (key : RegistryKey) : KeyId × BitVec 256 × Nat × KeyState × Int × Int × Option Int :=
  (key.id, key.wrapped.plain, key.generation, key.state, key.createdAt, key.activatedAt, key.retireAfter)

/-- What the transaction of `rewrap` does. -/
structure Rewrapped (fingerprint : RootKey → Fingerprint) (r : Rotator) (db db' : Database) : Prop where
  keys : ∃ keys, List.Forall₂ (fun key key' => rewrapKey r.old r.next key = .ok key') db.readRegistry keys ∧
    db' = { db with
      registry := keys ++ db.registry.drop (maximumDataKeys + 1)
      state := { db.state with
        rootFingerprint := fingerprint r.next
        rootGeneration := r.generation + 1 } }
  generation : db.state.rootGeneration = r.generation

theorem rewrap_eq_ok (h : db.rewrap fingerprint r = .ok db') : Rewrapped fingerprint r db db' := by
  obtain ⟨keys, hkeys, h⟩ := bind_eq_ok h
  split at h
  · rename_i hstate
    exact ⟨⟨keys, mapM_eq_ok.mp hkeys, (Except.ok.inj h).symm⟩, hstate.2.1⟩
  · cases h

theorem Rewrapped.state (h : Rewrapped fingerprint r db db') :
    db'.state.rootFingerprint = fingerprint r.next ∧ db'.state.rootGeneration = r.generation + 1 := by
  obtain ⟨keys, -, rfl⟩ := h.keys
  exact ⟨rfl, rfl⟩

/-- The keys stay as they are; only their root is new. -/
theorem Rewrapped.content (h : Rewrapped fingerprint r db db') :
    db'.registry.map RegistryKey.content = db.registry.map RegistryKey.content := by
  obtain ⟨keys, hkeys, rfl⟩ := h.keys
  have hmap : keys.map RegistryKey.content = db.readRegistry.map RegistryKey.content :=
    map_eq_of_forall₂ hkeys fun key key' hk => by
      obtain ⟨-, -, -, rfl⟩ := rewrapKey_eq_ok hk
      rfl
  rw [map_append, hmap, ← map_append]
  unfold Database.readRegistry
  rw [take_append_drop]

/-- The new root opens what the old one opened: the keyring is the same. -/
theorem Loads.rewrap {ring : Keyring} (hl : Loads fingerprint db r.old ring)
    (h : Rewrapped fingerprint r db db') : Loads fingerprint db' r.next ring ∧
      ∀ key ∈ db'.registry, (unwrapDataKey r.next key).isSome := by
  obtain ⟨keys, hkeys, rfl⟩ := h.keys
  have hlen := hkeys.length_eq
  have hread : db.registry.drop (maximumDataKeys + 1) = [] := by
    have := hl.length
    rw [hl.readRegistry_eq] at this
    exact drop_eq_nil_of_le (by omega)
  have hread' : ∀ st, ({ db with registry := keys ++ [], state := st } : Database).readRegistry = keys := by
    intro st
    have := hl.length
    change (keys ++ []).take _ = keys
    rw [append_nil]
    exact take_of_length_le (by omega)
  rw [hread]
  refine ⟨?_, ?_⟩
  · refine ⟨?_, ?_, rfl, Nat.le_add_left .., hl.active, ?_, ?_, hl.found⟩
    · rw [hread', ← hlen]; exact hl.nonempty
    · rw [hread', ← hlen]; exact hl.length
    · rw [hread']
      refine forall₂_iff_get.mpr ⟨hlen.symm.trans hl.ciphers.length_eq, fun i h1 h2 => ?_⟩
      have hi : i < db.readRegistry.length := by omega
      have hk := hkeys.get hi h1
      obtain ⟨hvalid, hopen⟩ := loadKey_eq_ok.mp (hl.ciphers.get hi h2)
      obtain ⟨cipher, hold, hnew, hkey⟩ := rewrapKey_eq_ok hk
      rw [hold] at hopen
      cases hopen
      refine loadKey_eq_ok.mpr ⟨?_, hnew⟩
      rw [hkey]
      exact hvalid
    · rw [hread', ← hl.oneActive]
      have hstates : keys.map (·.state) = db.readRegistry.map (·.state) :=
        map_eq_of_forall₂ hkeys fun key key' hk => by
          obtain ⟨-, -, -, rfl⟩ := rewrapKey_eq_ok hk
          rfl
      have hcount : ∀ l : List RegistryKey, l.countP (fun key => key.state = .active) =
          (l.map (·.state)).countP (· = .active) := fun l => by
        rw [countP_map]
        rfl
      rw [hcount, hcount, hstates]
  · intro key hkey
    rw [append_nil] at hkey
    obtain ⟨i, hi, rfl⟩ := getElem_of_mem hkey
    obtain ⟨cipher, -, hnew, -⟩ := rewrapKey_eq_ok (hkeys.get (hlen ▸ hi) hi)
    exact Option.isSome_iff_exists.mpr ⟨cipher, hnew⟩

theorem ValidWith.rewrap (hv : ValidWith fingerprint db r.old) (h : Rewrapped fingerprint r db db') :
    ValidWith fingerprint db' r.next ∧ ∀ key ∈ db'.registry, (unwrapDataKey r.next key).isSome := by
  obtain ⟨ring, refs, hl, hrefs⟩ := hv.resources
  obtain ⟨hl', hopen⟩ := hl.rewrap h
  obtain ⟨keys, hkeys, rfl⟩ := h.keys
  exact ⟨⟨hv.rotation, hv.phase, hv.cursorID, hv.cursorSource, hv.notifications, ring, refs, hl', hrefs⟩, hopen⟩

/-! ## What the disk holds -/

/-- The directory of this kind, and no other. -/
def only (kind : RotationKind) (d : RotationDirectory) : RotationDirectories :=
  update (fun _ => none) kind (some d)

@[simp] theorem only_self (kind : RotationKind) (d : RotationDirectory) : only kind d kind = some d :=
  update_self ..

theorem only_of_ne {k : RotationKind} (h : k ≠ kind) (d : RotationDirectory) : only kind d k = none :=
  update_of_ne h ..

@[simp] theorem update_only (kind : RotationKind) (d d' : RotationDirectory) :
    update (only kind d) kind (some d') = only kind d' := update_idem ..

@[simp] theorem update_only_none (kind : RotationKind) (d : RotationDirectory) :
    update (only kind d) kind none = fun _ => none := by
  unfold only
  rw [update_idem, update_eq_self_iff]

theorem renameDirectory_only {source target : RotationKind} (h : source ≠ target)
    (d : RotationDirectory) : renameDirectory (only source d) source target = .ok (only target d) := by
  unfold renameDirectory
  rw [only_self, only_of_ne h.symm, update_only_none]
  rfl

theorem rootRotationMarker_only (kind : RotationKind) (d : RotationDirectory) :
    rootRotationMarker (only kind d) = .ok (some kind) := by
  cases kind <;> rfl

variable (fingerprint)

/-- `root` is the one that the database records, and opens every key of the registry. -/
structure Current (v : RootDisk) (root : RootKey) : Prop where
  recorded : v.db.state.rootFingerprint = fingerprint root
  committed : v.roots v.db.state.rootGeneration = some root
  wraps : ∀ key ∈ v.db.registry, (unwrapDataKey root key).isSome

/-- `admin-data.key` is the root of the database. -/
structure Published (v : RootDisk) (root : RootKey) : Prop where
  current : Current fingerprint v root
  admin : v.admin = some root

/-- The names that `removeRotationFile` removes. -/
def Removable (name : String) : Prop :=
  name = "old.key" ∨ name = "next.key" ∨ name = "journal.json" ∨
    ".beat-secret-".toList.isPrefixOf name.toList

structure Clearable (d : RotationDirectory) : Prop where
  nodup : d.names.Nodup
  names : ∀ name ∈ d.names, Removable name

/-- A rotation that has no journal yet, or no longer one. -/
structure Loose (v : RootDisk) (kind : RotationKind) (d : RotationDirectory) (root : RootKey) :
    Prop extends Published fingerprint v root where
  valid : ValidWith fingerprint v.db root
  dirs : v.dirs = only kind d
  clearable : Clearable d

/-- What the journal's directory holds. -/
structure Held (r : Rotator) (d : RotationDirectory) : Prop where
  old : d.file "old.key" = some (.key r.old)
  next : d.file "next.key" = some (.key r.next)
  journal : d.file "journal.json" = some (.journal (r.journal fingerprint))
  differ : fingerprint r.old ≠ fingerprint r.next
  generation : 1 ≤ r.generation
  clearable : Clearable d

/-- A rotation with a journal. The database is under the old root or under the new one. -/
structure Journaled (v : RootDisk) (r : Rotator) (d : RotationDirectory) (root : RootKey) : Prop where
  current : Current fingerprint v root
  valid : ValidWith fingerprint v.db root
  dirs : v.dirs = only .journal d
  held : Held fingerprint r d
  side : (root = r.old ∧ v.db.state.rootGeneration = r.generation ∧ v.admin = some r.old) ∨
    (root = r.next ∧ v.db.state.rootGeneration = r.generation + 1 ∧
      (v.admin = some r.old ∨ v.admin = some r.next))

/-- What a recovery can start from. -/
inductive Layout (v : RootDisk) : Prop
  | settled (root : RootKey) (published : Published fingerprint v root) (dirs : v.dirs = fun _ => none)
  | loose (kind : RotationKind) (hk : kind ≠ .journal) (d : RotationDirectory) (root : RootKey)
      (h : Loose fingerprint v kind d root)
  | journaled (r : Rotator) (d : RotationDirectory) (root : RootKey)
      (h : Journaled fingerprint v r d root)

/-- `prepare` under way: the directory holds these files. -/
structure Preparing (v : RootDisk) (old : RootKey) (generation : Nat) (d : RotationDirectory) :
    Prop extends Published fingerprint v old where
  valid : ValidWith fingerprint v.db old
  generation : v.db.state.rootGeneration = generation
  dirs : v.dirs = only .prepare d

/-- A name that `CreateTemp` makes. -/
def Temp (name : String) : Prop := ∃ suffix, name = ".beat-secret-" ++ suffix

/-- The files of `prepare` once both roots are saved. -/
def Rotator.roots (r : Rotator) : RotationDirectory := [("old.key", .key r.old), ("next.key", .key r.next)]

/-- What the disk holds at each place. -/
def Shape (v : RootDisk) : Option Place → Prop
  | none | some (.entered _) => Layout fingerprint v
  | some (.makeDirectory old generation) =>
    Published fingerprint v old ∧ ValidWith fingerprint v.db old ∧
      v.db.state.rootGeneration = generation ∧ v.dirs = fun _ => none
  | some (.saveOld old generation) => Preparing fingerprint v old generation []
  | some (.renameOld old generation temp) =>
    Temp temp ∧ Preparing fingerprint v old generation [(temp, .key old)]
  | some (.saveNext old generation) => Preparing fingerprint v old generation [("old.key", .key old)]
  | some (.renameNext r temp) =>
    Temp temp ∧ fingerprint r.old ≠ fingerprint r.next ∧
      Preparing fingerprint v r.old r.generation [("old.key", .key r.old), (temp, .key r.next)]
  | some (.saveJournal r) =>
    fingerprint r.old ≠ fingerprint r.next ∧ Preparing fingerprint v r.old r.generation r.roots
  | some (.renameJournal r temp) =>
    Temp temp ∧ fingerprint r.old ≠ fingerprint r.next ∧
      Preparing fingerprint v r.old r.generation (r.roots ++ [(temp, .journal (r.journal fingerprint))])
  | some (.publishJournal r) =>
    fingerprint r.old ≠ fingerprint r.next ∧
      Preparing fingerprint v r.old r.generation
        (r.roots ++ [("journal.json", .journal (r.journal fingerprint))])
  | some (.rewrap r) => ∃ d, Journaled fingerprint v r d r.old
  | some .publishNext => ∃ r d, Journaled fingerprint v r d r.next
  | some .validateSnapshot => ∃ r d, Journaled fingerprint v r d r.next ∧ v.admin = some r.next
  | some (.publishRoot name) =>
    ∃ r d root, Journaled fingerprint v r d root ∧ d.file name = some (.key root)
  | some .finish => ∃ r d root, Journaled fingerprint v r d root ∧ v.admin = some root
  | some (.remove kind names) =>
    ∃ d root, kind ≠ .journal ∧ Loose fingerprint v kind d root ∧ names.Perm d.names

def RootOk (w : RootWorld) : Prop := Shape fingerprint w.toRootDisk w.place

variable {fingerprint} {names : List String} {e : RootEvent} {P : RootWorld → Prop}

/-! ## Directories -/

theorem Temp.ne (h : Temp name) : name ≠ "old.key" ∧ name ≠ "next.key" ∧ name ≠ "journal.json" := by
  obtain ⟨suffix, rfl⟩ := h
  refine ⟨?_, ?_, ?_⟩ <;>
  · intro h
    have := congrArg String.toList h
    simp at this

theorem Temp.removable (h : Temp name) : Removable name := by
  obtain ⟨suffix, rfl⟩ := h
  refine .inr (.inr (.inr ?_))
  rw [String.toList_append, isPrefixOf_iff_prefix]
  exact prefix_append ..

theorem createTemp_eq_ok (h : d.createTemp name data = .ok d') : d' = d ++ [(name, data)] := by
  unfold RotationDirectory.createTemp at h
  split at h
  · cases h
  · exact (Except.ok.inj h).symm

theorem rename_eq_ok {source target : String} (hf : d.file source = some data)
    (h : d.rename source target = .ok d') : d' = d.remove source ++ [(target, data)] := by
  unfold RotationDirectory.rename at h
  rw [hf] at h
  dsimp only at h
  split at h
  · cases h
  · exact (Except.ok.inj h).symm

theorem clearable_nil : Clearable [] := ⟨nodup_nil, fun _ h => nomatch h⟩

theorem Clearable.remove (h : Clearable d) (name : String) : Clearable (d.remove name) := by
  have hsub : (d.remove name).names.Sublist d.names := List.Sublist.map _ filter_sublist
  exact ⟨h.nodup.sublist hsub, fun n hn => h.names n (hsub.subset hn)⟩

theorem Clearable.append (h : Clearable d) (hn : name ∉ d.names) (hr : Removable name) :
    Clearable (d ++ [(name, data)]) := by
  constructor
  · simp only [RotationDirectory.names, map_append, map_cons, map_nil]
    exact nodup_append.mpr ⟨h.nodup, nodup_singleton _, fun a ha b hb hab => by
      obtain rfl := mem_singleton.mp hb
      exact hn (hab ▸ ha)⟩
  · intro n hmem
    simp only [RotationDirectory.names, map_append, map_cons, map_nil, mem_append, mem_singleton] at hmem
    rcases hmem with hmem | rfl
    · exact h.names n hmem
    · exact hr

theorem clearable_old (root : RootKey) : Clearable [("old.key", .key root)] :=
  clearable_nil.append (nomatch ·) (.inl rfl)

theorem Rotator.clearable_roots (r : Rotator) : Clearable r.roots :=
  (clearable_old r.old).append (by simp [RotationDirectory.names]) (.inr (.inl rfl))

theorem Clearable.append_temp (h : Clearable d) {temp : String} (ht : Temp temp)
    (hd : ∀ name ∈ d.names, name = "old.key" ∨ name = "next.key" ∨ name = "journal.json") :
    Clearable (d ++ [(temp, data)]) := by
  refine h.append (fun hmem => ?_) ht.removable
  obtain ⟨hold, hnext, hjournal⟩ := ht.ne
  rcases hd temp hmem with h | h | h
  · exact hold h
  · exact hnext h
  · exact hjournal h

/-! ## Every shape is a layout -/

theorem Preparing.layout (h : Preparing fingerprint v old generation d) (hc : Clearable d) : Layout fingerprint v :=
  .loose .prepare (by decide) d old ⟨h.toPublished, h.valid, h.dirs, hc⟩

/-- The files of `prepare` at a place, if the program is filling it. -/
def Place.prepared (fingerprint : RootKey → Fingerprint) : Place → Option RotationDirectory
  | .saveOld _ _ => some []
  | .renameOld old _ temp => some [(temp, .key old)]
  | .saveNext old _ => some [("old.key", .key old)]
  | .renameNext r temp => some [("old.key", .key r.old), (temp, .key r.next)]
  | .saveJournal r => some r.roots
  | .renameJournal r temp => some (r.roots ++ [(temp, .journal (r.journal fingerprint))])
  | .publishJournal r => some (r.roots ++ [("journal.json", .journal (r.journal fingerprint))])
  | _ => none

theorem Shape.preparing (h : Shape fingerprint v (some place)) (hp : place.prepared fingerprint = some d) :
    ∃ old generation, Preparing fingerprint v old generation d ∧ Clearable d := by
  cases place <;> cases hp
  case saveOld old generation => exact ⟨_, _, h, clearable_nil⟩
  case renameOld old generation temp =>
    exact ⟨_, _, h.2, clearable_nil.append_temp h.1 (fun _ hn => nomatch hn)⟩
  case saveNext old generation => exact ⟨_, _, h, clearable_old old⟩
  case renameNext r temp =>
    exact ⟨_, _, h.2.2, (clearable_old r.old).append_temp h.1 fun n hn =>
      .inl (mem_singleton.mp hn)⟩
  case saveJournal r => exact ⟨_, _, h.2, r.clearable_roots⟩
  case renameJournal r temp =>
    refine ⟨_, _, h.2.2, r.clearable_roots.append_temp h.1 fun n hn => ?_⟩
    rcases mem_pair.mp hn with h | h
    · exact .inl h
    · exact .inr (.inl h)
  case publishJournal r =>
    exact ⟨_, _, h.2, r.clearable_roots.append (by simp [RotationDirectory.names, Rotator.roots])
      (.inr (.inr (.inl rfl)))⟩

theorem Shape.layout {place : Option Place} (h : Shape fingerprint v place) : Layout fingerprint v := by
  cases place with
  | none => exact h
  | some place =>
    cases hp : place.prepared fingerprint with
    | some d =>
      obtain ⟨_, _, hprep, hc⟩ := h.preparing hp
      exact hprep.layout hc
    | none =>
      cases place with
      | saveOld | renameOld | saveNext | renameNext | saveJournal | renameJournal | publishJournal =>
        cases hp
      | entered => exact h
      | makeDirectory => exact .settled _ h.1 h.2.2.2
      | rewrap => obtain ⟨_, h⟩ := h; exact .journaled _ _ _ h
      | publishNext => obtain ⟨_, _, h⟩ := h; exact .journaled _ _ _ h
      | validateSnapshot => obtain ⟨_, _, h, -⟩ := h; exact .journaled _ _ _ h
      | publishRoot => obtain ⟨_, _, _, h, -⟩ := h; exact .journaled _ _ _ h
      | finish => obtain ⟨_, _, _, h, -⟩ := h; exact .journaled _ _ _ h
      | remove => obtain ⟨_, _, hk, h, -⟩ := h; exact .loose _ hk _ _ h

/-! ## One step -/

theorem rootOk_proceed {α : Type} {x : Except RotationError α} {f : α → RootWorld}
    (h : Layout fingerprint w.toRootDisk) (hf : ∀ a, x = .ok a → RootOk fingerprint (f a)) :
    RootOk fingerprint (w.proceed x f) := by
  cases x with
  | ok a => exact hf a rfl
  | error e => exact h

theorem Preparing.setDir (h : Preparing fingerprint w.toRootDisk old generation d) (d' : RotationDirectory) :
    Preparing fingerprint (w.setDir .prepare (some d')).toRootDisk old generation d' :=
  ⟨⟨⟨h.current.recorded, h.current.committed, h.current.wraps⟩, h.admin⟩, h.valid, h.generation, by
    change update w.dirs .prepare (some d') = _
    rw [h.dirs, update_only]⟩

/-- A step in `prepare` that leads to the files of the next place. -/
theorem rootOk_inPrepare {f : RotationDirectory → Except RotationError RotationDirectory} {next : Place}
    (h : Preparing fingerprint w.toRootDisk old generation d) (hl : Layout fingerprint w.toRootDisk)
    (hn : ∀ d' v, f d = .ok d' → Preparing fingerprint v old generation d' →
      Shape fingerprint v (some next)) : RootOk fingerprint (w.inPrepare f next) := by
  refine rootOk_proceed hl fun d' hd' => ?_
  have hdir : w.dirs .prepare = some d := by rw [h.dirs, only_self]
  rw [hdir] at hd'
  exact hn d' _ hd' (h.setDir d')

theorem validAdmin_eq_ok (h : w.validAdmin fingerprint = .ok root) :
    w.admin = some root ∧ ValidWith fingerprint w.db root := by
  unfold RootWorld.validAdmin at h
  split at h
  · cases h
  rename_i admin hadmin
  obtain ⟨st, hst, rfl⟩ := map_eq_ok h
  refine ⟨hadmin, ?_⟩
  cases hv : w.db.validateWithRoot fingerprint admin with
  | error e => rw [hv] at hst; cases hst
  | ok state => exact (validateWithRoot_eq_ok.mp hv).2

/-- `admin-data.key` passes where it is the root of the database. -/
theorem validAdmin_of (ha : w.admin = some root) (hv : ValidWith fingerprint w.db root) :
    w.validAdmin fingerprint = .ok root := by
  unfold RootWorld.validAdmin asRotation
  rw [ha]
  dsimp only
  rw [validateWithRoot_eq_ok.mpr ⟨rfl, hv⟩]
  rfl

theorem Held.choose (h : Journaled fingerprint v r d root) :
    ∃ name, RootWorld.chooseRoot v.db.state (r.journal fingerprint) = .ok (name, fingerprint root) ∧
      d.file name = some (.key root) := by
  unfold RootWorld.chooseRoot
  have hfp := h.current.recorded
  rcases h.side with ⟨rfl, hgen, -⟩ | ⟨rfl, hgen, -⟩
  · exact ⟨"old.key", if_pos ⟨hgen, hfp⟩, h.held.old⟩
  · refine ⟨"next.key", ?_, h.held.next⟩
    rw [if_neg (fun hc => by simp only [Rotator.journal] at hc; omega)]
    exact if_pos ⟨hgen, hfp⟩

/-- A recovery that finds a journal always finds the root to publish. -/
theorem recoverPublishedJournal_of (h : Journaled fingerprint w.toRootDisk r d root) :
    ∃ name, w.recoverPublishedJournal fingerprint d = .ok name ∧ d.file name = some (.key root) := by
  obtain ⟨name, hchoose, hfile⟩ := Held.choose h
  refine ⟨name, ?_, hfile⟩
  have hjournal : d.readRootJournal = .ok (r.journal fingerprint) := by
    unfold RotationDirectory.readRootJournal
    rw [h.held.journal]
    have := h.held.generation
    refine if_neg ?_
    simp only [Rotator.journal, ne_eq, not_true_eq_false, false_or, not_or, not_lt]
    exact ⟨this, h.held.differ⟩
  have hstate : asRotation w.db.readState = .ok w.db.state := by
    rw [readState_eq_ok.mpr ⟨rfl, h.valid.rotation⟩]
    rfl
  have hroot : d.readRootKey name = .ok root := by
    unfold RotationDirectory.readRootKey
    rw [hfile]
  have hvalid : asRotation (w.db.validateWithRoot fingerprint root) = .ok w.db.state := by
    rw [validateWithRoot_eq_ok.mpr ⟨rfl, h.valid⟩]
    rfl
  have hverify : w.verifyCurrentRoot fingerprint (r.journal fingerprint) = .ok () := by
    unfold RootWorld.verifyCurrentRoot
    have hadmin : w.admin = some r.old ∨ w.admin = some r.next := by
      rcases h.side with ⟨-, -, h⟩ | ⟨-, -, h⟩
      · exact .inl h
      · exact h
    rcases hadmin with ha | ha <;> rw [ha] <;> exact if_neg (by simp [Rotator.journal])
  unfold RootWorld.recoverPublishedJournal
  simp only [hjournal, hstate, hchoose, hroot, hvalid, hverify, bind, Except.bind, ne_eq,
    not_true_eq_false, if_false]

theorem file_removable (hd : Clearable d) (hn : name ∈ d.names) :
    d.removeRotationFile name = .ok (d.remove name) := by
  unfold RotationDirectory.removeRotationFile
  rw [if_neg, if_pos hn]
  rintro ⟨h1, h2, h3, h4⟩
  rcases hd.names name hn with h | h | h | h
  · exact h1 h
  · exact h2 h
  · exact h3 h
  · exact h4 h

theorem readDir_perm (d : RotationDirectory) : d.readDir.Perm d.names := perm_insertionSort _ _

theorem enter_only {program : Program} (hd : w.dirs = only kind d)
    (hp : ¬ (program = .rotateRoot ∧ w.restorePending = true)) :
    w.enter fingerprint program = w.recoverRootJournal fingerprint kind d := by
  unfold RootWorld.enter
  rw [if_neg hp, hd, rootRotationMarker_only]
  simp only [RootWorld.proceed, Option.bind_some, only_self, Option.map_some]

/-- A recovery next to the journal: the root to publish is found. -/
theorem recoverRootJournal_journaled (h : Journaled fingerprint w.toRootDisk r d root) :
    ∃ name, w.recoverRootJournal fingerprint .journal d = w.goto (.publishRoot name) ∧
      d.file name = some (.key root) := by
  obtain ⟨name, hname, hfile⟩ := recoverPublishedJournal_of h
  refine ⟨name, ?_, hfile⟩
  unfold RootWorld.recoverRootJournal
  rw [hname]
  rfl

theorem recoverRootJournal_loose (hk : kind ≠ .journal) (h : Loose fingerprint w.toRootDisk kind d root) :
    w.recoverRootJournal fingerprint kind d = w.goto (.remove kind d.readDir) := by
  have hv := validAdmin_of h.admin h.valid
  cases kind with
  | journal => exact absurd rfl hk
  | prepare | complete => simp only [RootWorld.recoverRootJournal, hv, RootWorld.proceed]

theorem publishJournalRoot_of (h : Journaled fingerprint w.toRootDisk r d root)
    (hf : d.file name = some (.key root)) (next : Place) :
    w.publishJournalRoot name next = { w with admin := some root }.goto next := by
  unfold RootWorld.publishJournalRoot RotationDirectory.readRootKey
  rw [h.dirs, only_self]
  dsimp only
  rw [hf]
  rfl

theorem Journaled.publish (h : Journaled fingerprint v r d root) :
    Journaled fingerprint { v with admin := some root } r d root where
  current := ⟨h.current.recorded, h.current.committed, h.current.wraps⟩
  valid := h.valid
  dirs := h.dirs
  held := h.held
  side := by
    rcases h.side with ⟨rfl, hgen, -⟩ | ⟨rfl, hgen, -⟩
    · exact .inl ⟨rfl, hgen, rfl⟩
    · exact .inr ⟨rfl, hgen, .inr rfl⟩

/-- `finishRootJournal`: the journal's directory is now to be removed. -/
theorem advance_finish (luck : RootLuck) (h : Journaled fingerprint w.toRootDisk r d root) :
    w.advance fingerprint luck .finish = { w with dirs := only .complete d }.goto (.remove .complete d.readDir) := by
  simp only [RootWorld.advance, h.dirs, renameDirectory_only (show RotationKind.journal ≠ .complete by decide),
    RootWorld.proceed, only_self, Option.getD_some]

theorem Journaled.complete (h : Journaled fingerprint v r d root) (ha : v.admin = some root) :
    Loose fingerprint { v with dirs := only .complete d } .complete d root where
  current := ⟨h.current.recorded, h.current.committed, h.current.wraps⟩
  admin := ha
  valid := h.valid
  dirs := rfl
  clearable := h.held.clearable

section

variable (h : Loose fingerprint w.toRootDisk kind d root)

include h

theorem Loose.setDir (hc : Clearable d') :
    Loose fingerprint (w.setDir kind (some d')).toRootDisk kind d' root where
  current := ⟨h.current.recorded, h.current.committed, h.current.wraps⟩
  admin := h.admin
  valid := h.valid
  dirs := by
    change update w.dirs kind (some d') = _
    rw [h.dirs, update_only]
  clearable := hc

theorem removeNext_cons (hp : (name :: names).Perm d.names) :
    w.removeNext kind (name :: names) = (w.setDir kind (some (d.remove name))).goto (.remove kind names) ∧
      names.Perm (d.remove name).names := by
  have hmem : name ∈ d.names := hp.subset mem_cons_self
  constructor
  · unfold RootWorld.removeNext
    rw [h.dirs, only_self]
    dsimp only
    rw [file_removable h.clearable hmem]
    rfl
  · have hnames : (d.remove name).names = d.names.filter (· ≠ name) := by
      unfold RotationDirectory.remove RotationDirectory.names
      rw [filter_map]
      rfl
    have hnot : name ∉ names := (nodup_cons.mp (hp.nodup_iff.mpr h.clearable.nodup)).1
    have hfilter := hp.filter (· ≠ name)
    rw [hnames]
    rw [filter_cons_of_neg (by simp), filter_eq_self.mpr] at hfilter
    · exact hfilter
    · intro n hn
      simpa using fun heq : n = name => hnot (heq ▸ hn)

theorem removeNext_nil (hp : ([] : List String).Perm d.names) :
    w.removeNext kind [] = (w.setDir kind none).returned (.ok ()) := by
  have hd : d = [] := map_eq_nil_iff.mp hp.nil_eq.symm
  unfold RootWorld.removeNext
  rw [h.dirs, only_self, hd]

theorem Loose.gone :
    Published fingerprint (w.setDir kind none).toRootDisk root ∧ (w.setDir kind none).dirs = fun _ => none := by
  refine ⟨⟨⟨h.current.recorded, h.current.committed, h.current.wraps⟩, h.admin⟩, ?_⟩
  change update w.dirs kind none = _
  rw [h.dirs, update_only_none]

end

/-! ## Safety -/

theorem rootOk_enter (h : Layout fingerprint w.toRootDisk) (program : Program) :
    RootOk fingerprint (w.enter fingerprint program) := by
  by_cases hp : program = .rotateRoot ∧ w.restorePending = true
  · unfold RootWorld.enter
    rw [if_pos hp]
    exact h
  cases h with
  | settled root hpub hd =>
    have hmarker : rootRotationMarker w.dirs = .ok none := by rw [hd]; rfl
    unfold RootWorld.enter
    rw [if_neg hp, hmarker]
    cases program with
    | rotateRoot =>
      show RootOk fingerprint (w.prepare fingerprint)
      refine rootOk_proceed (.settled root hpub hd) fun old hold => ?_
      obtain ⟨hadmin, hvalid⟩ := validAdmin_eq_ok hold
      obtain rfl : root = old := Option.some.inj (hpub.admin.symm.trans hadmin)
      split
      · exact .settled root hpub hd
      · exact ⟨hpub, hvalid, rfl, hd⟩
    | recoverRootFiles => exact .settled root hpub hd
  | loose kind hk d root h =>
    rw [enter_only h.dirs hp, recoverRootJournal_loose hk h]
    exact ⟨d, root, hk, h, readDir_perm d⟩
  | journaled r d root h =>
    obtain ⟨name, heq, hfile⟩ := recoverRootJournal_journaled h
    rw [enter_only h.dirs hp, heq]
    exact ⟨r, d, root, h, hfile⟩

theorem rootOk_rewrap (h : Journaled fingerprint w.toRootDisk r d r.old) :
    RootOk fingerprint (w.commitRewrap fingerprint r) := by
  refine rootOk_proceed (.journaled _ _ _ h) fun db hdb => ?_
  cases hre : w.db.rewrap fingerprint r with
  | error e => rw [hre] at hdb; cases hdb
  | ok db' =>
    rw [hre] at hdb
    cases hdb
    have hspec := rewrap_eq_ok hre
    obtain ⟨hvalid, hopen⟩ := h.valid.rewrap hspec
    obtain ⟨hfp, hgen⟩ := hspec.state
    have hadmin : w.admin = some r.old := by
      rcases h.side with ⟨-, -, ha⟩ | ⟨heq, -, -⟩
      · exact ha
      · exact absurd (congrArg fingerprint heq) h.held.differ
    refine ⟨r, d, ⟨⟨hfp, ?_, hopen⟩, hvalid, h.dirs, h.held, .inr ⟨rfl, hgen, .inl hadmin⟩⟩⟩
    change update w.roots (r.generation + 1) (some r.next) db.state.rootGeneration = _
    rw [hgen, update_self]

theorem Preparing.journaled (hne : fingerprint r.old ≠ fingerprint r.next)
    (h : Preparing fingerprint v r.old r.generation
      (r.roots ++ [("journal.json", .journal (r.journal fingerprint))]))
    (hc : Clearable (r.roots ++ [("journal.json", .journal (r.journal fingerprint))])) :
    ∃ d, v.dirs = only .prepare d ∧ Journaled fingerprint { v with dirs := only .journal d } r d r.old := by
  obtain ⟨ring, refs, hl, -⟩ := h.valid.resources
  have hgen : 1 ≤ r.generation := h.generation ▸ hl.rootGeneration
  exact ⟨_, h.dirs, ⟨h.current.recorded, h.current.committed, h.current.wraps⟩, h.valid, rfl,
    ⟨rfl, rfl, rfl, hne, hgen, hc⟩, .inl ⟨rfl, h.generation, h.admin⟩⟩

/-- The files of `prepare` after a temporary file has got its name. -/
theorem rename_last {temp target : String} (hnames : temp ∉ d.names)
    (h : RotationDirectory.rename (d ++ [(temp, data)]) temp target = .ok d') : d' = d ++ [(target, data)] := by
  have hd : ∀ f ∈ d, f.1 ≠ temp := fun f hf heq => hnames (heq ▸ mem_map_of_mem hf)
  have hfile : RotationDirectory.file (d ++ [(temp, data)]) temp = some data := by
    unfold RotationDirectory.file
    rw [find?_append, find?_eq_none.mpr fun f hf => by simpa using hd f hf]
    simp
  rw [rename_eq_ok hfile h]
  congr 1
  unfold RotationDirectory.remove
  rw [filter_append, filter_eq_self.mpr fun f hf => by simpa using hd f hf]
  simp

theorem rootOk_advance (luck : RootLuck) (h : Shape fingerprint w.toRootDisk (some place)) :
    RootOk fingerprint (w.advance fingerprint luck place) := by
  have htemp : Temp luck.temp := ⟨luck.suffix, rfl⟩
  have hlayout := Shape.layout h
  cases place with
  | entered program => exact rootOk_enter h program
  | makeDirectory old generation =>
    obtain ⟨hp, hvalid, hgen, hd⟩ := h
    simp only [RootWorld.advance, hd, Option.isSome_none, Bool.false_eq_true, if_false]
    refine ⟨⟨⟨hp.current.recorded, hp.current.committed, hp.current.wraps⟩, hp.admin⟩, hvalid, hgen, ?_⟩
    change update w.dirs .prepare (some []) = _
    rw [hd]
    rfl
  | saveOld old generation =>
    refine rootOk_inPrepare h hlayout fun d' v hd' hv => ⟨htemp, ?_⟩
    rwa [createTemp_eq_ok hd'] at hv
  | renameOld old generation temp =>
    obtain ⟨-, h⟩ := h
    refine rootOk_inPrepare h hlayout fun d' v hd' hv => ?_
    rwa [rename_last (d := []) (nomatch ·) hd'] at hv
  | saveNext old generation =>
    simp only [RootWorld.advance]
    split
    · exact hlayout
    · rename_i hne
      refine rootOk_inPrepare h hlayout fun d' v hd' hv => ⟨htemp, hne, ?_⟩
      rwa [createTemp_eq_ok hd'] at hv
  | renameNext r temp =>
    obtain ⟨ht, hne, h⟩ := h
    refine rootOk_inPrepare h hlayout fun d' v hd' hv => ⟨hne, ?_⟩
    rwa [rename_last (d := [("old.key", .key r.old)]) (fun hn => ht.ne.1 (mem_singleton.mp hn)) hd'] at hv
  | saveJournal r =>
    obtain ⟨hne, h⟩ := h
    refine rootOk_inPrepare h hlayout fun d' v hd' hv => ⟨htemp, hne, ?_⟩
    rwa [createTemp_eq_ok hd'] at hv
  | renameJournal r temp =>
    obtain ⟨ht, hne, h⟩ := h
    refine rootOk_inPrepare h hlayout fun d' v hd' hv => ⟨hne, ?_⟩
    rwa [rename_last (fun hn => (mem_pair.mp hn).elim ht.ne.1 ht.ne.2.1) hd'] at hv
  | publishJournal r =>
    obtain ⟨old, generation, -, hc⟩ := Shape.preparing h rfl
    obtain ⟨hne, h⟩ := h
    obtain ⟨d, hd, hj⟩ := h.journaled hne hc
    simp only [RootWorld.advance, hd, renameDirectory_only (show RotationKind.prepare ≠ .journal by decide),
      RootWorld.proceed]
    exact ⟨d, hj⟩
  | rewrap r =>
    obtain ⟨d, h⟩ := h
    exact rootOk_rewrap h
  | publishNext =>
    obtain ⟨r, d, h⟩ := h
    simp only [RootWorld.advance, publishJournalRoot_of h h.held.next]
    exact ⟨r, d, h.publish, rfl⟩
  | validateSnapshot =>
    obtain ⟨r, d, h, hadmin⟩ := h
    exact rootOk_proceed hlayout fun _ _ => ⟨r, d, r.next, h, hadmin⟩
  | publishRoot name =>
    obtain ⟨r, d, root, h, hfile⟩ := h
    simp only [RootWorld.advance, publishJournalRoot_of h hfile]
    exact ⟨r, d, root, h.publish, rfl⟩
  | finish =>
    obtain ⟨r, d, root, h, hadmin⟩ := h
    rw [advance_finish luck h]
    exact ⟨d, root, by decide, h.complete hadmin, readDir_perm d⟩
  | remove kind names =>
    obtain ⟨d, root, hk, h, hperm⟩ := h
    cases names with
    | nil =>
      simp only [RootWorld.advance, removeNext_nil h hperm]
      obtain ⟨hp, hd⟩ := h.gone
      exact .settled root hp hd
    | cons name names =>
      obtain ⟨heq, hperm'⟩ := removeNext_cons h hperm
      simp only [RootWorld.advance, heq]
      exact ⟨_, root, hk, h.setDir (h.clearable.remove name), hperm'⟩

theorem rootOk_faulted (removes : Bool) (h : Shape fingerprint w.toRootDisk (some place)) :
    RootOk fingerprint (w.faulted removes place) := by
  have hlayout := Shape.layout h
  unfold RootWorld.faulted
  split
  · rename_i temp d htemp hd
    split
    · -- Only the temporary file of `prepare` is gone.
      obtain ⟨d', hp⟩ : ∃ d', place.prepared fingerprint = some d' := by
        cases place <;> cases htemp <;> exact ⟨_, rfl⟩
      obtain ⟨old, generation, hprep, hc⟩ := Shape.preparing h hp
      rw [hprep.dirs, only_self] at hd
      cases hd
      exact (hprep.setDir _).layout (hc.remove temp)
    · exact hlayout
  · exact hlayout

theorem rootOk_serve (h : RootOk fingerprint w) (hs : w.maySave db = true) :
    RootOk fingerprint { w with db := db } := by
  simp only [RootWorld.maySave, Bool.and_eq_true, decide_eq_true_eq, Option.any_eq_true, all_eq_true,
    Option.isNone_iff_eq_none] at hs
  obtain ⟨⟨⟨⟨hplace, hdirs⟩, hfp⟩, hgen⟩, root, hadmin, hopen⟩ := hs
  have hnone : ∀ kind, w.dirs kind = none := fun kind => hdirs kind (by cases kind <;> decide)
  have hlayout := Shape.layout h
  cases hlayout with
  | settled root' hp hd =>
    obtain rfl : root' = root := Option.some.inj (hp.admin.symm.trans hadmin)
    rw [show ({ w with db := db } : RootWorld).place = none from hplace]
    refine .settled root' ⟨⟨hfp.trans hp.current.recorded, ?_, hopen⟩, hadmin⟩ hd
    rw [hgen]
    exact hp.current.committed
  | loose kind hk d root h =>
    have := hnone kind
    rw [h.dirs, only_self] at this
    cases this
  | journaled r d root h =>
    have := hnone .journal
    rw [h.dirs, only_self] at this
    cases this

theorem rootOk_step (h : RootOk fingerprint w) (hs : RootStep fingerprint w e w') : RootOk fingerprint w' := by
  unfold RootStep at hs
  cases e with
  | call program =>
    simp only [rootNext, Option.ite_none_right_eq_some, Option.some.injEq] at hs
    obtain ⟨-, rfl⟩ := hs
    exact Shape.layout h
  | advance luck =>
    obtain ⟨place, hplace, rfl⟩ := Option.map_eq_some_iff.mp hs
    unfold RootOk at h
    rw [hplace] at h
    exact rootOk_advance luck h
  | fault removes =>
    obtain ⟨place, hplace, rfl⟩ := Option.map_eq_some_iff.mp hs
    unfold RootOk at h
    rw [hplace] at h
    exact rootOk_faulted removes h
  | crash =>
    cases hs
    exact Shape.layout h
  | serve db =>
    simp only [rootNext, Option.ite_none_right_eq_some, Option.some.injEq] at hs
    obtain ⟨hmay, rfl⟩ := hs
    exact rootOk_serve h hmay

/-! ## A recovery comes to its end -/

/-- The program that is under way comes to an end with `P`, if nothing disturbs it. -/
def Finishes (fingerprint : RootKey → Fingerprint) (w : RootWorld) (P : RootWorld → Prop) : Prop :=
  Leads (rootNext fingerprint) RootEvent.advance w fun t => t.place = none ∧ P t

theorem Finishes.done (hp : w.place = none) (h : P w) : Finishes fingerprint w P := Leads.done ⟨hp, h⟩

theorem Finishes.step (hp : w.place = some place) (hw : ∀ luck, w.advance fingerprint luck place = w')
    (h : Finishes fingerprint w' P) : Finishes fingerprint w P :=
  Leads.cons (fun luck => by rw [rootNext, hp, Option.map_some, hw luck]) h

/-- Recovery has succeeded. -/
structure Recovered (fingerprint : RootKey → Fingerprint) (w : RootWorld) : Prop where
  result : w.result = some (.ok ())
  dirs : w.dirs = fun _ => none
  published : ∃ root, Published fingerprint w.toRootDisk root

theorem remove_finishes (h : Loose fingerprint w.toRootDisk kind d root) (hp : names.Perm d.names)
    (hplace : w.place = some (.remove kind names)) : Finishes fingerprint w (Recovered fingerprint) := by
  -- One file goes with each turn of the loop.
  induction names generalizing w d with
  | nil =>
    obtain ⟨hpub, hd⟩ := h.gone
    refine .step hplace (fun _ => removeNext_nil h hp) (.done rfl ⟨rfl, hd, root, hpub⟩)
  | cons name names ih =>
    obtain ⟨heq, hp'⟩ := removeNext_cons h hp
    exact .step hplace (fun _ => heq) (ih (h.setDir (h.clearable.remove name)) hp' rfl)

theorem recovery_finishes (h : Layout fingerprint w.toRootDisk)
    (hplace : w.place = some (.entered .recoverRootFiles)) : Finishes fingerprint w (Recovered fingerprint) := by
  have hprog : ¬ (Program.recoverRootFiles = .rotateRoot ∧ w.restorePending = true) := fun h => nomatch h.1
  cases h with
  | settled root hp hd =>
    have henter : w.enter fingerprint .recoverRootFiles = w.returned (.ok ()) := by
      unfold RootWorld.enter
      rw [if_neg hprog, hd]
      rfl
    exact .step hplace (fun _ => henter) (.done rfl ⟨rfl, hd, root, hp⟩)
  | loose kind hk d root h =>
    refine .step hplace (fun _ => (enter_only h.dirs hprog).trans (recoverRootJournal_loose hk h)) ?_
    exact remove_finishes (w := w.goto _) h (readDir_perm d) rfl
  | journaled r d root h =>
    obtain ⟨name, heq, hfile⟩ := recoverRootJournal_journaled h
    refine .step hplace (fun _ => (enter_only h.dirs hprog).trans heq) ?_
    refine .step rfl (fun _ => publishJournalRoot_of (w := w.goto _) h hfile .finish) ?_
    refine .step rfl (fun luck => advance_finish luck h.publish) ?_
    exact remove_finishes (h.publish.complete rfl) (readDir_perm d) rfl

/-! ## One rotation -/

/-- The program is past its transaction, or has no part in one. -/
def Place.past : Option Place → Bool
  | none | some .publishNext | some .validateSnapshot | some (.publishRoot _) | some .finish
  | some (.remove _ _) => true
  | _ => false

/-- What one rotation has done to the database that it found. -/
inductive Since (db : Database) (w : RootWorld) : Prop
  | same (hdb : w.db = db)
  | once (generation : w.db.state.rootGeneration = db.state.rootGeneration + 1)
      (content : w.db.registry.map RegistryKey.content = db.registry.map RegistryKey.content)
      (past : Place.past w.place = true)

theorem proceed_keeps {α : Type} {x : Except RotationError α} {f : α → RootWorld} {past : Prop}
    (hf : ∀ a, (f a).db = w.db ∧ (past → Place.past (f a).place = true)) :
    (w.proceed x f).db = w.db ∧ (past → Place.past (w.proceed x f).place = true) := by
  cases x with
  | ok a => exact hf a
  | error e => exact ⟨rfl, fun _ => rfl⟩

theorem enter_keeps {past : Prop} (hp : ¬ past) (program : Program) :
    (w.enter fingerprint program).db = w.db ∧ (past → Place.past (w.enter fingerprint program).place = true) := by
  unfold RootWorld.enter
  split
  · exact ⟨rfl, (absurd · hp)⟩
  · refine proceed_keeps fun marker => ?_
    split
    · unfold RootWorld.recoverRootJournal
      split <;> exact proceed_keeps fun _ => ⟨rfl, (absurd · hp)⟩
    · exact ⟨rfl, (absurd · hp)⟩
    · refine proceed_keeps fun old => ?_
      split <;> exact ⟨rfl, (absurd · hp)⟩

/-- Only the transaction changes the database, and no step leads back before it. -/
theorem advance_keeps (luck : RootLuck) (h : ∀ r, place ≠ .rewrap r) :
    (w.advance fingerprint luck place).db = w.db ∧
      (Place.past (some place) = true → Place.past (w.advance fingerprint luck place).place = true) := by
  cases place with
  | entered program => exact enter_keeps (nomatch ·) program
  | makeDirectory old generation =>
    simp only [RootWorld.advance]
    split <;> exact ⟨rfl, (nomatch ·)⟩
  | saveNext old generation =>
    simp only [RootWorld.advance]
    split
    · exact ⟨rfl, fun _ => rfl⟩
    · exact proceed_keeps fun _ => ⟨rfl, (nomatch ·)⟩
  | rewrap r => exact absurd rfl (h r)
  | remove kind names =>
    cases names with
    | nil => simp only [RootWorld.advance, RootWorld.removeNext]; split <;> exact ⟨rfl, fun _ => rfl⟩
    | cons name names => exact proceed_keeps fun _ => ⟨rfl, fun _ => rfl⟩
  | saveOld | renameOld | renameNext | saveJournal | renameJournal | publishJournal =>
    exact proceed_keeps fun _ => ⟨rfl, (nomatch ·)⟩
  | publishNext | validateSnapshot | publishRoot | finish => exact proceed_keeps fun _ => ⟨rfl, fun _ => rfl⟩

theorem Since.commit : Since w.db (w.commitRewrap fingerprint r) := by
  unfold RootWorld.commitRewrap asRotation
  cases hre : w.db.rewrap fingerprint r with
  | error e => exact .same rfl
  | ok db' =>
    have hspec := rewrap_eq_ok hre
    exact .once (hspec.generation.symm ▸ hspec.state.2) hspec.content rfl

/-- Whether an event belongs to the program that is under way. -/
def RootEvent.ofProgram : RootEvent → Bool
  | .advance _ | .fault _ | .crash => true
  | .call _ | .serve _ => false

theorem faulted_db (w : RootWorld) (removes : Bool) (place : Place) : (w.faulted removes place).db = w.db := by
  unfold RootWorld.faulted
  split
  · split <;> rfl
  · rfl

theorem Since.step (h : Since db w) (he : e.ofProgram = true) (hs : RootStep fingerprint w e w') : Since db w' := by
  cases e with
  | call program => cases he
  | serve db => cases he
  | crash =>
    cases hs
    cases h with
    | same hdb => exact .same hdb
    | once hgen hcontent _ => exact .once hgen hcontent rfl
  | fault removes =>
    obtain ⟨place, -, rfl⟩ := Option.map_eq_some_iff.mp hs
    have hdb := faulted_db w removes place
    cases h with
    | same h => exact .same (hdb.trans h)
    | once hgen hcontent _ => exact .once (hdb ▸ hgen) (hdb ▸ hcontent) rfl
  | advance luck =>
    obtain ⟨place, hplace, rfl⟩ := Option.map_eq_some_iff.mp hs
    cases h with
    | same hdb =>
      by_cases hr : ∃ r, place = .rewrap r
      · obtain ⟨r, rfl⟩ := hr
        exact hdb ▸ Since.commit
      · exact .same ((advance_keeps luck fun r h => hr ⟨r, h⟩).1.trans hdb)
    | once hgen hcontent hpast =>
      -- A second transaction would need a second call.
      rw [hplace] at hpast
      have hr : ∀ r, place ≠ .rewrap r := by
        rintro r rfl
        cases hpast
      refine .once ?_ ?_ ((advance_keeps luck hr).2 hpast) <;> rw [(advance_keeps luck hr).1]
      · exact hgen
      · exact hcontent

theorem Since.run {fs : List RootEvent} (h : Since db w) (hfs : ∀ e ∈ fs, e.ofProgram = true)
    (hr : Run (RootStep fingerprint) w fs w') : Since db w' := by
  refine hr.hist (I := fun es s => (∀ e ∈ es, e.ofProgram = true) → Since db s) (fun _ => h)
    (fun es s e s' _ ih hst hes => ?_) hfs
  exact (ih fun e he => hes e (mem_append_left _ he)).step
    (hes e mem_concat_self) hst

/-! ## Every run -/

/-- The directory stores this root: as `admin-data.key`, or in a rotation directory. -/
def RootDisk.Stores (v : RootDisk) (root : RootKey) : Prop :=
  v.admin = some root ∨ ∃ kind d name, v.dirs kind = some d ∧ d.file name = some (.key root)

theorem Layout.stores (h : Layout fingerprint v) :
    ∃ root, v.Stores root ∧ ∀ key ∈ v.db.registry, (unwrapDataKey root key).isSome := by
  cases h with
  | settled root hp hd => exact ⟨root, .inl hp.admin, hp.current.wraps⟩
  | loose kind hk d root h => exact ⟨root, .inl h.admin, h.current.wraps⟩
  | journaled r d root h =>
    have hdir : v.dirs .journal = some d := by rw [h.dirs, only_self]
    obtain ⟨name, -, hfile⟩ := Held.choose h
    exact ⟨root, .inr ⟨.journal, d, name, hdir, hfile⟩, h.current.wraps⟩

theorem Layout.one (h : Layout fingerprint v) {kind' : RotationKind} (hk : (v.dirs kind).isSome)
    (hk' : (v.dirs kind').isSome) : kind = kind' := by
  have honly : ∀ {k d}, v.dirs = only k d → kind = kind' := by
    intro k d hd
    rw [hd] at hk hk'
    have heq : ∀ x, (only k d x).isSome → x = k := fun x hx => by
      by_contra hne
      rw [only_of_ne hne] at hx
      cases hx
    exact (heq _ hk).trans (heq _ hk').symm
  cases h with
  | settled root hp hd => rw [hd] at hk; cases hk
  | loose _ _ _ _ h => exact honly h.dirs
  | journaled _ _ _ h => exact honly h.dirs

/-- No program runs, there is no rotation directory, and `admin-data.key` is the root that the database
records and that opens its keys. -/
structure RootStart (fingerprint : RootKey → Fingerprint) (w : RootWorld) : Prop where
  idle : w.place = none
  dirs : w.dirs = fun _ => none
  published : ∃ root, Published fingerprint w.toRootDisk root

/-- At every moment some stored root opens every data key and at most one rotation directory exists; a
recovery that may finish succeeds, and leaves no rotation directory and the root that the database
records; a rotation moves the generation by at most one and keeps every data key. -/
theorem root_rotation_crash_safe {w₀ w : RootWorld} {es : List RootEvent}
    (hstart : RootStart fingerprint w₀) (h : Run (RootStep fingerprint) w₀ es w) :
    (∃ root, w.Stores root ∧ ∀ key ∈ w.db.registry, (unwrapDataKey root key).isSome) ∧
    (∀ kind kind', (w.dirs kind).isSome → (w.dirs kind').isSome → kind = kind') ∧ (w.place = none →
      Finishes fingerprint { w with place := some (.entered .recoverRootFiles) } fun t =>
        t.result = some (.ok ()) ∧ (∀ kind, t.dirs kind = none) ∧
          ∃ root, t.admin = some root ∧ fingerprint root = t.db.state.rootFingerprint ∧
            t.roots t.db.state.rootGeneration = some root) ∧
    (∀ fs t, Run (RootStep fingerprint) w (.call .rotateRoot :: fs) t → (∀ e ∈ fs, e.ofProgram = true) →
      (t.db.state.rootGeneration = w.db.state.rootGeneration ∨
        t.db.state.rootGeneration = w.db.state.rootGeneration + 1) ∧
      t.db.registry.map RegistryKey.content = w.db.registry.map RegistryKey.content) := by
  have hok : RootOk fingerprint w := by
    refine h.inv (I := RootOk fingerprint) ?_ fun _ _ _ hi hs => rootOk_step hi hs
    obtain ⟨root, hp⟩ := hstart.published
    unfold RootOk
    rw [hstart.idle]
    exact .settled root hp hstart.dirs
  have hlayout := Shape.layout hok
  refine ⟨hlayout.stores, fun _ _ => hlayout.one, fun _ => ?_, fun fs t hr hfs => ?_⟩
  · refine (recovery_finishes (w := { w with place := some (.entered .recoverRootFiles) }) hlayout
      rfl).mono fun t ht => ⟨ht.1, ht.2.result, fun kind => by rw [ht.2.dirs], ?_⟩
    obtain ⟨root, hp⟩ := ht.2.published
    exact ⟨root, hp.admin, hp.current.recorded.symm, hp.current.committed⟩
  · obtain ⟨w₁, hstep, hrest⟩ := hr.uncons
    have hdb : w₁.db = w.db := by
      simp only [RootStep, rootNext, Option.ite_none_right_eq_some, Option.some.injEq] at hstep
      rw [← hstep.2]
    rw [← hdb]
    cases Since.run (.same rfl : Since w₁.db w₁) hfs hrest with
    | same h => exact ⟨.inl (by rw [h]), by rw [h]⟩
    | once hgen hcontent _ => exact ⟨.inr hgen, hcontent⟩

def sampleKeyId : KeyId := ⟨5, by decide⟩

/-- One data key under the root 7. -/
def sampleRootWorld : RootWorld where
  db :=
    { state := { phase := .ready, generation := 1, rootGeneration := 1, rootFingerprint := 7
                 activeID := sampleKeyId }
      registry := [{ id := sampleKeyId, wrapped := ⟨7, (sampleKeyId, 1), 3⟩, generation := 1
                     state := .active, createdAt := 1, activatedAt := 1 }]
      sources := [] }
  admin := some 7
  roots := fun generation => if generation = 1 then some 7 else none

/-- A rotation to the root 8 that crashes right after its transaction. -/
def sampleRotation : List RootEvent :=
  .call .rotateRoot :: replicate 10 (.advance ⟨8, "a"⟩) ++ [.crash]

theorem root_rotation_crash_safe_sample :
    ∃ w, Run (RootStep id) sampleRootWorld sampleRotation w ∧ w.db.state.rootGeneration = 2 ∧
      w.admin = some 7 ∧ (w.dirs .journal).isSome ∧
      Finishes id { w with place := some (.entered .recoverRootFiles) } fun t =>
        t.result = some (.ok ()) ∧ (∀ kind, t.dirs kind = none) ∧
          ∃ root, t.admin = some root ∧ id root = t.db.state.rootFingerprint ∧
            t.roots t.db.state.rootGeneration = some root := by
  obtain ⟨w, hr, hgen, hadmin, hdir, hplace⟩ : ∃ w, Run (RootStep id) sampleRootWorld sampleRotation w ∧
      w.db.state.rootGeneration = 2 ∧ w.admin = some 7 ∧ (w.dirs .journal).isSome ∧ w.place = none :=
    Run.computed (rootNext id) (fun _ _ _ h => h) (by decide +kernel)
  have hstart : RootStart id sampleRootWorld :=
    ⟨rfl, rfl, 7, ⟨rfl, rfl, by decide⟩, rfl⟩
  exact ⟨w, hr, hgen, hadmin, hdir, (root_rotation_crash_safe hstart hr).2.2.1 hplace⟩

end Beat.Secrets
