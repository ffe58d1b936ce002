import Beat.Lib.Keyset
import Beat.Lib.Table
import Beat.Secrets.DataRotation

/-!
# What the transactions of a data key rotation do

For a registry that is in order (`RegistryOk`) and secrets that name its keys (`SecretOk`), one lemma for
each transaction:

* `Rings.seal_ok`, `Rings.unseal_of`: what the keyring of the registry seals and opens;
* `validateResources_of`: the validation passes where every secret is under the active key;
* `migrateBatch_exit`, `migrateBatch_of`: what a batch of the migration leaves, and that it succeeds;
* `activateDataKey_exit`: the registry after a new key;
* `mem_put`, `mem_delete`, `inTable_exit`: the rows after a write.
-/

namespace Beat.Secrets

open List Fallible

open Table (Keyed)

/-! ## The registry in order -/

/-- The data key of a row that opens. -/
def RegistryKey.dataKey (key : RegistryKey) : DataKey := ⟨key.id, key.wrapped.plain⟩

structure RegistryOk (root : RootKey) (db : Database) : Prop where
  keyed : Keyed (fun key : RegistryKey => key.id) db.registry
  length : db.registry.length ≤ maximumDataKeys
  opens : ∀ key ∈ db.registry, unwrapDataKey root key = some key.dataKey
  generations : ∀ key ∈ db.registry, key.generation ≤ db.state.generation
  active : ∃ key ∈ db.registry, key.state = .active ∧ key.id = db.state.activeID ∧
    key.generation = db.state.generation
  one : ∀ key ∈ db.registry, key.state = .active → key.id = db.state.activeID

variable {root : RootKey} {db db' : Database} {ring : Keyring} {r : SecretResource} {table : ResourceTable}
  {now : Int} {key : DataKey} {rotation : Uuid} {registry kept : List RegistryKey}
  {batch : List SecretResource} {refs : List KeyId} {id : KeyId} {source : Nat}

theorem RegistryOk.readRegistry_eq (h : RegistryOk root db) : db.readRegistry = db.registry := by
  have := h.length
  exact take_of_length_le (by omega)

/-- The rows of the registry with the active id are the active one. -/
theorem RegistryOk.active_of_id (h : RegistryOk root db) {key : RegistryKey} (hk : key ∈ db.registry)
    (hid : key.id = db.state.activeID) : key.state = .active := by
  obtain ⟨a, ha, hstate, haid, -⟩ := h.active
  rw [h.keyed.eq_of_key hk ha (hid.trans haid.symm)]
  exact hstate

/-- The keyring of a registry. -/
structure Rings (db : Database) (ring : Keyring) : Prop where
  active : ring.active = db.state.activeID
  ciphers : ring.ciphers = db.registry.map RegistryKey.dataKey

theorem Loads.rings {fingerprint : RootKey → Fingerprint} (hl : Loads fingerprint db root ring)
    (h : RegistryOk root db) : Rings db ring := by
  refine ⟨hl.active, ?_⟩
  have hload := hl.ciphers
  rw [hl.readRegistry_eq] at hload
  have hmem : List.Forall₂ (fun key cipher => key ∈ db.registry ∧ loadKey root db.state key = .ok cipher)
      db.registry ring.ciphers := by
    refine forall₂_iff_get.mpr ⟨hload.length_eq, fun i h1 h2 => ?_⟩
    exact ⟨getElem_mem h1, hload.get h1 h2⟩
  have hmap := map_eq_of_forall₂ (f := RegistryKey.dataKey) (g := id) hmem fun key cipher hk => by
    have hopen := (loadKey_eq_ok.mp hk.2).2
    rw [h.opens key hk.1] at hopen
    exact (Option.some.inj hopen).symm
  rwa [map_id] at hmap

section Ring

variable {root : RootKey} {db : Database} {ring : Keyring}

theorem Rings.cipher (hr : Rings db ring) (h : RegistryOk root db) {key : RegistryKey}
    (hk : key ∈ db.registry) : ring.cipher key.id = some key.dataKey := by
  unfold Keyring.cipher
  rw [hr.ciphers]
  refine Table.find?_eq_some_of_unique (mem_map_of_mem hk) (by simp [RegistryKey.dataKey]) ?_
  intro c hc hid
  obtain ⟨k, hk', rfl⟩ := mem_map.mp hc
  rw [h.keyed.eq_of_key hk' hk (of_decide_eq_true hid)]

/-- The active key. -/
theorem Rings.cipher_active (hr : Rings db ring) (h : RegistryOk root db) :
    ∃ key ∈ db.registry, key.state = .active ∧ key.id = db.state.activeID ∧
      ring.cipher ring.active = some key.dataKey := by
  obtain ⟨key, hk, hstate, hid, -⟩ := h.active
  exact ⟨key, hk, hstate, hid, by rw [hr.active, ← hid]; exact hr.cipher h hk⟩

variable {e : Envelope} {aad : ResourceAAD} {plaintext : List UInt8}

theorem DataKey.seal_eq_ok : key.seal plaintext aad = .ok e ↔
      plaintext.length ≤ maximumSecretBytes ∧ aad.valid = true ∧ e = ⟨key, aad, plaintext⟩ := by
  unfold DataKey.seal
  split
  · rename_i h
    simp only [reduceCtorEq, false_iff]
    exact fun h' => absurd h'.1 (by omega)
  · rename_i h
    by_cases hv : aad.valid = true
    · simp only [hv, Bool.not_true, Bool.false_eq_true, if_false, Except.ok.injEq, true_and]
      exact ⟨fun h' => ⟨by omega, h'.symm⟩, fun h' => h'.2.symm⟩
    · simp [hv]

theorem DataKey.unseal_of (hv : aad.valid = true) (hk : e.key = key) (ha : e.aad = aad) :
    key.unseal e aad = .ok e.plain := by
  unfold DataKey.unseal
  rw [hv, Aead.unseal_eq_some.mpr ⟨hk, ha, rfl⟩]
  rfl

/-- What the keyring seals is under the active key. -/
theorem Rings.seal_ok (hr : Rings db ring) (h : RegistryOk root db) (hs : ring.seal plaintext aad = .ok e) :
    ∃ key ∈ db.registry, key.id = db.state.activeID ∧ plaintext.length ≤ maximumSecretBytes ∧
      aad.valid = true ∧ e = ⟨key.dataKey, aad, plaintext⟩ := by
  obtain ⟨key, hk, -, hid, hc⟩ := hr.cipher_active h
  unfold Keyring.seal at hs
  rw [hc] at hs
  exact ⟨key, hk, hid, DataKey.seal_eq_ok.mp hs⟩

theorem Rings.unseal_of (hr : Rings db ring) (h : RegistryOk root db) {key : RegistryKey}
    (hk : key ∈ db.registry) (he : e.key = key.dataKey) (ha : e.aad = aad) (hv : aad.valid = true) :
    ring.unseal e aad = .ok e.plain := by
  unfold Keyring.unseal Envelope.dataKeyID
  rw [show e.key.id = key.id by rw [he]; rfl, hr.cipher h hk]
  exact DataKey.unseal_of hv he ha

end Ring

/-! ## Secrets -/

/-- A row of the table number `source`. -/
def Database.Row (db : Database) (source : Nat) (r : SecretResource) : Prop :=
  ∃ table, db.sources[source]? = some table ∧ r ∈ table.rows

/-- The secret of a row is sealed for that row under a key of the registry. -/
structure SecretOk (registry : List RegistryKey) (r : SecretResource) : Prop where
  required : r.required = true → r.ciphertext.isSome
  secret : ∀ e, r.ciphertext = some e → e.aad = r.aad ∧ r.aad.valid = true ∧
    e.plain.length ≤ maximumSecretBytes ∧ ∃ key ∈ registry, e.key = key.dataKey

/-- The secret of a row, if it has one, is under this key. -/
def Under (id : KeyId) (r : SecretResource) : Prop :=
  ∀ e, r.ciphertext = some e → Envelope.dataKeyID e = id

theorem SecretOk.not_invalid (h : SecretOk registry r) : r.invalid = false := by
  unfold SecretResource.invalid
  cases hc : r.ciphertext with
  | none => rfl
  | some e =>
    have := (h.secret e hc).2.2.1
    simp only [Option.any_some, decide_eq_false_iff_not]
    unfold Envelope.size maximumResourceCiphertextBytes
    omega

theorem validateResource_of (hr : Rings db ring) (h : RegistryOk root db) (hs : SecretOk db.registry r)
    (hu : Under db.state.activeID r) : validateResource ring true r = .ok (r.ciphertext.map Envelope.dataKeyID) := by
  unfold validateResource
  cases hc : r.ciphertext with
  | none =>
    by_cases hreq : r.required = true
    · have := hs.required hreq
      rw [hc] at this
      cases this
    · simp [hreq]
  | some e =>
    obtain ⟨ha, hv, -, key, hk, hkey⟩ := hs.secret e hc
    have hid : Envelope.dataKeyID e = ring.active := (hu e hc).trans hr.active.symm
    simp only [hid, ne_eq, not_true_eq_false, decide_false, Bool.and_false, Bool.false_eq_true, if_false,
      hr.unseal_of h hk hkey ha hv, Option.map_some]

theorem readBatch_eq_ok {cursor : String} (h : table.readBatch cursor = .ok batch) :
    batch = (Keyset.behind (·.id) "" table.rows cursor).take batchSize ∧ ∀ r ∈ batch, r.id ≠ "" := by
  unfold ResourceTable.readBatch at h
  dsimp only at h
  split at h
  · cases h
  rename_i hany
  cases h
  refine ⟨rfl, fun r hr hid => hany ?_⟩
  exact any_eq_true.mpr ⟨r, hr, by simp [hid]⟩

theorem batch_sublist (table : ResourceTable) (cursor : String) :
    ((Keyset.behind (·.id) "" table.rows cursor).take batchSize).Sublist table.rows :=
  (take_sublist ..).trans filter_sublist

theorem readBatch_of (hok : ∀ r ∈ table.rows, r.id ≠ "" ∧ SecretOk registry r) (cursor : String) :
    table.readBatch cursor = .ok ((Keyset.behind (·.id) "" table.rows cursor).take batchSize) := by
  refine if_neg fun hany => ?_
  obtain ⟨r, hr, hbad⟩ := any_eq_true.mp hany
  obtain ⟨hid, hsec⟩ := hok r ((batch_sublist table cursor).subset hr)
  simp [hid, hsec.not_invalid] at hbad

/-- The loop of `validateSource` reads the table to its end. -/
theorem validateSource_of (hr : Rings db ring) (h : RegistryOk root db)
    (hok : ∀ r ∈ table.rows, r.id ≠ "" ∧ SecretOk db.registry r)
    (hu : ∀ r ∈ table.rows, Under db.state.activeID r) (batches : Nat) (cursor : String)
    (hlt : (Keyset.behind (·.id) "" table.rows cursor).length < batches) :
    ∃ ids, validateSource ring true table batches cursor = .ok ids := by
  induction batches generalizing cursor with
  | zero => omega
  | succ batches ih =>
    have hmem : ∀ r ∈ (Keyset.behind (·.id) "" table.rows cursor).take batchSize, r ∈ table.rows :=
      fun r hr => (batch_sublist table cursor).subset hr
    simp only [validateSource, readBatch_of hok cursor, bind, Except.bind]
    cases hlast : ((Keyset.behind (·.id) "" table.rows cursor).take batchSize).getLast? with
    | none => exact ⟨[], rfl⟩
    | some last =>
      have hids : ((Keyset.behind (·.id) "" table.rows cursor).take batchSize).mapM
          (validateResource ring true) = .ok _ :=
        mapM_of_ok fun r hmr =>
          validateResource_of hr h (hok r (hmem r hmr)).2 (hu r (hmem r hmr))
      -- The batch is not empty, so that less is left.
      have hless : (Keyset.behind (·.id) "" table.rows last.id).length < _ :=
        Keyset.length_behind_last table.ordered hlast (hok last (hmem last (mem_of_getLast? hlast))).1
      obtain ⟨rest, hrest⟩ := ih last.id (by omega)
      simp only [hids, hrest]
      exact ⟨_, rfl⟩

theorem mem_frameReferences (h : operationFrameReferences db ring = .ok refs)
    (hlen : db.frames.dedup.length ≤ maximumDataKeys + 1) (hid : id ∈ db.frames) : id ∈ refs := by
  unfold operationFrameReferences at h
  dsimp only at h
  split at h
  · cases h
  cases h
  rw [mem_filter, take_of_length_le hlen]
  exact ⟨hid, by simpa using hid⟩

/-- The chunks use no more keys than the registry holds. -/
theorem frames_dedup_length (h : RegistryOk root db)
    (hf : ∀ id ∈ db.frames, ∃ key ∈ db.registry, key.id = id) : db.frames.dedup.length ≤ maximumDataKeys := by
  have hsub : db.frames.dedup ⊆ db.registry.map (·.id) := fun id hid => by
    obtain ⟨key, hk, rfl⟩ := hf id (mem_dedup.mp hid)
    exact mem_map_of_mem hk
  have := (subperm_of_subset (nodup_dedup _) hsub).length_le
  rw [length_map] at this
  exact this.trans h.length

theorem validateResources_of (hr : Rings db ring) (h : RegistryOk root db)
    (hok : ∀ i r, db.Row i r → r.id ≠ "" ∧ SecretOk db.registry r)
    (hu : ∀ i r, db.Row i r → Under db.state.activeID r) (hf : ∀ id ∈ db.frames, ∃ key ∈ db.registry, key.id = id) :
    ∃ refs, db.validateResources ring true = .ok refs := by
  have hrow : ∀ t ∈ db.sources, ∀ r ∈ t.rows, ∃ i, db.Row i r := fun t ht r hr => by
    obtain ⟨i, hi⟩ := mem_iff_getElem?.mp ht
    exact ⟨i, t, hi, hr⟩
  have hsources : ∀ t ∈ db.sources, ∃ ids,
      validateSource ring true t (t.rows.length + 1) "" = .ok ids := fun t ht => by
    refine validateSource_of hr h (fun r hr => ?_) (fun r hr => ?_) _ _ (by simp)
    · obtain ⟨i, hi⟩ := hrow t ht r hr
      exact hok i r hi
    · obtain ⟨i, hi⟩ := hrow t ht r hr
      exact hu i r hi
  have hmap : ∃ ids, (db.sources.mapM fun t =>
      validateSource ring true t (t.rows.length + 1) "") = .ok ids := by
    classical
    refine ⟨_, mapM_of_ok (h := fun t => if ht : t ∈ db.sources then (hsources t ht).choose else [])
      fun t ht => ?_⟩
    rw [dif_pos ht]
    exact (hsources t ht).choose_spec
  have hframes : ∃ refs, operationFrameReferences db ring = .ok refs := by
    refine ⟨_, if_neg fun hany => ?_⟩
    obtain ⟨id, hid, hnone⟩ := any_eq_true.mp hany
    obtain ⟨key, hk, rfl⟩ := hf id (mem_dedup.mp (mem_of_mem_take hid))
    rw [hr.cipher h hk] at hnone
    cases hnone
  obtain ⟨ids, hids⟩ := hmap
  obtain ⟨refs, hrefs⟩ := hframes
  unfold Database.validateResources
  rw [hids]
  simp only [bind, Except.bind, hrefs]
  exact ⟨_, rfl⟩

/-- The chunks are counted. -/
theorem mem_references (h : RegistryOk root db) (hf : ∀ id ∈ db.frames, ∃ key ∈ db.registry, key.id = id)
    (hv : db.validateResources ring true = .ok refs) (hid : id ∈ db.frames) : id ∈ refs := by
  obtain ⟨ids, -, hv⟩ := bind_eq_ok hv
  obtain ⟨frames, hframes, hv⟩ := bind_eq_ok hv
  cases hv
  have hlen := frames_dedup_length h hf
  exact mem_append_right _ (mem_frameReferences hframes (by omega) hid)

/-! ## A batch of the migration -/

theorem ResourceTable.keyed (table : ResourceTable) : Keyed (fun r : SecretResource => r.id) table.rows :=
  pairwise_map.mpr (table.ordered.imp fun h => ne_of_lt h)

theorem ResourceTable.nodup (table : ResourceTable) : table.rows.Nodup := .of_map _ table.keyed

theorem ResourceTable.ext {t u : ResourceTable} (h : t.rows = u.rows) : t = u := by
  cases t; cases u; cases h; rfl

/-- The secret of the row under this key. -/
def SecretResource.resealed (key : DataKey) (r : SecretResource) : Option Envelope :=
  r.ciphertext.map fun e => ⟨key, r.aad, e.plain⟩

/-- The table after a batch: the rows of the batch under the key, the others as they were. -/
def ResourceTable.resealBatch (table : ResourceTable) (key : DataKey) (batch : List SecretResource) : ResourceTable :=
  table.setCiphertexts fun r => if r ∈ batch then r.resealed key else r.ciphertext

theorem mem_resealBatch {r' : SecretResource} : r' ∈ (table.resealBatch key batch).rows ↔
      ∃ r ∈ table.rows, r' = { r with ciphertext := if r ∈ batch then r.resealed key else r.ciphertext } := by
  simp only [ResourceTable.resealBatch, ResourceTable.setCiphertexts, mem_map, eq_comm]

theorem resealBatch_of_none (hb : ∀ r ∈ batch, r.ciphertext = none) : table.resealBatch key batch = table := by
  refine ResourceTable.ext ((map_congr_left fun r _ => ?_).trans (map_id _))
  dsimp only
  split
  · rename_i hr
    rw [SecretResource.resealed, hb r hr, Option.map_none, ← hb r hr, id_eq]
  · rfl

/-- A row that another batch leaves alone is still there. -/
theorem mem_resealBatch_of_not_mem (hr : r ∈ table.rows) (hb : r ∉ batch) : r ∈ (table.resealBatch key batch).rows :=
  mem_resealBatch.mpr ⟨r, hr, by simp [hb]⟩

theorem resealBatch_cons (hr : r ∈ table.rows) (hb : ∀ x ∈ batch, x ∈ table.rows) (hnot : r ∉ batch) :
    (table.resealBatch key [r]).resealBatch key batch = table.resealBatch key (r :: batch) := by
  refine ResourceTable.ext ?_
  simp only [ResourceTable.resealBatch, ResourceTable.setCiphertexts, map_map]
  refine map_congr_left fun x hx => ?_
  by_cases hxr : x = r
  · subst hxr
    -- the row with its new secret is not one of the others
    have hnew : { x with ciphertext := x.resealed key } ∉ batch := fun hmem => by
      have heq := table.keyed.eq_of_key (hb _ hmem) hr rfl
      exact hnot (heq ▸ hmem)
    simp [hnew]
  · simp [hxr]

/-- The update meets the row that was read, if its secret is stored as bytes. -/
theorem update_eq {old new : Envelope} (hr : r ∈ table.rows) (hc : r.ciphertext = some old) :
    table.update r.id old new = if r.storage = .blob then
      .ok (table.setCiphertexts fun x => if x ∈ [r] then some new else x.ciphertext) else .error .notOneRow := by
  have hmet : ∀ x ∈ table.rows, (decide (x.id = r.id) && decide (x.storage = .blob) &&
      decide (x.ciphertext = some old)) = (x == r && decide (r.storage = .blob)) := fun x hx => by
    by_cases hid : x.id = r.id
    · obtain rfl := table.keyed.eq_of_key hx hr hid
      simp [hc]
    · have hne : x ≠ r := fun heq => hid (congrArg SecretResource.id heq)
      simp [hid, hne]
  unfold ResourceTable.update
  dsimp only
  by_cases hstorage : r.storage = .blob
  · have hone : table.rows.countP (fun x => x.id = r.id && x.storage = .blob && x.ciphertext = some old) = 1 := by
      rw [countP_congr (q := (· == r)) fun x hx => by simp [hmet x hx, hstorage]]
      exact count_eq_one_of_mem table.nodup hr
    rw [if_pos hone, if_pos hstorage]
    refine congrArg Except.ok (ResourceTable.ext (map_congr_left fun x hx => ?_))
    simp [hmet x hx, hstorage]
  · have hzero : table.rows.countP (fun x => x.id = r.id && x.storage = .blob && x.ciphertext = some old) = 0 := by
      refine countP_eq_zero.mpr fun x hx => ?_
      rw [hmet x hx]
      simp [hstorage]
    rw [hzero, if_neg Nat.zero_ne_one, if_neg hstorage]

/-- The secret of the row, if it has one, is stored as bytes. -/
def SecretResource.Movable (r : SecretResource) : Prop := r.ciphertext = none ∨ r.storage = .blob

instance (r : SecretResource) : Decidable r.Movable := inferInstanceAs (Decidable (_ ∨ _))

theorem rewriteResource_eq {key : RegistryKey} (hr : Rings db ring) (h : RegistryOk root db)
    (hk : key ∈ db.registry) (hid : key.id = db.state.activeID) (hs : SecretOk db.registry r) (hmem : r ∈ table.rows) :
    rewriteResource ring table r =
      if r.Movable then .ok (table.resealBatch key.dataKey [r]) else .error .notOneRow := by
  unfold rewriteResource
  cases hc : r.ciphertext with
  | none =>
    have hmov : r.Movable := .inl hc
    have hreq : ¬ r.required = true := fun hreq => by
      have := hs.required hreq
      rw [hc] at this
      cases this
    simp [hreq, hmov, resealBatch_of_none, hc]
  | some e =>
    obtain ⟨ha, hv, hlen, k, hk', hkey⟩ := hs.secret e hc
    have hseal : ring.seal e.plain r.aad = .ok ⟨key.dataKey, r.aad, e.plain⟩ := by
      unfold Keyring.seal
      rw [hr.active, ← hid, hr.cipher h hk]
      exact DataKey.seal_eq_ok.mpr ⟨hlen, hv, rfl⟩
    have hreseal : (table.setCiphertexts fun x => if x ∈ [r] then some ⟨key.dataKey, r.aad, e.plain⟩ else x.ciphertext) =
        table.resealBatch key.dataKey [r] := by
      refine ResourceTable.ext (map_congr_left fun x _ => ?_)
      by_cases hxr : x = r
      · subst hxr
        simp [SecretResource.resealed, hc]
      · simp [hxr]
    have hmov : r.Movable ↔ r.storage = .blob := by simp [SecretResource.Movable, hc]
    simp only [hr.unseal_of h hk' hkey ha hv, hseal, bind, Except.bind, update_eq hmem hc, hreseal, hmov]

/-- The batch is rewritten if every secret of it is stored as bytes. -/
theorem foldlM_rewriteResource {key : RegistryKey} (hr : Rings db ring) (h : RegistryOk root db)
    (hk : key ∈ db.registry) (hid : key.id = db.state.activeID) (hs : ∀ r ∈ batch, SecretOk db.registry r)
    (hb : ∀ r ∈ batch, r ∈ table.rows) (hnodup : batch.Nodup) : batch.foldlM (rewriteResource ring) table =
      if ∀ r ∈ batch, r.Movable then .ok (table.resealBatch key.dataKey batch) else .error .notOneRow := by
  induction batch generalizing table with
  | nil => simp [resealBatch_of_none, pure, Except.pure]
  | cons r batch ih =>
    obtain ⟨hnot, hnodup⟩ := nodup_cons.mp hnodup
    rw [foldlM_cons, rewriteResource_eq hr h hk hid (hs r mem_cons_self) (hb r mem_cons_self)]
    by_cases hmov : r.Movable
    · have hrest : ∀ x ∈ batch, x ∈ (table.resealBatch key.dataKey [r]).rows := fun x hx =>
        mem_resealBatch_of_not_mem (hb x (mem_cons_of_mem _ hx)) fun hxr => hnot (mem_singleton.mp hxr ▸ hx)
      rw [if_pos hmov]
      simp only [bind, Except.bind]
      rw [ih (fun x hx => hs x (mem_cons_of_mem _ hx)) hrest hnodup,
        resealBatch_cons (hb r mem_cons_self) (fun x hx => hb x (mem_cons_of_mem _ hx)) hnot]
      simp [hmov]
    · simp [hmov, bind, Except.bind]

/-- The cursor after a batch. -/
def LifecycleState.after (state : LifecycleState) (batch : List SecretResource) : LifecycleState :=
  match batch.getLast? with
  | some last => { state with cursorID := last.id }
  | none => { state with cursorSource := state.cursorSource + 1, cursorID := "" }

/-- The database after the migration. -/
def Database.finished (db : Database) (now : Int) : Database :=
  { db with
    registry := db.registry.map fun key =>
      if key.state = .decryptOnly ∧ key.retireAfter = none then
        { key with retireAfter := some (now + keyRetention) }
      else key
    state := { db.state with phase := .ready, cursorSource := 0, cursorID := "" } }

/-- The database after a batch of this table under this key. -/
def Database.migrated (db : Database) (table : ResourceTable) (key : DataKey)
    (batch : List SecretResource) : Database :=
  { db with
    sources := db.sources.set db.state.cursorSource (table.resealBatch key batch)
    state := db.state.after batch }

/-- How a turn of the migration ends. -/
inductive BatchExit (db : Database) (now : Int) (key : DataKey) (db' : Database) : Prop
  | finished (hcursor : db.state.cursorSource = db.sources.length) (heq : db' = db.finished now)
  | moved (table : ResourceTable) (hsource : db.sources[db.state.cursorSource]? = some table)
      (batch : List SecretResource)
      (hbatch : batch = (Keyset.behind (·.id) "" table.rows db.state.cursorID).take batchSize)
      (hids : ∀ r ∈ batch, r.id ≠ "") (heq : db' = db.migrated table key batch)

section Batch

variable {root : RootKey} {db db' : Database} {ring : Keyring} {key : RegistryKey} {now : Int}

theorem migrateBatch_exit (hr : Rings db ring) (h : RegistryOk root db) (hk : key ∈ db.registry)
    (hid : key.id = db.state.activeID) (hok : ∀ i r, db.Row i r → SecretOk db.registry r)
    (hm : db.migrateBatch ring now = .ok db') : BatchExit db now key.dataKey db' := by
  obtain ⟨state, hstate, hm⟩ := bind_eq_ok hm
  obtain ⟨rfl, -⟩ := readState_eq_ok.mp hstate
  split at hm
  · rename_i hcursor
    obtain ⟨refs, -, hm⟩ := bind_eq_ok hm
    exact .finished hcursor (Except.ok.inj hm).symm
  · split at hm
    · cases hm
    · rename_i table hsource
      obtain ⟨batch, hbatch, hm⟩ := bind_eq_ok hm
      obtain ⟨hbatch, hids⟩ := readBatch_eq_ok hbatch
      have hsub : batch.Sublist table.rows := hbatch ▸ batch_sublist table _
      obtain ⟨table', htable, hm⟩ := bind_eq_ok hm
      rw [foldlM_rewriteResource hr h hk hid (fun r hr => hok _ r ⟨table, hsource, hsub.subset hr⟩)
        (fun r hr => hsub.subset hr) (table.nodup.sublist hsub)] at htable
      split at htable
      · cases htable
        exact .moved table hsource batch hbatch hids (Except.ok.inj hm).symm
      · cases htable

theorem migrateBatch_of (hr : Rings db ring) (h : RegistryOk root db)
    (hrot : db.state.generation ≤ 1 ∨ db.state.rotationID.isSome)
    (hcursor : db.state.cursorSource ≤ db.sources.length)
    (hok : ∀ i r, db.Row i r → r.id ≠ "" ∧ SecretOk db.registry r) (hmov : ∀ i r, db.Row i r → r.Movable)
    (hdone : db.state.cursorSource = db.sources.length → ∀ i r, db.Row i r → Under db.state.activeID r)
    (hf : ∀ id ∈ db.frames, ∃ key ∈ db.registry, key.id = id) : ∃ db', db.migrateBatch ring now = .ok db' := by
  unfold Database.migrateBatch
  rw [readState_eq_ok.mpr ⟨rfl, hrot⟩]
  simp only [bind, Except.bind]
  split
  · rename_i hend
    obtain ⟨refs, hrefs⟩ := validateResources_of hr h hok (hdone hend) hf
    unfold Database.finishMigration
    rw [hrefs]
    exact ⟨_, rfl⟩
  · rename_i hend
    have hlt : db.state.cursorSource < db.sources.length := by omega
    obtain ⟨key, hk, -, hid, -⟩ := h.active
    have hsource := getElem?_eq_getElem hlt
    rw [hsource]
    dsimp only
    have hrows : ∀ r ∈ db.sources[db.state.cursorSource].rows, r.id ≠ "" ∧ SecretOk db.registry r :=
      fun r hr => hok _ r ⟨_, hsource, hr⟩
    rw [readBatch_of hrows]
    dsimp only
    have hsub := batch_sublist db.sources[db.state.cursorSource] db.state.cursorID
    rw [foldlM_rewriteResource hr h hk hid (fun r hr => (hrows r (hsub.subset hr)).2) (fun r hr => hsub.subset hr)
      (Nodup.sublist hsub (ResourceTable.nodup _)), if_pos fun r hr => hmov _ r ⟨_, hsource, hsub.subset hr⟩]
    exact ⟨_, rfl⟩

end Batch

/-! ## A new key -/

/-- The key when another one takes its place. -/
def RegistryKey.demoted (active : KeyId) (key : RegistryKey) : RegistryKey :=
  if key.id = active ∧ key.state = .active then { key with state := .decryptOnly } else key

/-- Only the state of a key changes, and the active key is active no longer. -/
theorem RegistryKey.demoted_eq (active : KeyId) (key : RegistryKey) :
    ∃ state, key.demoted active = { key with state := state } ∧
      (state = .active → key.state = .active ∧ key.id ≠ active) := by
  unfold RegistryKey.demoted
  split
  · exact ⟨.decryptOnly, rfl, nofun⟩
  · rename_i hn
    exact ⟨key.state, rfl, fun hst => ⟨hst, fun hid => hn ⟨hid, hst⟩⟩⟩

theorem RegistryKey.demoted_dataKey (active : KeyId) (key : RegistryKey) :
    (key.demoted active).dataKey = key.dataKey := by
  obtain ⟨state, heq, -⟩ := key.demoted_eq active
  rw [heq]
  rfl

theorem RegistryKey.demoted_id (active : KeyId) (key : RegistryKey) :
    (key.demoted active).id = key.id := congrArg DataKey.id (key.demoted_dataKey active)

/-- The row of a new key. -/
def freshKey (root : RootKey) (key : DataKey) (generation : Nat) (now : Int) : RegistryKey where
  id := key.id
  wrapped := ⟨root, (key.id, generation), key.material⟩
  generation := generation
  state := .active
  createdAt := now
  activatedAt := now

/-- The database after `activateDataKey`, with these keys kept. -/
def Database.activated (db : Database) (root : RootKey) (now : Int) (key : DataKey) (rotation : Uuid)
    (kept : List RegistryKey) : Database :=
  { db with
    registry := kept.map (·.demoted db.state.activeID) ++
      [freshKey root key (db.state.generation + 1) now]
    state := { db.state with
      phase := .rotating
      generation := db.state.generation + 1
      activeID := key.id
      cursorSource := 0
      cursorID := ""
      rotationID := some rotation } }

/-- What `activateDataKey` has found and done. -/
structure Activated (root : RootKey) (db : Database) (ring : Keyring) (now : Int) (key : DataKey)
    (rotation : Uuid) (kept : List RegistryKey) (db' : Database) : Prop where
  ready : db.state.phase = .ready
  retired : ∃ refs, db.validateResources ring true = .ok refs ∧
    kept = db.registry.filter fun k => !k.retires refs now
  room : kept.length < maximumDataKeys
  fresh : ∀ k ∈ kept, k.id ≠ key.id
  eq : db' = db.activated root now key rotation kept

theorem activateDataKey_exit (h : RegistryOk root db) (ha : db.activateDataKey root ring now key rotation = .ok db') :
    ∃ kept, Activated root db ring now key rotation kept db' := by
  obtain ⟨state, hstate, ha⟩ := bind_eq_ok ha
  obtain ⟨rfl, -⟩ := readState_eq_ok.mp hstate
  split at ha
  · cases ha
  rename_i hready
  simp only [not_or, ne_eq, not_not] at hready
  obtain ⟨db₁, hretire, ha⟩ := bind_eq_ok ha
  obtain ⟨db₂, hdemote, ha⟩ := bind_eq_ok ha
  obtain ⟨db₃, hinsert, ha⟩ := bind_eq_ok ha
  -- The retirement.
  obtain ⟨refs, hrefs, hretire⟩ := bind_eq_ok hretire
  rw [h.readRegistry_eq] at hretire
  dsimp only at hretire
  split at hretire
  · cases hretire
  rename_i hroom
  have hkept : db.registry.filter (fun k => k ∉ db.registry.filter (·.retires refs now)) =
      db.registry.filter fun k => !k.retires refs now :=
    filter_congr fun k hk => by simp [hk]
  rw [hkept] at hretire
  have hlen : (db.registry.filter fun k => !k.retires refs now).length < maximumDataKeys := by
    have := length_eq_length_filter_add (l := db.registry) (fun k => k.retires refs now)
    omega
  cases hretire
  -- The row of the old key.
  unfold Database.demote at hdemote
  split at hdemote
  · cases hdemote
    -- The row of the new one.
    unfold Database.insertKey at hinsert
    simp only [wrapDataKey, show ¬ db.state.generation + 1 < 1 by omega, if_false] at hinsert
    split at hinsert
    · cases hinsert
    rename_i hfresh
    cases hinsert
    refine ⟨_, hready.2, ⟨refs, hrefs, rfl⟩, hlen, fun k hk hid => hfresh ?_, (Except.ok.inj ha).symm⟩
    refine any_eq_true.mpr ⟨k.demoted db.state.activeID, mem_map_of_mem hk, ?_⟩
    simp [k.demoted_id, hid]
  · cases hdemote

/-- A key after `activateDataKey` is one from before, but for its state, or the new one. -/
theorem Activated.cases (ha : Activated root db ring now key rotation kept db') {k : RegistryKey}
    (hk : k ∈ db'.registry) : (∃ x ∈ db.registry, ∃ state, k = { x with state := state } ∧
      (state = .active → x.state = .active ∧ x.id ≠ db.state.activeID)) ∨
      k = freshKey root key (db.state.generation + 1) now := by
  obtain ⟨refs, -, rfl⟩ := ha.retired
  rw [ha.eq] at hk
  rcases Table.mem_snoc.mp hk with hk | hk
  · obtain ⟨x, hx, rfl⟩ := mem_map.mp hk
    exact .inl ⟨x, (mem_filter.mp hx).1, x.demoted_eq _⟩
  · exact .inr hk

theorem Activated.registryOk (h : RegistryOk root db) (ha : Activated root db ring now key rotation kept db') :
    RegistryOk root db' where
  keyed := by
    obtain ⟨refs, -, hkept⟩ := ha.retired
    have hkeyed : Keyed (fun k : RegistryKey => k.id) kept := hkept ▸ h.keyed.filter _
    rw [ha.eq]
    refine (hkeyed.map fun k _ => k.demoted_id _).append fun k hk => ?_
    obtain ⟨x, hx, rfl⟩ := mem_map.mp hk
    rw [x.demoted_id]
    exact ha.fresh x hx
  length := by
    have := ha.room
    rw [ha.eq]
    simp only [Database.activated, length_append, length_map, length_singleton]
    omega
  opens := fun k hk => by
    rcases ha.cases hk with ⟨x, hx, state, rfl, -⟩ | rfl
    · exact h.opens x hx
    · exact unwrapDataKey_eq_some.mpr ⟨Nat.le_add_left .., rfl, rfl⟩
  generations := fun k hk => by
    have hstate : db'.state.generation = db.state.generation + 1 := by rw [ha.eq]; rfl
    rw [hstate]
    rcases ha.cases hk with ⟨x, hx, state, rfl, -⟩ | rfl
    · exact (h.generations x hx).trans (Nat.le_succ _)
    · exact le_refl _
  active := by
    rw [ha.eq]
    exact ⟨freshKey root key (db.state.generation + 1) now, mem_concat_self, rfl, rfl, rfl⟩
  one := fun k hk hst => by
    -- The old key is no longer active, and no other was.
    rcases ha.cases hk with ⟨x, hx, state, rfl, hactive⟩ | rfl
    · obtain ⟨hst', hne⟩ := hactive hst
      exact absurd (h.one x hx hst') hne
    · rw [ha.eq]
      rfl

/-! ## Writes -/

theorem mem_put {row : SecretResource} : r ∈ (table.put row).rows ↔ r = row ∨ (r ∈ table.rows ∧ r.id ≠ row.id) := by
  simp only [ResourceTable.put, mem_append, mem_cons, mem_filter, decide_eq_true_eq]
  constructor
  · rintro (⟨hr, hlt⟩ | rfl | ⟨hr, hlt⟩)
    · exact .inr ⟨hr, ne_of_lt hlt⟩
    · exact .inl rfl
    · exact .inr ⟨hr, ne_of_gt hlt⟩
  · rintro (rfl | ⟨hr, hne⟩)
    · exact .inr (.inl rfl)
    · rcases lt_or_gt_of_ne hne with hlt | hlt
      · exact .inl ⟨hr, hlt⟩
      · exact .inr (.inr ⟨hr, hlt⟩)

theorem mem_delete {id : String} : r ∈ (table.delete id).rows ↔ r ∈ table.rows ∧ r.id ≠ id := by
  simp [ResourceTable.delete]

/-- A change of one table leaves the rows of the others alone. -/
theorem row_set {table' : ResourceTable} (hs : db.sources[source]? = some table)
    (heq : db'.sources = db.sources.set source table') {i : Nat} :
    db'.Row i r ↔ if i = source then r ∈ table'.rows else db.Row i r := by
  have hlt := (List.getElem?_eq_some_iff.mp hs).1
  unfold Database.Row
  rw [heq]
  split
  · rename_i hi
    subst hi
    rw [getElem?_set_self hlt]
    simp
  · rename_i hi
    rw [getElem?_set_ne (Ne.symm hi)]

theorem inTable_exit {f : ResourceTable → ResourceTable} (h : db.inTable source f = .ok db') :
    ∃ table, db.sources[source]? = some table ∧ db' = { db with sources := db.sources.set source (f table) } := by
  unfold Database.inTable at h
  split at h
  · rename_i table hs
    exact ⟨table, hs, (Except.ok.inj h).symm⟩
  · cases h

end Beat.Secrets
