import Beat.Backup.StagingRuns
import Beat.Backup.UploadChunks
import Beat.Backup.UploadPublish

/-!
# The records of an upload over whole runs

A session should publish one record at most, and none once it is cancelled, expired or quarantined.
The record is created before the session is marked, so a crash in between leaves a record that no
session names, while the session is still open (`crash_before_mark_publishes_twice`).
`CarefulPublish` keeps such crashes out, and a removal of the record that fails.

* `Kin`: what `Reconcile` leaves of a table, however far it comes; `Kept`: a record that it leaves alone;
  `reconcileUntil_spares`.
* `PublishOk`: the invariant; `publishOk_step`: every careful step keeps it.
-/

namespace Beat.Backup

open List Fallible Reconciler FileOps

/-! ## Records that a start leaves alone -/

/-- The rows are those of `known`, perhaps in another state, and the keys are unique. -/
structure Kin (known : List BackupRecord) (w : World) : Prop where
  keyed : w.Keyed
  kin : ∀ x ∈ w.records, ∃ y ∈ known, y.id = x.id ∧ y.filename = x.filename

/-- A validated record with its archive. -/
structure Kept (r : BackupRecord) (w : World) : Prop where
  mem : r ∈ w.records
  state : r.state = .validated
  regular : w.archiveIsRegular r.filename = some true

variable {w w' : World} {d : Digest} {validate : Bytes → Except String Unit} {e : PublishEvent}

theorem Kept.congr {r : BackupRecord} (h : Kept r w) (hm : r ∈ w'.records)
    (he : w'.entry r.filename = w.entry r.filename) : Kept r w' where
  mem := hm
  state := h.state
  regular := by
    have hreg := h.regular
    unfold World.archiveIsRegular at hreg ⊢
    rw [he]
    exact hreg

/-- The rows are those of `w`, and the records that were in order still are. -/
structure Spares (w w' : World) : Prop where
  kin : Kin w.records w'
  kept : ∀ {r}, Kept r w → Kept r w'

section Starts
variable {known : List BackupRecord} {now : Int} {io : Faults} {s s' : Reconciler} {x next : BackupRecord}

theorem Spares.transition (h : Spares w s.world) (hk : w.Keyed) (hx : x ∈ w.records) (hid : next.id = x.id)
    (hname : next.filename = x.filename)
    (hnot : ¬(x.state = .validated ∧ s.world.archiveIsRegular x.filename = some true)) :
    Spares w (s.transition now next x.state).world := by
  unfold Reconciler.transition
  split
  · rename_i records ht
    obtain ⟨-, rfl⟩ := transition_eq_some ht
    have hmatch {y : BackupRecord} (hp : (decide (y.id = next.id) && decide (y.state = x.state)) = true) :
        y.id = x.id := by
      simp only [Bool.and_eq_true, decide_eq_true_eq] at hp
      exact hp.1.trans hid
    refine ⟨⟨⟨h.kin.keyed.ids.update fun y _ hp => ?_, h.kin.keyed.filenames.update fun y hy hp => ?_,
      h.kin.keyed.entries⟩, fun y hy => ?_⟩, fun hr => ?_⟩
    · exact hid.trans (hmatch hp).symm
    · obtain ⟨z, hz, hzid, hzname⟩ := h.kin.kin y hy
      rw [hname, ← hzname, hk.ids.eq_of_key hz hx (hzid.trans (hmatch hp))]
    · obtain ⟨z, hz, rfl⟩ := Table.mem_update.mp hy
      split
      · exact ⟨x, hx, hid.symm, hname.symm⟩
      · exact h.kin.kin z hz
    · have hkept := h.kept hr
      refine hkept.congr (Table.mem_update.mpr ⟨_, hkept.mem, (if_neg fun hp => hnot ?_).symm⟩) rfl
      obtain rfl := hk.ids.eq_of_key hr.mem hx (hmatch hp)
      exact ⟨hkept.state, hkept.regular⟩
  · exact h

/-- A record in order is found in order, and no other record touches it or its archive. -/
theorem Spares.record (h : Spares w s.world) (hk : w.Keyed) (hx : x ∈ w.records)
    (hr : reconcileRecord now io s x = .ok s') : Spares w s'.world := by
  cases reconcileRecord_exit hr with
  | idle outcome _ _ => exact h
  | confirmed => exact h
  | moved next outcome hid hname _ hnot _ => exact h.transition hk hx hid hname hnot
  | deleted outcome hdel _ =>
    refine ⟨⟨⟨h.kin.keyed.ids.filter _, h.kin.keyed.filenames.filter _, h.kin.keyed.entries.filter _⟩,
      fun y hy => h.kin.kin y (mem_filter.mp hy).1⟩, @fun r hr => ?_⟩
    have hkept := h.kept hr
    have hxr : x ≠ r := by
      rintro rfl
      rw [hkept.state] at hdel
      cases hdel
    refine hkept.congr (mem_filter.mpr ⟨hkept.mem, decide_eq_true fun he => ?_⟩) ?_
    · exact hxr (hk.ids.eq_of_key hx hr.mem he.symm)
    · exact entry_removeEntry_of_ne s.world fun he => hxr (hk.filenames.eq_of_key hx hr.mem he.symm)

/-- What happens after the records: entries that no record names may go, and terminal records. -/
structure Trimmed (known : List BackupRecord) (w w' : World) : Prop where
  records : ∃ q, w'.records = w.records.filter q ∧ ∀ x, x.state = .validated → q x = true
  entries : ∃ q, w'.entries = w.entries.filter q ∧
    ∀ e, (∃ x ∈ known, x.filename = e.1) → q e = true

variable {w' w w₁ w₂ : World} {stop : ReconcileStop}

theorem Trimmed.spares (ht : Trimmed w.records w₁ w₂) (h : Spares w w₁) : Spares w w₂ := by
  obtain ⟨⟨q, hrecords, hq⟩, p, hentries, hp⟩ := ht
  refine ⟨⟨⟨?_, ?_, ?_⟩, fun x hx => ?_⟩, @fun r hr => ?_⟩
  · rw [hrecords]; exact h.kin.keyed.ids.filter q
  · rw [hrecords]; exact h.kin.keyed.filenames.filter q
  · rw [hentries]; exact h.kin.keyed.entries.filter p
  · rw [hrecords] at hx
    exact h.kin.kin x (mem_filter.mp hx).1
  · have hkept := h.kept hr
    refine hkept.congr (hrecords ▸ mem_filter.mpr ⟨hkept.mem, hq r hkept.state⟩) ?_
    unfold World.entry
    rw [hentries, find?_filter]
    congr 1
    refine Table.find?_congr fun e _ => ?_
    by_cases he : e.1 = r.filename
    · simp [hp e ⟨r, hr.mem, he.symm⟩, he]
    · simp [he]

/-- The sweep looks only at entries that no record names. -/
theorem trimmed_sweep {l : List (String × Entry)} (hl : ∀ e ∈ l, sweepable known e = true)
    (hr : w'.records = w.records)
    (he : w'.entries = w.entries.filter fun e => !l.any fun x => x.1 = e.1 && sweeps x) : Trimmed known w w' := by
  refine ⟨⟨fun _ => true, by simp [hr], fun _ _ => rfl⟩, _, he, ?_⟩
  rintro e ⟨y, hy, hname⟩
  rw [Bool.not_eq_true', any_eq_false]
  intro x hx hp
  simp only [Bool.and_eq_true, decide_eq_true_eq] at hp
  have hsweep := hl x hx
  unfold sweepable at hsweep
  simp only [Bool.and_eq_true, Bool.not_eq_true', any_eq_false] at hsweep
  exact hsweep.2 y hy (by simp [hname, hp.1])

theorem trimmed_expire (s : Reconciler) (now : Int) : Trimmed known s.world (s.expireTerminalRecords now).world := by
  refine ⟨⟨fun x => !isExpired now x, rfl, fun x hx => ?_⟩, fun _ => true, ?_, fun _ _ => rfl⟩
  · simp [isExpired, isTerminal, hx]
  · simp [expireTerminalRecords]

/-- However far a start comes, the rows are the old ones, and those in order are left alone. -/
theorem reconcileUntil_spares (hk : w.Keyed) (h : reconcileUntil now io w stop = .ok w') : Spares w w' := by
  have hrecords {done} {s : Reconciler} (hd : ∀ x ∈ done, x ∈ w.records)
      (hfold : done.foldlM (reconcileRecord now io) { world := w, journal := w.journal } = .ok s) :
      Spares w s.world :=
    foldlM_inv (I := fun s => Spares w s.world) hfold ⟨⟨hk, fun x hx => ⟨x, hx, rfl, rfl⟩⟩, id⟩
      fun x hx _ _ hs hr => hs.record hk (hd x hx) hr
  refine reconcileUntil_rule h (fun n s hfold => ?_) (fun s s' hfold hj => ?_) (fun hl hsame hentries => ?_)
    fun s => (trimmed_expire s now).spares
  · exact hrecords (fun _ hx => mem_of_mem_take hx) hfold
  · obtain ⟨hr, he, -⟩ := resolveJournal_spec hj
    have ht : Trimmed w.records s.world s'.world :=
      ⟨⟨fun _ => true, by simp [hr], fun _ _ => rfl⟩, fun _ => true, by simp [he], fun _ _ => rfl⟩
    exact ht.spares (hrecords (fun _ hx => hx) hfold)
  · exact (trimmed_sweep hl hsame.records hentries).spares

end Starts

/-! ## Changes of the session -/

/-- A validated session stays as it is, and no other becomes validated. -/
structure Still (u u' : Upload) : Prop where
  validated : u.session.state = .validated → u'.session = u.session
  other : u.session.state ≠ .validated → u'.session.state ≠ .validated

variable {u u' : Upload} {s : Publisher}

theorem Still.of_session (h : u'.session = u.session) : Still u u' :=
  ⟨fun _ => h, fun hne => by rw [h]; exact hne⟩

/-- A change of a session that is not validated. -/
theorem Still.of_ne (h : u.session.state ≠ .validated) (h' : u'.session.state ≠ .validated) : Still u u' :=
  ⟨fun he => absurd he h, fun _ => h'⟩

theorem ne_validated_of_writable (h : u.isWritable = true) : u.session.state ≠ .validated := by
  intro he
  simp [Upload.isWritable, he] at h

theorem still_setState {state : UploadState} {reason : String} (hs : state ≠ .validated)
    (h : u.setState state reason = some u') : Still u u' := by
  unfold Upload.setState at h
  split at h
  · rename_i hw
    cases h
    exact .of_ne (ne_validated_of_writable hw) hs
  · cases h

theorem still_quarantine (u : Upload) (reason : String) : Still u (u.quarantine reason) := by
  unfold Upload.quarantine
  cases h : u.setState .quarantined reason with
  | none => exact .of_session rfl
  | some u' =>
    have hne : UploadState.quarantined ≠ .validated := nofun
    exact still_setState hne h

theorem still_expire (u : Upload) (picked : Bool) (now : Int) : Still u (u.expire picked now) := by
  rcases expire_eq u picked now with h | ⟨hw, h⟩
  · exact .of_session (congrArg _ h)
  · rw [h]
    exact .of_ne (ne_validated_of_writable hw) nofun

theorem still_uploadChunk (d : Digest) (u : Upload) (request : UploadChunkRequest) (clock : UploadClock) :
    Still u (u.uploadChunk d request clock).1 := by
  by_cases hopen : u.session.state = .opened
  · have hne : u.session.state ≠ .validated := by rw [hopen]; nofun
    refine .of_ne hne ?_
    have hexit := uploadChunk_exit d u request clock
    generalize (u.uploadChunk d request clock).1 = u' at hexit
    generalize (u.uploadChunk d request clock).2 = answer at hexit
    cases hexit with
    | closed e _ hstate => exact hstate
    | refused | dropped | accepted | again => exact hne
  · refine .of_session ?_
    unfold Upload.uploadChunk
    rw [if_pos hopen]

/-! ## The invariant -/

def Publisher.pending (s : Publisher) : Option String := s.finalize.bind FinalizePhase.pending

/-- What `FinalizeUpload` relies on. -/
def PhaseOk (s : Publisher) : FinalizePhase → Prop
  | .read | .discard => True
  | .assemble _ | .rename _ | .removeArchive _ _ | .removeRecord _ =>
    s.upload.session.state ≠ .validated
  | .validate name _ | .create name =>
    s.upload.session.state ≠ .validated ∧ s.world.archiveIsRegular name = some true
  | .mark id _ =>
    s.upload.session.state ≠ .validated ∧ id ∈ s.created ∧ ∃ r, r.id = id ∧ Kept r s.world

structure PublishOk (s : Publisher) : Prop where
  keyed : s.world.Keyed
  /-- A record of the session is that of the call under way, or the one the session names. -/
  record : ∀ r ∈ s.world.records, r.id ∈ s.created →
    s.pending = some r.id ∨ s.upload.session.state = .validated ∧ r.id = s.upload.session.backupID
  validated : s.upload.session.state = .validated → s.upload.session.backupID ∈ s.created ∧
    ∃ r, r.id = s.upload.session.backupID ∧ Kept r s.world
  phase : ∀ p, s.finalize = some p → PhaseOk s p

section Invariant
variable {s : Publisher}

variable {p : FinalizePhase} {id : String} {name : String} {now : Int}

theorem PhaseOk.still {cancels : Nat → Option CancelPhase} (h : PhaseOk s p) (hu : Still s.upload u') :
    PhaseOk { s with upload := u', cancels := cancels } p := by
  cases p with
  | read => trivial
  | discard => trivial
  | assemble | rename | removeArchive | removeRecord => exact hu.other h
  | validate | create => exact ⟨hu.other h.1, h.2⟩
  | mark => exact ⟨hu.other h.1, h.2⟩

/-- Calls that do not validate the session. -/
theorem PublishOk.still (h : PublishOk s) (hu : Still s.upload u') (cancels : Nat → Option CancelPhase) :
    PublishOk { s with upload := u', cancels := cancels } where
  keyed := h.keyed
  record r hr hc := by
    rcases h.record r hr hc with hp | ⟨hv, hid⟩
    · exact .inl hp
    · refine .inr ?_
      rw [hu.validated hv]
      exact ⟨hv, hid⟩
  validated hv := by
    have hold : s.upload.session.state = .validated := by
      by_contra hne
      exact hu.other hne hv
    rw [hu.validated hold]
    exact h.validated hold
  phase p hp := (h.phase p hp).still hu

/-- The call goes on or returns, with no record under way before. -/
theorem PublishOk.goes (h : PublishOk s) (hp : s.pending = none) {p : Option FinalizePhase}
    (hok : p.elim True (PhaseOk s)) : PublishOk { s with finalize := p } where
  keyed := h.keyed
  record r hr hc := by
    rcases h.record r hr hc with hpend | hv
    · rw [hp] at hpend
      cases hpend
    · exact .inr hv
  validated := h.validated
  phase q hq := by
    cases hq
    cases q with
    | read | discard | assemble | rename | removeArchive | removeRecord | validate | create | mark =>
      exact hok

/-- While no record of the session is under way, entries may change before the session is validated. -/
theorem PublishOk.world (h : PublishOk s) (hv : s.upload.session.state ≠ .validated)
    (hw : w'.records = s.world.records ∧ Table.Keyed (·.1) w'.entries) (p : Option FinalizePhase)
    (hp : p.bind FinalizePhase.pending = s.pending)
    (hok : ∀ q, p = some q → PhaseOk { s with world := w', finalize := p } q) :
    PublishOk { s with world := w', finalize := p } where
  keyed := ⟨hw.1 ▸ h.keyed.ids, hw.1 ▸ h.keyed.filenames, hw.2⟩
  record r hmem hc := by
    rcases h.record r (hw.1 ▸ hmem) hc with hpend | hval
    · exact .inl (hp.trans hpend)
    · exact .inr hval
  validated hval := absurd hval hv
  phase := hok

theorem tryRemove_spec (h : Table.Keyed (·.1) w.entries) (removes : Bool) (name : String) :
    (w.tryRemove removes name).records = w.records ∧ Table.Keyed (·.1) (w.tryRemove removes name).entries := by
  unfold World.tryRemove
  split
  · exact ⟨rfl, h.filter _⟩
  · exact ⟨rfl, h⟩

/-- The archive goes, and the call returns. -/
theorem PublishOk.removed (h : PublishOk s) (hv : s.upload.session.state ≠ .validated)
    (hp : s.pending = none) (removes : Bool) (name : String) :
    PublishOk { s with world := s.world.tryRemove removes name, finalize := none } :=
  h.world hv (tryRemove_spec h.keyed.entries _ _) none hp.symm nofun

theorem PublishOk.tryQuarantine (h : PublishOk s) (luck : PublishLuck) (reason : String) :
    PublishOk (s.tryQuarantine luck reason) := by
  unfold Publisher.tryQuarantine
  split
  · exact h.still (still_quarantine _ _) s.cancels
  · exact h

theorem tryQuarantine_returned (luck : PublishLuck) (reason : String) :
    (s.tryQuarantine luck reason).returned = s.returned.tryQuarantine luck reason := by
  unfold Publisher.tryQuarantine
  split <;> rfl

/-! ## The steps of `FinalizeUpload` -/

theorem not_slash_of_shape {value : String} (h : validUUIDShape value = true) : '/' ∉ value.toList := by
  intro hmem
  unfold validUUIDShape at h
  simp only [Bool.and_eq_true, all_eq_true] at h
  obtain ⟨i, hi, hget⟩ := mem_iff_getElem.mp hmem
  have hslash := h.2 ('/', i) (mk_mem_zipIdx_iff_getElem?.mpr (by rw [getElem?_eq_getElem hi, hget]))
  dsimp only at hslash
  split at hslash
  · simp at hslash
  · exact absurd hslash (by decide)

theorem validFilename_uploadName (id : Uuid) : validFilename (uploadName id) = true := by
  have hchars : (uploadName id).toList = "beat-upload-v1-".toList ++ id.text.toList ++ ".zip".toList := by
    show ("beat-upload-v1-" ++ id.text ++ ".zip").toList = _
    rw [String.toList_append, String.toList_append]
  have hslash : '/' ∉ (uploadName id).toList := by
    have hid := not_slash_of_shape id.shape
    rw [hchars]
    simpa using hid
  have hne : uploadName id ≠ "" := by
    intro he
    rw [he] at hchars
    simp at hchars
  simp only [validFilename, hne, ne_eq, not_false_eq_true, decide_true, Bool.true_and, Bool.or_eq_true,
    decide_eq_true_eq, Bool.not_eq_true', contains_eq_mem, decide_eq_false_iff_not]
  exact .inr hslash

theorem entry_putEntry (w : World) (name : String) (entry : Entry) :
    (w.putEntry name entry).entry name = some entry := by
  have hnone : (w.entries.filter (·.1 ≠ name)).find? (·.1 = name) = none := by
    refine find?_eq_none.mpr fun x hx => ?_
    simpa using (mem_filter.mp hx).2
  unfold World.entry World.putEntry
  rw [find?_append, hnone]
  simp

theorem putEntry_spec (h : Table.Keyed (·.1) w.entries) (name : String) (entry : Entry) :
    (w.putEntry name entry).records = w.records ∧ Table.Keyed (·.1) (w.putEntry name entry).entries :=
  ⟨rfl, (h.filter _).append fun x hx => by simpa using (mem_filter.mp hx).2⟩

theorem createRecord_eq_some {records records' : List BackupRecord} {record : BackupRecord}
    (h : createRecord records record = some records') : records' = records ++ [record] ∧
      ∀ x ∈ records, x.id ≠ record.id ∧ x.filename ≠ record.filename := by
  unfold createRecord at h
  split at h
  · cases h
  rename_i hany
  cases h
  refine ⟨rfl, fun x hx => ?_⟩
  have hno := any_eq_false.mp (Bool.not_eq_true _ ▸ hany) x hx
  simpa [not_or] using hno

/-- The record comes into being. -/
theorem PublishOk.created (h : PublishOk s) (hf : s.finalize = some (.create name)) {records : List BackupRecord}
    (hc : createRecord s.world.records (uploadedRecord id name now) = some records) : PublishOk { s with
      world := { s.world with records := records }
      created := s.created ++ [id]
      finalize := some (.mark id name) } := by
  obtain ⟨rfl, hnew⟩ := createRecord_eq_some hc
  obtain ⟨hv, hreg⟩ : s.upload.session.state ≠ .validated ∧
    s.world.archiveIsRegular name = some true := h.phase _ hf
  -- no record of the session was there before
  have hnone : ∀ r ∈ s.world.records, r.id ∉ s.created := by
    intro r hr hmem
    rcases h.record r hr hmem with hp | ⟨hval, -⟩
    · simp [Publisher.pending, hf, FinalizePhase.pending] at hp
    · exact hv hval
  refine ⟨⟨h.keyed.ids.append fun x hx => (hnew x hx).1,
    h.keyed.filenames.append fun x hx => (hnew x hx).2, h.keyed.entries⟩, fun r hr hmem => ?_,
    fun hval => absurd hval hv, fun p hp => ?_⟩
  · rcases Table.mem_snoc.mp hr with hold | rfl
    · rcases mem_append.mp hmem with hc' | hid
      · exact absurd hc' (hnone r hold)
      · exact absurd (mem_singleton.mp hid) (hnew r hold).1
    · exact .inl rfl
  · cases hp
    exact ⟨hv, mem_concat_self, uploadedRecord id name now, rfl,
      mem_concat_self, rfl, hreg⟩

/-- The session names the record. -/
theorem PublishOk.marked (h : PublishOk s) {upload : Upload} (hf : s.finalize = some (.mark id name))
    (hm : s.upload.markValidated id = some upload) :
    PublishOk { s with upload := upload, finalize := some .discard } := by
  obtain ⟨hv, hid, hkept⟩ : s.upload.session.state ≠ .validated ∧ id ∈ s.created ∧
    ∃ r : BackupRecord, r.id = id ∧ Kept r s.world := h.phase _ hf
  unfold Upload.markValidated at hm
  split at hm
  · cases hm
    refine ⟨h.keyed, fun r hr hc => ?_, fun _ => ⟨hid, hkept⟩, fun p hp => by cases hp; trivial⟩
    rcases h.record r hr hc with hp | ⟨hval, -⟩
    · refine .inr ⟨rfl, ?_⟩
      simp only [Publisher.pending, hf, FinalizePhase.pending, Option.bind_some] at hp
      exact (Option.some.inj hp).symm
    · exact absurd hval hv
  · cases hm

/-- The record goes. -/
theorem PublishOk.recordRemoved (h : PublishOk s) (hf : s.finalize = some (.removeRecord id)) : PublishOk { s with
      world := { s.world with records := deleteRecord s.world.records id }
      finalize := none } := by
  have hv : s.upload.session.state ≠ .validated := h.phase _ hf
  refine ⟨⟨h.keyed.ids.filter _, h.keyed.filenames.filter _, h.keyed.entries⟩, fun r hr hc => ?_,
    fun hval => absurd hval hv, nofun⟩
  obtain ⟨hmem, hne⟩ := mem_filter.mp hr
  rcases h.record r hmem hc with hp | ⟨hval, -⟩
  · simp only [Publisher.pending, hf, FinalizePhase.pending, Option.bind_some] at hp
    exact absurd (Option.some.inj hp).symm (of_decide_eq_true hne)
  · exact absurd hval hv

/-- Every step of `FinalizeUpload` keeps the invariant, if the removal of a record succeeds. -/
theorem PublishOk.finalizeStep (h : PublishOk s) (hf : s.finalize = some p) {luck : PublishLuck}
    (hcare : ∀ id, p = .removeRecord id → luck.ok = true) : PublishOk (s.finalizeStep d validate luck p) := by
  have hphase := h.phase p hf
  have hpend : s.pending = p.pending := by simp [Publisher.pending, hf]
  have hquarantine (reason : String) (hp : s.pending = none) :
      PublishOk (s.tryQuarantine luck reason).returned := by
    have hreturned : PublishOk s.returned := h.goes hp trivial
    rw [tryQuarantine_returned]
    exact hreturned.tryQuarantine luck reason
  cases p with
  | read =>
    simp only [Publisher.finalizeStep]
    split
    · exact h.goes hpend trivial
    · rename_i hopen
      have hne : s.upload.session.state ≠ .validated := by
        rw [not_or, not_not] at hopen
        rw [hopen.2]
        nofun
      split
      · exact h.goes hpend trivial
      · exact h.goes hpend hne
  | assemble chunks =>
    simp only [Publisher.finalizeStep]
    split
    · split
      · exact hquarantine _ hpend
      · split
        · exact hquarantine _ hpend
        · exact h.goes hpend hphase
    · exact h.goes hpend trivial
  | rename content =>
    simp only [Publisher.finalizeStep]
    split
    · refine h.world hphase (putEntry_spec h.keyed.entries _ _) _ hpend.symm fun q hq => ?_
      cases hq
      refine ⟨hphase, ?_⟩
      simp only [World.archiveIsRegular, validFilename_uploadName, entry_putEntry, if_true,
        Option.any_some, Entry.isRegular]
    · exact h.goes hpend trivial
  | validate name content =>
    simp only [Publisher.finalizeStep]
    split
    · exact h.goes hpend hphase
    · rw [tryQuarantine_returned]
      exact (h.removed hphase.1 hpend luck.removes name).tryQuarantine luck _
  | create name =>
    simp only [Publisher.finalizeStep]
    split
    · rename_i records hc
      split at hc
      · exact h.created hf hc
      · cases hc
    · exact h.removed hphase.1 hpend luck.removes name
  | mark id name =>
    simp only [Publisher.finalizeStep]
    split
    · rename_i upload hm
      split at hm
      · exact h.marked hf hm
      · cases hm
    · exact h.world hphase.1 ⟨rfl, h.keyed.entries⟩ _ hpend.symm fun q hq => by cases hq; exact hphase.1
  | removeArchive id name =>
    exact h.world hphase (tryRemove_spec h.keyed.entries _ _) _ hpend.symm fun q hq => by cases hq; exact hphase
  | removeRecord id =>
    simp only [Publisher.finalizeStep, hcare id rfl, if_true]
    exact h.recordRemoved hf
  | discard =>
    have hstill : Still s.upload { s.upload with staging := none } := .of_session rfl
    exact (h.still hstill s.cancels).goes hpend trivial

/-! ## Runs -/

/-- No crash between the creation of a record and the end of the call's use of it, and a record that is
to be removed is removed. -/
def CarefulPublish (s : Publisher) : PublishEvent → Prop
  | .restart _ _ _ => s.pending = none
  | .finalizeStep luck => ∀ id, s.finalize = some (.removeRecord id) → luck.ok = true
  | _ => True

theorem PublishOk.cancelStep (h : PublishOk s) (n : Nat) (ok : Bool) (p : CancelPhase) :
    PublishOk (s.cancelStep n ok p) := by
  cases p with
  | set =>
    simp only [Publisher.cancelStep]
    split
    · rename_i upload hset
      split at hset
      · have hne : UploadState.cancelled ≠ .validated := nofun
        exact h.still (still_setState hne hset) _
      · cases hset
    · exact h.still (.of_session rfl) _
  | discard =>
    have hstill : Still s.upload { s.upload with staging := none } := .of_session rfl
    exact h.still hstill _

/-- A start finds the session as it was and leaves its record alone. -/
theorem PublishOk.restart (h : PublishOk s) (hp : s.pending = none) {io : Faults} {stop : ReconcileStop}
    (hr : reconcileUntil now io s.world stop = .ok w') :
    PublishOk { upload := s.upload, world := w', created := s.created } where
  keyed := (reconcileUntil_spares h.keyed hr).kin.keyed
  record r hmem hc := by
    obtain ⟨y, hy, hid, -⟩ := (reconcileUntil_spares h.keyed hr).kin.kin r hmem
    rcases h.record y hy (hid ▸ hc) with hpend | ⟨hval, hname⟩
    · rw [hp] at hpend
      cases hpend
    · exact .inr ⟨hval, hid ▸ hname⟩
  validated hval := by
    obtain ⟨hmem, r, hid, hkept⟩ := h.validated hval
    exact ⟨hmem, r, hid, (reconcileUntil_spares h.keyed hr).kept hkept⟩
  phase := nofun

end Invariant

/-- Every careful step keeps the invariant. -/
theorem publishOk_step {s' : Publisher} (h : PublishOk s) (hcare : CarefulPublish s e)
    (hs : PublishStep d validate s e s') : PublishOk s' := by
  unfold PublishStep at hs
  cases e with
  | finalize =>
    simp only [publishNext] at hs
    split at hs
    · rename_i hnone
      cases hs
      have hp : s.pending = none := by simp [Publisher.pending, Option.isNone_iff_eq_none.mp hnone]
      exact h.goes hp trivial
    · cases hs
  | finalizeStep luck =>
    obtain ⟨p, hp, rfl⟩ := Option.map_eq_some_iff.mp hs
    exact h.finalizeStep hp fun id hid => hcare id (hid ▸ hp)
  | cancel n =>
    simp only [publishNext] at hs
    split at hs
    · cases hs
    split at hs
    · cases hs
      exact h.still (.of_session rfl) _
    · cases hs
      exact h
  | cancelStep n ok =>
    obtain ⟨p, hp, rfl⟩ := Option.map_eq_some_iff.mp hs
    exact h.cancelStep n ok p
  | expire picked now =>
    cases hs
    exact h.still (still_expire _ _ _) _
  | chunk request clock =>
    cases hs
    exact h.still (still_uploadChunk d _ _ _) _
  | restart now io stop =>
    simp only [publishNext] at hs
    split at hs
    · rename_i w' hr
      cases hs
      exact h.restart hcare hr
    · cases hs

/-- An open session, before any call of `FinalizeUpload`. -/
def Unpublished (s : Publisher) : Prop :=
  s.world.Keyed ∧ s.upload.session.state = .opened ∧ s.finalize = none ∧ s.created = []

theorem Unpublished.ok (h : Unpublished s) : PublishOk s := by
  obtain ⟨hk, hopen, hf, hc⟩ := h
  refine ⟨hk, fun r _ hmem => ?_, fun hval => ?_, fun p hp => ?_⟩
  · rw [hc] at hmem
    cases hmem
  · rw [hopen] at hval
    cases hval
  · rw [hf] at hp
    cases hp

def CarefulPublishStep (d : Digest) (validate : Bytes → Except String Unit) (s : Publisher) (e : PublishEvent)
    (s' : Publisher) : Prop := CarefulPublish s e ∧ PublishStep d validate s e s'

/-- **One record at most.** In a run without a crash between the creation of a record and the end of
its call: at most one record of the session is there; a validated session names it; and a session that
is cancelled, expired or quarantined has none but that of a call which is about to remove it. -/
theorem upload_publishes_once {d : Digest} {validate : Bytes → Except String Unit} {s₀ s : Publisher}
    {es : List PublishEvent} (h0 : Unpublished s₀) (hrun : Lts.Run (CarefulPublishStep d validate) s₀ es s) :
    (∀ r ∈ s.world.records, ∀ r' ∈ s.world.records, r.id ∈ s.created → r'.id ∈ s.created → r = r') ∧
    (s.upload.session.state = .validated → ∃ r ∈ s.world.records, r.id ∈ s.created ∧
      r.id = s.upload.session.backupID ∧ ∀ r' ∈ s.world.records, r'.id ∈ s.created → r' = r) ∧
    (s.upload.session.state ≠ .validated → ∀ r ∈ s.world.records, r.id ∈ s.created → s.pending = some r.id) := by
  have h : PublishOk s := hrun.inv h0.ok fun _ _ _ hi hst => publishOk_step hi hst.1 hst.2
  -- the call under way and a validated session exclude each other
  have hexcl {id : String} (hp : s.pending = some id) : s.upload.session.state ≠ .validated := by
    obtain ⟨p, hf, hpp⟩ := Option.bind_eq_some_iff.mp hp
    have hphase := h.phase p hf
    cases p with
    | mark => exact hphase.1
    | removeArchive | removeRecord => exact hphase
    | read | assemble | rename | validate | create | discard => cases hpp
  have hsame {r r' : BackupRecord} (hr : r ∈ s.world.records) (hr' : r' ∈ s.world.records)
      (hc : r.id ∈ s.created) (hc' : r'.id ∈ s.created) : r = r' := by
    refine h.keyed.ids.eq_of_key hr hr' ?_
    rcases h.record r hr hc with hp | ⟨hval, hid⟩ <;> rcases h.record r' hr' hc' with hp' | ⟨hval', hid'⟩
    · exact Option.some.inj (hp.symm.trans hp')
    · exact absurd hval' (hexcl hp)
    · exact absurd hval (hexcl hp')
    · exact hid.trans hid'.symm
  refine ⟨fun r hr r' hr' hc hc' => hsame hr hr' hc hc', fun hval => ?_, fun hval r hr hc => ?_⟩
  · obtain ⟨hmem, r, hid, hkept⟩ := h.validated hval
    have hc : r.id ∈ s.created := hid ▸ hmem
    exact ⟨r, hkept.mem, hc, hid, fun r' hr' hc' => hsame hr' hkept.mem hc' hc⟩
  · rcases h.record r hr hc with hp | ⟨hv, -⟩
    · exact hp
    · exact absurd hv hval

/-! ## One call, and one that is cut off -/

def firstIds : PublishLuck where
  name := ⟨"3f2504e0-4f89-41d3-9a0c-0305e82c3331", by decide⟩
  id := ⟨"3f2504e0-4f89-41d3-9a0c-0305e82c3332", by decide⟩

def secondIds : PublishLuck where
  name := ⟨"3f2504e0-4f89-41d3-9a0c-0305e82c3333", by decide⟩
  id := ⟨"3f2504e0-4f89-41d3-9a0c-0305e82c3334", by decide⟩

/-- The session of one byte, with its chunk. -/
def samplePublisher : Publisher where
  upload := (sampleSent 1).2
  world := { records := [] }

theorem unpublished_sample : Unpublished samplePublisher :=
  ⟨⟨.nil, .nil, .nil⟩, by decide +kernel, rfl, rfl⟩

/-- The events of a call of `FinalizeUpload` that meets no fault. -/
def PublishEvent.isFinalize : PublishEvent → Bool
  | .finalize => true
  | .finalizeStep luck => luck.ok
  | _ => false

theorem careful_finalize {s' : Publisher} (h : (if e.isFinalize then publishNext d validate s e else none) = some s') :
    CarefulPublishStep d validate s e s' := by
  obtain ⟨hfinalize, hstep⟩ := Option.ite_none_right_eq_some.mp h
  refine ⟨?_, hstep⟩
  cases e with
  | finalize => trivial
  | finalizeStep luck => exact fun _ _ => hfinalize
  | _ => exact nomatch hfinalize

/-- One call of `FinalizeUpload` publishes the archive. -/
theorem upload_publishes_once_sample : ∃ es s,
    Lts.Run (CarefulPublishStep sampleDigest fun _ => .ok ()) samplePublisher es s ∧
      s.upload.session.state = .validated ∧ ∃ r ∈ s.world.records, r.id ∈ s.created ∧
        r.id = s.upload.session.backupID ∧ ∀ r' ∈ s.world.records, r'.id ∈ s.created → r' = r := by
  obtain ⟨s, hrun, hval⟩ : ∃ s, Lts.Run (CarefulPublishStep sampleDigest fun _ => .ok ()) samplePublisher
      (.finalize :: replicate 7 (.finalizeStep firstIds)) s ∧ s.upload.session.state = .validated :=
    Lts.Run.computed _ (fun _ _ _ => careful_finalize) (by decide +kernel)
  exact ⟨_, s, hrun, hval, (upload_publishes_once unpublished_sample hrun).2.1 hval⟩

/-- The process dies after the record was created; the next start reconciles, and the upload is
finalised again. -/
def cutOff : List PublishEvent :=
  .finalize :: replicate 5 (.finalizeStep firstIds) ++ [.restart 1 {} .finish, .finalize] ++
    replicate 7 (.finalizeStep secondIds)

/-- Two records of the session are there, and the session names the second. -/
theorem crash_before_mark_publishes_twice : Unpublished samplePublisher ∧ ∃ s,
    Lts.Run (PublishStep sampleDigest fun _ => .ok ()) samplePublisher cutOff s ∧
      s.upload.session.state = .validated ∧ s.world.records.map (fun r => (r.id, r.state)) =
        [(firstIds.id.text, .validated), (secondIds.id.text, .validated)] ∧
      s.created = [firstIds.id.text, secondIds.id.text] ∧ s.upload.session.backupID = secondIds.id.text := by
  exact ⟨unpublished_sample,
    Lts.Run.computed (publishNext sampleDigest fun _ => .ok ()) (fun _ _ _ h => h) (by decide +kernel)⟩

end Beat.Backup
