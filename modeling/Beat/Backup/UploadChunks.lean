import Beat.Backup.Upload
import Beat.Lib.Table

/-!
# The bytes of an upload

What becomes of the file of a chunk over any sequence of calls. A chunk is published under its final
name before the ledger is looked at, and every way out but the first acceptance removes that file. So a
chunk that is sent again, with the same bytes, is answered as accepted and its file is gone.

* `ChunkExit`: what `UploadChunk` can do; `uploadChunk_exit`.
* `UploadLedger`: the invariant of a session and its history; `UploadLedger.call`: every call keeps it.
* `resends`: a call that sends a recorded chunk again; `UploadLedger.acceptances_le_one_iff`: an index is
  accepted more than once exactly if a call of the run is one.
* `chunk_kept_iff`: the file of a recorded chunk is there exactly if no call has sent the chunk again, and
  the archive is assembled exactly if that holds of every index.
-/

namespace Beat.Backup

open List FileOps

/-! ## Histories -/

/-- An `UploadChunk` for the index that was answered with success. -/
def accepts (i : Int) : UploadEvent × UploadAnswer → Bool
  | (.chunk request _, .chunk (.ok _)) => request.index = i
  | _ => false

/-- How often the index was accepted. -/
def acceptances (es : List (UploadEvent × UploadAnswer)) (i : Int) : Nat := es.countP (accepts i)

/-- Some `UploadChunk` for the index was accepted with these bytes. -/
def AcceptedBytes (es : List (UploadEvent × UploadAnswer)) (i : Int) (b : Bytes) : Prop :=
  ∃ request clock c, (.chunk request clock, .chunk (.ok c)) ∈ es ∧ request.index = i ∧ request.body = b

variable {b : Bytes} {es : List (UploadEvent × UploadAnswer)} {i chunkBytes count : Int} {u : Upload}
  {files : Files Int Bytes} {d : Digest} {c : UploadChunk} {request : UploadChunkRequest} {digest : String}
  {size : Int} {session : UploadSession} {chunks : List UploadChunk} {u₀ : Upload}

theorem AcceptedBytes.snoc (h : AcceptedBytes es i b) (e : UploadEvent × UploadAnswer) :
    AcceptedBytes (es ++ [e]) i b := by
  obtain ⟨request, clock, c, hmem, hi, hb⟩ := h
  exact ⟨request, clock, c, mem_append_left _ hmem, hi, hb⟩

theorem AcceptedBytes.pos (h : AcceptedBytes es i b) : 1 ≤ acceptances es i := by
  obtain ⟨request, clock, c, hmem, hi, -⟩ := h
  exact countP_pos_iff.mpr ⟨_, hmem, by simp [accepts, hi]⟩

theorem acceptances_snoc (es : List (UploadEvent × UploadAnswer)) (e : UploadEvent × UploadAnswer)
    (i : Int) : acceptances (es ++ [e]) i = acceptances es i + if accepts i e then 1 else 0 := by
  unfold acceptances
  rw [countP_append, countP_singleton]

/-- An index that was accepted once was accepted with one content. -/
theorem AcceptedBytes.unique {b' : Bytes} (h : AcceptedBytes es i b) (h' : AcceptedBytes es i b')
    (h1 : acceptances es i = 1) : b = b' := by
  obtain ⟨request, clock, c, hmem, hi, hb⟩ := h
  obtain ⟨request', clock', c', hmem', hi', hb'⟩ := h'
  unfold acceptances at h1
  rw [countP_eq_length_filter] at h1
  obtain ⟨x, hx⟩ := length_eq_one_iff.mp h1
  have he := mem_filter.mpr ⟨hmem, show accepts i _ = true by simp [accepts, hi]⟩
  have he' := mem_filter.mpr ⟨hmem', show accepts i _ = true by simp [accepts, hi']⟩
  rw [hx, mem_singleton] at he he'
  have heq := he.trans he'.symm
  simp only [Prod.mk.injEq, UploadEvent.chunk.injEq] at heq
  rw [← hb, ← hb', heq.1.1]

/-! ## What `UploadChunk` can do -/

/-- The parts of a session that no call changes. -/
def SameSession (s s' : UploadSession) : Prop :=
  s'.declaredBytes = s.declaredBytes ∧ s'.declaredDigest = s.declaredDigest ∧
    s'.chunkBytes = s.chunkBytes ∧ s'.chunkCount = s.chunkCount

/-- The session is open no more; its chunks and counters are as before. -/
structure Closes (u u' : Upload) : Prop where
  session : SameSession u.session u'.session
  chunks : u'.chunks = u.chunks
  bytes : u'.session.receivedBytes = u.session.receivedBytes
  count : u'.session.receivedChunks = u.session.receivedChunks
  state : u'.session.state ≠ .opened

/-- The request comes in time and announces the bytes it sends, for a place of the archive. -/
structure Proper (d : Digest) (u : Upload) (request : UploadChunkRequest) (clock : UploadClock) : Prop where
  state : u.session.state = .opened
  time : clock.now < u.session.expiresAt
  size : request.sizeBytes =
    backupUploadChunkSize request.index u.session.chunkBytes u.session.declaredBytes
  pos : 0 < request.sizeBytes
  offset : request.offset = offsetForBackupUploadChunk request.index u.session.chunkBytes
  length : (request.body.length : Int) = request.sizeBytes
  digest : d.sum request.body = request.digest

/-- The row of a request. -/
def rowOf (d : Digest) (request : UploadChunkRequest) (later : Int) : UploadChunk where
  index := request.index
  offset := request.offset
  sizeBytes := request.sizeBytes
  digest := d.sum request.body
  createdAt := later

inductive ChunkExit (d : Digest) (u : Upload) (request : UploadChunkRequest) (clock : UploadClock) :
    Upload → Except UploadError UploadChunk → Prop
  | refused (e : UploadError) : ChunkExit d u request clock u (.error e)
  | closed {u' : Upload} (e : UploadError) : Closes u u' → u'.session.state ≠ .validated →
      ChunkExit d u request clock u' (.error e)
  /-- The ledger refuses a new chunk. -/
  | dropped {files : Files Int Bytes} (e : UploadError) : u.staging = some files →
      u.chunk request.index = none →
      ChunkExit d u request clock { u with staging := some (files.set request.index none) } (.error e)
  | accepted {files : Files Int Bytes} : Proper d u request clock → u.staging = some files →
      u.chunk request.index = none →
      ChunkExit d u request clock
        ({ u with staging := some (files.set request.index (some request.body)) }.insertChunk
          (rowOf d request clock.later))
        (.ok (rowOf d request clock.later))
  /-- The same bytes again. -/
  | again {files : Files Int Bytes} {c : UploadChunk} : Proper d u request clock → u.staging = some files →
      u.chunk request.index = some c → c.digest = d.sum request.body → c.sizeBytes = request.sizeBytes →
      ChunkExit d u request clock { u with staging := some (files.set request.index none) } (.ok c)

theorem Upload.setState_opened (h : u.session.state = .opened) (state : UploadState) (reason : String) :
    u.setState state reason = some { u with session := { u.session with state := state, lastError := reason } } := by
  simp [Upload.setState, Upload.isWritable, h]

theorem Upload.quarantine_opened (h : u.session.state = .opened) (reason : String) : u.quarantine reason =
      { u with session := { u.session with state := .quarantined, lastError := reason } } := by
  unfold Upload.quarantine
  rw [Upload.setState_opened h]
  rfl

theorem closes_quarantine (h : u.session.state = .opened) (reason : String) : Closes u (u.quarantine reason) := by
  rw [Upload.quarantine_opened h]
  exact ⟨⟨rfl, rfl, rfl, rfl⟩, rfl, rfl, rfl, nofun⟩

theorem closes_expired (u : Upload) : Closes u u.expired :=
  ⟨⟨rfl, rfl, rfl, rfl⟩, rfl, rfl, rfl, nofun⟩

theorem expire_eq (u : Upload) (picked : Bool) (now : Int) :
    u.expire picked now = u ∨ u.isWritable = true ∧ u.expire picked now = u.expired := by
  unfold Upload.expire
  split
  · rename_i h
    exact .inr ⟨h.2.1, rfl⟩
  · exact .inl rfl

theorem expire_cases (u : Upload) (picked : Bool) (now : Int) :
    u.expire picked now = u ∨ Closes u (u.expire picked now) := by
  rcases expire_eq u picked now with h | ⟨-, h⟩
  · exact .inl h
  · rw [h]
    exact .inr (closes_expired u)

theorem writeChunkFile_ok {files' : Files Int Bytes} (h : writeChunkFile d files request = .ok (digest, files')) :
    (request.body.length : Int) = request.sizeBytes ∧ d.sum request.body = request.digest ∧
      digest = d.sum request.body ∧ files' = files.set request.index (some request.body) := by
  unfold writeChunkFile at h
  dsimp only at h
  split at h
  · cases h
  rename_i hlen
  split at h
  · cases h
  rename_i hdigest
  simp only [Except.ok.injEq, Prod.mk.injEq] at h
  -- one byte more would have been read
  have hall : request.body.take (request.sizeBytes + 1).toNat = request.body := by
    refine take_of_length_le ?_
    rw [length_take] at hlen
    omega
  rw [hall] at h hlen hdigest
  exact ⟨not_not.mp hlen, not_not.mp hdigest, h.1.symm, h.2.symm⟩

/-- A proper request comes to the ledger. -/
theorem uploadChunk_proper {clock : UploadClock} (hp : Proper d u request clock) (hs : u.staging = some files) :
    u.uploadChunk d request clock =
      { u with staging := some (files.set request.index (some request.body)) }.recordChunk request
        (d.sum request.body) clock.later := by
  have htake : request.body.take (request.sizeBytes + 1).toNat = request.body :=
    take_of_length_le (by have := hp.length; omega)
  have hwrite : writeChunkFile d files request =
      .ok (d.sum request.body, files.set request.index (some request.body)) := by
    simp [writeChunkFile, htake, hp.length, hp.digest]
  unfold Upload.uploadChunk
  rw [if_neg (by simp [hp.state]), if_neg (Int.not_le.mpr hp.time)]
  rw [if_neg (by rw [← hp.size, ← hp.offset]; have := hp.pos; omega),
    if_neg (by simp [← hp.digest, d.valid]), hs]
  simp only [hwrite]

/-- The ledger of an open session, asked for a chunk that it does not have. -/
theorem appendChunk_new (chunk : UploadChunk) (now : Int) (hopen : u.session.state = .opened)
    (hnone : u.chunk chunk.index = none) :
    u.appendChunk chunk now = (u.expired, .error .closed) ∨ u.appendChunk chunk now = (u, .error .state) ∨
      u.appendChunk chunk now = (u.insertChunk chunk, .ok chunk) := by
  unfold Upload.appendChunk
  rw [if_neg (by simp [hopen]), hnone]
  split_ifs
  · exact .inl rfl
  · exact .inr (.inl rfl)
  · exact .inr (.inr rfl)

theorem recordChunk_exit {clock : UploadClock} (hp : Proper d u request clock) (hs : u.staging = some files) :
    ChunkExit d u request clock
      ({ u with staging := some (files.set request.index (some request.body)) }.recordChunk request
        (d.sum request.body) clock.later).1
      ({ u with staging := some (files.set request.index (some request.body)) }.recordChunk request
        (d.sum request.body) clock.later).2 := by
  have hremove : ({ u with staging := some (files.set request.index (some request.body)) } :
      Upload).removeChunkFile request.index =
      { u with staging := some (files.set request.index none) } := by
    simp [Upload.removeChunkFile, Files.set_set]
  unfold Upload.recordChunk
  split
  · rename_i c hc
    split
    · rename_i hsame
      rw [hremove]
      exact .again hp hs hc hsame.1 hsame.2
    · rw [hremove]
      rw [Upload.quarantine_opened (u := { u with staging := some (files.set request.index none) }) hp.state]
      exact .closed _ ⟨⟨rfl, rfl, rfl, rfl⟩, rfl, rfl, rfl, nofun⟩ nofun
  · rename_i hnone
    obtain h | h | h := appendChunk_new (rowOf d request clock.later) clock.later
      (u := { u with staging := some (files.set request.index (some request.body)) }) hp.state hnone
    all_goals
      unfold rowOf at h
      rw [h]
    · exact .closed _ ⟨⟨rfl, rfl, rfl, rfl⟩, rfl, rfl, rfl, nofun⟩ nofun
    · simp only [hremove]
      exact .dropped _ hs hnone
    · exact .accepted hp hs hnone

theorem uploadChunk_exit (d : Digest) (u : Upload) (request : UploadChunkRequest) (clock : UploadClock) :
    ChunkExit d u request clock (u.uploadChunk d request clock).1 (u.uploadChunk d request clock).2 := by
  unfold Upload.uploadChunk
  split
  · exact .refused _
  · rename_i hopen
    split
    · rcases expire_eq u clock.picked clock.now with he | ⟨-, he⟩
      · rw [he]
        exact .refused _
      · rw [he]
        exact .closed _ (closes_expired u) nofun
    · rename_i htime
      dsimp only
      split
      · exact .refused _
      · rename_i hrange
        split
        · exact .refused _
        · split
          · exact .refused _
          · rename_i files hs
            split
            · exact .refused _
            · rename_i digest files' hw
              obtain ⟨hlen, hdigest, rfl, rfl⟩ := writeChunkFile_ok hw
              have hp : Proper d u request clock :=
                ⟨by simpa using hopen, Int.not_le.mp htime, by omega, by omega, by omega, hlen, hdigest⟩
              exact recordChunk_exit hp hs

/-! ## The invariant -/

/-- The file of a chunk that was accepted with the bytes `b`. -/
structure Intact (d : Digest) (es : List (UploadEvent × UploadAnswer)) (files : Files Int Bytes)
    (c : UploadChunk) (b : Bytes) : Prop where
  file : files c.index = some b
  length : (b.length : Int) = c.sizeBytes
  digest : d.sum b = c.digest
  accepted : AcceptedBytes es c.index b

/-- A session with its history: `u₀` is the session as it was started. -/
structure UploadLedger (d : Digest) (u₀ : Upload) (es : List (UploadEvent × UploadAnswer)) (u : Upload) :
    Prop where
  session : SameSession u₀.session u.session
  keyed : Table.Keyed (·.index) u.chunks
  row : ∀ c ∈ u.chunks, 0 < c.sizeBytes ∧
    c.sizeBytes = backupUploadChunkSize c.index u.session.chunkBytes u.session.declaredBytes ∧
    c.offset = offsetForBackupUploadChunk c.index u.session.chunkBytes
  recorded : ∀ i, 1 ≤ acceptances es i ↔ ∃ c ∈ u.chunks, c.index = i
  bytes : u.session.receivedBytes = (u.chunks.map (·.sizeBytes)).sum
  count : u.session.receivedChunks = u.chunks.length
  files : u.session.state = .opened → ∃ files, u.staging = some files ∧ ∀ c ∈ u.chunks,
    (acceptances es c.index = 1 → ∃ b, Intact d es files c b) ∧
    (2 ≤ acceptances es c.index → files c.index = none)

section Calls
variable {d : Digest} {u₀ u u' : Upload} {es : List (UploadEvent × UploadAnswer)}

theorem SameSession.trans {s s₁ s₂ : UploadSession} (h : SameSession s s₁) (h' : SameSession s₁ s₂) :
    SameSession s s₂ :=
  ⟨h'.1.trans h.1, h'.2.1.trans h.2.1, h'.2.2.1.trans h.2.2.1, h'.2.2.2.trans h.2.2.2⟩

variable {e : UploadEvent × UploadAnswer} {i : Int} {validate : Bytes → Except String Unit} {now : Int}

theorem acceptances_of_refused (he : ∀ i, accepts i e = false) (i : Int) :
    acceptances (es ++ [e]) i = acceptances es i := by
  rw [acceptances_snoc, he i]
  rfl

theorem chunk_eq_none (h : u.chunk i = none) : ∀ c ∈ u.chunks, c.index ≠ i := by
  intro c hc
  simpa using find?_eq_none.mp h c hc

theorem chunk_eq_some (h : u.chunk i = some c) : c ∈ u.chunks ∧ c.index = i :=
  ⟨mem_of_find?_eq_some h, by simpa using find?_some h⟩

/-- A call that neither accepts the chunk nor touches its file. -/
theorem kept_other {files' : Files Int Bytes} (h : (acceptances es c.index = 1 → ∃ b, Intact d es files c b) ∧
      (2 ≤ acceptances es c.index → files c.index = none))
    (hacc : acceptances (es ++ [e]) c.index = acceptances es c.index) (hsame : files' c.index = files c.index) :
    (acceptances (es ++ [e]) c.index = 1 → ∃ b, Intact d (es ++ [e]) files' c b) ∧
      (2 ≤ acceptances (es ++ [e]) c.index → files' c.index = none) := by
  rw [hacc, hsame]
  refine ⟨fun h1 => ?_, h.2⟩
  obtain ⟨b, hb⟩ := h.1 h1
  exact ⟨b, hsame.trans hb.file, hb.length, hb.digest, hb.accepted.snoc e⟩

/-- A call without success that leaves the rows as they are, and their files. -/
theorem UploadLedger.keeps (h : UploadLedger d u₀ es u) (he : ∀ i, accepts i e = false)
    {staging : Option (Files Int Bytes)} (hs : ∀ files, u.staging = some files → ∃ files', staging = some files' ∧
      ∀ c ∈ u.chunks, files' c.index = files c.index) : UploadLedger d u₀ (es ++ [e]) { u with staging } where
  session := h.session
  keyed := h.keyed
  row := h.row
  recorded i := by rw [acceptances_of_refused he]; exact h.recorded i
  bytes := h.bytes
  count := h.count
  files hopen := by
    obtain ⟨files, hfiles, hc⟩ := h.files hopen
    obtain ⟨files', hs', hsame⟩ := hs files hfiles
    exact ⟨files', hs', fun c hmem => kept_other (hc c hmem) (acceptances_of_refused he _) (hsame c hmem)⟩

theorem UploadLedger.unchanged (h : UploadLedger d u₀ es u) (he : ∀ i, accepts i e = false) :
    UploadLedger d u₀ (es ++ [e]) u :=
  h.keeps he fun files hs => ⟨files, hs, fun _ _ => rfl⟩

theorem UploadLedger.closes (h : UploadLedger d u₀ es u) (he : ∀ i, accepts i e = false) (hc : Closes u u') :
    UploadLedger d u₀ (es ++ [e]) u' where
  session := h.session.trans hc.session
  keyed := by rw [hc.chunks]; exact h.keyed
  row c hmem := by
    rw [hc.session.2.2.1, hc.session.1]
    exact h.row c (hc.chunks ▸ hmem)
  recorded i := by rw [acceptances_of_refused he, hc.chunks]; exact h.recorded i
  bytes := by rw [hc.bytes, hc.chunks]; exact h.bytes
  count := by rw [hc.count, hc.chunks]; exact h.count
  files hopen := absurd hopen hc.state

/-- The file of a chunk that is not recorded comes and goes. -/
theorem UploadLedger.dropped (h : UploadLedger d u₀ es u) (he : ∀ i, accepts i e = false)
    (hs : u.staging = some files) (hnone : u.chunk i = none) :
    UploadLedger d u₀ (es ++ [e]) { u with staging := some (files.set i none) } := by
  refine h.keeps he fun files' hs' => ⟨_, rfl, fun c hc => ?_⟩
  obtain rfl : files = files' := Option.some.inj (hs.symm.trans hs')
  exact Files.set_of_ne (chunk_eq_none hnone c hc) _ _

section Success
variable {request : UploadChunkRequest} {clock : UploadClock} {files : Files Int Bytes} {c : UploadChunk}

theorem acceptances_self (hi : request.index = i) (stored : UploadChunk) :
    acceptances (es ++ [(.chunk request clock, .chunk (.ok stored))]) i = acceptances es i + 1 := by
  rw [acceptances_snoc, if_pos (by simp [accepts, hi])]

theorem acceptances_other (hi : request.index ≠ i) (stored : UploadChunk) :
    acceptances (es ++ [(.chunk request clock, .chunk (.ok stored))]) i = acceptances es i := by
  rw [acceptances_snoc, if_neg (by simp [accepts, hi])]
  rfl

/-- The first acceptance of an index. -/
theorem UploadLedger.accepted (h : UploadLedger d u₀ es u) (hp : Proper d u request clock)
    (hs : u.staging = some files) (hnone : u.chunk request.index = none) : UploadLedger d u₀
      (es ++ [(.chunk request clock, .chunk (.ok (rowOf d request clock.later)))])
      ({ u with staging := some (files.set request.index (some request.body)) }.insertChunk
        (rowOf d request clock.later)) where
  session := h.session
  keyed := h.keyed.append fun x hx => chunk_eq_none hnone x hx
  row c hc := by
    rcases Table.mem_snoc.mp hc with hold | rfl
    · exact h.row c hold
    · exact ⟨hp.pos, hp.size, hp.offset⟩
  recorded i := by
    by_cases hi : request.index = i
    · subst hi
      refine ⟨fun _ => ⟨rowOf d request clock.later, by simp [Upload.insertChunk], rfl⟩, fun _ => ?_⟩
      rw [acceptances_self rfl]
      exact Nat.le_add_left _ _
    · rw [acceptances_other hi, h.recorded i]
      constructor
      · rintro ⟨c, hc, hci⟩
        exact ⟨c, mem_append_left _ hc, hci⟩
      · rintro ⟨c, hc, hci⟩
        rcases Table.mem_snoc.mp hc with hold | rfl
        · exact ⟨c, hold, hci⟩
        · exact absurd hci hi
  bytes := by simp [Upload.insertChunk, h.bytes]
  count := by simp [Upload.insertChunk, h.count]
  files hopen := by
    obtain ⟨files', hs', hfiles⟩ := h.files hopen
    obtain rfl : files = files' := Option.some.inj (hs.symm.trans hs')
    refine ⟨_, rfl, fun c hc => ?_⟩
    rcases Table.mem_snoc.mp hc with hold | rfl
    · have hne : c.index ≠ request.index := chunk_eq_none hnone c hold
      exact kept_other (hfiles c hold) (acceptances_other (Ne.symm hne) _) (Files.set_of_ne hne _ _)
    · -- nothing was accepted for this index before
      have hzero : acceptances es (rowOf d request clock.later).index = 0 := by
        by_contra hne
        obtain ⟨x, hx, hxi⟩ := (h.recorded _).mp (Nat.one_le_iff_ne_zero.mpr hne)
        exact chunk_eq_none hnone x hx hxi
      rw [acceptances_self (show request.index = (rowOf d request clock.later).index from rfl), hzero]
      refine ⟨fun _ => ⟨request.body, Files.set_self _ _ _, hp.length, rfl, ?_⟩, fun h2 => by omega⟩
      exact ⟨request, clock, _, mem_concat_self, rfl, rfl⟩

/-- The same bytes again: the answer is a success, and the file is gone. -/
theorem UploadLedger.again (h : UploadLedger d u₀ es u) (hs : u.staging = some files)
    (hc : u.chunk request.index = some c) : UploadLedger d u₀ (es ++ [(.chunk request clock, .chunk (.ok c))])
      { u with staging := some (files.set request.index none) } where
  session := h.session
  keyed := h.keyed
  row := h.row
  recorded i := by
    obtain ⟨hmem, hci⟩ := chunk_eq_some hc
    by_cases hi : request.index = i
    · subst hi
      refine ⟨fun _ => ⟨c, hmem, hci⟩, fun _ => ?_⟩
      rw [← hci, acceptances_self hci.symm]
      omega
    · rw [acceptances_other hi]
      exact h.recorded i
  bytes := h.bytes
  count := h.count
  files hopen := by
    obtain ⟨files', hs', hfiles⟩ := h.files hopen
    obtain rfl : files = files' := Option.some.inj (hs.symm.trans hs')
    refine ⟨_, rfl, fun x hx => ?_⟩
    by_cases hxi : x.index = request.index
    · have hpos : 1 ≤ acceptances es x.index := (h.recorded _).mpr ⟨x, hx, rfl⟩
      rw [acceptances_self hxi.symm]
      refine ⟨fun h1 => by omega, fun _ => ?_⟩
      rw [hxi]
      exact Files.set_self _ _ _
    · exact kept_other (hfiles x hx) (acceptances_other (Ne.symm hxi) _) (Files.set_of_ne hxi _ _)

end Success

theorem finalizeUpload_cases (d : Digest) (validate : Bytes → Except String Unit) (u : Upload) (backupID : String) :
    (u.finalizeUpload d validate backupID).1 = u ∨ Closes u (u.finalizeUpload d validate backupID).1 := by
  unfold Upload.finalizeUpload
  split
  · exact .inl rfl
  · rename_i hopen
    have hstate : u.session.state = .opened := by simpa using hopen
    split
    · exact .inl rfl
    · split
      · exact .inr (closes_quarantine hstate _)
      · exact .inl rfl
      · split
        · exact .inr (closes_quarantine hstate _)
        · split
          · exact .inr (closes_quarantine hstate _)
          · simp only [Upload.markValidated, hstate, if_true]
            exact .inr ⟨⟨rfl, rfl, rfl, rfl⟩, rfl, rfl, rfl, nofun⟩

theorem cancelUpload_cases (u : Upload) : u.cancelUpload.1 = u ∨ Closes u u.cancelUpload.1 := by
  unfold Upload.cancelUpload
  split
  · exact .inl rfl
  · rename_i hopen
    rw [Upload.setState_opened (by simpa using hopen)]
    exact .inr ⟨⟨rfl, rfl, rfl, rfl⟩, rfl, rfl, rfl, nofun⟩

/-- A call that leaves the session as it is or closes it. -/
theorem UploadLedger.stays_or_closes (h : UploadLedger d u₀ es u) (he : ∀ i, accepts i e = false)
    (hc : u' = u ∨ Closes u u') : UploadLedger d u₀ (es ++ [e]) u' := by
  rcases hc with rfl | hc
  · exact h.unchanged he
  · exact h.closes he hc

/-- Every call keeps the invariant. -/
theorem UploadLedger.call (h : UploadLedger d u₀ es u) (hc : UploadCall d validate u e u') :
    UploadLedger d u₀ (es ++ [e]) u' := by
  obtain ⟨event, answer⟩ := e
  have hc : uploadStep d validate u event = (u', answer) := hc
  obtain ⟨rfl, rfl⟩ : (uploadStep d validate u event).1 = u' ∧ (uploadStep d validate u event).2 = answer := by
    simp only [hc, and_self]
  clear hc
  cases event with
  | chunk request clock =>
    have hexit := uploadChunk_exit d u request clock
    simp only [uploadStep]
    generalize (u.uploadChunk d request clock).1 = u' at hexit
    generalize (u.uploadChunk d request clock).2 = answer at hexit
    cases hexit with
    | refused e => exact h.unchanged fun _ => rfl
    | closed e hcl _ => exact h.closes (fun _ => rfl) hcl
    | dropped e hs hnone => exact h.dropped (fun _ => rfl) hs hnone
    | accepted hp hs hnone => exact h.accepted hp hs hnone
    | again _ hs hc _ _ => exact h.again hs hc
  | cancel => exact h.stays_or_closes (fun _ => rfl) (cancelUpload_cases u)
  | expire picked now => exact h.stays_or_closes (fun _ => rfl) (expire_cases u picked now)
  | finalize backupID => exact h.stays_or_closes (fun _ => rfl) (finalizeUpload_cases d validate u backupID)

theorem startUpload_ok (h : startUpload size digest now = .ok u) :
    backupUploadGeometry size = some (u.session.chunkBytes, u.session.chunkCount) ∧
      u.session.declaredBytes = size ∧ u.session.declaredDigest = digest ∧ UploadLedger d u [] u := by
  unfold startUpload at h
  split at h
  · cases h
  split at h
  · cases h
  rename_i chunkBytes chunkCount hg
  cases h
  refine ⟨hg, rfl, rfl, ⟨rfl, rfl, rfl, rfl⟩, .nil, nofun, fun i => ?_, rfl, rfl, fun _ => ?_⟩
  · exact ⟨fun h => absurd h (by simp [acceptances]), fun ⟨_, hc, _⟩ => (nomatch hc)⟩
  · exact ⟨_, rfl, nofun⟩

theorem ledger_of_run (h0 : startUpload size digest now = .ok u₀) (hrun : Lts.Run (UploadCall d validate) u₀ es u) :
    UploadLedger d u₀ es u :=
  hrun.hist (startUpload_ok h0).2.2.2 fun _ _ _ _ _ h hc => h.call hc

end Calls

/-! ## The archive -/

/-- The chunks tile an archive that is not empty. -/
theorem geometry_spec (h : backupUploadGeometry size = some (chunkBytes, count)) : size = 0 ∧ count = 1 ∨
    0 < chunkBytes ∧ 1 ≤ count ∧ count ≤ MaximumBackupUploadChunks ∧
      (count - 1) * chunkBytes < size ∧ size ≤ count * chunkBytes := by
  unfold backupUploadGeometry at h
  split at h
  · cases h
  split at h
  · rename_i hzero
    cases h
    exact .inl ⟨hzero, rfl⟩
  · extract_lets even enough bytes count at h
    have hbytes : 0 < bytes := by
      have hmin : (0 : Int) < MinimumBackupUploadChunkBytes := by decide
      have hmax : (0 : Int) < MaximumBackupUploadChunkBytes := by decide
      unfold bytes enough
      split_ifs <;> omega
    split at h
    · cases h
    rename_i hcount
    simp only [Option.some.injEq, Prod.mk.injEq] at h
    obtain ⟨rfl, rfl⟩ := h
    have hdiv : bytes * count + (size + bytes - 1) % bytes = size + bytes - 1 :=
      Int.mul_ediv_add_emod _ _
    have hlt := Int.emod_lt_of_pos (size + bytes - 1) hbytes
    have hnonneg := Int.emod_nonneg (size + bytes - 1) (Int.ne_of_gt hbytes)
    refine .inr ⟨hbytes, by omega, by omega, ?_, ?_⟩
    · rw [Int.sub_mul, Int.mul_comm]
      omega
    · rw [Int.mul_comm]
      omega

/-- A chunk of the archive that is not empty is one of the `count`. -/
theorem chunkSize_pos {index declared : Int} (h : 0 < backupUploadChunkSize index chunkBytes declared)
    (hb : 0 < chunkBytes) (hall : declared ≤ count * chunkBytes) : 0 ≤ index ∧ index < count := by
  unfold backupUploadChunkSize at h
  split at h
  · omega
  · split at h
    · omega
    · refine ⟨by omega, ?_⟩
      have hlt : index * chunkBytes < count * chunkBytes := by omega
      exact Int.lt_of_mul_lt_mul_right hlt (Int.le_of_lt hb)

/-- The bytes before a position, and the bytes of its chunk. -/
theorem chunkSize_step {position declared : Int} (h0 : 0 ≤ position)
    (hmax : position < MaximumBackupUploadChunks) (hb : 0 < chunkBytes) (hlt : position * chunkBytes < declared) :
    position * chunkBytes + backupUploadChunkSize position chunkBytes declared =
      min ((position + 1) * chunkBytes) declared := by
  have hnonneg : 0 ≤ position * chunkBytes := Int.mul_nonneg h0 (Int.le_of_lt hb)
  have hsucc : (position + 1) * chunkBytes = position * chunkBytes + chunkBytes := by
    rw [Int.add_mul, Int.one_mul]
  unfold backupUploadChunkSize
  split <;> omega

/-- Chunks in their order, from `position` to the end of the archive. -/
theorem chunksComplete_ok (hb : 0 < session.chunkBytes) (hmax : count ≤ MaximumBackupUploadChunks)
    (hlast : (count - 1) * session.chunkBytes < session.declaredBytes)
    (hall : session.declaredBytes ≤ count * session.chunkBytes) (chunks : List UploadChunk) (position : Int)
    (h0 : 0 ≤ position) (hlen : position + chunks.length = count)
    (hidx : ∀ (k : Nat) c, chunks[k]? = some c → c.index = position + k ∧
      c.sizeBytes = backupUploadChunkSize c.index session.chunkBytes session.declaredBytes ∧
      c.offset = offsetForBackupUploadChunk c.index session.chunkBytes) :
    chunksComplete session position (min (position * session.chunkBytes) session.declaredBytes) chunks = .ok () ∧
      min (position * session.chunkBytes) session.declaredBytes + (chunks.map (·.sizeBytes)).sum =
        session.declaredBytes := by
  induction chunks generalizing position with
  | nil =>
    obtain rfl : position = count := by simpa using hlen
    unfold chunksComplete
    rw [if_neg (by omega), map_nil, sum_nil]
    exact ⟨rfl, by omega⟩
  | cons c chunks ih =>
    obtain ⟨hzero, hsize, hoffset⟩ := hidx 0 c rfl
    have hi : c.index = position := by omega
    rw [hi] at hsize hoffset
    rw [length_cons] at hlen
    have hbefore : position * session.chunkBytes < session.declaredBytes := by
      have hle : position * session.chunkBytes ≤ (count - 1) * session.chunkBytes :=
        Int.mul_le_mul_of_nonneg_right (by omega) (Int.le_of_lt hb)
      omega
    have hstep := chunkSize_step h0 (by omega) hb hbefore
    have htotal : min (position * session.chunkBytes) session.declaredBytes + c.sizeBytes =
        min ((position + 1) * session.chunkBytes) session.declaredBytes := by
      rw [hsize, Int.min_eq_left (Int.le_of_lt hbefore), hstep]
    unfold chunksComplete
    rw [map_cons, sum_cons, ← Int.add_assoc, if_neg]
    · rw [htotal]
      refine ih (position + 1) (by omega) (by omega) fun k x hx => ?_
      obtain ⟨hxi, hrest⟩ := hidx (k + 1) x (by simpa using hx)
      exact ⟨by omega, hrest⟩
    · rw [htotal]
      rintro (hne | hne | hne | hlt)
      · exact hne hi
      · exact hne hsize
      · exact hne hoffset
      · omega

theorem copyUploadChunk_ok (h : Intact d es files c b) : copyUploadChunk d files c = .ok b := by
  unfold copyUploadChunk
  rw [h.file]
  simp [h.length, h.digest]

theorem copyUploadChunks_ok {bodies : List Bytes}
    (h : List.Forall₂ (fun c b => copyUploadChunk d files c = .ok b) chunks bodies) :
    copyUploadChunks d files chunks = .ok bodies.flatten := by
  induction h with
  | nil => rfl
  | cons hc _ ih => simp [copyUploadChunks, hc, ih]

/-- A file that is gone makes the assembly fail. -/
theorem copyUploadChunks_missing (hc : c ∈ chunks) (hgone : files c.index = none) :
    copyUploadChunks d files chunks = .error .staging := by
  have honly (x : UploadChunk) (e : UploadError) (h : copyUploadChunk d files x = .error e) :
      e = .staging := by
    unfold copyUploadChunk at h
    split at h
    · cases h; rfl
    · split at h
      · cases h; rfl
      · cases h
  induction chunks with
  | nil => cases hc
  | cons x chunks ih =>
    unfold copyUploadChunks
    split
    · rename_i e hx
      rw [honly x e hx]
    · rename_i content hx
      rcases mem_cons.mp hc with rfl | hmem
      · simp [copyUploadChunk, hgone] at hx
      · rw [ih hmem]

section Complete
variable {d : Digest} {u₀ u : Upload} {es : List (UploadEvent × UploadAnswer)} {bodies : List Bytes} {k : Nat}

theorem length_flatten_of_forall₂
    (h : List.Forall₂ (fun (c : UploadChunk) (b : Bytes) => (b.length : Int) = c.sizeBytes) chunks bodies) :
    (bodies.flatten.length : Int) = (chunks.map (·.sizeBytes)).sum := by
  induction h with
  | nil => rfl
  | cons hc _ ih =>
    rw [flatten_cons, length_append, map_cons, sum_cons, ← hc, ← ih]
    exact Int.natCast_add _ _

/-- Every index was accepted, with the bytes `bodies`, and they are what was declared. -/
structure Sent (d : Digest) (es : List (UploadEvent × UploadAnswer)) (u : Upload) (bodies : List Bytes) :
    Prop where
  length : (bodies.length : Int) = u.session.chunkCount
  accepted : ∀ (k : Nat) b, bodies[k]? = some b → AcceptedBytes es k b
  digest : d.sum bodies.flatten = u.session.declaredDigest

/-- An archive that was sent is not empty, so that its chunks tile it. -/
theorem Sent.geometry (hs : Sent d es u bodies) (h : UploadLedger d u₀ es u)
    (hg : backupUploadGeometry u.session.declaredBytes = some (u.session.chunkBytes, u.session.chunkCount)) :
    0 < u.session.chunkBytes ∧ 1 ≤ u.session.chunkCount ∧ u.session.chunkCount ≤ MaximumBackupUploadChunks ∧
      (u.session.chunkCount - 1) * u.session.chunkBytes < u.session.declaredBytes ∧
      u.session.declaredBytes ≤ u.session.chunkCount * u.session.chunkBytes := by
  refine (geometry_spec hg).resolve_left fun ⟨hsize, hcount⟩ => ?_
  have hlen := hs.length
  have hfirst : 0 < bodies.length := by omega
  have hget : bodies[0]? = some bodies[0] := getElem?_eq_getElem hfirst
  obtain ⟨c, hc, hci⟩ := (h.recorded 0).mp (hs.accepted 0 _ hget).pos
  obtain ⟨hpos, hrow, -⟩ := h.row c hc
  rw [hrow, hci, hsize] at hpos
  unfold backupUploadChunkSize at hpos
  split at hpos <;> omega

section Archive
variable (hs : Sent d es u bodies) (h : UploadLedger d u₀ es u)
  (hg : backupUploadGeometry u.session.declaredBytes = some (u.session.chunkBytes, u.session.chunkCount))
include hs h hg

/-- The rows, in the order of their indexes. -/
theorem Sent.listChunks_index :
    u.listChunks.map (·.index) = (range bodies.length).map (fun k : Nat => (k : Int)) := by
  obtain ⟨hb, -, -, -, hall⟩ := hs.geometry h hg
  have hlen := hs.length
  have hperm : u.listChunks.Perm u.chunks := perm_insertionSort _ _
  refine List.Perm.eq_of_pairwise
    (fun a b _ _ (hab : a ≤ b) (hba : b ≤ a) => Int.le_antisymm hab hba) ?_ ?_ ?_
  · have hsorted := pairwise_insertionSort (fun a b : UploadChunk => a.index ≤ b.index) u.chunks
    exact pairwise_map.mpr hsorted
  · refine pairwise_map.mpr (pairwise_lt_range.imp fun hlt => ?_)
    exact Int.ofNat_le.mpr (Nat.le_of_lt hlt)
  · refine (hperm.map _).trans ((perm_ext_iff_of_nodup h.keyed ?_).mpr fun i => ?_)
    · exact nodup_range.map fun a b hab => Int.ofNat.inj hab
    · simp only [mem_map, mem_range]
      constructor
      · rintro ⟨c, hc, rfl⟩
        obtain ⟨hpos, hsize, -⟩ := h.row c hc
        obtain ⟨h0, hlt⟩ := chunkSize_pos (hsize ▸ hpos) hb hall
        exact ⟨c.index.toNat, by omega, by omega⟩
      · rintro ⟨k, hk, rfl⟩
        exact (h.recorded _).mp (hs.accepted k _ (getElem?_eq_getElem hk)).pos

theorem Sent.length_listChunks : u.listChunks.length = bodies.length := by
  simpa using congrArg List.length (hs.listChunks_index h hg)

theorem Sent.getElem? (hc : u.listChunks[k]? = some c) : c.index = k ∧ c ∈ u.chunks := by
  have hmap := congrArg (·[k]?) (hs.listChunks_index h hg)
  simp only [getElem?_map, hc, Option.map_some] at hmap
  refine ⟨?_, (perm_insertionSort _ _).subset (mem_of_getElem? hc)⟩
  by_cases hk : k < bodies.length
  · rw [getElem?_range hk] at hmap
    exact Option.some.inj hmap
  · rw [getElem?_eq_none (by simpa using hk)] at hmap
    cases hmap

theorem Sent.complete : checkUploadCompleteness u.session u.listChunks = .ok () ∧
    (u.listChunks.map (·.sizeBytes)).sum = u.session.declaredBytes := by
  obtain ⟨hb, hone, hmax, hlast, hall⟩ := hs.geometry h hg
  have hlen := hs.length_listChunks h hg
  have hlength := hs.length
  unfold checkUploadCompleteness
  rw [if_neg (by omega)]
  have hzero : min ((0 : Int) * u.session.chunkBytes) u.session.declaredBytes = 0 := by
    have : 0 ≤ (u.session.chunkCount - 1) * u.session.chunkBytes :=
      Int.mul_nonneg (by omega) (Int.le_of_lt hb)
    omega
  have hall' := chunksComplete_ok hb hmax hlast hall u.listChunks 0 (Int.le_refl 0) (by omega)
    fun k c hc => by
      obtain ⟨hi, hmem⟩ := hs.getElem? h hg hc
      obtain ⟨-, hsize, hoffset⟩ := h.row c hmem
      exact ⟨by omega, hsize, hoffset⟩
  rwa [hzero, Int.zero_add] at hall'

/-- Every index was accepted once: the assembly finds the bytes that were sent. -/
theorem Sent.assembled (hopen : u.session.state = .opened)
    (honce : ∀ k : Nat, k < bodies.length → acceptances es k = 1) : u.assembleArchive d = .ok bodies.flatten ∧
      (bodies.flatten.length : Int) = u.session.declaredBytes := by
  obtain ⟨files, hstaging, hfiles⟩ := h.files hopen
  have hlen := hs.length_listChunks h hg
  have hfile : List.Forall₂ (fun c b => Intact d es files c b) u.listChunks bodies := by
    refine forall₂_iff_get.mpr ⟨hlen, fun k hk hk' => ?_⟩
    obtain ⟨hi, hmem⟩ := hs.getElem? h hg (getElem?_eq_getElem hk)
    have h1 : acceptances es u.listChunks[k].index = 1 := by rw [hi]; exact honce k hk'
    obtain ⟨b, hb⟩ := (hfiles _ hmem).1 h1
    have hsent : AcceptedBytes es u.listChunks[k].index bodies[k] := by
      rw [hi]
      exact hs.accepted k _ (getElem?_eq_getElem hk')
    rw [get_eq_getElem, get_eq_getElem, ← hb.accepted.unique hsent h1]
    exact hb
  refine ⟨?_, ?_⟩
  · unfold Upload.assembleArchive
    rw [hstaging]
    exact copyUploadChunks_ok (hfile.imp fun _ _ => copyUploadChunk_ok)
  · rw [length_flatten_of_forall₂ (hfile.imp fun _ _ hi => hi.length), (hs.complete h hg).2]

omit hg in
/-- An index was accepted again: its file is gone. -/
theorem Sent.not_assembled (hopen : u.session.state = .opened) (hk : k < bodies.length) (hmore : acceptances es k ≠ 1) :
    u.assembleArchive d = .error .staging := by
  obtain ⟨files, hstaging, hfiles⟩ := h.files hopen
  have hpos := (hs.accepted k _ (getElem?_eq_getElem hk)).pos
  obtain ⟨c, hc, hci⟩ := (h.recorded k).mp hpos
  have hgone : files c.index = none := (hfiles c hc).2 (by rw [hci]; omega)
  unfold Upload.assembleArchive
  rw [hstaging]
  exact copyUploadChunks_missing ((perm_insertionSort _ _).symm.subset hc) hgone

theorem Sent.finalize_iff (validate : Bytes → Except String Unit) (backupID : String) (hopen : u.session.state = .opened) :
    (u.finalizeUpload d validate backupID).2 =
        ((validate bodies.flatten).mapError .archive).map (fun _ => bodies.flatten) ↔
      ∀ k : Nat, k < bodies.length → acceptances es k = 1 := by
  constructor
  · intro hanswer k hk
    by_contra hmore
    unfold Upload.finalizeUpload at hanswer
    rw [if_neg (by simp [hopen]), (hs.complete h hg).1, hs.not_assembled h hopen hk hmore] at hanswer
    cases hv : validate bodies.flatten <;> simp [hv, Except.map, Except.mapError] at hanswer
  · intro honce
    obtain ⟨hassembled, hlength⟩ := hs.assembled h hg hopen honce
    unfold Upload.finalizeUpload
    rw [if_neg (by simp [hopen]), (hs.complete h hg).1, hassembled]
    simp only [hlength, hs.digest, ne_eq, not_true_eq_false, or_self, if_false,
      Upload.markValidated, hopen, if_true]
    cases validate bodies.flatten <;> rfl

end Archive
end Complete

/-! ## The result -/

/-- The staging file of a chunk holds the recorded number of bytes with the recorded digest. -/
def ChunkFile (d : Digest) (u : Upload) (c : UploadChunk) : Prop :=
  ∃ files b, u.staging = some files ∧ files c.index = some b ∧ (b.length : Int) = c.sizeBytes ∧
    d.sum b = c.digest

/-- The request that sends the bytes of a recorded chunk again. -/
def resubmission (c : UploadChunk) (b : Bytes) : UploadChunkRequest where
  index := c.index
  offset := c.offset
  sizeBytes := c.sizeBytes
  digest := c.digest
  body := b

theorem UploadLedger.chunkFile_iff (h : UploadLedger d u₀ es u) (hopen : u.session.state = .opened)
    (hc : c ∈ u.chunks) : ChunkFile d u c ↔ acceptances es c.index = 1 := by
  obtain ⟨files, hs, hfiles⟩ := h.files hopen
  constructor
  · rintro ⟨files', b, hs', hb, -⟩
    obtain rfl : files = files' := Option.some.inj (hs.symm.trans hs')
    have hpos := (h.recorded _).mpr ⟨c, hc, rfl⟩
    by_contra hmore
    rw [(hfiles c hc).2 (by omega)] at hb
    cases hb
  · intro h1
    obtain ⟨b, hb⟩ := (hfiles c hc).1 h1
    exact ⟨files, b, hs, hb.file, hb.length, hb.digest⟩

/-- The same bytes again are a success, and take the file away. -/
theorem UploadLedger.resubmitted (h : UploadLedger d u₀ es u) (hopen : u.session.state = .opened) (hc : c ∈ u.chunks)
    {clock : UploadClock} (hd : d.sum b = c.digest) (hl : (b.length : Int) = c.sizeBytes)
    (ht : clock.now < u.session.expiresAt) : u.uploadChunk d (resubmission c b) clock =
      ({ u with staging := u.staging.map (·.set c.index none) }, .ok c) := by
  obtain ⟨hpos, hsize, hoffset⟩ := h.row c hc
  obtain ⟨files, hs, -⟩ := h.files hopen
  have hfind (staging) : ({ u with staging } : Upload).chunk (resubmission c b).index = some c :=
    Table.find?_eq_some_of_unique hc (by simp [resubmission]) fun x hx hq =>
      h.keyed.eq_of_key hx hc (of_decide_eq_true hq)
  rw [uploadChunk_proper ⟨hopen, ht, hsize, hpos, hoffset, hl, hd⟩ hs]
  unfold Upload.recordChunk
  rw [hfind]
  simp [resubmission, Upload.removeChunkFile, Files.set_set, hs, hd]

/-- The call comes in time to an open session and sends the bytes of the recorded chunk of the index again. -/
def resends (d : Digest) (u : Upload) (i : Int) : UploadEvent → Bool
  | .chunk request clock => u.session.state = .opened && clock.now < u.session.expiresAt &&
      u.chunks.any fun c => c.index = i && request = resubmission c request.body &&
        (request.body.length : Int) = c.sizeBytes && d.sum request.body = c.digest
  | _ => false

/-- Some call of the run does. -/
def resent (d : Digest) (validate : Bytes → Except String Unit) (i : Int) :
    Upload → List (UploadEvent × UploadAnswer) → Bool
  | _, [] => false
  | u, e :: es => resends d u i e.1 || resent d validate i (uploadStep d validate u e.1).1 es

section Resent
variable {d : Digest} {validate : Bytes → Except String Unit} {u₀ u u' : Upload}
  {es fs : List (UploadEvent × UploadAnswer)} {e : UploadEvent × UploadAnswer}

/-- The calls that send a recorded chunk again are those that are accepted for an index that was accepted
before. -/
theorem UploadLedger.resends_iff (h : UploadLedger d u₀ es u) (hc : UploadCall d validate u e u') :
    resends d u i e.1 = true ↔ accepts i e = true ∧ 1 ≤ acceptances es i := by
  obtain ⟨event, answer⟩ := e
  obtain rfl : (uploadStep d validate u event).2 = answer := congrArg Prod.snd hc
  cases event with
  | chunk request clock =>
    simp only [resends, Bool.and_eq_true, decide_eq_true_eq, any_eq_true]
    constructor
    · rintro ⟨⟨hopen, ht⟩, c, hmem, ⟨⟨rfl, hrequest⟩, hl⟩, hd⟩
      refine ⟨?_, (h.recorded _).mpr ⟨c, hmem, rfl⟩⟩
      rw [uploadStep, hrequest, h.resubmitted hopen hmem hd hl ht]
      simp [accepts, resubmission]
    · rintro ⟨haccepts, hrecorded⟩
      obtain ⟨c, hmem, hci⟩ := (h.recorded i).mp hrecorded
      have hexit := uploadChunk_exit d u request clock
      simp only [uploadStep] at haccepts
      generalize (u.uploadChunk d request clock).2 = answer at haccepts hexit
      generalize (u.uploadChunk d request clock).1 = u₁ at hexit
      cases hexit with
      | refused e => cases haccepts
      | closed e _ _ => cases haccepts
      | dropped e _ _ => cases haccepts
      | accepted hp hs hnone =>
        have hi : request.index = i := by simpa [accepts] using haccepts
        exact absurd (hci.trans hi.symm) (chunk_eq_none hnone c hmem)
      | again hp hs hrow hdigest hsize =>
        rename_i c
        obtain ⟨hmem, hci⟩ := chunk_eq_some hrow
        obtain ⟨hpos, -, hoffset⟩ := h.row c hmem
        have hi : request.index = i := by simpa [accepts] using haccepts
        have hsame : request = resubmission c request.body := by
          obtain ⟨index, offset, size, digest, body⟩ := request
          simp only [resubmission, UploadChunkRequest.mk.injEq, and_true]
          exact ⟨hci.symm, by rw [hoffset, hci]; exact hp.offset, hsize.symm, hp.digest.symm.trans hdigest.symm⟩
        exact ⟨⟨hp.state, hp.time⟩, c, hmem, ⟨⟨hci.trans hi, hsame⟩, hp.length.trans hsize.symm⟩, hdigest.symm⟩
  | cancel => simp [resends, accepts]
  | expire picked now => simp [resends, accepts]
  | finalize backupID => simp [resends, accepts]

theorem UploadLedger.acceptances_le_one_iff (h : UploadLedger d u₀ es u) (hrun : Lts.Run (UploadCall d validate) u fs u') :
    acceptances (es ++ fs) i ≤ 1 ↔ acceptances es i ≤ 1 ∧ resent d validate i u fs = false := by
  induction fs generalizing es u with
  | nil => simp [resent]
  | cons e fs ih =>
    obtain ⟨s, hc, hrest⟩ := hrun.uncons
    have hs : (uploadStep d validate u e.1).1 = s := congrArg Prod.fst hc
    have hresends := h.resends_iff (i := i) hc
    rw [append_cons, ih (h.call hc) hrest, acceptances_snoc, resent, hs, Bool.or_eq_false_iff, ← and_assoc]
    refine and_congr_left fun _ => ?_
    by_cases ha : accepts i e = true
    · rw [if_pos ha, ← Bool.not_eq_true, hresends, and_iff_right ha]
      omega
    · rw [if_neg ha, ← Bool.not_eq_true, hresends]
      simp [ha]

/-- A recorded chunk was accepted once exactly if no call of the run has sent it again. -/
theorem acceptances_eq_one_iff (h0 : startUpload size digest now = .ok u₀)
    (hrun : Lts.Run (UploadCall d validate) u₀ es u) (hpos : 1 ≤ acceptances es i) :
    acceptances es i = 1 ↔ resent d validate i u₀ es = false := by
  have hle := (startUpload_ok h0).2.2.2.acceptances_le_one_iff (i := i) hrun
  rw [nil_append, and_iff_right (show acceptances [] i ≤ 1 from Nat.zero_le 1)] at hle
  rw [← hle]
  omega

end Resent

/-- **Uploaded chunks.** After any calls on a session: the counters are those of the rows; while the
session is open, the file of a recorded chunk is there exactly if no call has sent the chunk again; the
same bytes sent again are answered with the row, and the file is gone; and once every index was
accepted, `FinalizeUpload` assembles the bytes that were sent exactly if none was sent again. -/
theorem chunk_kept_iff {d : Digest} {validate : Bytes → Except String Unit} {size : Int} {digest : String} {now : Int}
    {u₀ u : Upload} {es : List (UploadEvent × UploadAnswer)}
    (h0 : startUpload size digest now = .ok u₀) (hrun : Lts.Run (UploadCall d validate) u₀ es u) :
    (u.session.receivedChunks = u.chunks.length ∧
      u.session.receivedBytes = (u.chunks.map (·.sizeBytes)).sum) ∧ (u.session.state = .opened →
      (∀ c ∈ u.chunks, ChunkFile d u c ↔ resent d validate c.index u₀ es = false) ∧
      (∀ c ∈ u.chunks, ∀ b clock, d.sum b = c.digest → (b.length : Int) = c.sizeBytes →
        clock.now < u.session.expiresAt → u.uploadChunk d (resubmission c b) clock =
          ({ u with staging := u.staging.map (·.set c.index none) }, .ok c)) ∧
      (∀ bodies backupID, Sent d es u bodies → ((u.finalizeUpload d validate backupID).2 =
            ((validate bodies.flatten).mapError .archive).map (fun _ => bodies.flatten) ↔
          ∀ k : Nat, k < bodies.length → resent d validate k u₀ es = false))) := by
  have h := ledger_of_run h0 hrun
  obtain ⟨hg, hsize, hdigest, -⟩ := startUpload_ok (d := d) h0
  have hg' : backupUploadGeometry u.session.declaredBytes =
      some (u.session.chunkBytes, u.session.chunkCount) := by
    rw [h.session.1, h.session.2.2.1, h.session.2.2.2, hsize]
    exact hg
  refine ⟨⟨h.count, h.bytes⟩, fun hopen => ⟨fun c hc => ?_, ?_, ?_⟩⟩
  · rw [h.chunkFile_iff hopen hc]
    exact acceptances_eq_one_iff h0 hrun ((h.recorded _).mpr ⟨c, hc, rfl⟩)
  · intro c hc b clock hd hl ht
    exact h.resubmitted hopen hc hd hl ht
  · intro bodies backupID hs
    rw [hs.finalize_iff h hg' validate backupID hopen]
    refine forall₂_congr fun k hk => acceptances_eq_one_iff h0 hrun ?_
    exact (hs.accepted k _ (getElem?_eq_getElem hk)).pos

/-! ## Two chunks, and one that is sent twice -/

/-- The calls with their answers, and the upload after them. -/
def uploadHistory (d : Digest) (validate : Bytes → Except String Unit) :
    Upload → List UploadEvent → List (UploadEvent × UploadAnswer) × Upload
  | u, [] => ([], u)
  | u, e :: es =>
    ((e, (uploadStep d validate u e).2) :: (uploadHistory d validate (uploadStep d validate u e).1 es).1,
      (uploadHistory d validate (uploadStep d validate u e).1 es).2)

theorem run_uploadHistory (d : Digest) (validate : Bytes → Except String Unit) (u : Upload) (es : List UploadEvent) :
    Lts.Run (UploadCall d validate) u (uploadHistory d validate u es).1 (uploadHistory d validate u es).2 := by
  induction es generalizing u with
  | nil => exact .nil
  | cons e es ih => exact .cons rfl (ih _)

/-- SHA-256 of the files of the samples: one byte 7, a mebibyte of them, and an archive of both. -/
def sampleDigest : Digest where
  sum b :=
    if b.length = 1 then "ca358758f6d27e6cf45272937977a748fd88391db679ceda7dc7bf1f005ee879"
    else if b.length = 1048576 then "51b12eb838732b786b4d45c660a974ddf3860ae09084fd293fa6e5df46581a6c"
    else "d34ca1319dd00d103ae8cff499899d5942b22e9c22137baf801c8a63ac21218b"
  valid b := by
    split_ifs <;> decide +kernel

/-- The session of an archive of one byte. -/
def sampleUpload : Upload where
  session :=
    { declaredBytes := 1
      declaredDigest := sampleDigest.sum [7]
      chunkBytes := MinimumBackupUploadChunkBytes
      chunkCount := 1
      expiresAt := BackupUploadSessionTTL }

theorem startUpload_sample : startUpload 1 (sampleDigest.sum [7]) 0 = .ok sampleUpload := by
  have hg : backupUploadGeometry 1 = some (MinimumBackupUploadChunkBytes, 1) := by decide +kernel
  unfold startUpload
  rfl

/-- The byte 7, announced for the place of a session; `body` is what arrives. -/
def byteChunk (index offset : Int) (body : Bytes) : UploadEvent :=
  .chunk
    { index := index
      offset := offset
      sizeBytes := 1
      digest := sampleDigest.sum [7]
      body := body }
    { now := 1, later := 1, picked := true }

/-- The session after the chunk was sent `n` times. -/
def sampleSent (n : Nat) : List (UploadEvent × UploadAnswer) × Upload :=
  uploadHistory sampleDigest (fun _ => .ok ()) sampleUpload (replicate n (byteChunk 0 0 [7]))

/-- The session of an archive of two chunks. -/
def twoChunks : Upload where
  session :=
    { declaredBytes := 1048577
      declaredDigest := "d34ca1319dd00d103ae8cff499899d5942b22e9c22137baf801c8a63ac21218b"
      chunkBytes := MinimumBackupUploadChunkBytes
      chunkCount := 2
      expiresAt := BackupUploadSessionTTL }

def mebibyte : UploadChunkRequest where
  index := 0
  offset := 0
  sizeBytes := 1048576
  digest := "51b12eb838732b786b4d45c660a974ddf3860ae09084fd293fa6e5df46581a6c"
  body := replicate 1048576 7

theorem length_mebibyte : mebibyte.body.length = 1048576 := length_replicate

/-- The session when the first chunk is accepted. -/
def firstChunk : Upload :=
  { twoChunks with staging := some ((⟨fun _ => none⟩ : Files Int Bytes).set 0 (some mebibyte.body)) }.insertChunk
    (rowOf sampleDigest mebibyte 1)

theorem uploadCall_mebibyte : UploadCall sampleDigest (fun _ => .ok ()) twoChunks
    (.chunk mebibyte ⟨1, 1, true⟩, .chunk (.ok (rowOf sampleDigest mebibyte 1))) firstChunk := by
  have hp : Proper sampleDigest twoChunks mebibyte ⟨1, 1, true⟩ :=
    ⟨rfl, by decide, by decide +kernel, by decide, by decide +kernel, congrArg Nat.cast length_mebibyte,
      by simp only [sampleDigest, length_mebibyte]; rfl⟩
  rw [UploadCall, uploadStep, uploadChunk_proper hp rfl]
  rfl

/-- The second chunk follows, and is sent again with a body that is cut off. -/
def twoSent : List (UploadEvent × UploadAnswer) × Upload :=
  let rest := uploadHistory sampleDigest (fun _ => .ok ()) firstChunk [byteChunk 1 1048576 [7], byteChunk 1 1048576 []]
  ((.chunk mebibyte ⟨1, 1, true⟩, .chunk (.ok (rowOf sampleDigest mebibyte 1))) :: rest.1, rest.2)

/-- Both chunks were accepted, the retry was not, and both files are there. -/
theorem chunk_kept_sample : startUpload 1048577 twoChunks.session.declaredDigest 0 = .ok twoChunks ∧
    Lts.Run (UploadCall sampleDigest fun _ => .ok ()) twoChunks twoSent.1 twoSent.2 ∧
    twoSent.1.map (fun e => accepts 0 e || accepts 1 e) = [true, true, false] ∧
    twoSent.2.session.state = .opened ∧ twoSent.2.chunks.map (·.index) = [0, 1] ∧
    ∀ c ∈ twoSent.2.chunks, ChunkFile sampleDigest twoSent.2 c := by
  have h0 : startUpload 1048577 twoChunks.session.declaredDigest 0 = .ok twoChunks := by
    have hg : backupUploadGeometry 1048577 = some (MinimumBackupUploadChunkBytes, 2) := by decide +kernel
    unfold startUpload
    rfl
  have hrun : Lts.Run (UploadCall sampleDigest fun _ => .ok ()) twoChunks twoSent.1 twoSent.2 :=
    .cons uploadCall_mebibyte (run_uploadHistory _ _ _ _)
  obtain ⟨haccepts, hopen, hindexes, honce⟩ :
      twoSent.1.map (fun e => accepts 0 e || accepts 1 e) = [true, true, false] ∧
      twoSent.2.session.state = .opened ∧ twoSent.2.chunks.map (·.index) = [0, 1] ∧
      ∀ c ∈ twoSent.2.chunks, acceptances twoSent.1 c.index = 1 := by decide +kernel
  refine ⟨h0, hrun, haccepts, hopen, hindexes, fun c hc => ?_⟩
  have hsent := (acceptances_eq_one_iff h0 hrun (honce c hc).ge).mp (honce c hc)
  exact (((chunk_kept_iff h0 hrun).2 hopen).1 c hc).mpr hsent

/-- Sent again with the same bytes, as after a lost response, the chunk is answered as accepted, its
row stays and the session is open, but the file is gone. `FinalizeUpload` quarantines the session. -/
theorem resubmitted_chunk_lost : startUpload 1 (sampleDigest.sum [7]) 0 = .ok sampleUpload ∧
    Lts.Run (UploadCall sampleDigest fun _ => .ok ()) sampleUpload (sampleSent 2).1 (sampleSent 2).2 ∧
    acceptances (sampleSent 2).1 0 = 2 ∧ (sampleSent 2).2.session.state = .opened ∧
    (∃ c ∈ (sampleSent 2).2.chunks, ¬ ChunkFile sampleDigest (sampleSent 2).2 c) ∧
    ((sampleSent 2).2.finalizeUpload sampleDigest (fun _ => .ok ()) "b").1.session.state = .quarantined := by
  obtain ⟨hrow, hgone, htwice, hopen, hquarantined⟩ : (sampleSent 2).2.chunks.any (·.index = 0) = true ∧
      ((sampleSent 2).2.staging.bind fun files => files 0) = none ∧
      acceptances (sampleSent 2).1 0 = 2 ∧ (sampleSent 2).2.session.state = .opened ∧
      ((sampleSent 2).2.finalizeUpload sampleDigest (fun _ => .ok ()) "b").1.session.state =
        .quarantined := by decide +kernel
  refine ⟨startUpload_sample, run_uploadHistory _ _ _ _, htwice, hopen, ?_, hquarantined⟩
  obtain ⟨c, hc, hi⟩ := any_eq_true.mp hrow
  refine ⟨c, hc, ?_⟩
  rintro ⟨files, b, hs, hb, -⟩
  rw [show c.index = 0 by simpa using hi] at hb
  rw [hs, Option.bind_some, hb] at hgone
  cases hgone

end Beat.Backup
