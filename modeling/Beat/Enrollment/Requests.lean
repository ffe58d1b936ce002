import Beat.Lib.Fallible
import Beat.Lib.Instant
import Beat.Lib.Table

/-!
# Creating and resuming an enrollment request

`CreateOrResumeRequest` finds the open request of a key under a grant and rotates its token, or inserts a
request; an automatic grant approves it in the same transaction. `Available` comes before the lookup and
asks for capacity, so the holder of the last approval cannot resume it.

* `EnrollmentDb.Ok.createOrResume`: the call keeps the keys and the index of the open requests.
* `approved_resumes_iff`: when an approved request is resumed.
* `approved_not_resumed`: two calls of one agent under a grant for one node.

The audit rows and the columns of tickets and rejections are left out. `Metadata.Validate` and the name
that an automatic grant derives for the node are parameters.
-/

namespace Beat.Enrollment

open List Instant Table

def maxOpenRequestsPerGrant : Nat := 1024

def enrollmentRequestLifetime : Int := 72 * hour

inductive RequestStatus where
  | pending | approved | rejected | expired | claimed
  deriving DecidableEq

def RequestStatus.isOpen (status : RequestStatus) : Bool := status = .pending || status = .approved

inductive ApprovalMode where
  | manual | automatic
  deriving DecidableEq

inductive EnrollmentError where
  | metadata | grantUnavailable | grantCapacity | requestNotFound | requestUnavailable | requestCapacity | constraint
  deriving DecidableEq

structure EnrollmentGrant where
  id : String
  mode : ApprovalMode
  enabled : Bool
  expiresAt : Int
  revokedAt : Option Int
  maximumEnrollments : Nat
  consumedEnrollments : Nat
  createdBy : String
  deriving DecidableEq

/-- `enrollmentActive`. -/
def EnrollmentGrant.active (grant : EnrollmentGrant) (now : Int) : Bool :=
  grant.enabled && grant.revokedAt.isNone && now < grant.expiresAt

def EnrollmentGrant.available (grant : EnrollmentGrant) (now : Int) : Bool :=
  grant.active now && grant.consumedEnrollments < grant.maximumEnrollments

/-- The condition of the update that takes a place. -/
def EnrollmentGrant.hasPlace (grant : EnrollmentGrant) (id : String) : Bool :=
  grant.id = id && grant.revokedAt.isNone && grant.consumedEnrollments < grant.maximumEnrollments

/-- What an agent sends with each request; `μ` is the metadata. -/
structure EnrollmentRequestInput (μ : Type) where
  grantID : String
  fingerprint : String
  publicKey : String
  tokenHash : String
  tokenPrefix : String
  metadata : μ
  sourceIP : String
  now : Int

structure EnrollmentRequest (μ : Type) where
  id : String
  grantID : String
  keyFingerprint : String
  publicKey : String
  tokenHash : String
  tokenPrefix : String
  tokenRotatedAt : Int
  status : RequestStatus := .pending
  metadata : μ
  sourceIP : String
  firstRequestAt : Int
  lastRequest : Int
  reservedNodeID : Option String := none
  nodeNameSnapshot : String := ""
  approvedBy : String := ""
  approvedAt : Option Int := none
  rejectionReason : String := ""
  requestExpiresAt : Int
  deriving DecidableEq

structure EnrollmentDb (μ : Type) where
  grants : List EnrollmentGrant
  requests : List (EnrollmentRequest μ) := []
  /-- The ids and names of the nodes. -/
  nodes : List (String × String) := []
  deriving DecidableEq

section model

variable {μ : Type}

/-- The row of `insertEnrollmentRequest`. -/
def EnrollmentRequestInput.row (input : EnrollmentRequestInput μ) (id : String) : EnrollmentRequest μ :=
  { id, grantID := input.grantID, keyFingerprint := input.fingerprint, publicKey := input.publicKey
    tokenHash := input.tokenHash, tokenPrefix := input.tokenPrefix, tokenRotatedAt := input.now
    metadata := input.metadata, sourceIP := input.sourceIP, firstRequestAt := input.now, lastRequest := input.now
    requestExpiresAt := input.now + enrollmentRequestLifetime }

/-- The update of `rotateEnrollmentToken`. -/
def EnrollmentRequest.rotated (r : EnrollmentRequest μ) (input : EnrollmentRequestInput μ) : EnrollmentRequest μ :=
  { r with
    tokenHash := input.tokenHash, tokenPrefix := input.tokenPrefix, tokenRotatedAt := input.now
    lastRequest := input.now, requestExpiresAt := input.now + enrollmentRequestLifetime
    metadata := input.metadata, sourceIP := input.sourceIP }

/-- The update of a request by `reserveEnrollmentNode`. -/
def EnrollmentRequest.approve (r : EnrollmentRequest μ) (actorID nodeID name : String) (now : Int) :
    EnrollmentRequest μ :=
  { r with
    status := .approved, reservedNodeID := some nodeID, nodeNameSnapshot := name, approvedBy := actorID
    approvedAt := some now, rejectionReason := "" }

namespace EnrollmentDb

/-- The request is the open one of this key. -/
def isOpenOf (grantID fingerprint : String) (r : EnrollmentRequest μ) : Bool :=
  r.grantID = grantID && r.keyFingerprint = fingerprint && r.status.isOpen

/-- The open row of a request with this input. -/
def rotated (db : EnrollmentDb μ) (id : String) (input : EnrollmentRequestInput μ) : EnrollmentDb μ :=
  { db with requests := update db.requests (fun r => r.id = id && r.status.isOpen) (·.rotated input) }

/-- The column `token_hash` is unique. -/
def rotateEnrollmentToken (db : EnrollmentDb μ) (id : String) (input : EnrollmentRequestInput μ) :
    Except EnrollmentError (EnrollmentDb μ) :=
  if db.requests.any (fun r => r.id ≠ id && r.tokenHash = input.tokenHash) then .error .constraint
  else if db.requests.any (fun r => r.id = id && r.status.isOpen) then .ok (db.rotated id input)
  else .error .requestUnavailable

def upsertEnrollmentRequest (db : EnrollmentDb μ) (input : EnrollmentRequestInput μ) (newID : String) :
    Except EnrollmentError (EnrollmentDb μ × Bool × String) :=
  match db.requests.find? (isOpenOf input.grantID input.fingerprint) with
  | some existing =>
    if existing.publicKey ≠ input.publicKey then .error .requestUnavailable
    else (db.rotateEnrollmentToken existing.id input).map (·, true, existing.id)
  | none =>
    if maxOpenRequestsPerGrant ≤ db.requests.countP (fun r => r.grantID = input.grantID && r.status.isOpen) then
      .error .requestCapacity
    else if db.requests.any (fun r => r.id = newID || r.tokenHash = input.tokenHash) then .error .constraint
    else .ok ({ db with requests := db.requests ++ [input.row newID] }, false, newID)

/-- A place of the grant, a node that waits for its claim, and the approval. -/
def reserveEnrollmentNode (db : EnrollmentDb μ) (grant : EnrollmentGrant) (id name nodeID : String) (now : Int) :
    Except EnrollmentError (EnrollmentDb μ) :=
  if !db.grants.any (·.hasPlace grant.id) then .error .grantCapacity
  else if db.nodes.any (fun n => n.1 = nodeID || n.2 = name) then .error .constraint
  else if !db.requests.any (fun r => r.id = id && r.status = .pending) then .error .requestUnavailable
  else .ok {
    grants := update db.grants (·.hasPlace grant.id) fun g => { g with consumedEnrollments := g.consumedEnrollments + 1 }
    nodes := db.nodes ++ [(nodeID, name)]
    requests := update db.requests (fun r => r.id = id && r.status = .pending)
      (·.approve grant.createdBy nodeID name now) }

def recordEnrollmentConflict (db : EnrollmentDb μ) (id reason : String) : EnrollmentDb μ :=
  { db with
    requests := update db.requests (fun r => r.id = id && r.status = .pending) ({ · with rejectionReason := reason }) }

variable (automaticEnrollmentReservation : EnrollmentGrant → EnrollmentRequest μ → Except String String)

def autoApproveEnrollmentRequest (db : EnrollmentDb μ) (grant : EnrollmentGrant) (id nodeID : String) (now : Int) :
    Except EnrollmentError (EnrollmentDb μ) :=
  match db.requests.find? (·.id = id) with
  | none => .error .requestNotFound
  | some request =>
    if request.status ≠ .pending then .ok db
    else
      match automaticEnrollmentReservation grant request with
      | .error reason => .ok (db.recordEnrollmentConflict id reason)
      | .ok name =>
        if db.nodes.any (·.2 = name) then .ok (db.recordEnrollmentConflict id "name_conflict")
        else db.reserveEnrollmentNode grant id name nodeID now

variable (validate : μ → Bool)

/-- The database after the call, the request, and whether it was resumed. `newID` and `nodeID` are new ids. -/
def createOrResumeRequest (db : EnrollmentDb μ) (input : EnrollmentRequestInput μ) (newID nodeID : String) :
    Except EnrollmentError (EnrollmentDb μ × EnrollmentRequest μ × Bool) :=
  if !validate input.metadata then .error .metadata
  else match db.grants.find? (·.id = input.grantID) with
    | none => .error .grantUnavailable
    | some grant =>
      if !grant.available input.now then .error .grantUnavailable
      else
        (db.upsertEnrollmentRequest input newID).bind fun (db, resumed, id) =>
          (if grant.mode = .automatic then
            db.autoApproveEnrollmentRequest automaticEnrollmentReservation grant id nodeID input.now
          else .ok db).bind fun db =>
            match db.requests.find? (·.id = id) with
            | none => .error .requestNotFound
            | some request => .ok (db, request, resumed)

end EnrollmentDb

/-- The primary keys, and the unique index of the open requests. -/
structure EnrollmentDb.Ok (db : EnrollmentDb μ) : Prop where
  grants : Keyed (·.id) db.grants
  requests : Keyed (·.id) db.requests
  opened : ∀ r ∈ db.requests, ∀ r' ∈ db.requests, r.status.isOpen → r'.status.isOpen →
    r.grantID = r'.grantID → r.keyFingerprint = r'.keyFingerprint → r = r'

variable {reserve : EnrollmentGrant → EnrollmentRequest μ → Except String String} {validate : μ → Bool}
  {db db' : EnrollmentDb μ} {grant : EnrollmentGrant} {r : EnrollmentRequest μ} {input : EnrollmentRequestInput μ}
  {newID nodeID id : String}

namespace EnrollmentDb.Ok

/-! ## The tables stay consistent -/

/-- An update of open requests that keeps their keys. -/
theorem update {p : EnrollmentRequest μ → Bool} {f : EnrollmentRequest μ → EnrollmentRequest μ} (hdb : db.Ok)
    (hp : ∀ r, p r = true → r.status.isOpen = true)
    (hf : ∀ r, (f r).id = r.id ∧ (f r).grantID = r.grantID ∧ (f r).keyFingerprint = r.keyFingerprint) :
    ({ db with requests := Table.update db.requests p f } : EnrollmentDb μ).Ok := by
  refine ⟨hdb.grants, hdb.requests.update fun r _ _ => (hf r).1, fun x hx y hy hxo hyo hg hk => ?_⟩
  obtain ⟨a, ha, rfl⟩ := mem_update.mp hx
  obtain ⟨b, hb, rfl⟩ := mem_update.mp hy
  have hkept : ∀ r, (if p r then f r else r).grantID = r.grantID ∧
      (if p r then f r else r).keyFingerprint = r.keyFingerprint ∧
      ((if p r then f r else r).status.isOpen = true → r.status.isOpen = true) := by
    intro r
    split
    · exact ⟨(hf r).2.1, (hf r).2.2, fun _ => hp r ‹_›⟩
    · exact ⟨rfl, rfl, id⟩
  rw [(hkept a).1, (hkept b).1] at hg
  rw [(hkept a).2.1, (hkept b).2.1] at hk
  rw [hdb.opened a ha b hb ((hkept a).2.2 hxo) ((hkept b).2.2 hyo) hg hk]

/-- A new row is the only open one of its key. -/
theorem insert (hdb : db.Ok) (hnone : db.requests.find? (isOpenOf input.grantID input.fingerprint) = none)
    (hid : ∀ r ∈ db.requests, r.id ≠ newID) :
    ({ db with requests := db.requests ++ [input.row newID] } : EnrollmentDb μ).Ok := by
  have hother : ∀ r ∈ db.requests, r.status.isOpen = true → r.grantID = input.grantID →
      r.keyFingerprint ≠ input.fingerprint := by
    intro r hr ho hg hk
    have := find?_eq_none.mp hnone r hr
    simp [isOpenOf, ho, hg, hk] at this
  refine ⟨hdb.grants, hdb.requests.append hid, fun x hx y hy hxo hyo hg hk => ?_⟩
  rcases mem_snoc.mp hx with hx | rfl <;> rcases mem_snoc.mp hy with hy | rfl
  · exact hdb.opened x hx y hy hxo hyo hg hk
  · exact absurd hk (hother x hx hxo hg)
  · exact absurd hk.symm (hother y hy hyo hg.symm)
  · rfl

theorem isOpen_of_pending (h : (r.id = id && r.status = .pending : Bool) = true) : r.status.isOpen = true := by
  have hpending : r.status = .pending := of_decide_eq_true (Bool.and_eq_true _ _ ▸ h).2
  rw [hpending]
  rfl

theorem rotated (hdb : db.Ok) : (db.rotated id input).Ok :=
  hdb.update (fun _ h => (Bool.and_eq_true _ _ ▸ h).2) fun _ => ⟨rfl, rfl, rfl⟩

theorem upsert {resumed : Bool} (hdb : db.Ok)
    (h : db.upsertEnrollmentRequest input newID = .ok (db', resumed, id)) : db'.Ok := by
  unfold upsertEnrollmentRequest at h
  split at h
  · split_ifs at h
    obtain ⟨_, hrotate, heq⟩ := Fallible.map_eq_ok h
    cases heq
    unfold rotateEnrollmentToken at hrotate
    split_ifs at hrotate
    cases hrotate
    exact hdb.rotated
  · split_ifs at h with _ hconstraint
    cases h
    refine hdb.insert ‹_› fun r hr heq => hconstraint (any_eq_true.mpr ⟨r, hr, ?_⟩)
    simp [heq]

theorem reserved (hdb : db.Ok) {name : String} {now : Int}
    (h : db.reserveEnrollmentNode grant id name nodeID now = .ok db') : db'.Ok := by
  unfold reserveEnrollmentNode at h
  split_ifs at h
  cases h
  have hrows := hdb.update (p := fun r => r.id = id && r.status = .pending)
    (f := (·.approve grant.createdBy nodeID name now)) (fun _ => isOpen_of_pending) fun _ => ⟨rfl, rfl, rfl⟩
  exact ⟨hdb.grants.update fun _ _ _ => rfl, hrows.requests, hrows.opened⟩

theorem autoApprove (hdb : db.Ok) {now : Int}
    (h : db.autoApproveEnrollmentRequest reserve grant id nodeID now = .ok db') : db'.Ok := by
  have hconflict : ∀ reason, (db.recordEnrollmentConflict id reason).Ok :=
    fun _ => hdb.update (fun _ => isOpen_of_pending) fun _ => ⟨rfl, rfl, rfl⟩
  unfold autoApproveEnrollmentRequest at h
  split at h
  · cases h
  · split_ifs at h
    · cases h
      exact hdb
    · split at h
      · cases h
        exact hconflict _
      · split_ifs at h
        · cases h
          exact hconflict _
        · exact hdb.reserved h

/-- The call keeps the keys and the index. -/
theorem createOrResume {request : EnrollmentRequest μ} {resumed : Bool} (hdb : db.Ok)
    (h : db.createOrResumeRequest reserve validate input newID nodeID = .ok (db', request, resumed)) : db'.Ok := by
  obtain ⟨-, h⟩ := Fallible.of_guard h
  split at h
  · cases h
  · obtain ⟨-, h⟩ := Fallible.of_guard h
    obtain ⟨⟨db₁, resumed₁, id⟩, hupsert, h⟩ := Fallible.bind_eq_ok h
    obtain ⟨db₂, happrove, h⟩ := Fallible.bind_eq_ok h
    have hdb₂ : db₂.Ok := by
      split_ifs at happrove
      · exact (hdb.upsert hupsert).autoApprove happrove
      · cases happrove
        exact hdb.upsert hupsert
    split at h
    · cases h
    · cases h
      exact hdb₂

/-! ## Resuming an approved request -/

theorem find_rotated (hdb : db.Ok) (hr : r ∈ db.requests) (hopen : r.status.isOpen = true) :
    (db.rotated r.id input).requests.find? (·.id = r.id) = some (r.rotated input) := by
  refine find?_eq_some_of_unique (mem_update.mpr ⟨r, hr, by simp [hopen]⟩) (by simp [EnrollmentRequest.rotated]) ?_
  intro y hy hid
  obtain ⟨x, hx, rfl⟩ := mem_update.mp hy
  by_cases hx' : x.id = r.id
  · rw [hdb.requests.eq_of_key hx hr hx']
    simp [hopen]
  · simp [hx'] at hid

theorem upsert_open (hdb : db.Ok) (hr : r ∈ db.requests) (hopen : r.status.isOpen = true)
    (hgrant : input.grantID = r.grantID) (hkey : input.fingerprint = r.keyFingerprint)
    (hpublic : input.publicKey = r.publicKey) (htoken : ∀ x ∈ db.requests, x.tokenHash = input.tokenHash → x = r) :
    db.upsertEnrollmentRequest input newID = .ok (db.rotated r.id input, true, r.id) := by
  have hfind : db.requests.find? (isOpenOf input.grantID input.fingerprint) = some r := by
    refine find?_eq_some_of_unique hr (by simp [isOpenOf, hgrant, hkey, hopen]) fun x hx hp => ?_
    simp only [isOpenOf, Bool.and_eq_true, decide_eq_true_eq] at hp
    exact hdb.opened x hx r hr hp.2 hopen (hp.1.1.trans hgrant) (hp.1.2.trans hkey)
  have hrotate : db.rotateEnrollmentToken r.id input = .ok (db.rotated r.id input) := by
    rw [rotateEnrollmentToken, if_neg, if_pos]
    · exact any_eq_true.mpr ⟨r, hr, by simp [hopen]⟩
    · simp only [any_eq_true, Bool.and_eq_true, decide_eq_true_eq]
      rintro ⟨x, hx, hne, htok⟩
      exact hne (congrArg _ (htoken x hx htok))
  simp [upsertEnrollmentRequest, hfind, hpublic, hrotate, Except.map]

end EnrollmentDb.Ok

/-- Under a grant that is active, the holder of the key of an approved request gets that request back
with a new token, and no other row changes, exactly when the grant has capacity left. -/
theorem approved_resumes_iff (hdb : db.Ok) (hgrant : grant ∈ db.grants) (hactive : grant.active input.now = true)
    (hr : r ∈ db.requests) (happroved : r.status = .approved) (hgid : r.grantID = grant.id)
    (hinput : input.grantID = grant.id) (hkey : input.fingerprint = r.keyFingerprint)
    (hpublic : input.publicKey = r.publicKey) (hvalid : validate input.metadata = true)
    (htoken : ∀ x ∈ db.requests, x.tokenHash = input.tokenHash → x = r) :
    db.createOrResumeRequest reserve validate input newID nodeID =
        .ok (db.rotated r.id input, r.rotated input, true) ↔
      grant.consumedEnrollments < grant.maximumEnrollments := by
  have hopen : r.status.isOpen = true := by simp [RequestStatus.isOpen, happroved]
  have hfind : db.grants.find? (·.id = input.grantID) = some grant :=
    find?_eq_some_of_unique hgrant (by simp [hinput]) fun g hg hid =>
      hdb.grants.eq_of_key hg hgrant ((of_decide_eq_true hid).trans hinput)
  have hrow : (db.rotated r.id input).requests.find? (·.id = r.id) = some (r.rotated input) :=
    hdb.find_rotated hr hopen
  have hup : db.upsertEnrollmentRequest input newID = .ok (db.rotated r.id input, true, r.id) :=
    hdb.upsert_open hr hopen (hinput.trans hgid.symm) hkey hpublic htoken
  -- an automatic grant leaves a request that is approved
  have hauto : (db.rotated r.id input).autoApproveEnrollmentRequest reserve grant r.id nodeID input.now =
      .ok (db.rotated r.id input) := by
    simp [EnrollmentDb.autoApproveEnrollmentRequest, hrow, EnrollmentRequest.rotated, happroved]
  unfold EnrollmentDb.createOrResumeRequest
  by_cases hroom : grant.consumedEnrollments < grant.maximumEnrollments
  · by_cases hmode : grant.mode = .automatic <;>
      simp [hvalid, hfind, EnrollmentGrant.available, hactive, hroom, hup, Except.bind, hmode, hauto, hrow]
  · simp [hvalid, hfind, EnrollmentGrant.available, hroom]

end model

/-! ## The last approval -/

def sampleGrant (maximum consumed : Nat) : EnrollmentGrant :=
  ⟨"grant", .automatic, true, 24 * hour, none, maximum, consumed, "admin"⟩

def sampleInput (token : String) : EnrollmentRequestInput Unit :=
  ⟨"grant", "key", "public", token, "bt_", (), "192.0.2.1", hour⟩

def sampleApproved : EnrollmentRequest Unit :=
  ((sampleInput "a").row "request").approve "admin" "node" "name" hour

/-- The first call under a grant for one node approves its request; the second call of the same agent is refused. -/
theorem approved_not_resumed : ∃ db,
    EnrollmentDb.createOrResumeRequest (fun _ _ => .ok "name") (fun _ => true) ⟨[sampleGrant 1 0], [], []⟩
      (sampleInput "a") "request" "node" = .ok (db, sampleApproved, false) ∧
    EnrollmentDb.createOrResumeRequest (fun _ _ => .ok "name") (fun _ => true) db (sampleInput "b") "other" "other" =
      .error .grantUnavailable :=
  ⟨⟨[sampleGrant 1 1], [sampleApproved], [("node", "name")]⟩, by decide +kernel⟩

def sampleEnrollment : EnrollmentDb Unit := ⟨[sampleGrant 2 1], [sampleApproved], [("node", "name")]⟩

theorem approved_resumes_iff_sample :
    sampleEnrollment.createOrResumeRequest (fun _ _ => .ok "name") (fun _ => true) (sampleInput "b") "other" "other" =
        .ok (sampleEnrollment.rotated "request" (sampleInput "b"), sampleApproved.rotated (sampleInput "b"), true) ↔
      (sampleGrant 2 1).consumedEnrollments < (sampleGrant 2 1).maximumEnrollments := by
  have hone : ∀ x ∈ sampleEnrollment.requests, x = sampleApproved := fun x => mem_singleton.mp
  exact approved_resumes_iff ⟨by decide, by decide, fun x hx y hy _ _ _ _ => (hone x hx).trans (hone y hy).symm⟩
    mem_cons_self (by decide) mem_cons_self rfl rfl rfl rfl rfl rfl fun x hx _ => hone x hx

end Beat.Enrollment
