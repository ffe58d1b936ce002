import Beat.Lib.Instant
import Beat.Lib.Run
import Beat.Lib.Table

/-!
# New sources and new devices

`loginReasons` reports the source or the device of a login as new when no fingerprint row of it was
seen in the lookback. The upsert refreshes `last_seen_at` and leaves `retain_until`, so a purge also
deletes rows that are in use.

* `Exact`: what the rows tell about the logins so far, in the runs whose purges meet no row in use.
* `login_reasons_exact`: there a source or a device is reported exactly when it was not used.
* `recent_login_is_new`: a purge between two logins that are twelve days apart.
-/

namespace Beat.AdminAuth

open List Instant Lts

def day : Int := 24 * hour

def loginFingerprintRetentionDays : Int := 90

/-- The largest `LookbackDays` that the settings accept. -/
def maxLookbackDays : Nat := 365

def securityRetentionBatch : Nat := 5000

inductive FingerprintKind where
  | source
  | device
  deriving DecidableEq

def reasonForFingerprintKind : FingerprintKind → String
  | .device => "new_device_family"
  | .source => "new_source_prefix"

/-- `loginsecurity.Device`. -/
structure Device where
  browser : String
  os : String
  deviceClass : String

def deviceFingerprintValue (device : Device) : String := 
  device.browser ++ "/" ++ device.os ++ "/" ++ device.deviceClass

/-- What `loginReasons` reads of a login. -/
structure Login where
  actorID : String
  sourcePrefix : String
  device : Device
  now : Int

/-- The value that is compared: the source prefix or the device family. -/
def Login.value (login : Login) : FingerprintKind → String
  | .source => login.sourcePrefix
  | .device => deviceFingerprintValue login.device

/-- `store.SecurityCredentials`: the epoch, and `loginsecurity.Fingerprint` under the key. -/
structure SecurityCredentials (δ : Type) where
  epoch : String
  digest : String → String → δ

/-- The primary key of `security_login_fingerprints`; `δ` are the digests. -/
structure FingerprintKey (δ : Type) where
  actorUserID : String
  epoch : String
  kind : FingerprintKind
  fingerprint : δ
  deriving DecidableEq

structure SecurityFingerprint (δ : Type) where
  key : FingerprintKey δ
  seenAt : Int
  retainUntil : Int

/-- A row of `security_login_fingerprints`. -/
structure FingerprintRow (δ : Type) where
  key : FingerprintKey δ
  firstSeenAt : Int
  lastSeenAt : Int
  successCount : Nat
  retainUntil : Int
  deriving DecidableEq

abbrev Fingerprints (δ : Type) := List (FingerprintRow δ)

/-- `securityFingerprintValid`; a digest always has its 32 bytes. -/
def SecurityFingerprint.valid {δ : Type} (f : SecurityFingerprint δ) : Bool :=
  f.key.actorUserID ≠ "" && 0 < f.seenAt && f.seenAt ≤ f.retainUntil && f.key.epoch ≠ "" &&
    f.key.epoch.utf8ByteSize ≤ 64

structure SecurityState (δ : Type) where
  rows : Fingerprints δ := []
  lookbackDays : Nat
  clock : Int
  deriving DecidableEq

/-- A successful login, a purge with the rows that its statement selects, a change of the settings. -/
inductive SecurityEvent (δ : Type) where
  | login (login : Login)
  | purge (now : Int) (batch : Nat) (selected : Fingerprints δ)
  | settings (lookbackDays : Nat)

section model

variable {δ : Type} [DecidableEq δ]

/-- The statement of `upsertSecurityFingerprints`. -/
def upsertFingerprint (rows : Fingerprints δ) (f : SecurityFingerprint δ) : Fingerprints δ :=
  if rows.any (·.key = f.key) then
    Table.update rows (·.key = f.key) fun r =>
      { r with lastSeenAt := f.seenAt, successCount := min (r.successCount + 1) 1000000 }
  else rows ++ [⟨f.key, f.seenAt, f.seenAt, 1, f.retainUntil⟩]

def upsertSecurityFingerprints (rows : Fingerprints δ) (fs : List (SecurityFingerprint δ)) : Option (Fingerprints δ) :=
  fs.foldlM (fun rows f => if f.valid then some (upsertFingerprint rows f) else none) rows

def knownSecurityFingerprint (rows : Fingerprints δ) (key : FingerprintKey δ) (since : Int) : Bool :=
  rows.any fun r => r.key = key && since ≤ r.lastSeenAt

/-- `PurgeSecurityData`, the fingerprints: the rows past `retain_until`, the oldest first, at most `batch`. -/
def purgeSecurityData (rows : Fingerprints δ) (now : Int) (batch : Nat) (selected : Fingerprints δ) :
    Option (Fingerprints δ) :=
  let expired := rows.filter fun r => r.retainUntil < unixMilli now
  if 1 ≤ batch ∧ batch ≤ securityRetentionBatch ∧ selected.Sublist expired ∧
      selected.length = min batch expired.length ∧
      ∀ r ∈ selected, ∀ r' ∈ expired, r' ∉ selected → r.retainUntil ≤ r'.retainUntil then
    some (rows.filter (· ∉ selected))
  else none

variable (c : SecurityCredentials δ)

def Login.key (login : Login) (kind : FingerprintKind) : FingerprintKey δ :=
  ⟨login.actorID, c.epoch, kind, c.digest c.epoch (login.value kind)⟩

def Login.fingerprint (login : Login) (kind : FingerprintKind) : SecurityFingerprint δ :=
  ⟨login.key c kind, unixMilli login.now, unixMilli (login.now + loginFingerprintRetentionDays * day)⟩

def loginReasons (rows : Fingerprints δ) (lookbackDays : Nat) (login : Login) :
    List String × List (SecurityFingerprint δ) :=
  let kinds := [FingerprintKind.source, .device]
  let known kind :=
    knownSecurityFingerprint rows (login.key c kind) (unixMilli (login.now - lookbackDays * day))
  ((kinds.filter fun kind => !known kind).map reasonForFingerprintKind, kinds.map (login.fingerprint c))

/-- One event; the readings of the clock do not go back. -/
def SecurityState.next (s : SecurityState δ) : SecurityEvent δ → Option (SecurityState δ)
  | .login login =>
    if s.clock ≤ login.now then
      (upsertSecurityFingerprints s.rows (loginReasons c s.rows s.lookbackDays login).2).map fun rows =>
        { s with rows := rows, clock := login.now }
    else none
  | .purge now batch selected =>
    if s.clock ≤ now then
      (purgeSecurityData s.rows now batch selected).map fun rows => { s with rows := rows, clock := now }
    else none
  | .settings days => if 1 ≤ days ∧ days ≤ maxLookbackDays then some { s with lookbackDays := days } else none

/-- The events of a run are those of the service. -/
def SecurityStep (s : SecurityState δ) (e : SecurityEvent δ) (s' : SecurityState δ) : Prop :=
  s.next c e = some s'

end model

/-- The beginning of the longest lookback. -/
def horizon (now : Int) : Int := unixMilli (now - maxLookbackDays * day)

/-- What the code does not ensure: at a purge, no row that is past its retention was seen in the longest lookback. -/
def careful {δ : Type} (s : SecurityState δ) : SecurityEvent δ → Bool
  | .purge now _ _ => s.rows.all fun r => r.retainUntil ≥ unixMilli now || r.lastSeenAt < horizon now
  | _ => true

/-! ## What the rows say -/

variable {δ : Type} [DecidableEq δ] {c : SecurityCredentials δ} {rows : Fingerprints δ} {key : FingerprintKey δ}
  {since : Int}

def Seen (rows : Fingerprints δ) (key : FingerprintKey δ) (since : Int) : Prop :=
  ∃ r ∈ rows, r.key = key ∧ since ≤ r.lastSeenAt

theorem known_iff :
    knownSecurityFingerprint rows key since = true ↔ Seen rows key since := by
  simp [knownSecurityFingerprint, Seen]

theorem seen_upsert {f : SecurityFingerprint δ} :
    Seen (upsertFingerprint rows f) key since ↔ if key = f.key then since ≤ f.seenAt else Seen rows key since := by
  unfold upsertFingerprint Seen
  by_cases hany : rows.any (·.key = f.key) = true
  · obtain ⟨r₀, hr₀, hk₀⟩ := any_eq_true.mp hany
    simp only [if_pos hany, Table.mem_update]
    -- every row of the key is updated, and there is one
    constructor
    · rintro ⟨_, ⟨r, hr, rfl⟩, hk, hs⟩
      grind
    · split
      · exact fun hs => ⟨_, ⟨r₀, hr₀, rfl⟩, by grind⟩
      · exact fun ⟨r, hr, hk, hs⟩ => ⟨r, ⟨r, hr, by grind⟩, hk, hs⟩
  · have hne : ∀ r ∈ rows, r.key ≠ f.key := by simpa using hany
    simp only [if_neg hany, mem_append, mem_singleton]
    constructor
    · rintro ⟨r, hr | rfl, hk, hs⟩ <;> grind
    · split
      · exact fun hs => ⟨_, .inr rfl, by grind⟩
      · exact fun ⟨r, hr, hk, hs⟩ => ⟨r, .inl hr, hk, hs⟩

/-- What a login leaves. -/
theorem login_step {s s' : SecurityState δ} {login : Login} (h : SecurityStep c s (.login login) s') :
    s.clock ≤ login.now ∧ s' = { s with
      rows := upsertFingerprint (upsertFingerprint s.rows (login.fingerprint c .source))
        (login.fingerprint c .device)
      clock := login.now } := by
  simp only [SecurityStep, SecurityState.next, upsertSecurityFingerprints, loginReasons, Option.ite_none_right_eq_some,
    Option.map_eq_some_iff, map_cons, map_nil, foldlM_cons, foldlM_nil, Option.bind_eq_bind,
    Option.bind_eq_some_iff, Option.pure_def, Option.some.injEq] at h
  obtain ⟨hclock, _, ⟨_, ⟨-, rfl⟩, _, ⟨-, rfl⟩, rfl⟩, rfl⟩ := h
  exact ⟨hclock, rfl⟩

theorem unixMilli_mono {a b : Int} (h : a ≤ b) : unixMilli a ≤ unixMilli b :=
  Int.ediv_le_ediv (by decide) h

theorem horizon_mono {a b : Int} (h : a ≤ b) : horizon a ≤ horizon b :=
  unixMilli_mono (Int.sub_le_sub_right h _)

variable (c)

/-- Within the longest lookback, the rows tell the logins so far. -/
structure Exact (es : List (SecurityEvent δ)) (s : SecurityState δ) : Prop where
  seen : ∀ key since, horizon s.clock ≤ since → (Seen s.rows key since ↔
    ∃ login kind, .login login ∈ es ∧ login.key c kind = key ∧ since ≤ unixMilli login.now)
  clock : ∀ login, .login login ∈ es → login.now ≤ s.clock
  lookback : s.lookbackDays ≤ maxLookbackDays

variable {c} {es : List (SecurityEvent δ)} {s s' : SecurityState δ} {e : SecurityEvent δ}

omit [DecidableEq δ] in
/-- The clock goes on and no login is added. -/
theorem Exact.other (h : Exact c es s) (he : ∀ login, e ≠ .login login) (hclock : s.clock ≤ s'.clock)
    (hrows : ∀ key since, horizon s'.clock ≤ since → (Seen s'.rows key since ↔ Seen s.rows key since))
    (hlook : s'.lookbackDays ≤ maxLookbackDays) : Exact c (es ++ [e]) s' := by
  have hmem : ∀ login, .login login ∈ es ++ [e] ↔ .login login ∈ es := by
    intro login
    simp [(he login).symm]
  refine ⟨fun key since hs => ?_, fun login hl => ?_, hlook⟩
  · rw [hrows key since hs, h.seen key since ((horizon_mono hclock).trans hs)]
    simp only [hmem]
  · exact (h.clock login ((hmem login).mp hl)).trans hclock

theorem Exact.login {login : Login} (h : Exact c es s)
    (hst : SecurityStep c s (.login login) s') : Exact c (es ++ [.login login]) s' := by
  obtain ⟨hclock, rfl⟩ := login_step hst
  refine ⟨fun key since hs => ?_, fun l hl => ?_, h.lookback⟩
  · have hold := h.seen key since ((horizon_mono hclock).trans hs)
    simp only [mem_append, mem_singleton, SecurityEvent.login.injEq, seen_upsert, hold, Login.fingerprint]
    constructor
    · intro h
      split at h
      · exact ⟨login, .device, .inr rfl, by simp [*], h⟩
      · split at h
        · exact ⟨login, .source, .inr rfl, by simp [*], h⟩
        · obtain ⟨l, kind, hl, h⟩ := h
          exact ⟨l, kind, .inl hl, h⟩
    · rintro ⟨l, kind, hl | rfl, hkey, hsince⟩
      · have hnew := hsince.trans (unixMilli_mono ((h.clock l hl).trans hclock))
        simp only [hnew, if_true_left]
        exact fun _ _ => ⟨l, kind, hl, hkey, hsince⟩
      · subst hkey
        cases kind <;> simp [hsince]
  · simp only [mem_append, mem_singleton, SecurityEvent.login.injEq] at hl
    obtain hl | rfl := hl
    · exact (h.clock l hl).trans hclock
    · exact le_refl _

theorem Exact.step (h : Exact c es s) (he : careful s e = true) (hst : SecurityStep c s e s') :
    Exact c (es ++ [e]) s' := by
  cases e with
  | login login => exact h.login hst
  | purge now batch selected =>
    simp only [SecurityStep, SecurityState.next, purgeSecurityData, Option.ite_none_right_eq_some,
      Option.map_eq_some_iff, Option.some.injEq] at hst
    obtain ⟨hclock, _, ⟨⟨-, -, hselected, -⟩, rfl⟩, rfl⟩ := hst
    refine h.other (fun _ h => by cases h) hclock (fun key since hs => ?_) h.lookback
    refine ⟨fun ⟨r, hr, hk⟩ => ⟨r, (mem_filter.mp hr).1, hk⟩, fun ⟨r, hr, hk, hsince⟩ => ?_⟩
    refine ⟨r, mem_filter.mpr ⟨hr, decide_eq_true fun hsel => ?_⟩, hk, hsince⟩
    -- a deleted row was last seen before the longest lookback
    have hexpired : r.retainUntil < unixMilli now := of_decide_eq_true (mem_filter.mp (hselected.subset hsel)).2
    have hold : r.lastSeenAt < horizon now := by
      simpa [not_le.mpr hexpired] using all_eq_true.mp he r hr
    exact absurd (hs.trans hsince) (not_le.mpr hold)
  | settings days =>
    simp only [SecurityStep, SecurityState.next, Option.ite_none_right_eq_some, Option.some.injEq] at hst
    obtain ⟨hdays, rfl⟩ := hst
    exact h.other (fun _ h => by cases h) le_rfl (fun _ _ _ => .rfl) hdays.2

/-- In the runs whose purges meet no row in use, a login reports its source or its device as new exactly when
the administrator did not use it in the lookback. The digests of the run have no collision. -/
theorem login_reasons_exact {s₀ : SecurityState δ} {login : Login} {kind : FingerprintKind}
    (hrows : s₀.rows = []) (hlook : s₀.lookbackDays ≤ maxLookbackDays)
    (hrun : Run (fun s e s' => SecurityStep c s e s' ∧ careful s e = true) s₀ es s) (hclock : s.clock ≤ login.now)
    (hdigest : ∀ l, .login l ∈ es → c.digest c.epoch (l.value kind) = c.digest c.epoch (login.value kind) →
      l.value kind = login.value kind) :
    reasonForFingerprintKind kind ∈ (loginReasons c s.rows s.lookbackDays login).1 ↔
      ¬ ∃ l, .login l ∈ es ∧ l.actorID = login.actorID ∧ l.value kind = login.value kind ∧
        unixMilli (login.now - s.lookbackDays * day) ≤ unixMilli l.now := by
  have hex : Exact c es s := hrun.hist ⟨by simp [Seen, hrows], by simp, hlook⟩
    fun _ _ _ _ _ ih h => ih.step h.2 h.1
  have hsince : horizon s.clock ≤ unixMilli (login.now - s.lookbackDays * day) := by
    refine unixMilli_mono ?_
    have := hex.lookback
    unfold day hour minute second
    omega
  have hreason : reasonForFingerprintKind kind ∈ (loginReasons c s.rows s.lookbackDays login).1 ↔
      ¬ Seen s.rows (login.key c kind) (unixMilli (login.now - s.lookbackDays * day)) := by
    rw [← known_iff]
    cases kind <;> simp [loginReasons, filter_cons] <;> grind [reasonForFingerprintKind]
  rw [hreason, hex.seen _ _ hsince, not_iff_not]
  constructor
  · rintro ⟨l, kind', hl, hkey, hle⟩
    simp only [Login.key, FingerprintKey.mk.injEq] at hkey
    obtain ⟨hactor, -, rfl, hdig⟩ := hkey
    exact ⟨l, hl, hactor, hdigest l hl hdig, hle⟩
  · rintro ⟨l, hl, hactor, hvalue, hle⟩
    exact ⟨l, kind, hl, by rw [Login.key, Login.key, hactor, hvalue], hle⟩

def sampleCredentials : SecurityCredentials String := ⟨"epoch", fun _ value => value⟩

def sampleLogin (n : Int) : Login := ⟨"admin", "203.0.113.0/24", ⟨"firefox", "linux", "desktop"⟩, n * day⟩

def sampleRow (kind : FingerprintKind) : FingerprintRow String :=
  ⟨(sampleLogin 1).key sampleCredentials kind, unixMilli day, unixMilli (81 * day), 2, unixMilli (91 * day)⟩

/-- Two logins, and a purge that takes their rows. -/
def samplePurge (n : Int) : List (SecurityEvent String) :=
  [.login (sampleLogin 1), .login (sampleLogin 81), .purge (n * day) 5000 [sampleRow .source, sampleRow .device]]

/-- A source and a device that were used twelve days ago are new. -/
theorem recent_login_is_new : ∃ s, Run (SecurityStep sampleCredentials) ⟨[], 30, 0⟩ (samplePurge 92) s ∧
    (loginReasons sampleCredentials s.rows s.lookbackDays (sampleLogin 93)).1 =
      ["new_source_prefix", "new_device_family"] :=
  Run.computed _ (fun _ _ _ h => h) (by decide +kernel)

/-- The rows of the first logins are purged when they are out of use, and there is a later login. -/
def sampleHistory : List (SecurityEvent String) := samplePurge 500 ++ [.login (sampleLogin 590)]

theorem login_reasons_exact_sample : ∃ s, Run (fun s e s' => SecurityStep sampleCredentials s e s' ∧
      careful s e = true) ⟨[], 30, 0⟩ sampleHistory s ∧ s.rows ≠ [] ∧
    (reasonForFingerprintKind .source ∈ (loginReasons sampleCredentials s.rows s.lookbackDays (sampleLogin 600)).1 ↔
      ¬ ∃ l, .login l ∈ sampleHistory ∧ l.actorID = "admin" ∧ l.value .source = "203.0.113.0/24" ∧
        unixMilli ((sampleLogin 600).now - s.lookbackDays * day) ≤ unixMilli l.now) := by
  obtain ⟨s, hrun, hclock, hrows⟩ : ∃ s, Run (fun s e s' => SecurityStep sampleCredentials s e s' ∧
      careful s e = true) ⟨[], 30, 0⟩ sampleHistory s ∧ s.clock ≤ 600 * day ∧ s.rows ≠ [] :=
    Run.computed (fun s e => if careful s e then s.next sampleCredentials e else none)
      (fun _ _ _ h => (Option.ite_none_right_eq_some.mp h).symm) (by decide +kernel)
  exact ⟨s, hrun, hrows, login_reasons_exact rfl (by decide) hrun hclock fun _ _ h => h⟩

end Beat.AdminAuth
