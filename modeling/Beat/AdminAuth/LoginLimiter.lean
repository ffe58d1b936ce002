import Beat.Lib.Instant
import Mathlib.Data.List.Induction

/-!
# The login limiter

`adminauth.RateLimiter`: after five failures in a window a key is locked. One record holds the window
and the lock, so a failure after the window ended, and the eviction of a full table, discard the lock.

* `Locked`: the invariant of a key while its lock runs; `run_locked` carries it over calls.
* `Accounted`: every record is paid for by the failures since the last success.
* `lockout_holds`: a locked key is refused while no failure falls after its window and the table has
  room, and no key is refused without the failures.
-/

namespace Beat.AdminAuth

open List Instant

def loginWindow : Int := 15 * minute

def loginLockout : Int := 15 * minute

def loginFailures : Nat := 5

/-- `rateEntry`. -/
structure RateEntry where
  windowStart : Int := zero
  failures : Nat := 0
  lockedUntil : Int := zero
  deriving DecidableEq

abbrev Entries := List (String × RateEntry)

def Entries.get (entries : Entries) (key : String) : Option RateEntry :=
  (entries.find? fun p => p.1 = key).map (·.2)

def Entries.delete (entries : Entries) (key : String) : Entries := entries.filter fun p => p.1 ≠ key

def Entries.put (entries : Entries) (key : String) (entry : RateEntry) : Entries :=
  (key, entry) :: entries.delete key

/-- `RateLimiter`. -/
structure RateLimiter where
  entries : Entries := []
  maxEntries : Nat
  deriving DecidableEq

/-- `NewRateLimiter`. -/
def newRateLimiter (maxEntries : Nat) : RateLimiter := { maxEntries := max 64 maxEntries }

/-- The first loop of `prune` keeps the entry. -/
def RateEntry.live (now : Int) (entry : RateEntry) : Bool :=
  !(!isZero entry.lockedUntil && entry.lockedUntil < now || 2 * loginWindow < sub now entry.windowStart)

/-- The second loop of `prune`; `order` is the order in which the map gives its keys. -/
def evict (maxEntries : Nat) : List String → Entries → Entries
  | [], entries => entries
  | key :: order, entries =>
    if entries.length < maxEntries then entries else evict maxEntries order (entries.delete key)

namespace RateLimiter

/-- The entries that the first loop of `prune` keeps. -/
def liveEntries (l : RateLimiter) (now : Int) : Entries := l.entries.filter fun p => p.2.live now

def prune (l : RateLimiter) (order : List String) (now : Int) : RateLimiter :=
  { l with entries := evict l.maxEntries order (l.liveEntries now) }

/-- `Allowed`, after `prune`. -/
def allowed (l : RateLimiter) (keys : List String) (now : Int) : Bool :=
  !keys.any fun key => (l.entries.get key).any fun entry => now < entry.lockedUntil

end RateLimiter

/-- A failure begins a new window. -/
def RateEntry.restarts (now : Int) (entry : RateEntry) : Bool :=
  isZero entry.windowStart || loginWindow ≤ sub now entry.windowStart

/-- One more failure of a key. -/
def RateEntry.fail (now : Int) (entry : RateEntry) : RateEntry :=
  let entry := if entry.restarts now then { windowStart := now } else entry
  let entry := { entry with failures := entry.failures + 1 }
  if loginFailures ≤ entry.failures then { entry with lockedUntil := now + loginLockout } else entry

/-- The loop of `Failure`. -/
def Entries.failAll (now : Int) (keys : List String) (entries : Entries) : Entries :=
  keys.foldl (fun entries key => entries.put key (((entries.get key).getD {}).fail now)) entries

inductive Call where
  | allowed (keys : List String) (now : Int) (order : List String)
  | failure (keys : List String) (now : Int) (order : List String)
  | success (keys : List String)

namespace RateLimiter

/-- `Allowed`, `Failure` and `Success`. -/
def after (l : RateLimiter) : Call → RateLimiter
  | .allowed _ now order => l.prune order now
  | .failure keys now order =>
    let l := l.prune order now
    { l with entries := l.entries.failAll now keys }
  | .success keys => { l with entries := l.entries.filter fun p => !keys.contains p.1 }

def run (l : RateLimiter) (calls : List Call) : RateLimiter := calls.foldl after l

end RateLimiter

/-- The clock reading of a call. -/
def Call.now? : Call → Option Int
  | .allowed _ now _ | .failure _ now _ => some now
  | .success _ => none

/-! ## The map -/

section map

variable {entries : Entries} {key other : String} {entry : RateEntry}

theorem get_filter {p : String × RateEntry → Bool} (h : entries.get key = some entry)
    (hp : p (key, entry) = true) : Entries.get (entries.filter p) key = some entry := by
  obtain ⟨⟨k, e⟩, hfind, rfl⟩ := Option.map_eq_some_iff.mp h
  obtain ⟨hk, before, rest, rfl, hbefore⟩ := find?_eq_some_iff_append.mp hfind
  obtain rfl : k = key := of_decide_eq_true hk
  refine Option.map_eq_some_iff.mpr ⟨(k, e), find?_eq_some_iff_append.mpr ⟨hk, ?_⟩, rfl⟩
  refine ⟨before.filter p, rest.filter p, by simp [hp], fun x hx => ?_⟩
  exact hbefore x (mem_filter.mp hx).1

theorem get_delete (h : other ≠ key) : (entries.delete other).get key = entries.get key := by
  unfold Entries.delete Entries.get
  rw [find?_filter]
  congr 2
  funext p
  by_cases hp : p.1 = key <;> simp [hp, h.symm]

theorem get_put : (entries.put other entry).get key = if other = key then some entry else entries.get key := by
  split_ifs with h
  · simp [Entries.put, Entries.get, h]
  · rw [← @get_delete entries key other h]
    simp [Entries.put, Entries.get, h]

theorem mem_of_get (h : entries.get key = some entry) : (key, entry) ∈ entries := by
  obtain ⟨⟨k, e⟩, hfind, rfl⟩ := Option.map_eq_some_iff.mp h
  have hk := find?_some hfind
  obtain rfl : k = key := of_decide_eq_true hk
  exact mem_of_find?_eq_some hfind

end map

/-! ## A lock -/

section locked

variable {key : String} {start until_ now t : Int} {entry : RateEntry} {entries : Entries}
  {keys : List String} {l : RateLimiter}

theorem sub_lt_iff {t u d : Int} (h0 : 0 ≤ d) (hd : d < maxDuration) : sub t u < d ↔ t - u < d := by
  unfold sub minDuration maxDuration at *
  omega

/-- The key is locked until `until_` at least, within the window that began at `start`. -/
def Locked (key : String) (start until_ : Int) (entries : Entries) : Prop :=
  ∃ entry, entries.get key = some entry ∧ entry.windowStart = start ∧
    loginFailures ≤ entry.failures ∧ until_ ≤ entry.lockedUntil

theorem not_restarts : ¬entry.restarts now = true ↔
    isZero entry.windowStart = false ∧ now - entry.windowStart < loginWindow := by
  rw [RateEntry.restarts, Bool.or_eq_true, not_or, decide_eq_true_eq, not_le, Bool.not_eq_true,
    sub_lt_iff (by decide) (by decide)]

theorem fail_restart (h : entry.restarts now) : entry.fail now = { windowStart := now, failures := 1 } := by
  unfold RateEntry.fail
  rw [if_pos h]
  rfl

theorem fail_count (h : ¬entry.restarts now) : entry.fail now = if loginFailures ≤ entry.failures + 1 then
      { entry with failures := entry.failures + 1, lockedUntil := now + loginLockout }
    else { entry with failures := entry.failures + 1 } := by
  unfold RateEntry.fail
  rw [if_neg h]

/-- What the record of a key shows that a failure at `now` locked. -/
def LockedAt (now : Int) (entry : RateEntry) : Prop :=
  loginFailures ≤ entry.failures → entry.lockedUntil = now + loginLockout ∧
    isZero entry.windowStart = false ∧ now - entry.windowStart < loginWindow

theorem fail_lockedAt (entry : RateEntry) (now : Int) : LockedAt now (entry.fail now) := by
  by_cases h : entry.restarts now
  · rw [fail_restart h]
    exact fun hcount => absurd hcount (show ¬loginFailures ≤ 1 by decide)
  · rw [fail_count h]
    split_ifs with hcount
    · exact fun _ => ⟨rfl, not_restarts.mp h⟩
    · exact fun hc => absurd hc hcount

theorem failAll_lockedAt (hkey : key ∈ keys ∨ ∀ e, entries.get key = some e → LockedAt now e) :
    ∀ e, (entries.failAll now keys).get key = some e → LockedAt now e := by
  induction keys generalizing entries with
  | nil => exact hkey.resolve_left (by simp)
  | cons k keys ih =>
    refine ih ?_
    by_cases hk : k = key
    · right
      intro e he
      rw [get_put, if_pos hk, Option.some.injEq] at he
      exact he ▸ fail_lockedAt _ now
    · rw [get_put, if_neg hk]
      exact hkey.imp_left fun h => (mem_cons.mp h).resolve_left (Ne.symm hk)

/-- A failure within the window keeps the lock. -/
theorem failAll_locked (hwindow : key ∈ keys → now - start < loginWindow) (hzero : isZero start = false)
    (ht : t ≤ now) (h : Locked key start (t + loginLockout) entries) :
    Locked key start (t + loginLockout) (entries.failAll now keys) := by
  induction keys generalizing entries with
  | nil => exact h
  | cons k keys ih =>
    refine ih (fun hk => hwindow (mem_cons_of_mem _ hk)) ?_
    obtain ⟨entry, hget, rfl, hcount, huntil⟩ := h
    by_cases hk : k = key
    · have hsame := not_restarts.mpr ⟨hzero, hwindow (hk ▸ mem_cons_self)⟩
      refine ⟨_, by rw [get_put, if_pos hk], ?_⟩
      rw [hk, hget, Option.getD_some, fail_count hsame, if_pos (Nat.le_succ_of_le hcount)]
      exact ⟨rfl, Nat.le_succ_of_le hcount, add_le_add_left ht _⟩
    · exact ⟨entry, by rw [get_put, if_neg hk, hget], rfl, hcount, huntil⟩

theorem prune_entries (h : (l.liveEntries now).length < l.maxEntries) (order : List String) :
    (l.prune order now).entries = l.liveEntries now := by
  cases order with
  | nil => rfl
  | cons key order => exact if_pos h

/-- While the lock runs, neither loop of `prune` takes the record. -/
theorem prune_locked (hroom : (l.liveEntries now).length < l.maxEntries) (order : List String)
    (hnow : now < until_) (hage : until_ - start ≤ 2 * loginWindow)
    (h : Locked key start until_ l.entries) : Locked key start until_ (l.prune order now).entries := by
  obtain ⟨entry, hget, rfl, hcount, huntil⟩ := h
  rw [prune_entries hroom]
  refine ⟨entry, get_filter hget ?_, rfl, hcount, huntil⟩
  have hold : ¬2 * loginWindow < sub now entry.windowStart := by
    intro hlt
    have := le_of_le_sub (by decide) hlt.le
    omega
  simp only [RateEntry.live, hold, decide_false, Bool.or_false, Bool.not_and, Bool.not_not,
    Bool.or_eq_true, Bool.not_eq_true', decide_eq_false_iff_not, not_lt]
  exact .inr (hnow.le.trans huntil)

end locked

/-! ## Runs -/

/-- The call is a success of the key. -/
def Call.clears (key : String) : Call → Bool
  | .success keys => keys.contains key
  | _ => false

/-- The call is a failure of the key after the window that began at `start`. -/
def Call.late (key : String) (start : Int) : Call → Bool
  | .failure keys now _ => keys.contains key && loginWindow ≤ now - start
  | _ => false

namespace RateLimiter

/-- The call evicts nothing. -/
def hasRoom (l : RateLimiter) (c : Call) : Bool :=
  c.now?.all fun now => (l.liveEntries now).length < l.maxEntries

/-- No call evicts anything. -/
def roomy : RateLimiter → List Call → Bool
  | _, [] => true
  | l, c :: calls => l.hasRoom c && roomy (l.after c) calls

end RateLimiter

section runs

variable {key : String} {start t t' : Int} {l : RateLimiter} {c : Call} {calls : List Call}

theorem run_snoc : l.run (calls ++ [c]) = (l.run calls).after c := by
  simp [RateLimiter.run]

theorem after_locked (hroom : l.hasRoom c = true) (hclear : c.clears key = false)
    (hlate : c.late key start = false) (hzero : isZero start = false) (hage : t - start < loginWindow)
    (htime : ∀ now ∈ c.now?, t ≤ now ∧ now < t + loginLockout) (h : Locked key start (t + loginLockout) l.entries) :
    Locked key start (t + loginLockout) (l.after c).entries := by
  have hlong : t + loginLockout - start ≤ 2 * loginWindow := by
    unfold loginLockout loginWindow at *
    omega
  cases c with
  | allowed keys now order =>
    exact prune_locked (by simpa [RateLimiter.hasRoom, Call.now?] using hroom) order
      (htime now rfl).2 hlong h
  | failure keys now order =>
    refine failAll_locked (fun hk => ?_) hzero (htime now rfl).1
      (prune_locked (by simpa [RateLimiter.hasRoom, Call.now?] using hroom) order (htime now rfl).2 hlong h)
    simpa [Call.late, hk] using hlate
  | success keys =>
    obtain ⟨entry, hget, hrest⟩ := h
    exact ⟨entry, get_filter hget (by simpa [Call.clears] using hclear), hrest⟩

theorem run_locked (hroom : l.roomy calls = true) (hclear : ∀ c ∈ calls, c.clears key = false)
    (hlate : ∀ c ∈ calls, c.late key start = false) (hzero : isZero start = false) (hage : t - start < loginWindow)
    (htime : ∀ c ∈ calls, ∀ now ∈ c.now?, t ≤ now ∧ now < t + loginLockout)
    (h : Locked key start (t + loginLockout) l.entries) :
    Locked key start (t + loginLockout) (l.run calls).entries := by
  induction calls generalizing l with
  | nil => exact h
  | cons c calls ih =>
    rw [RateLimiter.roomy, Bool.and_eq_true] at hroom
    refine ih hroom.2 (fun c hc => hclear c (mem_cons_of_mem _ hc))
      (fun c hc => hlate c (mem_cons_of_mem _ hc)) (fun c hc => htime c (mem_cons_of_mem _ hc)) ?_
    exact after_locked hroom.1 (hclear c mem_cons_self) (hlate c mem_cons_self) hzero hage
      (htime c mem_cons_self) h

end runs

/-! ## The failures behind a lock -/

/-- The failures of the key since its last success. -/
def failuresSince (key : String) (calls : List Call) : Nat :=
  calls.foldl (fun n c =>
    match c with
    | .allowed .. => n
    | .failure keys _ _ => n + keys.count key
    | .success keys => if keys.contains key then 0 else n) 0

/-- Every record counts failures that `since` knows of, and those of a lock are enough. -/
def Accounted (since : String → Nat) (entries : Entries) : Prop :=
  ∀ p ∈ entries, p.2.failures ≤ since p.1 ∧
    (p.2.lockedUntil = zero ∨ loginFailures ≤ since p.1)

section accounted

variable {since : String → Nat} {entries : Entries}

theorem evict_subset (maxEntries : Nat) (order : List String) (entries : Entries) :
    evict maxEntries order entries ⊆ entries := by
  induction order generalizing entries with
  | nil => exact fun _ h => h
  | cons key order ih =>
    unfold evict
    split_ifs
    · exact fun _ h => h
    · exact fun p hp => (mem_filter.mp (ih _ hp)).1

theorem prune_subset (l : RateLimiter) (order : List String) (now : Int) : (l.prune order now).entries ⊆ l.entries :=
  fun _ hp => (mem_filter.mp (evict_subset _ _ _ hp)).1

theorem fail_accounted {key : String} (now : Int) (h : Accounted since entries) :
    let entry := ((entries.get key).getD {}).fail now
    entry.failures ≤ since key + 1 ∧ (entry.lockedUntil = zero ∨ loginFailures ≤ since key + 1) := by
  have hold : ((entries.get key).getD {}).failures ≤ since key ∧
      (((entries.get key).getD {}).lockedUntil = zero ∨ loginFailures ≤ since key) := by
    cases hget : entries.get key with
    | none => exact ⟨Nat.zero_le _, .inl rfl⟩
    | some entry => exact h _ (mem_of_get hget)
  generalize (entries.get key).getD {} = entry at hold
  obtain ⟨hcount, hlock⟩ := hold
  by_cases hnew : entry.restarts now
  · rw [fail_restart hnew]
    exact ⟨Nat.le_add_left 1 _, .inl rfl⟩
  · rw [fail_count hnew]
    split_ifs with h5
    · exact ⟨Nat.succ_le_succ hcount, .inr (h5.trans (Nat.succ_le_succ hcount))⟩
    · exact ⟨Nat.succ_le_succ hcount, hlock.imp_right Nat.le_succ_of_le⟩

theorem failAll_accounted {since' : String → Nat} (now : Int) (keys : List String)
    (hs : ∀ key, since' key = since key + keys.count key) (h : Accounted since entries) :
    Accounted since' (entries.failAll now keys) := by
  induction keys generalizing entries since with
  | nil =>
    obtain rfl : since' = since := funext hs
    exact h
  | cons k keys ih =>
    refine @ih (fun key => since key + if k = key then 1 else 0) _ (fun key => ?_) fun p hp => ?_
    · rw [hs, count_cons, add_assoc, add_comm (count key keys)]
      simp
    · rcases mem_cons.mp hp with rfl | hp
      · simpa using fail_accounted now h
      · have hne := (mem_filter.mp hp).2
        rw [decide_eq_true_eq] at hne
        simpa [Ne.symm hne] using h p (mem_filter.mp hp).1

theorem run_accounted (maxEntries : Nat) (calls : List Call) :
    Accounted (failuresSince · calls) ((newRateLimiter maxEntries).run calls).entries := by
  induction calls using List.reverseRecOn with
  | nil => exact fun _ hp => nomatch hp
  | append_singleton calls c ih =>
    unfold RateLimiter.run failuresSince at *
    simp only [foldl_append, foldl_cons, foldl_nil]
    cases c with
    | allowed keys now order => exact fun p hp => ih p (prune_subset _ _ _ hp)
    | failure keys now order =>
      exact failAll_accounted now keys (fun _ => rfl) fun p hp => ih p (prune_subset _ _ _ hp)
    | success keys =>
      intro p hp
      obtain ⟨hmem, hkey⟩ := mem_filter.mp hp
      have hother : p.1 ∉ keys := by simpa using hkey
      simpa [hother] using ih p hmem

end accounted

/-- A locked key is refused until its lockout ends, as long as no failure of it falls after its window
and no entry is evicted. A key is refused only after enough failures since its last success. -/
theorem lockout_holds (maxEntries : Nat) (calls mid : List Call) (keys keys' order order' : List String)
    (t t' : Int) : (∀ key entry, let locked := (newRateLimiter maxEntries).run (calls ++ [.failure keys t order])
      key ∈ keys → locked.entries.get key = some entry → loginFailures ≤ entry.failures →
      t ≤ t' → t' < t + loginLockout → (∀ c ∈ mid, ∀ now ∈ c.now?, t ≤ now ∧ now ≤ t') →
      (∀ c ∈ mid, c.clears key = false) → (∀ c ∈ mid, c.late key entry.windowStart = false) →
      locked.roomy (mid ++ [.allowed keys' t' order']) = true → key ∈ keys' →
      (locked.run (mid ++ [.allowed keys' t' order'])).allowed keys' t' = false) ∧
    (zero ≤ t' → ((newRateLimiter maxEntries).run (calls ++ [.allowed keys' t' order'])).allowed keys' t' =
        false → ∃ key ∈ keys', loginFailures ≤ failuresSince key calls) := by
  constructor
  · intro key entry locked hkey hget hcount hle hlt htime hclear hlate hroom hkey'
    have hlocked : LockedAt t entry := by
      have hlast : locked = _ := run_snoc
      rw [hlast] at hget
      exact failAll_lockedAt (.inl hkey) entry hget
    obtain ⟨huntil, hzero, hage⟩ := hlocked hcount
    obtain ⟨e, he, -, -, hrest⟩ := run_locked hroom
      (by simpa [or_imp, forall_and, Call.clears] using hclear)
      (by simpa [or_imp, forall_and, Call.late] using hlate) hzero hage
      (fun c hc now hnow => by
        rcases mem_append.mp hc with hc | hc
        · exact ⟨(htime c hc now hnow).1, (htime c hc now hnow).2.trans_lt hlt⟩
        · cases mem_singleton.mp hc
          cases hnow
          exact ⟨hle, hlt⟩) ⟨entry, hget, rfl, hcount, huntil.ge⟩
    simp only [RateLimiter.allowed, Bool.not_eq_false', any_eq_true]
    exact ⟨key, hkey', by simpa [he] using hlt.trans_le hrest⟩
  · intro hnow hrefused
    simp only [RateLimiter.allowed, Bool.not_eq_false', any_eq_true, Option.any_eq_true,
      decide_eq_true_eq] at hrefused
    obtain ⟨key, hkey, entry, hget, hlock⟩ := hrefused
    rw [run_snoc] at hget
    obtain ⟨-, h⟩ := run_accounted maxEntries calls _ (prune_subset _ _ _ (mem_of_get hget))
    exact ⟨key, hkey, h.resolve_left fun h0 => absurd hlock (not_lt.mpr (h0.trans_le hnow))⟩

/-- Five failures of a key, ten minutes after the first call on it. -/
def sampleLock : List Call :=
  [.failure ["ip:a"] 0 [], .failure ["ip:a", "ip:a", "ip:a"] (10 * minute) []]

theorem lockout_holds_sample : ((newRateLimiter 64).run (sampleLock ++ [.failure ["ip:a"] (10 * minute) []] ++
        ([.failure ["ip:a"] (12 * minute) []] ++ [.allowed ["ip:a"] (20 * minute) []]))).allowed
      ["ip:a"] (20 * minute) = false := by
  have h := (lockout_holds 64 sampleLock [.failure ["ip:a"] (12 * minute) []] ["ip:a"] ["ip:a"] [] []
    (10 * minute) (20 * minute)).1 "ip:a" ⟨0, 5, 25 * minute⟩
  exact h (by decide) (by decide +kernel) (by decide) (by decide) (by decide) (by decide) (by decide)
    (by decide) (by decide +kernel) (by decide)

/-- A failure of the locked key after its window ended, and the failures of other keys while the table
is full, discard the lock. -/
theorem lockout_shaken_off :
    let locked := (newRateLimiter 64).run (sampleLock ++ [.failure ["ip:a"] (10 * minute) []])
    locked.allowed ["ip:a"] (16 * minute) = false ∧
      (locked.run [.failure ["ip:a"] (15 * minute) []]).allowed ["ip:a"] (16 * minute) = true ∧
      (locked.run [.failure ((range 63).map fun n => "user:" ++ toString n) (11 * minute) [],
        .allowed ["ip:b"] (11 * minute) ["ip:a"]]).allowed ["ip:a"] (16 * minute) = true := by
  decide +kernel

end Beat.AdminAuth
