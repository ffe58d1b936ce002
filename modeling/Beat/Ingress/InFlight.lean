import Beat.Ingress.Limiter
import Mathlib.Algebra.BigOperators.Ring.Finset

/-!
# Requests in flight

The leases that are not released, and the two counters of them: one for each class, one in the entry of
each identity. A release looks its entry up by key, and an entry may be deleted between the two calls; the
counters do not drift, because an entry with a lease is not deleted.

* `pruneLocked_exit`, `identityLocked_exit`, `Outcome`: what the parts of `Admit` leave.
* `Accounts`: the counters count the leases and stay within their bounds; `called_step`: every call
  keeps this.
* `in_flight_accounting`: the counters in every run.
-/

namespace Beat.Ingress

open List Table

/-! ## The table of identities -/

section Table

variable {K : Type}

/-- What `pruneLocked` leaves of the table. -/
structure Pruned (limiter limiter' : Limiter K) (deadline : Int) : Prop where
  rest : limiter' = { limiter with identities := limiter'.identities }
  sublist : limiter'.identities.Sublist limiter.identities
  kept : ∀ e ∈ limiter.identities, e.isExpired deadline = false → e ∈ limiter'.identities

/-- The loop deletes keys of entries that it has visited and that have expired. -/
theorem pruneLoop_exit (deadline : Int) (visited : List (IdentityState K)) (scanned : Nat)
    (table : List (IdentityState K)) :
    ∃ gone : List IdentityKey, pruneLoop deadline visited scanned table = table.filter (·.key ∉ gone) ∧
      ∀ key ∈ gone, ∃ e ∈ visited, e.key = key ∧ e.isExpired deadline = true := by
  induction visited generalizing scanned table with
  | nil => exact ⟨[], by simp [pruneLoop], fun _ h => nomatch h⟩
  | cons state rest ih =>
    unfold pruneLoop
    split_ifs with hexpired hbatch
    · refine ⟨[state.key], by simp, fun key hkey => ?_⟩
      exact ⟨state, mem_cons_self, (mem_singleton.mp hkey).symm, hexpired⟩
    · obtain ⟨gone, heq, hgone⟩ := ih (scanned + 1) (table.filter (·.key ≠ state.key))
      refine ⟨state.key :: gone, ?_, fun key hkey => ?_⟩
      · rw [heq, filter_filter]
        refine filter_congr fun e _ => ?_
        simp [Bool.and_comm]
      · obtain rfl | hkey := mem_cons.mp hkey
        · exact ⟨state, mem_cons_self, rfl, hexpired⟩
        · obtain ⟨e, he, hfacts⟩ := hgone key hkey
          exact ⟨e, mem_cons_of_mem _ he, hfacts⟩
    · obtain ⟨gone, heq, hgone⟩ := ih scanned table
      refine ⟨gone, heq, fun key hkey => ?_⟩
      obtain ⟨e, he, hfacts⟩ := hgone key hkey
      exact ⟨e, mem_cons_of_mem _ he, hfacts⟩

variable {limiter : Limiter K}

theorem pruneLocked_exit (hkeyed : Table.Keyed IdentityState.key limiter.identities)
    (visit : Visit (IdentityState K)) (now : Int) :
    Pruned limiter (limiter.pruneLocked visit now) (now - limiter.capacity.identityTTL) := by
  obtain ⟨gone, heq, hgone⟩ := pruneLoop_exit (now - limiter.capacity.identityTTL)
    (visit.order limiter.identities) 0 limiter.identities
  refine ⟨rfl, ?_, fun e he hfresh => ?_⟩
  · unfold Limiter.pruneLocked
    rw [heq]
    exact filter_sublist
  · unfold Limiter.pruneLocked
    rw [heq]
    refine mem_filter.mpr ⟨he, decide_eq_true fun hkey => ?_⟩
    -- the entry that was visited under the key is this one
    obtain ⟨e', he', hkey', hexpired⟩ := hgone e.key hkey
    rw [hkeyed.eq_of_key ((visit.perm _).mem_iff.mp he') he hkey', hfresh] at hexpired
    cases hexpired

/-- The second write under a key is the one that stays. -/
theorem Limiter.write_write (limiter : Limiter K) (s s' : IdentityState K) (hkey : s.key = s'.key)
    (g g' : Bucket K) : (limiter.write s g).write s' g' = limiter.write s' g' := by
  unfold Limiter.write update
  rw [hkey, Function.update_idem, map_map]
  congr 1
  refine map_congr_left fun e _ => ?_
  by_cases he : e.key = s'.key <;> simp [he, hkey]

theorem mem_write {state e : IdentityState K} {g : Bucket K} (he : e ∈ (limiter.write state g).identities) :
    e = state ∨ (e ∈ limiter.identities ∧ e.key ≠ state.key) := by
  obtain ⟨r, hr, rfl⟩ := mem_update.mp he
  by_cases hkey : r.key = state.key
  · exact .inl (if_pos (by simpa using hkey))
  · rw [if_neg (by simpa using hkey)]
    exact .inr ⟨hr, hkey⟩

theorem mem_write_self {state : IdentityState K} (h : state ∈ limiter.identities) (state' : IdentityState K)
    (hkey : state'.key = state.key) (g : Bucket K) : state' ∈ (limiter.write state' g).identities :=
  mem_update.mpr ⟨state, h, by simp [hkey]⟩

theorem write_keys (limiter : Limiter K) (state : IdentityState K) (g : Bucket K) :
    (limiter.write state g).identities.map IdentityState.key = limiter.identities.map IdentityState.key :=
  map_update fun _ _ hp => (of_decide_eq_true hp).symm

theorem exists_key_iff {l l' : List (IdentityState K)}
    (h : l'.map IdentityState.key = l.map IdentityState.key) (key : IdentityKey) :
    (∃ e ∈ l', e.key = key) ↔ ∃ e ∈ l, e.key = key := by
  rw [← mem_map, ← mem_map, h]

end Table

/-! ## Counting leases -/

/-- The leases of an identity that are not released. -/
def openOf (leases : List Lease) (key : IdentityKey) : Nat :=
  leases.countP fun lease => !lease.released && lease.key = key

/-- The leases of a class that are not released. -/
def openOfClass (leases : List Lease) (c : Class) : Nat :=
  leases.countP fun lease => !lease.released && lease.key.class_ = c

variable {index : Nat} {lease : Lease}

/-- A lease that is given back is open no longer, in every count. -/
theorem open_release {leases : List Lease} (p : IdentityKey → Bool) (hl : leases[index]? = some lease)
    (hopen : lease.released = false) :
    (leases.set index { lease with released := true }).countP (fun lease => !lease.released && p lease.key) +
      (if p lease.key then 1 else 0) = leases.countP fun lease => !lease.released && p lease.key := by
  obtain ⟨hlt, hget⟩ := List.getElem?_eq_some_iff.mp hl
  rw [countP_set hlt, hget]
  by_cases hp : p lease.key = true
  · have hpos : 0 < leases.countP fun x => !x.released && p x.key :=
      countP_pos_iff.mpr ⟨lease, hget ▸ getElem_mem hlt, by simp [hopen, hp]⟩
    simp [hopen, hp]
    omega
  · simp [hp]

/-- The counters count the leases, within the bounds of the capacity. -/
structure Accounts {K : Type} (limiter : Limiter K) (leases : List Lease) : Prop where
  keyed : Table.Keyed IdentityState.key limiter.identities
  counted : ∀ e ∈ limiter.identities, e.inFlight = openOf leases e.key
  present : ∀ key, 0 < openOf leases key → ∃ e ∈ limiter.identities, e.key = key
  global : ∀ c, limiter.globalInFlight c = openOfClass leases c
  globalBound : ∀ c, limiter.globalInFlight c ≤ (limiter.capacity.policies c).globalInFlight
  identityBound : ∀ e ∈ limiter.identities,
    e.inFlight ≤ (limiter.capacity.policies e.key.class_).identityInFlight
  entries : limiter.identities.length ≤ limiter.capacity.identityEntries

namespace Accounts

variable {K : Type} {limiter limiter' : Limiter K} {leases : List Lease}

section

variable (h : Accounts limiter leases)

include h

/-- The entry of an open lease does not expire. -/
theorem not_expired {e : IdentityState K} (he : e ∈ limiter.identities)
    (hopen : 0 < openOf leases e.key) (deadline : Int) : e.isExpired deadline = false := by
  have hflight : 0 < e.inFlight := by
    rw [h.counted e he]
    exact_mod_cast hopen
  simp [IdentityState.isExpired, hflight]

theorem prune {deadline : Int} (hp : Pruned limiter limiter' deadline) : Accounts limiter' leases := by
  have hcapacity : limiter'.capacity = limiter.capacity := by rw [hp.rest]
  have hflight : limiter'.globalInFlight = limiter.globalInFlight := by rw [hp.rest]
  have hmem : ∀ e ∈ limiter'.identities, e ∈ limiter.identities := fun e he => hp.sublist.subset he
  refine ⟨h.keyed.sublist (hp.sublist.map _), fun e he => h.counted e (hmem e he), fun key hopen => ?_,
    fun c => by rw [hflight]; exact h.global c, fun c => by rw [hflight, hcapacity]; exact h.globalBound c,
    fun e he => by rw [hcapacity]; exact h.identityBound e (hmem e he), ?_⟩
  · obtain ⟨e, he, rfl⟩ := h.present key hopen
    exact ⟨e, hp.kept e he (h.not_expired he hopen _), rfl⟩
  · rw [hcapacity]
    have := hp.sublist.length_le
    have := h.entries
    omega

/-- A write that leaves the number in flight. -/
theorem write {state : IdentityState K} (hs : state ∈ limiter.identities)
    (state' : IdentityState K) (hkey : state'.key = state.key) (hflight : state'.inFlight = state.inFlight)
    (g : Bucket K) : Accounts (limiter.write state' g) leases := by
  have hkeys := write_keys limiter state' g
  refine ⟨?_, fun e he => ?_, fun key hopen => (exists_key_iff hkeys key).mpr (h.present key hopen), h.global,
    h.globalBound, fun e he => ?_, ?_⟩
  · exact h.keyed.congr hkeys
  · obtain rfl | ⟨he, -⟩ := mem_write he
    · rw [hflight, hkey]
      exact h.counted state hs
    · exact h.counted e he
  · obtain rfl | ⟨he, -⟩ := mem_write he
    · rw [hflight, hkey]
      exact h.identityBound state hs
    · exact h.identityBound e he
  · unfold Limiter.write
    rw [length_update]
    exact h.entries

/-- A request is admitted: both counters and the leases grow by one. -/
theorem grant {state : IdentityState K} (hs : state ∈ limiter.identities)
    (state' : IdentityState K) (hkey : state'.key = state.key) (hflight : state'.inFlight = state.inFlight + 1)
    (hglobal : limiter.globalInFlight state.key.class_ < (limiter.capacity.policies state.key.class_).globalInFlight)
    (hidentity : state.inFlight < (limiter.capacity.policies state.key.class_).identityInFlight)
    (g : Bucket K) (now : Int) : Accounts { limiter.write state' g with
        globalInFlight := Function.update limiter.globalInFlight state.key.class_
          (limiter.globalInFlight state.key.class_ + 1) }
      (leases ++ [⟨state.key, now, false⟩]) := by
  have hkeys := write_keys limiter state' g
  have hopen : ∀ key, openOf (leases ++ [⟨state.key, now, false⟩]) key =
      openOf leases key + if state.key = key then 1 else 0 := fun key => by simp [openOf]
  have hopenClass : ∀ c, openOfClass (leases ++ [⟨state.key, now, false⟩]) c =
      openOfClass leases c + if state.key.class_ = c then 1 else 0 := fun c => by simp [openOfClass]
  refine ⟨?_, fun e he => ?_, fun key hpos => (exists_key_iff hkeys key).mpr ?_, fun c => ?_, fun c => ?_,
    fun e he => ?_, ?_⟩
  · exact h.keyed.congr hkeys
  · rw [hopen]
    obtain rfl | ⟨he, hne⟩ := mem_write (g := g) he
    · rw [hflight, hkey, if_pos rfl, h.counted state hs]
      rfl
    · rw [if_neg (fun heq => hne (hkey ▸ heq.symm)), Nat.add_zero]
      exact h.counted e he
  · by_cases hkeq : state.key = key
    · exact ⟨state, hs, hkeq⟩
    · rw [hopen, if_neg hkeq, Nat.add_zero] at hpos
      exact h.present key hpos
  · rw [hopenClass]
    dsimp only
    by_cases hc : state.key.class_ = c
    · rw [← hc, Function.update_self, if_pos rfl, h.global]
      rfl
    · rw [Function.update_of_ne (Ne.symm hc), if_neg hc, Nat.add_zero]
      exact h.global c
  · dsimp only
    by_cases hc : state.key.class_ = c
    · rw [← hc, Function.update_self]
      exact hglobal
    · rw [Function.update_of_ne (Ne.symm hc)]
      exact h.globalBound c
  · obtain rfl | ⟨he, -⟩ := mem_write (g := g) he
    · rw [hflight, hkey]
      exact hidentity
    · exact h.identityBound e he
  · change ((limiter.write state' g).identities.length : Int) ≤ _
    unfold Limiter.write
    rw [length_update]
    exact h.entries

/-- A lease is given back: both counters go down by one. -/
theorem release (hl : leases[index]? = some lease) (hopen : lease.released = false)
    (now : Int) : Accounts (limiter.release lease.key now) (leases.set index { lease with released := true }) := by
  have hcount : ∀ key, openOf (leases.set index { lease with released := true }) key +
      (if lease.key = key then 1 else 0) = openOf leases key := fun key => by
    simpa [openOf] using open_release (· = key) hl hopen
  have hcountClass : ∀ c, openOfClass (leases.set index { lease with released := true }) c +
      (if lease.key.class_ = c then 1 else 0) = openOfClass leases c := fun c => by
    simpa [openOfClass] using open_release (·.class_ = c) hl hopen
  have hkeys : (limiter.release lease.key now).identities.map IdentityState.key =
      limiter.identities.map IdentityState.key := map_update fun _ _ _ => rfl
  have hcounted : ∀ e ∈ (limiter.release lease.key now).identities, ∃ r ∈ limiter.identities, e.key = r.key ∧
      e.inFlight = openOf (leases.set index { lease with released := true }) r.key := by
    intro e he
    obtain ⟨r, hr, rfl⟩ := mem_update.mp he
    have hc := hcount r.key
    have hr' := h.counted r hr
    by_cases hkey : r.key = lease.key
    · refine ⟨r, hr, by simp [hkey], ?_⟩
      simp only [hkey, decide_true, if_true] at hc hr' ⊢
      omega
    · refine ⟨r, hr, by simp [hkey], ?_⟩
      rw [if_neg (Ne.symm hkey)] at hc
      simp only [hkey, decide_false, Bool.false_eq_true, if_false]
      omega
  have hglobal : ∀ c, (limiter.release lease.key now).globalInFlight c =
      openOfClass (leases.set index { lease with released := true }) c := by
    intro c
    have hc := hcountClass c
    have hg := h.global c
    unfold Limiter.release
    dsimp only
    by_cases heq : lease.key.class_ = c
    · rw [← heq] at hc hg ⊢
      rw [Function.update_self]
      rw [if_pos rfl] at hc
      omega
    · rw [Function.update_of_ne (Ne.symm heq)]
      rw [if_neg heq] at hc
      omega
  refine ⟨h.keyed.congr hkeys, fun e he => ?_, fun key hpos => (exists_key_iff hkeys key).mpr (h.present key ?_),
    hglobal, fun c => ?_, fun e he => ?_, ?_⟩
  · obtain ⟨r, -, hkey, hflight⟩ := hcounted e he
    rw [hflight, hkey]
  · have := hcount key
    omega
  · have hc := hcountClass c
    have hg := h.global c
    have hb : _ ≤ ((limiter.release lease.key now).capacity.policies c).globalInFlight := h.globalBound c
    rw [hglobal c]
    omega
  · obtain ⟨r, hr, hkey, hflight⟩ := hcounted e he
    have hc := hcount r.key
    have hr' := h.counted r hr
    have hb : _ ≤ ((limiter.release lease.key now).capacity.policies r.key.class_).identityInFlight :=
      h.identityBound r hr
    rw [hflight, hkey]
    omega
  · unfold Limiter.release
    rw [length_update]
    exact h.entries

/-- The accounts do not depend on the numbers of decisions. -/
theorem counters (admitted rejected : Class → UInt64) (rejectedReasons : Class → Reason → UInt64) :
    Accounts { limiter with admitted, rejected, rejectedReasons } leases :=
  ⟨h.keyed, h.counted, h.present, h.global, h.globalBound, h.identityBound, h.entries⟩

/-- The entries of a class count the leases of the class. -/
theorem sum_inFlight (c : Class) :
    ((limiter.identities.filter (·.key.class_ = c)).map (·.inFlight)).sum = openOfClass leases c := by
  have hmap : (limiter.identities.filter (·.key.class_ = c)).map (·.inFlight) =
      ((limiter.identities.filter (·.key.class_ = c)).map fun e => leases.countP fun lease =>
        (!lease.released && lease.key.class_ = c) && lease.key = e.key).map Nat.cast := by
    rw [map_map]
    refine map_congr_left fun e he => ?_
    obtain ⟨he, hc⟩ := mem_filter.mp he
    rw [h.counted e he]
    simp only [Function.comp_apply, openOf, Nat.cast_inj]
    refine countP_congr fun lease _ => ?_
    by_cases hkey : lease.key = e.key <;> simp_all
  rw [hmap, ← Nat.cast_list_sum, sum_countP (h.keyed.filter _)]
  · rfl
  · intro lease hl hopen
    simp only [Bool.and_eq_true, decide_eq_true_eq] at hopen
    obtain ⟨e, he, hkey⟩ := h.present lease.key
      (countP_pos_iff.mpr ⟨lease, hl, by simpa using hopen.1⟩)
    exact ⟨e, mem_filter.mpr ⟨he, by simp [hkey, hopen.2]⟩, hkey⟩

end

end Accounts

/-! ## The parts of `Admit` -/

section Admit

variable {K : Type} [Arith K] {limiter limiter' : Limiter K} {leases : List Lease}

variable {now : Int} {key : IdentityKey} {p : Policy K} {state : IdentityState K}

section

variable (h : limiter.identityLocked key p now = some (state, limiter'))

include h

/-- `identityLocked` finds the entry, or adds a new one while there is room. -/
theorem identityLocked_exit :
    (state ∈ limiter.identities ∧ state.key = key ∧ limiter' = limiter) ∨ ((∀ e ∈ limiter.identities, e.key ≠ key) ∧
        limiter.identities.length < limiter.capacity.identityEntries ∧
        state = { key, bucket := newBucket p.identityRate now, seen := now } ∧
        limiter' = { limiter with identities := limiter.identities ++ [state] }) := by
  unfold Limiter.identityLocked at h
  split at h
  · next found hfind =>
    cases h
    exact .inl ⟨mem_of_find?_eq_some hfind, by simpa using find?_some hfind, rfl⟩
  · next hfind =>
    split at h
    · cases h
    · cases h
      exact .inr ⟨fun e he => by simpa using find?_eq_none.mp hfind e he, by omega, rfl, rfl⟩

theorem identityLocked_key : state.key = key ∧ limiter' = { limiter with identities := limiter'.identities } := by
  obtain ⟨-, hkey, rfl⟩ | ⟨-, -, rfl, rfl⟩ := identityLocked_exit h
  · exact ⟨hkey, rfl⟩
  · exact ⟨rfl, rfl⟩

theorem identityLocked_mem : state ∈ limiter'.identities := by
  obtain ⟨hmem, -, rfl⟩ | ⟨-, -, rfl, rfl⟩ := identityLocked_exit h
  · exact hmem
  · exact mem_concat_self

end

/-- The tokens and the time of an entry change. -/
abbrev IdentityState.refilled (state : IdentityState K) (p : Policy K) (now : Int) : IdentityState K :=
  { state with bucket := state.bucket.refill p.identityRate now }

/-- A token is taken. -/
abbrev Bucket.taken (value : Bucket K) : Bucket K :=
  { value with tokens := Arith.sub value.tokens (Arith.ofInt 1) }

/-- A request is admitted. -/
abbrev IdentityState.granted (state : IdentityState K) (p : Policy K) (now : Int) : IdentityState K :=
  { state with
    bucket := (state.bucket.refill p.identityRate now).taken
    inFlight := state.inFlight + 1
    seen := now }

/-- How `admitLocked` ends. -/
inductive Outcome (limiter : Limiter K) (key : IdentityKey) (now : Int) : Option Rejection → Limiter K → Prop
  /-- The class has no room, or the table. -/
  | refused (rejection : Rejection) : Outcome limiter key now (some rejection) limiter
  /-- The identity has no room. -/
  | busy (rejection : Rejection) {state : IdentityState K} {limiter₁ : Limiter K}
      (h : limiter.identityLocked key (limiter.capacity.policies key.class_) now = some (state, limiter₁)) :
      Outcome limiter key now (some rejection) limiter₁
  /-- A bucket is empty. -/
  | empty (rejection : Rejection) {state : IdentityState K} {limiter₁ : Limiter K}
      (h : limiter.identityLocked key (limiter.capacity.policies key.class_) now = some (state, limiter₁)) :
      Outcome limiter key now (some rejection)
        (limiter₁.write (state.refilled (limiter.capacity.policies key.class_) now)
          ((limiter₁.global key.class_).refill (limiter.capacity.policies key.class_).globalRate now))
  | admitted {state limiter₁}
      (h : limiter.identityLocked key (limiter.capacity.policies key.class_) now = some (state, limiter₁))
      (global : limiter.globalInFlight key.class_ < (limiter.capacity.policies key.class_).globalInFlight)
      (identity : state.inFlight < (limiter.capacity.policies key.class_).identityInFlight)
      (globalTokens : Arith.lt
        ((limiter₁.global key.class_).refill (limiter.capacity.policies key.class_).globalRate now).tokens
        (Arith.ofInt 1) = false)
      (tokens : Arith.lt (state.bucket.refill (limiter.capacity.policies key.class_).identityRate now).tokens
        (Arith.ofInt 1) = false) :
      Outcome limiter key now none
        { limiter₁.write (state.granted (limiter.capacity.policies key.class_) now)
            ((limiter₁.global key.class_).refill (limiter.capacity.policies key.class_).globalRate now).taken with
          globalInFlight := Function.update limiter.globalInFlight key.class_
            (limiter.globalInFlight key.class_ + 1) }

theorem admitLocked_exit (limiter : Limiter K) (key : IdentityKey) (now : Int) :
    Outcome limiter key now (limiter.admitLocked key now).1 (limiter.admitLocked key now).2 := by
  unfold Limiter.admitLocked
  dsimp only
  split_ifs with hglobal
  · exact .refused _
  · split
    · exact .refused _
    · next state limiter₁ hstate =>
      obtain ⟨hkey, hrest⟩ := identityLocked_key hstate
      split_ifs with hidentity hempty hrate
      · exact .busy _ hstate
      · exact .empty _ hstate
      · exact .empty _ hstate
      · have hflight : limiter₁.globalInFlight = limiter.globalInFlight := by rw [hrest]
        have houtcome := Outcome.admitted hstate (not_le.mp hglobal) (not_le.mp hidentity)
          (Bool.eq_false_iff.mpr hempty) (Bool.eq_false_iff.mpr hrate)
        rw [← Limiter.write_write limiter₁ (state.refilled (limiter.capacity.policies key.class_) now)
          (state.granted (limiter.capacity.policies key.class_) now) rfl
          ((limiter₁.global key.class_).refill (limiter.capacity.policies key.class_).globalRate now),
          ← hflight] at houtcome
        exact houtcome

theorem Accounts.identity (h : Accounts limiter leases)
    (hp : 0 ≤ (limiter.capacity.policies key.class_).identityInFlight)
    (hs : limiter.identityLocked key p now = some (state, limiter')) :
    Accounts limiter' leases ∧ state ∈ limiter'.identities := by
  obtain ⟨hmem, -, rfl⟩ | ⟨hnew, hroom, rfl, rfl⟩ := identityLocked_exit hs
  · exact ⟨h, hmem⟩
  · have hzero : openOf leases key = 0 := by
      by_contra hne
      obtain ⟨e, he, hkey⟩ := h.present key (Nat.pos_of_ne_zero hne)
      exact hnew e he hkey
    refine ⟨⟨h.keyed.append hnew, fun e he => ?_, fun k hopen => ?_, h.global, h.globalBound, fun e he => ?_, ?_⟩,
      mem_concat_self⟩
    · obtain he | he := Table.mem_snoc.mp he
      · exact h.counted e he
      · rw [he]
        exact (congrArg Nat.cast hzero).symm
    · obtain ⟨e, he, hkey⟩ := h.present k hopen
      exact ⟨e, mem_append_left _ he, hkey⟩
    · obtain he | he := Table.mem_snoc.mp he
      · exact h.identityBound e he
      · rw [he]
        exact hp
    · rw [length_append, length_singleton]
      push_cast
      omega

/-- `admitLocked` keeps the accounts; a request that is admitted has its lease. -/
theorem Accounts.admitLocked {result : Option Rejection} (h : Accounts limiter leases)
    (houtcome : Outcome limiter key now result limiter')
    (hp : 0 ≤ (limiter.capacity.policies key.class_).identityInFlight) :
    Accounts limiter' (if result.isNone then leases ++ [⟨key, now, false⟩] else leases) := by
  cases houtcome with
  | refused => exact h
  | busy _ hs => exact (h.identity hp hs).1
  | @empty _ state _ hs =>
    obtain ⟨h₁, hmem⟩ := h.identity hp hs
    exact h₁.write hmem (state.refilled (limiter.capacity.policies key.class_) now) rfl rfl _
  | @admitted state limiter₁ hs hglobal hidentity _ _ =>
    obtain ⟨h₁, hmem⟩ := h.identity hp hs
    obtain ⟨rfl, hrest⟩ := identityLocked_key hs
    have hcapacity : limiter₁.capacity = limiter.capacity := by rw [hrest]
    have hflight : limiter₁.globalInFlight = limiter.globalInFlight := by rw [hrest]
    have hgrant := h₁.grant hmem (state.granted (limiter.capacity.policies state.key.class_) now) rfl rfl
      (by rw [hflight, hcapacity]; exact hglobal) (by rw [hcapacity]; exact hidentity)
      ((limiter₁.global state.key.class_).refill
        (limiter.capacity.policies state.key.class_).globalRate now).taken now
    rw [hflight] at hgrant
    exact hgrant

theorem Outcome.frame {result : Option Rejection} (h : Outcome limiter key now result limiter') :
    limiter'.capacity = limiter.capacity ∧ limiter'.admitted = limiter.admitted ∧
      limiter'.rejected = limiter.rejected := by
  cases h with
  | refused => exact ⟨rfl, rfl, rfl⟩
  | busy _ hs =>
    rw [(identityLocked_key hs).2]
    exact ⟨rfl, rfl, rfl⟩
  | empty _ hs | admitted hs =>
    rw [(identityLocked_key hs).2]
    exact ⟨rfl, rfl, rfl⟩

/-- `Admit` prunes, decides, and counts the decision. -/
theorem admit_exit (limiter : Limiter K) (key : IdentityKey) (visit : Visit (IdentityState K)) (now : Int) :
    ∃ limiter₁ admitted rejected rejectedReasons,
      Outcome (limiter.pruneLocked visit now) key now (limiter.admitRequest key visit now).1 limiter₁ ∧
      (limiter.admitRequest key visit now).2 = { limiter₁ with admitted, rejected, rejectedReasons } ∧
      ∀ c, admitted c + rejected c = limiter.admitted c + limiter.rejected c + if key.class_ = c then 1 else 0 := by
  have houtcome := admitLocked_exit (limiter.pruneLocked visit now) key now
  obtain ⟨-, hadmitted, hrejected⟩ := houtcome.frame
  unfold Limiter.admitRequest
  generalize (limiter.pruneLocked visit now).admitLocked key now = result at *
  obtain ⟨rejection, limiter₁⟩ := result
  have hstart : ∀ c, limiter₁.admitted c + limiter₁.rejected c = limiter.admitted c + limiter.rejected c := by
    rw [hadmitted, hrejected]
    exact fun _ => rfl
  cases rejection with
  | some _ | none =>
    refine ⟨limiter₁, _, _, _, houtcome, rfl, fun c => ?_⟩
    by_cases hc : key.class_ = c
    · subst hc
      rw [Function.update_self, if_pos rfl, ← hstart]
      ac_rfl
    · rw [Function.update_of_ne (Ne.symm hc), if_neg hc, ← hstart, UInt64.add_zero]

end Admit

/-! ## Calls -/

section Calls

variable {K : Type} [Arith K]

/-- The calls of `Admit` with a class. -/
def Event.isAdmit (c : Class) : Event K → Bool
  | .admitRequest class_ _ _ _ => class_ = some c
  | .release _ _ => false

/-- What a call leaves: the accounts, the capacity, and the number of decisions for each class. -/
structure Called (w : World K) (e : Event K) (w' : World K) : Prop where
  accounts : Accounts w'.limiter w'.leases
  capacity : w'.limiter.capacity = w.limiter.capacity
  decided : ∀ c, w'.limiter.admitted c + w'.limiter.rejected c =
    w.limiter.admitted c + w.limiter.rejected c + if e.isAdmit c then 1 else 0

theorem called_step {w w' : World K} {e : Event K}
    (hpositive : ∀ c, 0 ≤ (w.limiter.capacity.policies c).identityInFlight)
    (h : Accounts w.limiter w.leases) (hst : Step w e w') : Called w e w' := by
  subst hst
  cases e with
  | release index now =>
    dsimp only [World.next, World.release]
    split
    · exact ⟨h, rfl, fun c => (UInt64.add_zero _).symm⟩
    · next lease hl =>
      split_ifs with hreleased
      · exact ⟨h, rfl, fun c => (UInt64.add_zero _).symm⟩
      · exact ⟨h.release hl (Bool.eq_false_iff.mpr hreleased) now, rfl, fun c => (UInt64.add_zero _).symm⟩
  | admitRequest class_ identity visit now =>
    cases class_ with
    | none => exact ⟨h, rfl, fun c => (UInt64.add_zero _).symm⟩
    | some c =>
      obtain ⟨limiter₁, admitted, rejected, reasons, houtcome, heq, hdecided⟩ :=
        admit_exit w.limiter ⟨c, identity⟩ visit now
      have hpruned := pruneLocked_exit h.keyed visit now
      have haccounts := ((h.prune hpruned).admitLocked houtcome (hpositive c)).counters admitted rejected reasons
      have hcapacity : limiter₁.capacity = w.limiter.capacity := houtcome.frame.1
      have hcount : ∀ c', admitted c' + rejected c' = w.limiter.admitted c' + w.limiter.rejected c' +
          if (Event.admitRequest (some c) identity visit now).isAdmit c' then 1 else 0 := by
        simpa [Event.isAdmit] using hdecided
      dsimp only [World.next, World.admitRequest]
      generalize w.limiter.admitRequest ⟨c, identity⟩ visit now = result at *
      obtain ⟨rejection, limiter⟩ := result
      subst heq
      cases rejection <;> exact ⟨haccounts, hcapacity, hcount⟩

/-- A capacity that is accepted has room for a request of each identity, and for an entry. -/
structure Roomy (capacity : Capacity K) : Prop where
  global : ∀ c, 1 ≤ (capacity.policies c).globalInFlight
  identity : ∀ c, 1 ≤ (capacity.policies c).identityInFlight
  entries : 0 ≤ capacity.identityEntries

theorem Policy.validate_inFlight {p : Policy K} {c : Class} (h : p.validate c = .ok ()) :
    1 ≤ p.globalInFlight ∧ 1 ≤ p.identityInFlight := by
  obtain ⟨-, -, h⟩ := Fallible.bind_eq_ok h
  obtain ⟨-, -, h⟩ := Fallible.bind_eq_ok h
  split_ifs at h
  omega

variable {capacity : Capacity K}

theorem Capacity.validate_exit (h : capacity.validate = .ok ()) :
    (∀ c, (capacity.policies c).validate c = .ok ()) ∧ minimumIdentityEntries ≤ capacity.identityEntries ∧
      minimumIdentityTTL ≤ capacity.identityTTL ∧ capacity.identityTTL ≤ maximumIdentityTTL := by
  obtain ⟨⟨⟩, hpolicies, h⟩ := Fallible.bind_eq_ok h
  refine ⟨fun c => Fallible.forM_ok hpolicies c c.mem_all, ?_⟩
  split_ifs at h
  omega

theorem Roomy.of_validate (h : capacity.validate = .ok ()) : Roomy capacity := by
  obtain ⟨hpolicies, hentries, -⟩ := Capacity.validate_exit h
  refine ⟨fun c => (Policy.validate_inFlight (hpolicies c)).1, fun c =>
    (Policy.validate_inFlight (hpolicies c)).2, ?_⟩
  unfold minimumIdentityEntries at hentries
  omega

theorem Accounts.start (h : Roomy capacity) (now : Int) :
    Accounts (World.start capacity now).limiter (World.start capacity now).leases where
  keyed := Table.Keyed.nil
  counted := fun _ he => nomatch he
  present := fun _ hpos => absurd hpos (Nat.lt_irrefl 0)
  global := fun _ => rfl
  globalBound := fun c => Int.le_trans (show (0 : Int) ≤ 1 by decide) (h.global c)
  identityBound := fun _ he => nomatch he
  entries := h.entries

/-- The accounts in every state of a run, and the number of decisions. -/
theorem accounts_run (h : Roomy capacity) {start : Int} {es : List (Event K)} {w : World K}
    (hrun : Lts.Run Step (World.start capacity start) es w) :
    Accounts w.limiter w.leases ∧ w.limiter.capacity = capacity ∧
      ∀ c, w.limiter.admitted c + w.limiter.rejected c = UInt64.ofNat (es.countP (Event.isAdmit c)) := by
  induction hrun with
  | nil => exact ⟨Accounts.start h start, rfl, fun _ => rfl⟩
  | snoc _ hst ih => ?_
  obtain ⟨haccounts, hcapacity, hdecided⟩ := ih
  have hcalled := called_step (fun c => by
    have := h.identity c
    rw [hcapacity]
    omega) haccounts hst
  refine ⟨hcalled.accounts, hcalled.capacity.trans hcapacity, fun c => ?_⟩
  rw [hcalled.decided c, hdecided c, countP_append, countP_singleton, UInt64.ofNat_add]
  split_ifs <;> rfl

/-- In every state of a run, for any order of calls and any readings of the clock: the counter of a class
is the number of its leases that are not released and the sum of the counters of its identities; both
counters stay within their bounds; the entry of an identity with such a lease is there, and no call
deletes it; the table has no more entries than the capacity allows; and every call with a class is counted
once, in the 64 bits of the counters. -/
theorem in_flight_accounting {capacity : Capacity K} (hvalid : capacity.validate = .ok ()) {start : Int}
    {es : List (Event K)} {w : World K} (hrun : Lts.Run Step (World.start capacity start) es w) :
    (∀ c, w.limiter.globalInFlight c = openOfClass w.leases c ∧ w.limiter.globalInFlight c =
        ((w.limiter.identities.filter (·.key.class_ = c)).map (·.inFlight)).sum ∧
      w.limiter.globalInFlight c ≤ (capacity.policies c).globalInFlight) ∧
    (∀ e ∈ w.limiter.identities, e.inFlight = openOf w.leases e.key ∧
      e.inFlight ≤ (capacity.policies e.key.class_).identityInFlight) ∧
    (∀ lease ∈ w.leases, lease.released = false → ∃ e ∈ w.limiter.identities, e.key = lease.key ∧
      ∀ visit now, e ∈ (w.limiter.pruneLocked visit now).identities) ∧
    w.limiter.identities.length ≤ capacity.identityEntries ∧
    ∀ c, w.limiter.admitted c + w.limiter.rejected c = UInt64.ofNat (es.countP (Event.isAdmit c)) := by
  obtain ⟨h, rfl, hdecided⟩ := accounts_run (Roomy.of_validate hvalid) hrun
  refine ⟨fun c => ⟨h.global c, ?_, h.globalBound c⟩, fun e he => ⟨h.counted e he, h.identityBound e he⟩,
    fun lease hl hopen => ?_, h.entries, hdecided⟩
  · rw [h.sum_inFlight c]
    exact h.global c
  · have hpos : 0 < openOf w.leases lease.key :=
      countP_pos_iff.mpr ⟨lease, hl, by simp [hopen]⟩
    obtain ⟨e, he, hkey⟩ := h.present lease.key hpos
    refine ⟨e, he, hkey, fun visit now => (pruneLocked_exit h.keyed visit now).kept e he ?_⟩
    exact h.not_expired he (hkey ▸ hpos) _

end Calls

/-- What the calls compute is a run. -/
theorem run_of_foldl {K : Type} [Arith K] (w : World K) (es : List (Event K)) :
    Lts.Run Step w es (es.foldl World.next w) := by
  induction es generalizing w with
  | nil => exact .nil
  | cons e es ih => exact .cons rfl (ih _)

/-- A second request of an identity that may have one in flight is rejected; its lease is given back twice. -/
def sampleCalls : List (Event ℚ) :=
  [.admitRequest (some .authKDF) "a" (.inOrder _) 0, .admitRequest (some .authKDF) "a" (.inOrder _) 0,
    .release 0 Instant.second, .release 0 Instant.second,
    .admitRequest (some .authKDF) "a" (.inOrder _) Instant.second]

theorem in_flight_accounting_sample : (defaultCapacity (K := ℚ)).validate = .ok () ∧
      let w := sampleCalls.foldl World.next (World.start defaultCapacity 0)
      w.limiter.globalInFlight .authKDF = openOfClass w.leases .authKDF ∧ openOfClass w.leases .authKDF = 1 ∧
        w.limiter.admitted .authKDF + w.limiter.rejected .authKDF = 3 := by
  have hvalid : (defaultCapacity (K := ℚ)).validate = .ok () := by decide +kernel
  obtain ⟨hclass, -, -, -, hdecided⟩ := in_flight_accounting hvalid
    (run_of_foldl (World.start defaultCapacity 0) sampleCalls)
  exact ⟨hvalid, (hclass .authKDF).1, by decide +kernel, hdecided .authKDF⟩

end Beat.Ingress
