import Beat.Ingress.InFlight
import Beat.Lib.TokenBucket

/-!
# Rate limits

The number of requests that are admitted in a window of time, with exact arithmetic on tokens and a clock
that does not go back. The bucket of a class is never replaced. The bucket of an identity goes with its
entry: an identity that comes back after its entry was deleted has a full bucket. When `IdentityTTL` is
long enough for a bucket to fill up, it would have been full anyway.

* `Funded`: a bucket that pays for the grants in a log; refilling and taking a token keep it.
* `Fresh`: once `IdentityTTL` has passed since an entry was last seen, its bucket is full.
* `IdentityFunded`: the bucket of an identity, or a full one when it has no entry.
* `rate_limits`: the limits of classes and identities; `rate_limit_evicted`: without the condition on
  `IdentityTTL` an identity gets more than its limit.
-/

namespace Beat.Ingress

open List Instant Function

open TokenBucket (level Metered)

/-! ## Exact buckets -/

/-- Tokens in a nanosecond. -/
def Rate.perTick (rate : Rate ℚ) : ℚ := rate.perSecond / second

/-- A rate that is accepted. -/
structure Rate.Positive (rate : Rate ℚ) : Prop where
  perSecond : 0 < rate.perSecond
  burst : 1 ≤ rate.burst

variable {rate : Rate ℚ} {capacity : Capacity ℚ} {w : World ℚ} {c : Class}

theorem Rate.Positive.perTick (h : rate.Positive) : 0 ≤ rate.perTick :=
  div_nonneg h.perSecond.le (by norm_num [second])

theorem Rate.Positive.burst_nonneg (h : rate.Positive) : (0 : ℚ) ≤ rate.burst := by
  have := h.burst
  exact_mod_cast (by omega : (0 : Int) ≤ rate.burst)

/-- The tokens that a bucket has now. -/
def Bucket.credit (b : Bucket ℚ) (rate : Rate ℚ) (now : Int) : ℚ := (b.refill rate now).tokens

theorem Bucket.refill_eq (b : Bucket ℚ) (rate : Rate ℚ) (now : Int) :
    b.refill rate now = if sub now b.updated ≤ 0 then b
      else ⟨min rate.burst (b.tokens + sub now b.updated / second * rate.perSecond), now⟩ := by
  have hle : Arith.le (Arith.seconds (sub now b.updated) : ℚ) (Arith.ofInt 0) = true ↔
      sub now b.updated ≤ 0 := by
    simp only [Arith.le, Arith.seconds, Arith.ofInt, decide_eq_true_eq]
    rw [div_le_iff₀ (by norm_num [second])]
    simp
  unfold Bucket.refill
  by_cases h : sub now b.updated ≤ 0
  · rw [if_pos (hle.mpr h), if_pos h]
  · rw [if_neg (fun hc => h (hle.mp hc)), if_neg h]
    rfl

structure BucketOk (rate : Rate ℚ) (b : Bucket ℚ) (now : Int) : Prop where
  nonneg : 0 ≤ b.tokens
  le : b.tokens ≤ rate.burst
  updated : b.updated ≤ now

section Bucket

variable {rate : Rate ℚ} {b : Bucket ℚ} {now t : Int}

theorem Bucket.credit_eq (h : b.tokens ≤ rate.burst) :
    b.credit rate t = level rate.perTick rate.burst b.tokens (sub t b.updated) := by
  unfold Bucket.credit
  rw [Bucket.refill_eq]
  split_ifs with helapsed
  · exact (TokenBucket.level_zero h helapsed).symm
  · unfold level Rate.perTick
    rw [max_eq_right (by omega)]
    exact congrArg (min _ <| b.tokens + ·) (by ring)

theorem Bucket.refill_updated (h : b.updated ≤ t) : (b.refill rate t).updated = t := by
  rw [Bucket.refill_eq]
  split_ifs with helapsed
  · unfold sub minDuration maxDuration at helapsed
    omega
  · rfl

/-- A bucket that was refilled now has what it has. -/
theorem Bucket.credit_of_updated (h : b.updated = t) : b.credit rate t = b.tokens := by
  unfold Bucket.credit
  rw [Bucket.refill_eq, h, if_pos]
  unfold sub
  simp [minDuration, maxDuration]

theorem BucketOk.refill (hrate : rate.Positive) (h : BucketOk rate b now) :
    BucketOk rate (b.refill rate now) now := by
  have hcredit := Bucket.credit_eq (t := now) h.le
  unfold Bucket.credit at hcredit
  refine ⟨?_, ?_, (Bucket.refill_updated h.updated).le⟩
  · rw [hcredit]
    exact TokenBucket.level_nonneg hrate.perTick hrate.burst_nonneg h.nonneg _
  · rw [hcredit]
    exact TokenBucket.level_le _ _

/-- A saturated difference grows no faster than time. -/
theorem sub_max_le {u : Int} (h : now ≤ t) : max 0 (sub t u) ≤ max 0 (sub now u) + (t - now) := by
  unfold sub minDuration maxDuration
  omega

/-- The bucket pays for the grants in the log. -/
structure Funded (rate : Rate ℚ) (b : Bucket ℚ) (log : List Int) (now : Int) : Prop where
  ok : BucketOk rate b now
  metered : Metered rate.perTick rate.burst log now (b.credit rate now)

variable {log : List Int}

theorem Funded.new (hrate : rate.Positive) (h : Metered rate.perTick rate.burst log now rate.burst) :
    Funded rate (newBucket rate now) log now :=
  ⟨⟨hrate.burst_nonneg, le_refl _, le_refl _⟩, by
    rw [Bucket.credit_of_updated (b := newBucket rate now) (t := now) rfl]
    exact h⟩

theorem Funded.advance (hrate : rate.Positive) (h : Funded rate b log now) (ht : now ≤ t) : Funded rate b log t := by
  refine ⟨⟨h.ok.nonneg, h.ok.le, h.ok.updated.trans ht⟩, h.metered.advance hrate.perTick ht ?_ ?_⟩
  · rw [Bucket.credit_eq h.ok.le]
    exact TokenBucket.level_le _ _
  · rw [Bucket.credit_eq h.ok.le, Bucket.credit_eq h.ok.le]
    exact TokenBucket.level_add_le hrate.perTick _ (by omega) (sub_max_le ht)

theorem Funded.refill (hrate : rate.Positive) (h : Funded rate b log now) :
    Funded rate (b.refill rate now) log now := by
  refine ⟨h.ok.refill hrate, ?_⟩
  rw [Bucket.credit_of_updated (Bucket.refill_updated h.ok.updated)]
  exact h.metered

theorem Funded.taken (hrate : rate.Positive) (h : Funded rate b log now)
    (htokens : Arith.lt (b.refill rate now).tokens (Arith.ofInt 1 : ℚ) = false) :
    Funded rate (b.refill rate now).taken (log ++ [now]) now := by
  have hok := h.ok.refill hrate
  have hone : 1 ≤ (b.refill rate now).tokens := by
    simpa [Arith.lt, Arith.ofInt] using htokens
  have htaken : (b.refill rate now).taken.tokens = (b.refill rate now).tokens - 1 := by
    simp [Arith.sub, Arith.ofInt]
  refine ⟨⟨?_, ?_, hok.updated⟩, ?_⟩
  · rw [htaken]
    linarith
  · rw [htaken]
    linarith [hok.le]
  · rw [Bucket.credit_of_updated (b := (b.refill rate now).taken) (Bucket.refill_updated h.ok.updated), htaken]
    refine h.metered.grant hrate.perTick (by linarith) ?_
    unfold Bucket.credit
    linarith

end Bucket

/-! ## Entries of identities -/

/-- `IdentityTTL` is long enough for the bucket of an identity to fill up. -/
def Capacity.Refills (capacity : Capacity ℚ) (c : Class) : Prop :=
  ((capacity.policies c).identityRate.burst : ℚ) ≤
    (capacity.policies c).identityRate.perSecond * (capacity.identityTTL / second)

instance (capacity : Capacity ℚ) (c : Class) : Decidable (capacity.Refills c) :=
  inferInstanceAs (Decidable (_ ≤ _))

/-- From `now` on, the bucket is full once `ttl` has passed since the entry was seen. -/
structure Fresh (rate : Rate ℚ) (ttl : Int) (e : IdentityState ℚ) (now : Int) : Prop where
  seen : e.seen ≤ now
  full : ∀ t, now ≤ t → ttl ≤ t - e.seen → e.bucket.credit rate t = rate.burst

section Fresh

variable {rate : Rate ℚ} {ttl now t : Int} {e : IdentityState ℚ}

theorem Fresh.advance (h : Fresh rate ttl e now) (ht : now ≤ t) : Fresh rate ttl e t :=
  ⟨h.seen.trans ht, fun t' ht' => h.full t' (ht.trans ht')⟩

/-- A refill does not take anything away. -/
theorem Fresh.refill (hrate : rate.Positive) (hok : BucketOk rate e.bucket now) (h : Fresh rate ttl e now) :
    Fresh rate ttl { e with bucket := e.bucket.refill rate now } now := by
  refine ⟨h.seen, fun t ht httl => ?_⟩
  have hfull := h.full t ht httl
  rw [Bucket.credit_eq hok.le] at hfull
  have hcredit := Bucket.credit_eq (t := now) hok.le
  unfold Bucket.credit at hcredit
  rw [Bucket.credit_eq (hok.refill hrate).le, hcredit, Bucket.refill_updated hok.updated]
  refine TokenBucket.level_level_eq hrate.perTick hfull ?_
  unfold sub minDuration maxDuration
  omega

/-- An entry that is seen now: an empty bucket fills up in time. -/
theorem Fresh.of_seen (hrate : rate.Positive) (hok : BucketOk rate e.bucket now) (hupdated : e.bucket.updated = now)
    (hseen : e.seen = now) (hrefills : (rate.burst : ℚ) ≤ rate.perTick * ttl) (hzero : 0 ≤ ttl)
    (hmax : ttl ≤ maxDuration) : Fresh rate ttl e now := by
  refine ⟨hseen.le, fun t ht httl => ?_⟩
  have hfull : (rate.burst : ℚ) ≤ e.bucket.tokens + rate.perTick * ((max 0 ttl : Int) : ℚ) := by
    rw [max_eq_right hzero]
    linarith [hok.nonneg]
  rw [Bucket.credit_eq hok.le, hupdated]
  refine TokenBucket.level_eq_of_le hrate.perTick hfull ?_
  unfold sub minDuration
  omega

/-- A new entry is full. -/
theorem Fresh.new (hrate : rate.Positive) (key : IdentityKey) :
    Fresh rate ttl { key, bucket := newBucket rate now, seen := now } now := by
  refine ⟨le_refl _, fun t ht _ => ?_⟩
  rw [Bucket.credit_eq (le_refl _)]
  refine min_eq_left (le_add_of_nonneg_right (mul_nonneg hrate.perTick ?_))
  exact_mod_cast le_max_left 0 _

/-- An entry that is seen again. -/
theorem Fresh.touch (h : Fresh rate ttl e now) (n : Int) : Fresh rate ttl { e with inFlight := n, seen := now } now :=
  ⟨le_refl _, fun t ht httl => h.full t ht (by have := h.seen; dsimp only at httl; omega)⟩

end Fresh

/-- The bucket of an identity pays for its grants; without an entry it has a full one. -/
def IdentityFunded (rate : Rate ℚ) (ttl : Int) (identities : List (IdentityState ℚ)) (key : IdentityKey)
    (log : List Int) (now : Int) : Prop :=
  (∃ e ∈ identities, e.key = key ∧ Funded rate e.bucket log now ∧ Fresh rate ttl e now) ∨
    ((∀ e ∈ identities, e.key ≠ key) ∧ Metered rate.perTick rate.burst log now rate.burst)

namespace IdentityFunded

variable {rate : Rate ℚ} {ttl now t : Int} {key : IdentityKey} {log : List Int}
  {limiter limiter' : Limiter ℚ} {state : IdentityState ℚ} {p : Policy ℚ}

theorem advance (hrate : rate.Positive) (h : IdentityFunded rate ttl limiter.identities key log now)
    (ht : now ≤ t) : IdentityFunded rate ttl limiter.identities key log t := by
  obtain ⟨e, he, hkey, hfunded, hfresh⟩ | ⟨hnone, hmetered⟩ := h
  · exact .inl ⟨e, he, hkey, hfunded.advance hrate ht, hfresh.advance ht⟩
  · refine .inr ⟨hnone, hmetered.advance hrate.perTick ht (le_refl _) ?_⟩
    have : 0 ≤ rate.perTick * ((t - now : Int) : ℚ) :=
      mul_nonneg hrate.perTick (by exact_mod_cast Int.sub_nonneg.mpr ht)
    linarith

/-- An entry that is deleted has a full bucket. -/
theorem prune (h : IdentityFunded rate ttl limiter.identities key log now)
    (hkeyed : Table.Keyed IdentityState.key limiter.identities) (hp : Pruned limiter limiter' (now - ttl)) :
    IdentityFunded rate ttl limiter'.identities key log now := by
  obtain ⟨e, he, hkey, hfunded, hfresh⟩ | ⟨hnone, hmetered⟩ := h
  · by_cases hkept : e ∈ limiter'.identities
    · exact .inl ⟨e, hkept, hkey, hfunded, hfresh⟩
    · have hexpired : e.isExpired (now - ttl) = true := by
        by_contra hne
        exact hkept (hp.kept e he (Bool.eq_false_iff.mpr hne))
      have hseen : e.seen ≤ now - ttl := by
        simp only [IdentityState.isExpired, Bool.not_eq_true', Bool.or_eq_false_iff, decide_eq_false_iff_not,
          not_lt] at hexpired
        exact hexpired.2
      have hfull := hfresh.full now (le_refl _) (by omega)
      refine .inr ⟨fun r hr hrkey => hkept ?_, hfull ▸ hfunded.metered⟩
      rw [← hkeyed.eq_of_key (hp.sublist.subset hr) he (hrkey.trans hkey.symm)]
      exact hr
  · exact .inr ⟨fun e he => hnone e (hp.sublist.subset he), hmetered⟩

/-- The entry that `identityLocked` returns for the identity. -/
theorem identityLocked (hrate : rate.Positive) (hp : p.identityRate = rate)
    (h : IdentityFunded rate ttl limiter.identities key log now)
    (hkeyed : Table.Keyed IdentityState.key limiter.identities)
    (hs : limiter.identityLocked key p now = some (state, limiter')) :
    Funded rate state.bucket log now ∧ Fresh rate ttl state now := by
  obtain ⟨hmem, hskey, -⟩ | ⟨hnew, -, rfl, -⟩ := identityLocked_exit hs
  · obtain ⟨e, he, hkey, hfunded, hfresh⟩ | ⟨hnone, -⟩ := h
    · rw [hkeyed.eq_of_key hmem he (hskey.trans hkey.symm)]
      exact ⟨hfunded, hfresh⟩
    · exact absurd hskey (hnone state hmem)
  · obtain ⟨e, he, hkey, -⟩ | ⟨-, hmetered⟩ := h
    · exact absurd hkey (hnew e he)
    · rw [hp]
      exact ⟨Funded.new hrate hmetered, Fresh.new hrate key⟩

/-- Another identity is looked up. -/
theorem identityLocked_other {key' : IdentityKey} (hne : key' ≠ key)
    (h : IdentityFunded rate ttl limiter.identities key log now)
    (hs : limiter.identityLocked key' p now = some (state, limiter')) :
    IdentityFunded rate ttl limiter'.identities key log now := by
  obtain ⟨-, -, rfl⟩ | ⟨-, -, rfl, rfl⟩ := identityLocked_exit hs
  · exact h
  · obtain ⟨e, he, hfacts⟩ | ⟨hnone, hmetered⟩ := h
    · exact .inl ⟨e, mem_append_left _ he, hfacts⟩
    · refine .inr ⟨fun e he => ?_, hmetered⟩
      obtain he | he := Table.mem_snoc.mp he
      · exact hnone e he
      · rw [he]
        exact hne

/-- Entries of other identities change. -/
theorem update_other {p : IdentityState ℚ → Bool} {f : IdentityState ℚ → IdentityState ℚ}
    (h : IdentityFunded rate ttl limiter.identities key log now)
    (hp : ∀ e, p e = true → e.key ≠ key) (hf : ∀ e, p e = true → (f e).key = e.key) :
    IdentityFunded rate ttl (Table.update limiter.identities p f) key log now := by
  obtain ⟨e, he, hkey, hfacts⟩ | ⟨hnone, hmetered⟩ := h
  · refine .inl ⟨e, Table.mem_update.mpr ⟨e, he, ?_⟩, hkey, hfacts⟩
    rw [if_neg fun hpe => hp e hpe hkey]
  · refine .inr ⟨fun e' he' => ?_, hmetered⟩
    obtain ⟨e, he, rfl⟩ := Table.mem_update.mp he'
    split_ifs with hpe
    · rw [hf e hpe]
      exact hnone e he
    · exact hnone e he

end IdentityFunded

/-! ## One decision -/

section Decision

variable {limiter limiter' : Limiter ℚ} {key key' : IdentityKey} {now ttl : Int} {log : List Int}
  {result : Option Rejection}

/-- An identity and the request of this or another identity. -/
theorem IdentityFunded.outcome (houtcome : Outcome limiter key' now result limiter')
    (h : IdentityFunded rate ttl limiter.identities key log now)
    (hkeyed : Table.Keyed IdentityState.key limiter.identities) (hrate : rate.Positive)
    (hpolicy : rate = (limiter.capacity.policies key.class_).identityRate)
    (hrefills : (rate.burst : ℚ) ≤ rate.perTick * ttl) (hzero : 0 ≤ ttl) (hmax : ttl ≤ maxDuration) :
    IdentityFunded rate ttl limiter'.identities key
      (if key' = key ∧ result.isNone then log ++ [now] else log) now := by
  subst hpolicy
  by_cases hkey : key' = key
  · subst hkey
    cases houtcome with
    | refused => simpa using h
    | busy _ hs =>
      obtain ⟨hfunded, hfresh⟩ := h.identityLocked hrate rfl hkeyed hs
      exact .inl ⟨_, identityLocked_mem hs, (identityLocked_key hs).1, by simpa using hfunded, hfresh⟩
    | @empty _ state limiter₁ hs =>
      obtain ⟨hfunded, hfresh⟩ := h.identityLocked hrate rfl hkeyed hs
      refine .inl ⟨state.refilled (limiter.capacity.policies key'.class_) now, mem_write_self
        (identityLocked_mem hs) (state.refilled (limiter.capacity.policies key'.class_) now) rfl _,
        (identityLocked_key hs).1, ?_, hfresh.refill hrate hfunded.ok⟩
      rw [if_neg (by simp)]
      exact hfunded.refill hrate
    | @admitted state limiter₁ hs _ _ _ htokens =>
      obtain ⟨hfunded, hfresh⟩ := h.identityLocked hrate rfl hkeyed hs
      have htaken := hfunded.taken hrate htokens
      refine .inl ⟨state.granted (limiter.capacity.policies key'.class_) now, mem_write_self
        (identityLocked_mem hs) (state.granted (limiter.capacity.policies key'.class_) now) rfl
        ((limiter₁.global key'.class_).refill (limiter.capacity.policies key'.class_).globalRate now).taken,
        (identityLocked_key hs).1, ?_,
        Fresh.of_seen hrate htaken.ok (Bucket.refill_updated hfunded.ok.updated) rfl hrefills hzero hmax⟩
      rw [if_pos ⟨rfl, rfl⟩]
      exact htaken
  · rw [if_neg fun hc => hkey hc.1]
    cases houtcome with
    | refused => exact h
    | busy _ hs => exact h.identityLocked_other hkey hs
    | empty _ hs | admitted hs =>
      have hskey := (identityLocked_key hs).1
      refine (h.identityLocked_other hkey hs).update_other (fun e he => ?_) fun e he => ?_
      · rw [of_decide_eq_true he]
        exact hskey ▸ hkey
      · exact (of_decide_eq_true he).symm

/-- A class and the request of this or another class. -/
theorem Funded.outcome {b : Bucket ℚ} (houtcome : Outcome limiter key' now result limiter')
    (h : Funded rate b log now) (hb : b = limiter.global c) (hrate : rate.Positive)
    (hpolicy : rate = (limiter.capacity.policies c).globalRate) : Funded rate (limiter'.global c)
      (if key'.class_ = c ∧ result.isNone then log ++ [now] else log) now := by
  subst hb hpolicy
  have hglobal : ∀ {state : IdentityState ℚ} {limiter₁ : Limiter ℚ},
      limiter.identityLocked key' (limiter.capacity.policies key'.class_) now = some (state, limiter₁) →
      limiter₁.global = limiter.global ∧ state.key = key' := by
    intro state limiter₁ hs
    obtain ⟨hskey, hrest⟩ := identityLocked_key hs
    exact ⟨by rw [hrest], hskey⟩
  cases houtcome with
  | refused => simpa using h
  | busy _ hs =>
    rw [(hglobal hs).1]
    simpa using h
  | @empty _ state limiter₁ hs =>
    obtain ⟨heq, hskey⟩ := hglobal hs
    rw [if_neg (by simp)]
    dsimp only [Limiter.write]
    by_cases hc : key'.class_ = c
    · subst hc
      rw [hskey, update_self, heq]
      exact h.refill hrate
    · rw [hskey, update_of_ne (Ne.symm hc), heq]
      exact h
  | @admitted state limiter₁ hs _ _ htokens _ =>
    obtain ⟨heq, hskey⟩ := hglobal hs
    dsimp only [Limiter.write]
    by_cases hc : key'.class_ = c
    · subst hc
      rw [hskey, update_self, if_pos ⟨rfl, rfl⟩]
      rw [heq] at htokens ⊢
      exact h.taken hrate htokens
    · rw [hskey, update_of_ne (Ne.symm hc), if_neg fun hcond => hc hcond.1, heq]
      exact h

end Decision

/-! ## Runs -/

/-- The times at which requests were admitted. -/
def times (leases : List Lease) (p : IdentityKey → Bool) : List Int :=
  (leases.filter fun lease => p lease.key).map Lease.admittedAt

theorem times_append (leases : List Lease) (lease : Lease) (p : IdentityKey → Bool) :
    times (leases ++ [lease]) p = if p lease.key then times leases p ++ [lease.admittedAt] else times leases p := by
  unfold times
  by_cases hp : p lease.key <;> simp [hp]

/-- A release leaves the times. -/
theorem times_set {leases : List Lease} {index : Nat} {lease : Lease} (h : leases[index]? = some lease)
    (p : IdentityKey → Bool) : times (leases.set index { lease with released := true }) p = times leases p := by
  have hmap : (leases.set index { lease with released := true }).map (fun l => (l.key, l.admittedAt)) =
      leases.map fun l => (l.key, l.admittedAt) := by
    refine ext_getElem? fun i => ?_
    rw [getElem?_map, getElem?_map, getElem?_set]
    split_ifs with hi hlt
    · subst hi
      rw [h]
      rfl
    · subst hi
      rw [getElem?_eq_none (by omega)]
    · rfl
  have htimes : ∀ ls : List Lease, times ls p =
      ((ls.map fun l => (l.key, l.admittedAt)).filter fun x => p x.1).map Prod.snd := by
    intro ls
    rw [filter_map, map_map]
    rfl
  rw [htimes, htimes, hmap]

theorem grants_times (leases : List Lease) (p : IdentityKey → Bool) (a b : Int) :
    TokenBucket.grants (times leases p) a b =
      leases.countP fun lease => p lease.key ∧ a ≤ lease.admittedAt ∧ lease.admittedAt ≤ b := by
  unfold TokenBucket.grants times
  rw [countP_map, countP_filter]
  refine countP_congr fun lease _ => ?_
  simp only [comp_apply, Bool.and_eq_true, decide_eq_true_eq]
  exact and_comm

structure LimitsOk (capacity : Capacity ℚ) (w : World ℚ) (now : Int) : Prop where
  global : ∀ c, Funded (capacity.policies c).globalRate (w.limiter.global c)
    (times w.leases fun key => key.class_ = c) now
  identity : ∀ key, capacity.Refills key.class_ →
    IdentityFunded (capacity.policies key.class_).identityRate capacity.identityTTL w.limiter.identities key
      (times w.leases fun k => k = key) now

/-- What a capacity that is accepted has. -/
structure Capacity.Sound (capacity : Capacity ℚ) : Prop where
  global : ∀ c, (capacity.policies c).globalRate.Positive
  identity : ∀ c, (capacity.policies c).identityRate.Positive
  ttl_nonneg : 0 ≤ capacity.identityTTL
  ttl_le : capacity.identityTTL ≤ maxDuration

theorem validateRate_exit {scope : String} (h : validateRate c rate scope = .ok ()) : rate.Positive := by
  unfold validateRate at h
  split_ifs at h with hrate hburst
  simp only [Arith.isFinite, Arith.le, Arith.lt, Arith.ofInt, Bool.not_true, Bool.false_or, Bool.or_eq_true,
    decide_eq_true_eq, not_or, not_le, Int.cast_zero] at hrate
  exact ⟨hrate.1, by omega⟩

theorem Capacity.Sound.of_validate (h : capacity.validate = .ok ()) : capacity.Sound := by
  obtain ⟨hpolicies, -, hmin, hmax⟩ := Capacity.validate_exit h
  have hrates : ∀ c, (capacity.policies c).globalRate.Positive ∧ (capacity.policies c).identityRate.Positive := by
    intro c
    have hc := hpolicies c
    obtain ⟨⟨⟩, hglobal, hc⟩ := Fallible.bind_eq_ok hc
    obtain ⟨⟨⟩, hidentity, -⟩ := Fallible.bind_eq_ok hc
    exact ⟨validateRate_exit hglobal, validateRate_exit hidentity⟩
  unfold minimumIdentityTTL second at hmin
  unfold maximumIdentityTTL hour minute second at hmax
  refine ⟨fun c => (hrates c).1, fun c => (hrates c).2, by omega, ?_⟩
  unfold maxDuration
  omega

theorem Capacity.Refills.perTick (h : capacity.Refills c) : ((capacity.policies c).identityRate.burst : ℚ) ≤
      (capacity.policies c).identityRate.perTick * capacity.identityTTL := by
  unfold Capacity.Refills at h
  unfold Rate.perTick
  rw [div_mul_eq_mul_div]
  rwa [mul_div_assoc'] at h

theorem LimitsOk.advance (hs : capacity.Sound) {now t : Int} (h : LimitsOk capacity w now) (ht : now ≤ t) :
    LimitsOk capacity w t :=
  ⟨fun c => (h.global c).advance (hs.global c) ht,
    fun key hrefills => (h.identity key hrefills).advance (hs.identity key.class_) ht⟩

theorem limits_step (hs : capacity.Sound) {w' : World ℚ} {e : Event ℚ} {now : Int}
    (haccounts : Accounts w.limiter w.leases) (hcapacity : w.limiter.capacity = capacity)
    (h : LimitsOk capacity w now) (ht : now ≤ e.now) (hst : Step w e w') : LimitsOk capacity w' e.now := by
  have h := h.advance hs ht
  subst hst
  cases e with
  | release index t =>
    dsimp only [World.next, World.release, Event.now] at h ⊢
    split
    · exact h
    · next lease hl =>
      split_ifs with hreleased
      · exact h
      · refine ⟨fun c => ?_, fun key hrefills => ?_⟩
        · rw [times_set hl]
          exact h.global c
        · rw [times_set hl]
          have hid := h.identity key hrefills
          by_cases hkey : lease.key = key
          · -- the entry is seen now
            obtain ⟨e, he, hekey, hfunded, hfresh⟩ | ⟨hnone, hmetered⟩ := hid
            · refine .inl ⟨_, Table.mem_update.mpr ⟨e, he, rfl⟩, ?_⟩
              rw [if_pos (by simp [hekey, hkey])]
              exact ⟨hekey, hfunded, hfresh.touch _⟩
            · refine .inr ⟨fun e' he' => ?_, hmetered⟩
              obtain ⟨e, he, rfl⟩ := Table.mem_update.mp he'
              split_ifs
              · exact hnone e he
              · exact hnone e he
          · exact hid.update_other (fun e he => by rw [of_decide_eq_true he]; exact hkey) fun _ _ => rfl
  | admitRequest class_ identity visit t =>
    cases class_ with
    | none => exact h
    | some c =>
      dsimp only [Event.now] at h ⊢
      subst hcapacity
      obtain ⟨limiter₁, admitted, rejected, reasons, houtcome, heq, -⟩ :=
        admit_exit w.limiter ⟨c, identity⟩ visit t
      have hpruned := pruneLocked_exit haccounts.keyed visit t
      have hkeyed := (haccounts.prune hpruned).keyed
      have hglobal := fun c' => Funded.outcome (c := c') houtcome (h.global c') rfl (hs.global c') rfl
      have hidentity := fun (key : IdentityKey) (hrefills : w.limiter.capacity.Refills key.class_) =>
        IdentityFunded.outcome houtcome ((h.identity key hrefills).prune haccounts.keyed hpruned) hkeyed
          (hs.identity key.class_) rfl hrefills.perTick hs.ttl_nonneg hs.ttl_le
      dsimp only [World.next, World.admitRequest]
      generalize w.limiter.admitRequest ⟨c, identity⟩ visit t = result at *
      obtain ⟨rejection, limiter⟩ := result
      subst heq
      cases rejection with
      | some rejection =>
        refine ⟨fun c' => ?_, fun key hrefills => ?_⟩
        · simpa using hglobal c'
        · simpa using hidentity key hrefills
      | none =>
        refine ⟨fun c' => ?_, fun key hrefills => ?_⟩
        · rw [times_append]
          simpa using hglobal c'
        · rw [times_append]
          simpa using hidentity key hrefills

theorem LimitsOk.start (hs : capacity.Sound) (now : Int) : LimitsOk capacity (World.start capacity now) now where
  global c := Funded.new (hs.global c)
    (Metered.start (hs.global c).perTick (hs.global c).burst_nonneg now (le_refl _))
  identity key _ := .inr ⟨fun _ he => (nomatch he),
    Metered.start (hs.identity key.class_).perTick (hs.identity key.class_).burst_nonneg now (le_refl _)⟩

/-- The readings of a run, the one of `New` first. -/
def readings (start : Int) (es : List (Event ℚ)) : List Int := start :: es.map Event.now

theorem limits_run (hvalid : capacity.validate = .ok ()) {start : Int} {es : List (Event ℚ)}
    (hclock : (readings start es).Pairwise (· ≤ ·)) (hrun : Lts.Run Step (World.start capacity start) es w) :
    ∃ now ∈ readings start es, LimitsOk capacity w now := by
  have hs := Capacity.Sound.of_validate hvalid
  induction hrun with
  | nil => exact ⟨start, mem_cons_self, LimitsOk.start hs start⟩
  | @snoc es e w w' hr hst ih => ?_
  have hsplit : readings start (es ++ [e]) = readings start es ++ [e.now] := by
    unfold readings
    rw [map_append]
    rfl
  rw [hsplit] at hclock ⊢
  obtain ⟨hbefore, -, hlast⟩ := pairwise_append.mp hclock
  obtain ⟨now, hnow, hok⟩ := ih hbefore
  obtain ⟨haccounts, hcapacity, -⟩ := accounts_run (Roomy.of_validate hvalid) hr
  exact ⟨e.now, mem_concat_self,
    limits_step hs haccounts hcapacity hok (hlast now hnow e.now mem_cons_self) hst⟩

/-- The limit of a window of time, in seconds. -/
def Rate.limit (rate : Rate ℚ) (a b : Int) : ℚ := rate.burst + rate.perSecond * ((b - a : Int) / second)

theorem Rate.limit_eq (rate : Rate ℚ) (a b : Int) : rate.limit a b = rate.burst + rate.perTick * (b - a : Int) := by
  unfold Rate.limit Rate.perTick
  ring

/-- In every run in which the clock does not go back, and in every window of time: a class has no more
admissions than its limit, and neither has an identity of a class for which `IdentityTTL` is long enough
to fill the bucket of an identity, whatever was deleted in between. -/
theorem rate_limits {capacity : Capacity ℚ} (hvalid : capacity.validate = .ok ()) {start : Int}
    {es : List (Event ℚ)} {w : World ℚ} (hclock : (readings start es).Pairwise (· ≤ ·))
    (hrun : Lts.Run Step (World.start capacity start) es w) {a b : Int} (hab : a ≤ b) :
    (∀ c, ((w.leases.countP fun lease =>
        lease.key.class_ = c ∧ a ≤ lease.admittedAt ∧ lease.admittedAt ≤ b : Nat) : ℚ) ≤
      (capacity.policies c).globalRate.limit a b) ∧ ∀ key : IdentityKey, capacity.Refills key.class_ →
      ((w.leases.countP fun lease => lease.key = key ∧ a ≤ lease.admittedAt ∧ lease.admittedAt ≤ b : Nat) : ℚ) ≤
      (capacity.policies key.class_).identityRate.limit a b := by
  obtain ⟨now, -, hok⟩ := limits_run hvalid hclock hrun
  refine ⟨fun c => ?_, fun key hrefills => ?_⟩
  · have hwindow := (hok.global c).metered.window a b hab
    rw [grants_times] at hwindow
    rw [Rate.limit_eq]
    simpa using hwindow
  · have hmetered : ∃ credit, Metered (capacity.policies key.class_).identityRate.perTick
        (capacity.policies key.class_).identityRate.burst (times w.leases fun k => k = key) now credit := by
      obtain ⟨e, -, -, hfunded, -⟩ | ⟨-, hmetered⟩ := hok.identity key hrefills
      · exact ⟨_, hfunded.metered⟩
      · exact ⟨_, hmetered⟩
    obtain ⟨credit, hmetered⟩ := hmetered
    have hwindow := hmetered.window a b hab
    rw [grants_times] at hwindow
    rw [Rate.limit_eq]
    simpa using hwindow

/-- Four requests, each given back at once; the leases are numbered from `first`. -/
def fourRequests (first : Nat) (now : Int) : List (Event ℚ) :=
  (range 4).flatMap fun i =>
    [.admitRequest (some .authKDF) "a" (.inOrder _) now, .release (first + i) now]

/-- Four requests, and one of another identity when the entry of the first is old enough to be deleted. -/
def requestsUntilDeleted : List (Event ℚ) :=
  fourRequests 0 0 ++ [.admitRequest (some .authKDF) "b" (.inOrder _) (2 * defaultIdentityTTL)]

/-- The capacity of the code itself meets the condition: an identity that comes back after its entry was deleted
has no more admissions than its limit. -/
theorem rate_limits_default :
    (defaultCapacity (K := ℚ)).validate = .ok () ∧ (∀ c, (defaultCapacity (K := ℚ)).Refills c) ∧
      (requestsUntilDeleted.foldl World.next (World.start defaultCapacity 0)).limiter.identities.map (·.key) =
        [⟨.authKDF, "b"⟩] ∧
      let w := (requestsUntilDeleted ++ fourRequests 5 (2 * defaultIdentityTTL)).foldl World.next
        (World.start defaultCapacity 0)
      let admissions := w.leases.countP fun lease =>
        lease.key = ⟨.authKDF, "a"⟩ ∧ 0 ≤ lease.admittedAt ∧ lease.admittedAt ≤ 2 * defaultIdentityTTL
      admissions = 8 ∧ (admissions : ℚ) ≤ Rate.limit ⟨1, 4⟩ 0 (2 * defaultIdentityTTL) := by
  have hvalid : (defaultCapacity (K := ℚ)).validate = .ok () := by decide +kernel
  have hrefills : ∀ c, (defaultCapacity (K := ℚ)).Refills c := by
    intro c
    cases c <;> decide +kernel
  have hlimits := rate_limits hvalid
    (by decide : (readings 0 (requestsUntilDeleted ++ fourRequests 5 (2 * defaultIdentityTTL))).Pairwise (· ≤ ·))
    (run_of_foldl _ _) (by decide : (0 : Int) ≤ 2 * defaultIdentityTTL)
  exact ⟨hvalid, hrefills, by decide +kernel, by decide +kernel, hlimits.2 ⟨.authKDF, "a"⟩ (hrefills .authKDF)⟩

/-- The capacity of the code with entries that are kept for a second. -/
def briefCapacity : Capacity ℚ := { defaultCapacity with identityTTL := second }

/-- An identity uses up its burst, is deleted after a second, and uses up its burst again: eight
admissions in a second, where its limit is five. -/
theorem rate_limit_evicted : briefCapacity.validate = .ok () ∧
      ∃ w, Lts.Run Step (World.start briefCapacity 0) (fourRequests 0 0 ++ fourRequests 4 second) w ∧
        (readings 0 (fourRequests 0 0 ++ fourRequests 4 second)).Pairwise (· ≤ ·) ∧
        (briefCapacity.policies .authKDF).identityRate.limit 0 second = 5 ∧ (w.leases.countP fun lease =>
          lease.key = ⟨.authKDF, "a"⟩ ∧ 0 ≤ lease.admittedAt ∧ lease.admittedAt ≤ second) = 8 := by
  refine ⟨by decide +kernel, _, run_of_foldl _ _, by decide, ?_, by decide +kernel⟩
  norm_num [briefCapacity, defaultCapacity, policy, Rate.limit, Arith.ofInt, second]

end Beat.Ingress
