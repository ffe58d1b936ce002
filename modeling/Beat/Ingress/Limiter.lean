import Beat.Lib.Fallible
import Beat.Lib.Instant
import Beat.Lib.Run
import Beat.Lib.Table
import Mathlib.Data.Rat.Floor

/-!
# The ingress limiter

The admission control of `internal/ingress`: a token bucket and a number of requests in flight for each
class, the same for each identity of a class, and a table of identities that is bounded and loses the
entries that were not used for a time. `Admit` is decided under the lock of the limiter and returns a
lease or a rejection; `Release` gives the lease back, once.

* `Arith`: the operations on `float64`, so that the model is not tied to one number type. The exact
  numbers are `ℚ`.
* `Capacity.validate`: the capacities that `New` accepts.
* `Limiter.pruneLocked`: a map is visited in an order of the runtime's choice (`Visit`).
* `World`: the limiter and the leases that it has returned; `Step`: one call.
-/

namespace Beat.Ingress

open Instant Function

/-! ## Numbers -/

/-- What the limiter does with `float64` values. -/
class Arith (K : Type) where
  ofInt : Int → K
  /-- `Duration.Seconds`. -/
  seconds : Int → K
  /-- Neither `IsNaN` nor `IsInf`. -/
  isFinite : K → Bool
  add : K → K → K
  sub : K → K → K
  mul : K → K → K
  div : K → K → K
  min : K → K → K
  lt : K → K → Bool
  le : K → K → Bool
  /-- `int(math.Ceil(x))`. -/
  ceil : K → Int

/-- Exact numbers. -/
instance : Arith ℚ where
  ofInt n := n
  seconds d := d / second
  isFinite _ := true
  add := (· + ·)
  sub := (· - ·)
  mul := (· * ·)
  div := (· / ·)
  min := Min.min
  lt x y := x < y
  le x y := x ≤ y
  ceil x := ⌈x⌉

/-! ## Classes and capacity -/

inductive Class where
  | publicStatic | publicSnapshot | publicHistory | authKDF | agentRead | agentWrite | adminRead
  | adminWrite | adminExpensive
  deriving DecidableEq

/-- `Classes`. -/
def Class.all : List Class :=
  [.publicStatic, .publicSnapshot, .publicHistory, .authKDF, .agentRead, .agentWrite, .adminRead,
    .adminWrite, .adminExpensive]

theorem Class.mem_all (c : Class) : c ∈ Class.all := by
  cases c <;> decide

def maximumRatePerSecond : Int := 100000
def maximumBurst : Int := 1048576
def maximumInFlight : Int := 4096
def minimumIdentityEntries : Int := 16
def maximumIdentityEntries : Int := 65536
def minimumIdentityTTL : Int := second
def maximumIdentityTTL : Int := hour
def defaultIdentityEntries : Int := 4096
def defaultIdentityTTL : Int := 10 * minute

/-- `Rate`. -/
structure Rate (K : Type) where
  perSecond : K
  burst : Int

/-- `Policy`. -/
structure Policy (K : Type) where
  globalRate : Rate K
  identityRate : Rate K
  globalInFlight : Int
  identityInFlight : Int

/-- `Capacity`. -/
structure Capacity (K : Type) where
  policies : Class → Policy K
  identityEntries : Int
  identityTTL : Int

/-- Why a capacity is refused; a policy is refused under the name of its class. -/
inductive CapacityError (K : Type) where
  | rate (class_ : Class) (scope : String) (perSecond : K)
  | burst (class_ : Class) (scope : String) (burst : Int)
  | identityRateExceedsGlobalRate (class_ : Class)
  | identityBurstExceedsGlobalBurst (class_ : Class)
  | globalInFlight (class_ : Class) (value : Int)
  | identityInFlight (class_ : Class) (value : Int)
  | identityEntries (value : Int)
  | identityTTL (value : Int)
  deriving DecidableEq

section Capacity

variable {K : Type} [Arith K]

/-- `policy`. -/
def policy (globalRate : Int) (globalBurst : Int) (identityRate : Int)
    (identityBurst globalInFlight identityInFlight : Int) : Policy K where
  globalRate := ⟨Arith.ofInt globalRate, globalBurst⟩
  identityRate := ⟨Arith.ofInt identityRate, identityBurst⟩
  globalInFlight := globalInFlight
  identityInFlight := identityInFlight

/-- `DefaultCapacity`. -/
def defaultCapacity : Capacity K where
  policies
    | .publicStatic => policy 400 800 40 80 512 16
    | .publicSnapshot => policy 200 400 20 40 256 8
    | .publicHistory => policy 20 40 4 8 32 2
    | .authKDF => policy 8 16 1 4 8 1
    | .agentRead => policy 500 1000 20 40 256 4
    | .agentWrite => policy 200 400 10 20 128 1
    | .adminRead => policy 50 100 10 20 64 4
    | .adminWrite => policy 20 40 5 10 32 2
    | .adminExpensive => policy 4 8 1 2 4 1
  identityEntries := defaultIdentityEntries
  identityTTL := defaultIdentityTTL

/-- `validateRate`. -/
def validateRate (class_ : Class) (rate : Rate K) (scope : String) : Except (CapacityError K) Unit :=
  if !Arith.isFinite rate.perSecond || Arith.le rate.perSecond (Arith.ofInt 0) ||
      Arith.lt (Arith.ofInt maximumRatePerSecond) rate.perSecond then
    .error (.rate class_ scope rate.perSecond)
  else if rate.burst < 1 ∨ maximumBurst < rate.burst then .error (.burst class_ scope rate.burst)
  else .ok ()

/-- `Policy.validate`. -/
def Policy.validate (p : Policy K) (class_ : Class) : Except (CapacityError K) Unit := do
  validateRate class_ p.globalRate "global"
  validateRate class_ p.identityRate "identity"
  if Arith.lt p.globalRate.perSecond p.identityRate.perSecond then
    .error (.identityRateExceedsGlobalRate class_)
  else if p.globalRate.burst < p.identityRate.burst then .error (.identityBurstExceedsGlobalBurst class_)
  else if p.globalInFlight < 1 ∨ maximumInFlight < p.globalInFlight then
    .error (.globalInFlight class_ p.globalInFlight)
  else if p.identityInFlight < 1 ∨ p.globalInFlight < p.identityInFlight then
    .error (.identityInFlight class_ p.identityInFlight)
  else .ok ()

/-- `Capacity.Validate`. -/
def Capacity.validate (capacity : Capacity K) : Except (CapacityError K) Unit := do
  Class.all.forM fun c => (capacity.policies c).validate c
  if capacity.identityEntries < minimumIdentityEntries ∨ maximumIdentityEntries < capacity.identityEntries then
    .error (.identityEntries capacity.identityEntries)
  else if capacity.identityTTL < minimumIdentityTTL ∨ maximumIdentityTTL < capacity.identityTTL then
    .error (.identityTTL capacity.identityTTL)
  else .ok ()

/-! ## Buckets -/

/-- `bucket`. -/
structure Bucket (K : Type) where
  tokens : K
  updated : Int

/-- `newBucket`. -/
def newBucket (rate : Rate K) (now : Int) : Bucket K := ⟨Arith.ofInt rate.burst, now⟩

/-- `refill`. -/
def Bucket.refill (value : Bucket K) (rate : Rate K) (now : Int) : Bucket K :=
  let elapsed : K := Arith.seconds (sub now value.updated)
  if Arith.le elapsed (Arith.ofInt 0) then value
  else
    { updated := now
      tokens := Arith.min (Arith.ofInt rate.burst) (Arith.add value.tokens (Arith.mul elapsed rate.perSecond)) }

def maximumRetryAfter : Int := 60

/-- `retryAfter`. -/
def Bucket.retryAfter (value : Bucket K) (rate : Rate K) : Int :=
  let missing : K := Arith.sub (Arith.ofInt 1) value.tokens
  if Arith.le missing (Arith.ofInt 0) then 1
  else
    let seconds := Arith.ceil (Arith.div missing rate.perSecond)
    if seconds < 1 then 1 else min seconds maximumRetryAfter

end Capacity

/-! ## The limiter -/

inductive Reason where
  | classRate | identityRate | classBusy | identityBusy | tableFull
  deriving DecidableEq

/-- `Rejection`. -/
structure Rejection where
  reason : Reason
  status : Int
  retryAfter : Int
  deriving DecidableEq

/-- `newRejection`. -/
def newRejection (reason : Reason) (status retryAfter : Int) : Rejection :=
  ⟨reason, status, min (max retryAfter 1) maximumRetryAfter⟩

def statusTooManyRequests : Int := 429
def statusServiceUnavailable : Int := 503
def classBusyRetryAfter : Int := 1
def identityBusyRetryAfter : Int := 1
def tableFullRetryAfter : Int := 5

structure IdentityKey where
  class_ : Class
  value : String
  deriving DecidableEq

/-- `identityState`, with its key in the map. -/
structure IdentityState (K : Type) where
  key : IdentityKey
  bucket : Bucket K
  inFlight : Int := 0
  seen : Int

/-- `Limiter`. -/
structure Limiter (K : Type) where
  capacity : Capacity K
  global : Class → Bucket K
  globalInFlight : Class → Int := fun _ => 0
  identities : List (IdentityState K) := []
  admitted : Class → UInt64 := fun _ => 0
  rejected : Class → UInt64 := fun _ => 0
  rejectedReasons : Class → Reason → UInt64 := fun _ _ => 0

/-- `pruneBatch`. -/
def pruneBatch : Nat := 512

/-- The order in which a `range` over a map visits the entries. -/
structure Visit (α : Type) where
  order : List α → List α
  perm : ∀ entries, (order entries).Perm entries

/-- The order of the list. -/
def Visit.inOrder (α : Type) : Visit α := ⟨fun entries => entries, fun _ => .refl _⟩

section Limiter

variable {K : Type} [Arith K]

/-- `newLimiter`. -/
def newLimiter (capacity : Capacity K) (now : Int) : Limiter K :=
  { capacity, global := fun c => newBucket (capacity.policies c).globalRate now }

/-- An entry that `pruneLocked` deletes. -/
def IdentityState.isExpired (state : IdentityState K) (deadline : Int) : Bool :=
  !(0 < state.inFlight || deadline < state.seen)

/-- The loop of `pruneLocked`. -/
def pruneLoop (deadline : Int) : List (IdentityState K) → Nat → List (IdentityState K) → List (IdentityState K)
  | [], _, identities => identities
  | state :: rest, scanned, identities =>
    if state.isExpired deadline then
      let identities := identities.filter (·.key ≠ state.key)
      if pruneBatch ≤ scanned + 1 then identities else pruneLoop deadline rest (scanned + 1) identities
    else pruneLoop deadline rest scanned identities

namespace Limiter

variable (limiter : Limiter K)

/-- `pruneLocked`. -/
def pruneLocked (visit : Visit (IdentityState K)) (now : Int) : Limiter K :=
  { limiter with
    identities := pruneLoop (now - limiter.capacity.identityTTL) (visit.order limiter.identities) 0
      limiter.identities }

/-- `identityLocked`: the entry, and the table with it; `none` when a new identity has no room. -/
def identityLocked (key : IdentityKey) (p : Policy K) (now : Int) :
    Option (IdentityState K × Limiter K) :=
  match limiter.identities.find? (·.key = key) with
  | some state => some (state, limiter)
  | none =>
    if limiter.capacity.identityEntries ≤ limiter.identities.length then none
    else
      let state : IdentityState K := { key, bucket := newBucket p.identityRate now, seen := now }
      some (state, { limiter with identities := limiter.identities ++ [state] })

/-- The entry of a key and the bucket of its class are written. -/
def write (state : IdentityState K) (global : Bucket K) : Limiter K :=
  { limiter with
    identities := Table.update limiter.identities (·.key = state.key) fun _ => state
    global := update limiter.global state.key.class_ global }

/-- `admitLocked`. -/
def admitLocked (key : IdentityKey) (now : Int) : Option Rejection × Limiter K :=
  let p := limiter.capacity.policies key.class_
  if p.globalInFlight ≤ limiter.globalInFlight key.class_ then
    (some (newRejection .classBusy statusServiceUnavailable classBusyRetryAfter), limiter)
  else
    match limiter.identityLocked key p now with
    | none => (some (newRejection .tableFull statusTooManyRequests tableFullRetryAfter), limiter)
    | some (state, limiter) =>
      if p.identityInFlight ≤ state.inFlight then
        (some (newRejection .identityBusy statusTooManyRequests identityBusyRetryAfter), limiter)
      else
        let global := (limiter.global key.class_).refill p.globalRate now
        let state := { state with bucket := state.bucket.refill p.identityRate now }
        -- both buckets keep what was refilled when the request is rejected
        let limiter := limiter.write state global
        if Arith.lt global.tokens (Arith.ofInt 1) then
          (some (newRejection .classRate statusTooManyRequests (global.retryAfter p.globalRate)), limiter)
        else if Arith.lt state.bucket.tokens (Arith.ofInt 1) then
          (some (newRejection .identityRate statusTooManyRequests (state.bucket.retryAfter p.identityRate)),
            limiter)
        else
          let global := { global with tokens := Arith.sub global.tokens (Arith.ofInt 1) }
          let state := { state with
            bucket := { state.bucket with tokens := Arith.sub state.bucket.tokens (Arith.ofInt 1) }
            inFlight := state.inFlight + 1
            seen := now }
          (none, { limiter.write state global with
            globalInFlight := update limiter.globalInFlight key.class_
              (limiter.globalInFlight key.class_ + 1) })

/-- `Admit` of a class of the enumeration. -/
def admitRequest (key : IdentityKey) (visit : Visit (IdentityState K)) (now : Int) :
    Option Rejection × Limiter K :=
  match (limiter.pruneLocked visit now).admitLocked key now with
  | (some rejection, limiter) =>
    (some rejection, { limiter with
      rejected := update limiter.rejected key.class_ (limiter.rejected key.class_ + 1)
      rejectedReasons := update limiter.rejectedReasons key.class_
        (update (limiter.rejectedReasons key.class_) rejection.reason
          (limiter.rejectedReasons key.class_ rejection.reason + 1)) })
  | (none, limiter) =>
    (none, { limiter with
      admitted := update limiter.admitted key.class_ (limiter.admitted key.class_ + 1) })

/-- The body of `Release`, which runs once for a lease. -/
def release (key : IdentityKey) (now : Int) : Limiter K :=
  { limiter with
    identities := Table.update limiter.identities (·.key = key) fun state =>
      { state with inFlight := max (state.inFlight - 1) 0, seen := now }
    globalInFlight := update limiter.globalInFlight key.class_
      (max (limiter.globalInFlight key.class_ - 1) 0) }

end Limiter

end Limiter

/-! ## Calls -/

/-- A lease that `Admit` has returned, and whether its `once` is done. -/
structure Lease where
  key : IdentityKey
  admittedAt : Int
  released : Bool := false

/-- The limiter and all leases that it has returned, in order. -/
structure World (K : Type) where
  limiter : Limiter K
  leases : List Lease := []

/-- One call, with its reading of the clock. -/
inductive Event (K : Type) where
  /-- `none` is a value outside the enumeration of classes. -/
  | admitRequest (class_ : Option Class) (identity : String) (visit : Visit (IdentityState K)) (now : Int)
  /-- `Release` of the lease that was returned at this place. -/
  | release (index : Nat) (now : Int)

def Event.now {K : Type} : Event K → Int
  | .admitRequest _ _ _ now => now
  | .release _ now => now

section World

variable {K : Type} [Arith K]

namespace World

/-- `Admit`. -/
def admitRequest (w : World K) (class_ : Option Class) (identity : String) (visit : Visit (IdentityState K))
    (now : Int) : World K :=
  match class_ with
  | none => w
  | some c =>
    match w.limiter.admitRequest ⟨c, identity⟩ visit now with
    | (some _, limiter) => { w with limiter }
    | (none, limiter) => { limiter, leases := w.leases ++ [⟨⟨c, identity⟩, now, false⟩] }

/-- `Release`; the zero lease does nothing. -/
def release (w : World K) (index : Nat) (now : Int) : World K :=
  match w.leases[index]? with
  | none => w
  | some lease =>
    if lease.released then w
    else
      { limiter := w.limiter.release lease.key now
        leases := w.leases.set index { lease with released := true } }

def next (w : World K) : Event K → World K
  | .admitRequest class_ identity visit now => w.admitRequest class_ identity visit now
  | .release index now => w.release index now

/-- What `New` returns. -/
def start (capacity : Capacity K) (now : Int) : World K := { limiter := newLimiter capacity now }

end World

def Step (w : World K) (e : Event K) (w' : World K) : Prop := w' = w.next e

end World

end Beat.Ingress
