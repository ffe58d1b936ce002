import Mathlib.Tactic.Linarith

/-!
# Instants and durations

An instant is a number of nanoseconds from the Unix epoch, a duration is a number of nanoseconds;
both are `Int`. The operations are those of Go's `time` package: `sub` saturates at the bounds of a
64-bit duration, `milliseconds` rounds to zero, `unix` and `unixMilli` round down, and
`truncateSecond` drops the part below the second.
-/

namespace Instant

def millisecond : Int := 1000000

def second : Int := 1000000000

def minute : Int := 60 * second

def hour : Int := 60 * minute

/-- The zero `time.Time`: the first of January of the year 1. -/
def zero : Int := -62135596800 * second

def isZero (t : Int) : Bool := t == zero

def maxDuration : Int := 9223372036854775807

def minDuration : Int := -9223372036854775808

/-- `t.Sub(u)`: the difference, saturated. -/
def sub (t u : Int) : Int := max minDuration (min maxDuration (t - u))

/-- `d.Milliseconds()`. -/
def milliseconds (d : Int) : Int := d.tdiv millisecond

/-- `t.UnixMilli()`. -/
def unixMilli (t : Int) : Int := t / millisecond

/-- `t.Unix()`. -/
def unix (t : Int) : Int := t / second

/-- `t.Truncate(time.Second)`. -/
def truncateSecond (t : Int) : Int := t - t % second

variable {t d : Int}

/-- A saturated difference that is not negative is at most the difference. -/
theorem sub_le_of_nonneg {u : Int} (h : 0 ≤ t - u) : sub t u ≤ t - u := by
  unfold sub minDuration
  omega

/-- A saturated difference inside the bounds is the difference. -/
theorem sub_eq {u : Int} (h0 : 0 ≤ sub t u) (h : sub t u ≤ d) (hd : d < maxDuration) : sub t u = t - u := by
  unfold sub minDuration maxDuration at *
  omega

/-- A bound of a saturated difference is one of the difference. -/
theorem le_of_le_sub {u : Int} (hd : 0 ≤ d) (h : d ≤ sub t u) : d ≤ t - u := by
  unfold sub minDuration at h
  omega

theorem le_of_sub_le {u : Int} (hd : d < maxDuration) (h : sub t u ≤ d) : t - u ≤ d := by
  unfold sub minDuration at h
  omega

theorem milliseconds_nonneg (h : 0 ≤ d) : 0 ≤ milliseconds d :=
  Int.tdiv_nonneg h (by decide)

/-- The milliseconds of a duration, in nanoseconds, are at most the duration. -/
theorem milliseconds_mul_le (h : 0 ≤ d) : milliseconds d * 1000000 ≤ d := by
  unfold milliseconds millisecond
  rw [Int.tdiv_eq_ediv_of_nonneg h]
  omega

theorem truncateSecond_le (t : Int) : truncateSecond t ≤ t := by
  unfold truncateSecond second
  omega

/-- A whole second stays. -/
theorem truncateSecond_of_dvd (h : second ∣ t) : truncateSecond t = t := by
  unfold truncateSecond second at *
  omega

theorem second_dvd_truncateSecond (t : Int) : second ∣ truncateSecond t := by
  unfold truncateSecond second
  omega

theorem unix_mul_second (h : second ∣ t) : unix t * second = t := by
  unfold unix second at *
  omega

end Instant
