import Mathlib.Data.Rat.Defs

/-!
# Comparisons of binary64 values

A binary64 value is not a number, an infinity, or a finite value, which is an exact rational. Only
comparisons are modelled: they are exact on finite values, and every comparison with a NaN is false
but `ne`, which is true.
-/

namespace Ieee

/-- A binary64 value. -/
inductive F64 where
  | nan
  | inf (negative : Bool)
  | finite (q : Rat)
  deriving DecidableEq

namespace F64

/-- Neither a NaN nor an infinity. -/
def isFinite : F64 → Bool
  | finite _ => true
  | _ => false

/-- `x < y`. -/
def lt : F64 → F64 → Bool
  | nan, _ | _, nan => false
  | inf a, inf b => a && !b
  | inf a, finite _ => a
  | finite _, inf b => !b
  | finite p, finite q => decide (p < q)

/-- `x == y`. -/
def eq : F64 → F64 → Bool
  | nan, _ | _, nan => false
  | x, y => decide (x = y)

/-- `x <= y`. -/
def le (x y : F64) : Bool := lt x y || eq x y

/-- `x != y`. -/
def ne (x y : F64) : Bool := !eq x y

/-- `max(x, y)`: a NaN if one of them is. -/
def max (x y : F64) : F64 :=
  if x = nan ∨ y = nan then nan else if lt x y then y else x

end F64

end Ieee
