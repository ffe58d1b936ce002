import Mathlib.Data.Rat.Defs

/-!
# Shared records

The parts of the data model that several components read: the node record and the random UUIDs of
`github.com/google/uuid`.
-/

namespace Beat

/-- A character of the groups of a UUID. -/
def isHexDigit (c : Char) : Bool := "0123456789abcdefABCDEF".toList.contains c

/-- `ValidUUIDShape`: 36 bytes, hexadecimal digits in five groups. -/
def validUUIDShape (value : String) : Bool :=
  value.utf8ByteSize = 36 &&
    value.toList.zipIdx.all fun (c, i) =>
      if i = 8 ∨ i = 13 ∨ i = 18 ∨ i = 23 then c = '-' else isHexDigit c

/-- A UUID in its text form (`id.String()`). -/
structure Uuid where
  text : String
  shape : validUUIDShape text = true
  deriving DecidableEq

theorem Uuid.text_ne_empty (id : Uuid) : id.text ≠ "" := by
  intro h
  have := id.shape
  rw [h] at this
  exact absurd this (by decide)

/-- `unicode.IsControl`. -/
def isControl (c : Char) : Bool := c.toNat < 32 || (127 ≤ c.toNat && c.toNat < 160)

/-- `unicode.IsSpace`. -/
def isSpace (c : Char) : Bool :=
  let n := c.toNat
  (0x09 ≤ n && n ≤ 0x0d) || n = 0x20 || n = 0x85 || n = 0xa0 || n = 0x1680 ||
    (0x2000 ≤ n && n ≤ 0x200a) || n = 0x2028 || n = 0x2029 || n = 0x202f || n = 0x205f || n = 0x3000

/-- `strings.TrimSpace`. -/
def trimSpace (value : String) : String :=
  String.ofList ((value.toList.dropWhile isSpace).reverse.dropWhile isSpace).reverse

/-- The direction a traffic limit counts. -/
inductive TrafficLimitType where
  | up
  | down
  | sum
  | min
  | max
  deriving DecidableEq

/-- The day of the month on which the traffic of a node is counted anew, as `TrafficPolicy.Validate`
accepts it. -/
structure ResetDay where
  day : Int
  one_le : 1 ≤ day
  le_31 : day ≤ 31
  deriving DecidableEq

instance : Inhabited ResetDay := ⟨⟨1, by decide, by decide⟩⟩

/-- `model.Node`: the fields that the modelled functions read. -/
structure Node where
  id : String
  name : String := ""
  groupID : String := ""
  trafficLimit : Nat := 0
  trafficLimitType : TrafficLimitType := .sum
  trafficResetDay : ResetDay := default
  deriving DecidableEq

end Beat
