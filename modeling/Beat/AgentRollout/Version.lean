import Mathlib.Algebra.Ring.Nat
import Mathlib.Data.List.Basic

/-!
# Release versions

The version strings of `internal/agentrollout/protocol`: an optional `v`, three numbers, an optional
list of prerelease labels and optional build labels. A string is a list of characters here; the
byte-wise comparison of Go is the comparison by code points.
-/

namespace Beat.AgentRollout

def maximumIdentifierBytes : Nat := 128

structure ReleaseVersion where
  core : List (List Char)
  pre : List (List Char)
  deriving DecidableEq

/-- `strings.TrimPrefix(value, "v")`. -/
def trimV : List Char → List Char
  | 'v' :: rest => rest
  | value => value

def versionNumber (value : List Char) : Bool :=
  !value.isEmpty && value.all fun c => '0' ≤ c && c ≤ '9'

def versionCharacter (c : Char) : Bool :=
  '0' ≤ c && c ≤ '9' || 'a' ≤ c && c ≤ 'z' || 'A' ≤ c && c ≤ 'Z' || c == '-'

def canonicalNumber (value : List Char) : Bool :=
  versionNumber value && (value.length == 1 || value.head? != some '0')

def versionCore (value : List Char) : Option (List (List Char)) :=
  let core := value.splitOn '.'
  if core.length = 3 ∧ core.all canonicalNumber then some core else none

/-- Labels are not empty; a prerelease label that is a number has no leading zero. -/
def validVersionIdentifiers (parts : List (List Char)) (prerelease : Bool) : Bool :=
  parts.all fun part => !part.isEmpty && part.all versionCharacter &&
    !(prerelease && versionNumber part && 1 < part.length && part.head? == some '0')

def parseVersion (value : String) : Option ReleaseVersion :=
  let value := trimV value.toList
  if value = [] ∨ maximumIdentifierBytes < (value.map Char.utf8Size).sum then none
  else
    match value.splitOn '+' with
    | [main] => parse main
    | [main, build] =>
      if validVersionIdentifiers (build.splitOn '.') false then parse main else none
    | _ => none
where
  /-- The part before the build labels: the numbers, and what follows the first hyphen. -/
  parse (main : List Char) : Option ReleaseVersion :=
    let numbers := main.takeWhile (· ≠ '-')
    match versionCore numbers, main.drop numbers.length with
    | none, _ => none
    | some core, [] => some ⟨core, []⟩
    | some core, _ :: labels =>
      let pre := labels.splitOn '.'
      if validVersionIdentifiers pre true then some ⟨core, pre⟩ else none

/-- `strings.Compare`. -/
def compareText (left right : List Char) : Ordering := compareOfLessAndEq left right

def compareNumber (left right : List Char) : Ordering :=
  (compare left.length right.length).then (compareText left right)

def compareVersionLabel (left right : List Char) : Ordering :=
  match versionNumber left, versionNumber right with
  | true, true => compareNumber left right
  | true, false => .lt
  | false, true => .gt
  | false, false => compareText left right

/-- The loop of `comparePrerelease`: the first labels that differ decide, then the number of labels. -/
def compareLabels : List (List Char) → List (List Char) → Ordering
  | [], [] => .eq
  | [], _ :: _ => .lt
  | _ :: _, [] => .gt
  | l :: ls, r :: rs => if l = r then compareLabels ls rs else compareVersionLabel l r

/-- A version without prerelease labels comes after those with some. -/
def comparePrerelease (left right : List (List Char)) : Ordering :=
  match left, right with
  | [], [] => .eq
  | [], _ :: _ => .gt
  | _ :: _, [] => .lt
  | left, right => compareLabels left right

/-- The first numbers that differ decide. -/
def compareCore : List (List Char) → List (List Char) → Ordering
  | l :: ls, r :: rs => (compareNumber l r).then (compareCore ls rs)
  | _, _ => .eq

def compareVersions (target current : String) : Option Ordering :=
  match parseVersion target, parseVersion current with
  | some left, some right =>
    some ((compareCore left.core right.core).then (comparePrerelease left.pre right.pre))
  | _, _ => none

/-- `SameReleaseVersion`: the same text, apart from the `v`. -/
def sameReleaseVersion (left right : String) : Bool :=
  (parseVersion left).isSome && (parseVersion right).isSome && trimV left.toList == trimV right.toList

end Beat.AgentRollout
