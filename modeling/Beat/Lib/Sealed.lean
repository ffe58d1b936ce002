import Mathlib.Logic.Basic

/-!
# Ideal authenticated encryption

What `seal` returns is a box that names the key, the authenticated data and the plaintext. It opens
under that key and that data only, and to that plaintext.
-/

namespace Aead

/-- A sealed value. -/
structure Box (K A P : Type) where
  key : K
  aad : A
  plain : P
  deriving DecidableEq, Repr

variable {K A P : Type} [DecidableEq K] [DecidableEq A] {b : Box K A P} {k : K} {a : A} {p : P}

def Box.unseal (b : Box K A P) (k : K) (a : A) : Option P :=
  if b.key = k ∧ b.aad = a then some b.plain else none

theorem unseal_eq_some : b.unseal k a = some p ↔ b.key = k ∧ b.aad = a ∧ b.plain = p := by
  unfold Box.unseal
  split
  · rename_i h
    simp [h.1, h.2]
  · rename_i h
    simp only [reduceCtorEq, false_iff]
    exact fun h' => h ⟨h'.1, h'.2.1⟩

@[simp] theorem unseal_mk : (Box.mk k a p).unseal k a = some p := if_pos ⟨rfl, rfl⟩

end Aead
