import Beat.Lib.Fallible
import Beat.Lib.Table

/-!
# Tables row by row

A transaction that neither adds nor deletes rows takes each row of a table to a row at the same place.
`List.Forall₂ R t t'` says what it does to a row.

* `forall₂_update`: an update, row by row; `forall₂_trans`: two transactions in a row.
* `exists_of_mem_left`, `exists_of_mem_right`: the row before and the row after.
* `Keyed.forall₂`: the key stays; `countP_le`, `filterMap_sublist`: what no row starts to be does not
  become more; `countP_update_one`: the count after an update of one row.
-/

namespace Table

open List

variable {α β γ κ : Type} {R : α → β → Prop} {t : List α} {t' : List β} {t'' : List γ} {p : α → Bool}
  {f : α → α} {key : α → κ}

theorem forall₂_update {R : α → α → Prop} (hf : ∀ r ∈ t, p r = true → R r (f r)) (hr : ∀ r ∈ t, R r r) :
    List.Forall₂ R t (update t p f) := by
  unfold update
  rw [forall₂_map_right_iff, forall₂_same]
  intro r hmem
  split
  · exact hf r hmem ‹_›
  · exact hr r hmem

theorem exists_of_mem_left (h : List.Forall₂ R t t') {a : α} (ha : a ∈ t) : ∃ b ∈ t', R a b := by
  induction h with
  | nil => exact nomatch ha
  | @cons x y xs ys hxy _ ih =>
    rcases mem_cons.mp ha with rfl | ha
    · exact ⟨y, mem_cons_self, hxy⟩
    · obtain ⟨b, hb, hab⟩ := ih ha
      exact ⟨b, mem_cons_of_mem _ hb, hab⟩

theorem exists_of_mem_right (h : List.Forall₂ R t t') {b : β} (hb : b ∈ t') : ∃ a ∈ t, R a b := by
  obtain ⟨a, ha, hab⟩ := exists_of_mem_left h.flip hb
  exact ⟨a, ha, hab⟩

theorem forall₂_trans {S : β → γ → Prop} {T : α → γ → Prop} (h : List.Forall₂ R t t')
    (h' : List.Forall₂ S t' t'') (hT : ∀ a b c, R a b → S b c → T a c) : List.Forall₂ T t t'' := by
  induction h generalizing t'' with
  | nil => cases h'; exact .nil
  | cons hab _ ih => cases h' with | cons hbc hrest => exact .cons (hT _ _ _ hab hbc) (ih hrest)

/-- Rows that keep their key. -/
theorem Keyed.forall₂ {key' : β → κ} (hk : Keyed key t) (h : List.Forall₂ R t t') (hR : ∀ a b, R a b → key' b = key a) :
    Keyed key' t' := by
  unfold Keyed
  rw [Fallible.map_eq_of_forall₂ h hR]
  exact hk

/-- What no row starts to be does not become more. -/
theorem countP_le {q : β → Bool} (h : List.Forall₂ R t t') (hR : ∀ a b, R a b → q b = true → p a = true) :
    t'.countP q ≤ t.countP p := by
  induction h with
  | nil => exact Nat.le_refl _
  | @cons a b as bs hab _ ih =>
    rw [countP_cons, countP_cons]
    by_cases hq : q b = true
    · rw [if_pos hq, if_pos (hR a b hab hq)]
      omega
    · rw [if_neg hq]
      omega

/-- The values of the rows that have one, when rows only lose theirs. -/
theorem filterMap_sublist {v : α → Option κ} {v' : β → Option κ} (h : List.Forall₂ R t t')
    (hR : ∀ a b k, R a b → v' b = some k → v a = some k) : (t'.filterMap v').Sublist (t.filterMap v) := by
  induction h with
  | nil => exact .slnil
  | @cons a b as bs hab _ ih =>
    rw [filterMap_cons, filterMap_cons]
    cases hb : v' b with
    | none =>
      cases v a with
      | none => exact ih
      | some k => exact ih.cons k
    | some k =>
      rw [hR a b k hab hb]
      exact ih.cons_cons k

/-- An update of one row changes a count by what the row counts before and after. -/
theorem countP_update_one {q : α → Bool} {r : α} (hn : t.Nodup) (hr : r ∈ t) (hp : ∀ x ∈ t, p x = true ↔ x = r) :
    (update t p f).countP q + (if q r then 1 else 0) = t.countP q + if q (f r) then 1 else 0 := by
  induction t with
  | nil => exact nomatch hr
  | cons a t ih =>
    obtain ⟨ha, hn⟩ := nodup_cons.mp hn
    have hhead : update (a :: t) p f = (if p a then f a else a) :: update t p f := rfl
    rw [hhead, countP_cons, countP_cons]
    by_cases hr' : r = a
    · -- the other rows stay
      subst hr'
      have hrest : ∀ x ∈ t, p x = false := by
        intro x hx
        by_contra hpx
        exact ha ((hp x (mem_cons_of_mem _ hx)).mp (by simpa using hpx) ▸ hx)
      rw [update_eq_self hrest, if_pos ((hp r hr).mpr rfl)]
      omega
    · have hpa : p a ≠ true := fun h => hr' ((hp a mem_cons_self).mp h).symm
      have := ih hn ((mem_cons.mp hr).resolve_left hr') fun x hx => hp x (mem_cons_of_mem _ hx)
      rw [if_neg hpa]
      omega

/-- The row of an updated table with a key. -/
theorem Keyed.eq_of_mem_update (hk : Keyed key t) {r r' : α} (hr : r ∈ t) (hr' : r' ∈ Table.update t p f)
    (hkey : key r' = key r) (hf : ∀ r ∈ t, p r = true → key (f r) = key r) : r' = if p r then f r else r := by
  obtain ⟨r₁, hr₁, rfl⟩ := mem_update.mp hr'
  have hone : key r₁ = key r := by
    by_cases hp : p r₁ = true
    · rw [if_pos hp, hf r₁ hr₁ hp] at hkey
      exact hkey
    · rwa [if_neg hp] at hkey
  rw [hk.eq_of_key hr₁ hr hone]

end Table
