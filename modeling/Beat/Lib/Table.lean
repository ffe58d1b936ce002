import Mathlib.Algebra.BigOperators.Group.List.Basic
import Mathlib.Algebra.Ring.Nat
import Mathlib.Data.List.Nodup

/-!
# Tables

A table is the list of its rows. A row is found by a condition (`List.find?`), and `update` changes
the rows that fulfil a condition. `Keyed key t` says that no two rows share a key: it holds of the
empty table and every operation keeps it.

* `mem_update`: the rows of an updated table; `update_middle`: an update of one row, in its place.
* `Keyed.eq_of_key`: a key names one row.
* `Keyed.map`, `Keyed.update`, `Keyed.append`, `Keyed.filter`: the operations keep the key.
* `sum_countP`: counting row by row.
-/

namespace Table

open List

variable {α κ : Type}

/-- Change the rows that fulfil `p`. -/
def update (t : List α) (p : α → Bool) (f : α → α) : List α := t.map fun r => if p r then f r else r

/-- No two rows have the same key. -/
def Keyed (key : α → κ) (t : List α) : Prop := (t.map key).Nodup

instance [DecidableEq κ] (key : α → κ) (t : List α) : Decidable (Keyed key t) :=
  inferInstanceAs (Decidable (t.map key).Nodup)

variable {key : α → κ} {t : List α} {p : α → Bool} {f : α → α} {q : α → Bool} {r : α}

theorem mem_update {r' : α} : r' ∈ update t p f ↔ ∃ r ∈ t, r' = if p r then f r else r := by
  unfold update
  rw [mem_map]
  exact exists_congr fun r => and_congr_right fun _ => eq_comm

/-- The rows of a table with one more. -/
theorem mem_snoc {r' : α} : r' ∈ t ++ [r] ↔ r' ∈ t ∨ r' = r := by
  rw [mem_append, mem_singleton]

theorem length_update : (update t p f).length = t.length := length_map _

/-- An update without a matching row changes nothing. -/
theorem update_eq_self (h : ∀ r ∈ t, p r = false) : update t p f = t := by
  conv_rhs => rw [← map_id t]
  refine map_congr_left fun r hr => ?_
  simp [h r hr]

theorem any_false (h : t.any q = false) : ∀ r ∈ t, q r = false := by
  simpa using h

theorem Keyed.nil : Keyed key ([] : List α) := nodup_nil

/-- A key names one row. -/
theorem Keyed.eq_of_key (h : Keyed key t) {a b : α} (ha : a ∈ t) (hb : b ∈ t) (hab : key a = key b) : a = b :=
  inj_on_of_nodup_map h ha hb hab

/-- An update that does not touch the key. -/
theorem map_update (hf : ∀ r ∈ t, p r = true → key (f r) = key r) : (Table.update t p f).map key = t.map key := by
  unfold Table.update
  rw [map_map]
  refine map_congr_left fun r hr => ?_
  by_cases hp : p r <;> simp [hp, hf r hr]

/-- An update, seen through a map of the rows. -/
theorem map_update_comm {β : Type} {v : α → β} {q : β → Bool} {g : β → β}
    (hp : ∀ r ∈ t, p r = q (v r)) (hf : ∀ r ∈ t, p r = true → v (f r) = g (v r)) :
    (update t p f).map v = update (t.map v) q g := by
  unfold update
  rw [map_map, map_map]
  refine map_congr_left fun r hr => ?_
  by_cases h : p r = true
  · simp [h, hf r hr h, ← hp r hr]
  · simp [h, ← hp r hr]

theorem Keyed.congr {t' : List α} (h : Keyed key t) (heq : t'.map key = t.map key) : Keyed key t' := by
  unfold Keyed
  rwa [heq]

theorem Keyed.update (h : Keyed key t) (hf : ∀ r ∈ t, p r = true → key (f r) = key r) :
    Keyed key (Table.update t p f) :=
  h.congr (map_update hf)

theorem Keyed.map (h : Keyed key t) (hf : ∀ r ∈ t, key (f r) = key r) : Keyed key (t.map f) :=
  h.congr (by rw [map_map]; exact map_congr_left hf)

/-- A new key. -/
theorem Keyed.append (h : Keyed key t) (hr : ∀ x ∈ t, key x ≠ key r) : Keyed key (t ++ [r]) := by
  unfold Keyed
  rw [map_append]
  refine List.Nodup.append h (nodup_singleton _) (disjoint_singleton.mpr fun hmem => ?_)
  obtain ⟨x, hx, he⟩ := mem_map.mp hmem
  exact hr x hx he

/-- Fewer rows. -/
theorem Keyed.filter (h : Keyed key t) (q : α → Bool) : Keyed key (t.filter q) :=
  h.sublist (filter_sublist.map _)

/-- The one row that fulfils `q`. -/
theorem find?_eq_some_of_unique (hr : r ∈ t) (hq : q r = true) (hu : ∀ x ∈ t, q x = true → x = r) :
    t.find? q = some r := by
  cases h : t.find? q with
  | none => exact absurd hq (by simpa using find?_eq_none.mp h r hr)
  | some x => rw [hu x (mem_of_find?_eq_some h) (find?_some h)]

theorem find?_congr (h : ∀ r ∈ t, p r = q r) : t.find? p = t.find? q := by
  induction t with
  | nil => rfl
  | cons a t ih =>
    rw [find?_cons, find?_cons, h a mem_cons_self, ih fun r hr => h r (mem_cons_of_mem _ hr)]

/-- An update that only one row fulfils. -/
theorem update_middle {pre post : List α} (hp : p r = true) (hpre : ∀ x ∈ pre, p x = false)
    (hpost : ∀ x ∈ post, p x = false) : update (pre ++ r :: post) p f = pre ++ f r :: post := by
  have hl := update_eq_self (f := f) hpre
  have hr := update_eq_self (f := f) hpost
  unfold update at hl hr ⊢
  rw [map_append, map_cons, hl, hr, if_pos hp]

/-- With a key that names one row, counting row by row counts everything once. -/
theorem sum_countP {β : Type} [DecidableEq κ] (h : Keyed key t) {l : List β} {k : β → κ} {q : β → Bool}
    (hq : ∀ x ∈ l, q x = true → ∃ r ∈ t, key r = k x) :
    (t.map fun r => l.countP fun x => q x && k x = key r).sum = l.countP q := by
  induction l with
  | nil => simp
  | cons x l ih =>
    have hone : (t.map fun r => if (q x && decide (k x = key r)) = true then 1 else 0).sum =
        if q x = true then 1 else 0 := by
      by_cases hx : q x = true
      · -- only the key of `x` counts, and it occurs once
        obtain ⟨r, hr, hkey⟩ := hq x mem_cons_self hx
        have hsum := sum_map_eq_nsmul_single (l := t.map key) (k x)
          (fun y => if (q x && decide (k x = y)) = true then 1 else 0) fun y hne _ => by simp [Ne.symm hne]
        rw [map_map, count_eq_one_of_mem h (hkey ▸ mem_map_of_mem hr)] at hsum
        simpa [hx, Function.comp_def] using hsum
      · simp [hx]
    simp only [countP_cons]
    rw [sum_map_add, ih fun y hy => hq y (mem_cons_of_mem _ hy), hone]

/-! ## The last row -/

/-- The last row that fulfils a condition. -/
def last (t : List α) (p : α → Bool) : Option α := t.reverse.find? p

theorem last_snoc (t : List α) (r : α) (p : α → Bool) : last (t ++ [r]) p = if p r then some r else last t p := by
  unfold last
  rw [reverse_append, reverse_singleton, singleton_append, find?_cons]
  cases p r <;> rfl

theorem mem_of_last (h : last t p = some r) : r ∈ t :=
  mem_reverse.mp (mem_of_find?_eq_some h)

theorem of_last (h : last t p = some r) : p r = true := find?_some h

theorem last_map {β : Type} (f : α → β) (q : β → Bool) : last (t.map f) q = (last t fun r => q (f r)).map f := by
  unfold last
  rw [← map_reverse, find?_map]
  rfl

theorem last_congr (h : ∀ r ∈ t, p r = q r) : last t p = last t q :=
  find?_congr fun r hr => h r (mem_reverse.mp hr)

/-- A row that fulfils the condition is found. -/
theorem last_isSome (hr : r ∈ t) (hp : p r = true) : ∃ x, last t p = some x := by
  cases h : last t p with
  | some x => exact ⟨x, rfl⟩
  | none =>
    have := find?_eq_none.mp h r (mem_reverse.mpr hr)
    exact absurd hp this

end Table
