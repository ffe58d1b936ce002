import Mathlib.Data.List.Sort
import Mathlib.Order.Basic

/-!
# Reading a table in batches

Rows in the order of their key are read in batches: the first `n` rows behind a cursor, which then
moves to the key of the last one. The key `start` is no key of a row; as a cursor it stands before all
rows.

* `behind_last`: behind the last row of a batch are the rows that the batch has left over.
* `mem_or_le_cursor`, `mem_take_or_le`: a row is behind the cursor, or the cursor has passed it.
-/

namespace Keyset

open List

variable {α κ : Type} [LinearOrder κ] (key : α → κ) (start : κ)

/-- The rows behind the cursor. -/
def behind (rows : List α) (cursor : κ) : List α :=
  rows.filter fun r => cursor < key r ∨ cursor = start

variable {key start} {rows : List α} {cursor : κ} {r last : α} {n : Nat}

theorem mem_behind : r ∈ behind key start rows cursor ↔ r ∈ rows ∧ (cursor < key r ∨ cursor = start) := by
  unfold behind
  rw [mem_filter, decide_eq_true_eq]

@[simp] theorem behind_start : behind key start rows start = rows := by
  exact filter_eq_self.mpr fun r _ => by simp

theorem mem_or_le_cursor (hr : r ∈ rows) : r ∈ behind key start rows cursor ∨ (cursor ≠ start ∧ key r ≤ cursor) := by
  by_cases hc : cursor = start
  · exact .inl (mem_behind.mpr ⟨hr, .inr hc⟩)
  · by_cases hlt : cursor < key r
    · exact .inl (mem_behind.mpr ⟨hr, .inl hlt⟩)
    · exact .inr ⟨hc, le_of_not_gt hlt⟩

/-- In a sorted list, what lies behind the key of a row is the rest of the list. -/
theorem filter_append_cons {pre post : List α} (hs : (pre ++ last :: post).Pairwise fun a b => key a < key b) :
    (pre ++ last :: post).filter (fun r => decide (key last < key r)) = post := by
  obtain ⟨-, hpost, hpre⟩ := pairwise_append.mp hs
  obtain ⟨hlast, -⟩ := pairwise_cons.mp hpost
  rw [filter_append, filter_cons_of_neg (by simp)]
  have h1 : pre.filter (fun r => decide (key last < key r)) = [] :=
    filter_eq_nil_iff.mpr fun r hr => by
      simpa using le_of_lt (hpre r hr last mem_cons_self)
  have h2 : post.filter (fun r => decide (key last < key r)) = post :=
    filter_eq_self.mpr fun r hr => by simpa using hlast r hr
  rw [h1, h2, nil_append]

section

variable (hs : rows.Pairwise fun a b => key a < key b)

include hs

/-- The rows behind a cursor are a last part of all rows. -/
theorem behind_suffix : ∃ pre, rows = pre ++ behind key start rows cursor := by
  by_cases hc : cursor = start
  · subst hc
    exact ⟨[], by rw [behind_start, nil_append]⟩
  induction rows with
  | nil => exact ⟨[], rfl⟩
  | cons r rows ih =>
    obtain ⟨hr, hrows⟩ := pairwise_cons.mp hs
    by_cases hlt : cursor < key r
    · refine ⟨[], ?_⟩
      rw [nil_append]
      refine (filter_eq_self.mpr fun x hx => ?_).symm
      rcases mem_cons.mp hx with rfl | hx
      · simp [hlt]
      · simp [hlt.trans (hr x hx)]
    · obtain ⟨pre, hpre⟩ := ih hrows
      refine ⟨r :: pre, ?_⟩
      have hdrop : behind key start (r :: rows) cursor = behind key start rows cursor :=
        filter_cons_of_neg (by simp [hlt, hc])
      rw [hdrop, cons_append, ← hpre]

section

variable (hlast : ((behind key start rows cursor).take n).getLast? = some last)

include hlast

/-- Behind the last row of a batch are the rows that the batch has left over. -/
theorem behind_last (hne : key last ≠ start) :
    behind key start rows (key last) = (behind key start rows cursor).drop n := by
  obtain ⟨pre, hpre⟩ : ∃ pre, rows = pre ++ behind key start rows cursor := behind_suffix hs
  obtain ⟨front, hfront⟩ := getLast?_eq_some_iff.mp hlast
  have hall : rows = (pre ++ front) ++ last :: (behind key start rows cursor).drop n := by
    have hsplit := take_append_drop n (behind key start rows cursor)
    rw [hfront, append_assoc, singleton_append] at hsplit
    rw [append_assoc, hsplit]
    exact hpre
  have hfilter : behind key start rows (key last) =
      rows.filter (fun r => decide (key last < key r)) := by
    exact filter_congr fun r _ => by simp [hne]
  rw [hfilter]
  have hs' := hs
  rw [hall] at hs'
  have := filter_append_cons hs'
  rwa [← hall] at this

/-- A batch leaves less behind the cursor. -/
theorem length_behind_last (hne : key last ≠ start) :
    (behind key start rows (key last)).length < (behind key start rows cursor).length := by
  have hpos := length_pos_of_mem (mem_of_getLast? hlast)
  rw [behind_last hs hlast hne, length_drop]
  rw [length_take] at hpos
  omega

/-- A row up to the last one of a batch is in the batch, or the cursor had passed it. -/
theorem mem_take_or_le (hne : key last ≠ start) (hr : r ∈ rows)
    (hle : key r ≤ key last) : r ∈ (behind key start rows cursor).take n ∨ (cursor ≠ start ∧ key r ≤ cursor) := by
  refine (mem_or_le_cursor hr).imp_left fun hbehind => ?_
  rw [← take_append_drop n (behind key start rows cursor), ← behind_last hs hlast hne] at hbehind
  refine (mem_append.mp hbehind).resolve_right fun hafter => ?_
  obtain ⟨-, hlt | heq⟩ := mem_behind.mp hafter
  · exact absurd hlt (not_lt.mpr hle)
  · exact hne heq

end

end

end Keyset
