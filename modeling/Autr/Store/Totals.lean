import Autr.Store.Keyed
import Mathlib.Algebra.BigOperators.Group.List.Basic
import Mathlib.Algebra.Group.Basic

namespace Autr.Store

variable {α κ M : Type} [DecidableEq κ] {key : α → κ} [AddCommGroup M] (f : α → M)

def total (rows : List α) : M := (rows.map f).sum

variable (key) in
/-- What the row under a key adds to a total. -/
def part (k : κ) (rows : List α) : M := ((lookup key k rows).map f).getD 0

theorem total_cons (r : α) (rows : List α) : total f (r :: rows) = f r + total f rows := by
  rw [total, List.map_cons, List.sum_cons, total]

theorem total_append (xs ys : List α) : total f (xs ++ ys) = total f xs + total f ys := by
  rw [total, List.map_append, List.sum_append, total, total]

theorem part_of_absent {k : κ} {rows : List α} (h : k ∉ rows.map key) : part key f k rows = 0 := by
  have hnone : lookup key k rows = none :=
    (lookup_eq_none k rows).2 (fun r hr he => h (List.mem_map.2 ⟨r, hr, he⟩))
  rw [part, hnone]
  rfl

theorem total_filter_ne {rows : List α} (h : (rows.map key).Nodup) (k : κ) :
    total f rows = total f (rows.filter (fun r => key r ≠ k)) + part key f k rows := by
  induction rows with
  | nil => simp [total, part, lookup]
  | cons r rows ih =>
      obtain ⟨hr, hrows⟩ := List.nodup_cons.1 h
      have hrest := ih hrows
      rw [total_cons, hrest, part, part, lookup_cons]
      by_cases hk : key r = k
      · subst hk
        have habsent := part_of_absent f hr
        rw [part] at habsent
        rw [if_pos rfl, habsent, List.filter_cons_of_neg (by simp), Option.map_some, Option.getD_some,
          add_zero, add_comm]
      · rw [if_neg hk, List.filter_cons_of_pos (by simpa using hk), total_cons, add_assoc]

/-- A write takes what was under its key out of a total and puts in what it writes. -/
theorem total_replaceRow {rows : List α} (h : (rows.map key).Nodup) (r : α) :
    total f (replaceRow key rows r) = total f rows - part key f (key r) rows + f r := by
  rw [replaceRow, total_append, total_filter_ne f h (key r), total_cons, add_sub_cancel_right]
  simp [total]

theorem part_replaceRow (k : κ) (rows : List α) (r : α) :
    part key f k (replaceRow key rows r) = if key r = k then f r else part key f k rows := by
  rw [part, lookup_replaceRow]
  split <;> rfl

/-- Rows that add nothing may be left out. -/
theorem total_filter {p : α → Bool} {rows : List α} (h : ∀ r ∈ rows, p r = false → f r = 0) :
    total f (rows.filter p) = total f rows := by
  induction rows with
  | nil => rfl
  | cons r rows ih =>
      have hrest := ih (fun r' hr' => h r' (List.mem_cons_of_mem _ hr'))
      cases hp : p r with
      | true => rw [List.filter_cons_of_pos hp, total_cons, total_cons, hrest]
      | false =>
          rw [List.filter_cons_of_neg (by simp [hp]), total_cons, hrest, h r List.mem_cons_self hp, zero_add]

end Autr.Store
