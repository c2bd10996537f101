import Mathlib.Algebra.BigOperators.Ring.List
import Mathlib.Algebra.Order.BigOperators.Group.List
import Mathlib.Algebra.Order.Field.Basic
import Mathlib.Tactic.FieldSimp
import Mathlib.Tactic.Linarith
import Mathlib.Tactic.Ring

namespace Autr.Series

variable {K : Type} [Field K]

/-- The squared distances of values from a centre. -/
def spread (m : K) (xs : List K) : K := (xs.map (fun x => (x - m) ^ 2)).sum

theorem spread_cons (m x : K) (xs : List K) : spread m (x :: xs) = (x - m) ^ 2 + spread m xs := by
  simp [spread]

theorem spread_perm (m : K) {xs ys : List K} (h : xs.Perm ys) : spread m xs = spread m ys :=
  (h.map _).sum_eq

/-- The distances from another centre. -/
theorem spread_shift (m d : K) (xs : List K) :
    spread (m + d) xs = spread m xs - 2 * d * (xs.sum - xs.length * m) + xs.length * d ^ 2 := by
  induction xs with
  | nil => simp [spread]
  | cons x xs ih =>
      rw [spread_cons, spread_cons, ih, List.sum_cons, List.length_cons]
      push_cast
      ring

variable [LinearOrder K] [IsStrictOrderedRing K]

theorem spread_nonneg (m : K) (xs : List K) : 0 ≤ spread m xs := by
  refine List.sum_nonneg (fun y hy => ?_)
  obtain ⟨x, -, rfl⟩ := List.mem_map.1 hy
  exact sq_nonneg _

theorem spread_eq_zero_iff (m : K) (xs : List K) : spread m xs = 0 ↔ ∀ x ∈ xs, x = m := by
  induction xs with
  | nil => simp [spread]
  | cons x xs ih =>
      rw [spread_cons, add_eq_zero_iff_of_nonneg (sq_nonneg _) (spread_nonneg m xs), ih, sq_eq_zero_iff, sub_eq_zero,
        List.forall_mem_cons]

/-- The sum of the distances against the sum of their squares. -/
theorem sq_sum_sub_le (m : K) (xs : List K) :
    (xs.sum - xs.length * m) ^ 2 ≤ xs.length * spread m xs := by
  rcases Nat.eq_zero_or_pos xs.length with hn | hn
  · rw [List.length_eq_zero_iff.1 hn]
    simp
  · have hpos : (0 : K) < xs.length := Nat.cast_pos.2 hn
    -- about their own mean the distances are least, and there they are not negative
    have hleast := spread_nonneg (m + (xs.sum - xs.length * m) / xs.length) xs
    have hmean : spread (m + (xs.sum - xs.length * m) / xs.length) xs =
        spread m xs - (xs.sum - xs.length * m) ^ 2 / xs.length := by
      rw [spread_shift]
      field_simp
      ring
    rw [hmean, sub_nonneg, div_le_iff₀ hpos] at hleast
    linarith

/-- A value of a sample deviates from its mean by no more than all others allow. -/
theorem sq_sub_mean_le {xs : List K} {x : K} (hx : x ∈ xs) :
    xs.length * (x - xs.sum / xs.length) ^ 2 ≤ (xs.length - 1) * spread (xs.sum / xs.length) xs := by
  obtain ⟨as, bs, rfl⟩ := List.append_of_mem hx
  generalize hm : (as ++ x :: bs).sum / ((as ++ x :: bs).length : K) = m
  have hperm : (as ++ x :: bs).Perm (x :: (as ++ bs)) := List.perm_middle
  have hlength : ((as ++ x :: bs).length : K) = (as ++ bs).length + 1 := by
    rw [hperm.length_eq, List.length_cons]
    push_cast
    rfl
  have hsum : (as ++ x :: bs).sum = x + (as ++ bs).sum := by rw [hperm.sum_eq, List.sum_cons]
  have hpos : (0 : K) < (as ++ bs).length + 1 := by positivity
  have hothers : (as ++ bs).sum - (as ++ bs).length * m = -(x - m) := by
    rw [hlength, hsum, div_eq_iff hpos.ne'] at hm
    linarith
  have hle := sq_sum_sub_le m (as ++ bs)
  rw [hothers, neg_sq] at hle
  rw [spread_perm m hperm, spread_cons, hlength]
  linarith

end Autr.Series
