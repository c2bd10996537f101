import Mathlib.Algebra.BigOperators.Ring.List
import Mathlib.Algebra.Order.BigOperators.Group.List
import Mathlib.Algebra.Order.Field.Basic
import Mathlib.Tactic.FieldSimp
import Mathlib.Tactic.Linarith
import Mathlib.Tactic.Ring

namespace Autr.Series

variable {K : Type} [Field K]

/-- Wilder's smoothing of a series from a first average at the row `start`; the argument
counts the rows after it. -/
def wilder (period start : ℕ) (seed : K) (v : ℕ → K) : ℕ → K
  | 0 => seed
  | k + 1 => (wilder period start seed v k * (period - 1) + v (start + k + 1)) / period

def rangeMean (first count : ℕ) (v : ℕ → K) : K := ((List.range count).map (fun k => v (first + k))).sum / count

section Mean

variable {first count : ℕ} {v v' : ℕ → K}

theorem rangeMean_mul (c : K) (v : ℕ → K) :
    rangeMean first count (fun i => c * v i) = c * rangeMean first count v := by
  rw [rangeMean, rangeMean, List.sum_map_mul_left, mul_div_assoc]

theorem rangeMean_add (v v' : ℕ → K) :
    rangeMean first count (fun i => v i + v' i) = rangeMean first count v + rangeMean first count v' := by
  rw [rangeMean, rangeMean, rangeMean, List.sum_map_add, add_div]

variable [LinearOrder K] [IsStrictOrderedRing K]

theorem rangeMean_const (hcount : 0 < count) (c : K) : rangeMean first count (fun _ => c) = c := by
  have hne : (count : K) ≠ 0 := Nat.cast_ne_zero.2 hcount.ne'
  rw [rangeMean, List.map_const', List.sum_replicate, List.length_range, nsmul_eq_mul, mul_div_cancel_left₀ c hne]

theorem rangeMean_le_rangeMean (h : ∀ k < count, v (first + k) ≤ v' (first + k)) :
    rangeMean first count v ≤ rangeMean first count v' :=
  div_le_div_of_nonneg_right (List.sum_le_sum (fun k hk => h k (List.mem_range.1 hk))) (Nat.cast_nonneg _)

end Mean

section Wilder

variable {period start : ℕ} {seed seed' : K} {v v' : ℕ → K}

theorem wilder_mul (c : K) (k : ℕ) :
    wilder period start (c * seed) (fun i => c * v i) k = c * wilder period start seed v k := by
  induction k with
  | zero => rfl
  | succ k ih => rw [wilder, wilder, ih]; ring

theorem wilder_add (k : ℕ) :
    wilder period start (seed + seed') (fun i => v i + v' i) k =
      wilder period start seed v k + wilder period start seed' v' k := by
  induction k with
  | zero => rfl
  | succ k ih => rw [wilder, wilder, wilder, ih]; ring

variable [LinearOrder K] [IsStrictOrderedRing K]

theorem wilder_const (hperiod : 0 < period) (c : K) (k : ℕ) : wilder period start c (fun _ => c) k = c := by
  induction k with
  | zero => rfl
  | succ k ih =>
      have hne : (period : K) ≠ 0 := Nat.cast_ne_zero.2 hperiod.ne'
      rw [wilder, ih]
      field_simp
      ring

theorem wilder_le_wilder (hperiod : 0 < period) (hseed : seed ≤ seed') {k : ℕ}
    (h : ∀ i ≤ start + k, v i ≤ v' i) : wilder period start seed v k ≤ wilder period start seed' v' k := by
  induction k with
  | zero => exact hseed
  | succ k ih =>
      have hold := ih (fun i hi => h i (by omega))
      have hnew := h (start + k + 1) le_rfl
      have hkeep : (0 : K) ≤ period - 1 := sub_nonneg.2 (Nat.one_le_cast.2 hperiod)
      exact div_le_div_of_nonneg_right (add_le_add (mul_le_mul_of_nonneg_right hold hkeep) hnew) (Nat.cast_nonneg _)

end Wilder

section Ema

variable [LinearOrder K]

/-- The weight of a new value in an exponential average. -/
structure Weight (K : Type) [Field K] [LinearOrder K] where
  val : K
  pos : 0 < val
  le_one : val ≤ 1

/-- The exponential average that starts with the first value. -/
def ema (a : Weight K) (v : ℕ → K) : ℕ → K
  | 0 => v 0
  | t + 1 => (1 - a.val) * ema a v t + a.val * v (t + 1)

variable {a b : Weight K} {v v' : ℕ → K} {t : ℕ}

theorem ema_mul (c : K) (v : ℕ → K) (t : ℕ) : ema a (fun i => c * v i) t = c * ema a v t := by
  induction t with
  | zero => rfl
  | succ t ih => rw [ema, ema, ih]; ring

theorem ema_neg (v : ℕ → K) (t : ℕ) : ema a (fun i => -v i) t = -ema a v t := by
  simpa using ema_mul (a := a) (-1) v t

variable [IsStrictOrderedRing K]

theorem ema_pos (h : ∀ i ≤ t, 0 < v i) : 0 < ema a v t := by
  induction t with
  | zero => exact h 0 le_rfl
  | succ t ih =>
      have hold := ih (fun i hi => h i (hi.trans t.le_succ))
      exact add_pos_of_nonneg_of_pos (mul_nonneg (sub_nonneg.2 a.le_one) hold.le)
        (mul_pos a.pos (h (t + 1) le_rfl))

/-- The average of a series that never falls stays behind it. -/
theorem ema_le (h : ∀ i < t, v i ≤ v (i + 1)) : ema a v t ≤ v t := by
  induction t with
  | zero => exact le_rfl
  | succ t ih =>
      have hold := ih (fun i hi => h i (hi.trans t.lt_succ_self))
      have hstep := mul_le_mul_of_nonneg_left (hold.trans (h t t.lt_succ_self)) (sub_nonneg.2 a.le_one)
      calc ema a v (t + 1) = (1 - a.val) * ema a v t + a.val * v (t + 1) := rfl
        _ ≤ (1 - a.val) * v (t + 1) + a.val * v (t + 1) := by linarith
        _ = v (t + 1) := by ring

/-- On a series that never falls the faster average is the higher one at every row. -/
theorem ema_le_ema (hab : b.val ≤ a.val) (h : ∀ i < t, v i ≤ v (i + 1)) : ema b v t ≤ ema a v t := by
  induction t with
  | zero => exact le_rfl
  | succ t ih =>
      have hlag : ema b v t ≤ v (t + 1) :=
        (ema_le (fun i hi => h i (hi.trans t.lt_succ_self))).trans (h t t.lt_succ_self)
      have hold := mul_le_mul_of_nonneg_left (ih (fun i hi => h i (hi.trans t.lt_succ_self)))
        (sub_nonneg.2 a.le_one)
      have hgain := mul_le_mul_of_nonneg_right hab (sub_nonneg.2 hlag)
      calc ema b v (t + 1) = ema b v t + b.val * (v (t + 1) - ema b v t) := by rw [ema]; ring
        _ ≤ ema b v t + a.val * (v (t + 1) - ema b v t) := by linarith
        _ = (1 - a.val) * ema b v t + a.val * v (t + 1) := by ring
        _ ≤ ema a v (t + 1) := by rw [ema]; linarith

theorem ema_le_ema_of_antitone (hab : b.val ≤ a.val) (h : ∀ i < t, v (i + 1) ≤ v i) :
    ema a v t ≤ ema b v t := by
  have hneg := ema_le_ema (v := fun i => -v i) hab (fun i hi => neg_le_neg (h i hi))
  rw [ema_neg, ema_neg] at hneg
  exact neg_le_neg_iff.1 hneg

theorem ema_nonneg (h : ∀ i ≤ t, 0 ≤ v i) : 0 ≤ ema a v t := by
  induction t with
  | zero => exact h 0 le_rfl
  | succ t ih =>
      have hold := ih (fun i hi => h i (hi.trans t.le_succ))
      exact add_nonneg (mul_nonneg (sub_nonneg.2 a.le_one) hold) (mul_nonneg a.pos.le (h (t + 1) le_rfl))

/-- A faster average of values that are not negative is ahead of a slower one by no more than
the ratio of their weights. -/
theorem ema_le_ratio_mul (hab : b.val ≤ a.val) (h : ∀ i ≤ t, 0 ≤ v i) :
    ema a v t ≤ a.val / b.val * ema b v t := by
  have hratio : 0 ≤ a.val / b.val := div_nonneg a.pos.le b.pos.le
  induction t with
  | zero => exact le_mul_of_one_le_left (h 0 le_rfl) ((one_le_div b.pos).2 hab)
  | succ t ih =>
      have hrest : ∀ i ≤ t, 0 ≤ v i := fun i hi => h i (hi.trans t.le_succ)
      have hold := mul_le_mul_of_nonneg_left (ih hrest) (sub_nonneg.2 a.le_one)
      have hslower := mul_le_mul_of_nonneg_right (sub_le_sub_left hab 1)
        (mul_nonneg hratio (ema_nonneg (a := b) hrest))
      calc ema a v (t + 1) = (1 - a.val) * ema a v t + a.val * v (t + 1) := rfl
        _ ≤ (1 - b.val) * (a.val / b.val * ema b v t) + a.val * v (t + 1) := by linarith
        _ = a.val / b.val * ((1 - b.val) * ema b v t + b.val * v (t + 1)) := by
            field_simp [b.pos.ne']
        _ = a.val / b.val * ema b v (t + 1) := rfl

end Ema

end Autr.Series
