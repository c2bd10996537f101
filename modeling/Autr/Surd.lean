import Mathlib.Analysis.Real.Sqrt
import Mathlib.Tactic.Linarith

namespace Autr

/-- A real number whose square is rational, as its signed square: an exact square root
that can be compared and scaled by computation. -/
structure Surd where
  signedSq : ℚ
  deriving DecidableEq

namespace Surd

def sqrt (x : ℚ) : Surd := ⟨max x 0⟩

def scale (c : ℚ) (s : Surd) : Surd := ⟨c * |c| * s.signedSq⟩

/-- A number divided by a surd. -/
def ratio (x : ℚ) (s : Surd) : Surd := ⟨x * |x| / s.signedSq⟩

instance : LT Surd := ⟨fun s t => s.signedSq < t.signedSq⟩

instance : DecidableLT Surd := fun s t => inferInstanceAs (Decidable (s.signedSq < t.signedSq))

noncomputable def toReal (s : Surd) : ℝ := √s.signedSq - √(-s.signedSq)

theorem toReal_sqrt (x : ℚ) : (sqrt x).toReal = √x := by
  rcases le_total 0 x with hx | hx
  · have hreal : (0 : ℝ) ≤ x := by exact_mod_cast hx
    simp [toReal, sqrt, max_eq_left hx, Real.sqrt_eq_zero_of_nonpos (neg_nonpos.2 hreal)]
  · have hreal : (x : ℝ) ≤ 0 := by exact_mod_cast hx
    simp [toReal, sqrt, max_eq_right hx, Real.sqrt_eq_zero_of_nonpos hreal]

theorem toReal_scale (c : ℚ) (s : Surd) : (scale c s).toReal = c * s.toReal := by
  have hroot (x : ℝ) : √((c : ℝ) ^ 2 * x) = |(c : ℝ)| * √x := by
    rw [Real.sqrt_mul (sq_nonneg _), Real.sqrt_sq_eq_abs]
  rcases le_total 0 c with hc | hc
  · have hreal : |(c : ℝ)| = c := abs_of_nonneg (by exact_mod_cast hc)
    have hsq : ((scale c s).signedSq : ℝ) = (c : ℝ) ^ 2 * s.signedSq := by
      simp [scale, abs_of_nonneg hc, sq]
    rw [toReal, toReal, hsq, ← mul_neg, hroot, hroot, hreal, mul_sub]
  · have hreal : |(c : ℝ)| = -c := abs_of_nonpos (by exact_mod_cast hc)
    have hsq : ((scale c s).signedSq : ℝ) = (c : ℝ) ^ 2 * -s.signedSq := by
      simp [scale, abs_of_nonpos hc, sq]
    rw [toReal, toReal, hsq, ← mul_neg, neg_neg, hroot, hroot, hreal]
    ring

/-- The signed root of a quotient, by the signs of its parts. -/
theorem signedRoot_div (a b : ℝ) : √(a * |a| / b) - √(-(a * |a| / b)) = a / (√b - √(-b)) := by
  wlog hb : 0 ≤ b generalizing b
  · have hneg := this (-b) (neg_nonneg.2 (le_of_not_ge hb))
    have hside : a / (√(-b) - √b) = -(a / (√b - √(-b))) := by rw [← neg_sub, div_neg]
    rw [div_neg, neg_neg, neg_neg, hside] at hneg
    linarith
  wlog ha : 0 ≤ a generalizing a
  · have hneg := this (-a) (neg_nonneg.2 (le_of_not_ge ha))
    rw [abs_neg, neg_mul, neg_div, neg_neg, neg_div] at hneg
    linarith
  have hq : 0 ≤ a * |a| / b := div_nonneg (mul_nonneg ha (abs_nonneg a)) hb
  rw [Real.sqrt_eq_zero_of_nonpos (neg_nonpos.2 hq), Real.sqrt_eq_zero_of_nonpos (neg_nonpos.2 hb), sub_zero,
    sub_zero, Real.sqrt_div' _ hb, abs_of_nonneg ha, Real.sqrt_mul_self ha]

theorem toReal_ratio (x : ℚ) (s : Surd) : (ratio x s).toReal = x / s.toReal := by
  simpa [toReal, ratio] using signedRoot_div x s.signedSq

theorem lt_iff_toReal (s t : Surd) : s < t ↔ s.toReal < t.toReal := by
  have hstrict : StrictMono (fun x : ℝ => √x - √(-x)) := by
    intro x y hxy
    rcases lt_or_ge 0 y with hy | hy
    · have hroot : √x < √y := Real.sqrt_lt_sqrt_iff_of_pos hy |>.2 hxy
      have hneg : √(-y) ≤ √(-x) := Real.sqrt_le_sqrt (neg_le_neg hxy.le)
      dsimp only
      linarith
    · have hroot : √x ≤ √y := Real.sqrt_le_sqrt hxy.le
      have hneg : √(-y) < √(-x) := Real.sqrt_lt_sqrt_iff_of_pos (neg_pos.2 (hxy.trans_le hy)) |>.2 (neg_lt_neg hxy)
      dsimp only
      linarith
  exact Rat.cast_lt.symm.trans hstrict.lt_iff_lt.symm

end Surd

end Autr
