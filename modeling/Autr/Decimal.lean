import Mathlib.Algebra.Order.Floor.Defs
import Mathlib.Algebra.Order.Floor.Ring
import Mathlib.Algebra.Order.Ring.Unbundled.Rat
import Mathlib.Data.Rat.Floor
import Mathlib.Tactic.Linarith
import Mathlib.Tactic.Positivity

namespace Autr.Decimal

/-- `math.floor(x * factor) / factor`, printed with as many decimals. -/
def floorTo (precision : ℕ) (x : ℚ) : ℚ := ⌊x * 10 ^ precision⌋ / 10 ^ precision

def roundHalfEven (x : ℚ) : ℤ :=
  let rest := x - ⌊x⌋
  if rest < 1 / 2 then ⌊x⌋
  else if 1 / 2 < rest then ⌊x⌋ + 1
  else if Even ⌊x⌋ then ⌊x⌋
  else ⌊x⌋ + 1

/-- What `round` and the format `.{precision}f` keep of a number. -/
def roundTo (precision : ℕ) (x : ℚ) : ℚ := roundHalfEven (x * 10 ^ precision) / 10 ^ precision

theorem floorTo_le (precision : ℕ) (x : ℚ) : floorTo precision x ≤ x := by
  rw [floorTo, div_le_iff₀ (by positivity)]
  exact Int.floor_le _

theorem lt_floorTo_add (precision : ℕ) (x : ℚ) : x < floorTo precision x + 1 / 10 ^ precision := by
  rw [floorTo, ← add_div, lt_div_iff₀ (by positivity)]
  exact Int.lt_floor_add_one _

theorem le_floorTo {precision : ℕ} {x : ℚ} {k : ℤ} (h : (k : ℚ) / 10 ^ precision ≤ x) :
    (k : ℚ) / 10 ^ precision ≤ floorTo precision x := by
  have hk : k ≤ ⌊x * 10 ^ precision⌋ := Int.le_floor.2 ((div_le_iff₀ (by positivity)).1 h)
  exact div_le_div_of_nonneg_right (by exact_mod_cast hk) (by positivity)

theorem le_roundHalfEven {x : ℚ} {k : ℤ} (h : k ≤ x) : k ≤ roundHalfEven x := by
  have hfloor : k ≤ ⌊x⌋ := Int.le_floor.2 h
  unfold roundHalfEven
  dsimp only
  split_ifs <;> omega

theorem roundHalfEven_le {x : ℚ} {k : ℤ} (h : x ≤ k) : roundHalfEven x ≤ k := by
  have hfloor : ⌊x⌋ ≤ k := Int.floor_le_iff.2 (by linarith)
  rcases hfloor.lt_or_eq with hlt | heq
  · unfold roundHalfEven
    dsimp only
    split_ifs <;> omega
  · have hrest : x - ⌊x⌋ < 1 / 2 := by
      rw [heq]
      linarith
    rw [roundHalfEven, if_pos hrest, heq]

theorem le_roundTo {precision : ℕ} {x : ℚ} {k : ℤ} (h : (k : ℚ) / 10 ^ precision ≤ x) :
    (k : ℚ) / 10 ^ precision ≤ roundTo precision x := by
  have hk : k ≤ roundHalfEven (x * 10 ^ precision) := le_roundHalfEven ((div_le_iff₀ (by positivity)).1 h)
  exact div_le_div_of_nonneg_right (by exact_mod_cast hk) (by positivity)

theorem roundTo_le {precision : ℕ} {x : ℚ} {k : ℤ} (h : x ≤ (k : ℚ) / 10 ^ precision) :
    roundTo precision x ≤ (k : ℚ) / 10 ^ precision := by
  have hk : roundHalfEven (x * 10 ^ precision) ≤ k := roundHalfEven_le ((le_div_iff₀ (by positivity)).1 h)
  exact div_le_div_of_nonneg_right (by exact_mod_cast hk) (by positivity)

theorem roundTo_nonneg (precision : ℕ) {x : ℚ} (h : 0 ≤ x) : 0 ≤ roundTo precision x := by
  have hround : ((0 : ℤ) : ℚ) / 10 ^ precision ≤ roundTo precision x := le_roundTo (by simpa using h)
  simpa using hround

end Autr.Decimal
