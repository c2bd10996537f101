import Autr.Infra.QuantStore
import Autr.Series.Column
import Autr.Surd

namespace Autr.Domain.CandleFrame

open Infra.QuantStore Series

/-- The candles that `fetch_ohlcv` answers, with their times. -/
abbrev DataFrame := List (ℤ × Ohlcv)

def column (field : Ohlcv → ℚ) (df : DataFrame) : Column ℚ := fun i => (df[i]?).map (fun c => field c.2)

/-- The array of a column; a row that is not there is never read. -/
def values (field : Ohlcv → ℚ) (df : DataFrame) (i : ℕ) : ℚ := (column field df i).getD 0

def mean (xs : List ℚ) : Option ℚ := if xs = [] then none else some (xs.sum / xs.length)

/-- The sample variance, with one degree of freedom less than values. -/
def variance (xs : List ℚ) : Option ℚ :=
  if xs.length ≤ 1 then none
  else some ((xs.map (fun x => (x - xs.sum / xs.length) ^ 2)).sum / (xs.length - 1))

theorem column_eq (field : Ohlcv → ℚ) {df : DataFrame} {i : ℕ} (hi : i < df.length) :
    column field df i = some (values field df i) := by
  simp [column, values, List.getElem?_eq_getElem hi]

theorem values_get (field : Ohlcv → ℚ) {df : DataFrame} {i : ℕ} (hi : i < df.length) :
    values field df i = field df[i].2 := by
  simp [values, column, List.getElem?_eq_getElem hi]

theorem values_of_forall {field : Ohlcv → ℚ} {df : DataFrame} {P : ℚ → Prop} (h : ∀ c ∈ df, P (field c.2))
    {i : ℕ} (hi : i < df.length) : P (values field df i) := by
  rw [values_get field hi]
  exact h _ (List.getElem_mem hi)

theorem ewm_last (field : Ohlcv → ℚ) {df : DataFrame} (hdf : df ≠ []) (a : Weight ℚ) :
    (column field df).ewm a 0 (df.length - 1) = some (ema a (values field df) (df.length - 1)) := by
  have hn : df.length - 1 < df.length := Nat.sub_lt (List.length_pos_iff.2 hdf) one_pos
  exact Column.ewm_eq (fun i hi => column_eq field hi) hn (Nat.zero_le _)

/-- Candles along a line. -/
def slope (step : ℚ) : DataFrame :=
  (List.range 210).map (fun i : ℕ =>
    let x := 1000 + step * i
    ((i : ℤ), ⟨x, x + 1, x - 1, x, 5⟩))

theorem length_slope (step : ℚ) : (slope step).length = 210 := by rw [slope, List.length_map, List.length_range]

theorem close_slope (step : ℚ) {i : ℕ} (hi : i < 210) : values Ohlcv.close (slope step) i = 1000 + step * i := by
  rw [values_get Ohlcv.close (hi.trans_eq (length_slope step).symm)]
  simp only [slope, List.getElem_map, List.getElem_range]

theorem forall_slope {step : ℚ} {P : Ohlcv → Prop}
    (h : ∀ x, 790 ≤ x → P ⟨x, x + 1, x - 1, x, 5⟩) (hstep : |step| ≤ 1) : ∀ c ∈ slope step, P c.2 := by
  intro c hc
  obtain ⟨i, hi, rfl⟩ := List.mem_map.1 hc
  have hi : (i : ℚ) ≤ 210 := by exact_mod_cast (List.mem_range.1 hi).le
  have hbound : -210 ≤ step * i := by
    have habs : |step * i| ≤ 210 := by
      rw [abs_mul, Nat.abs_cast]
      nlinarith [abs_nonneg step, Nat.cast_nonneg (α := ℚ) i]
    exact (abs_le.1 habs).1
  exact h (1000 + step * i) (by linarith)

theorem close_slope_pos {step : ℚ} (hstep : |step| ≤ 1) : ∀ c ∈ slope step, 0 < c.2.close :=
  forall_slope (P := fun o => 0 < o.close) (fun _ hx => lt_of_lt_of_le (by norm_num) hx) hstep

end Autr.Domain.CandleFrame
