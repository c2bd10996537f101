import Autr.Domain.Regime

namespace Autr.Domain.RegimeScale

open CandleFrame Infra.QuantStore Regime Series

/-- The candle with its prices and its volume in other units. -/
def scaleCandle (c d : ℚ) (candle : Ohlcv) : Ohlcv :=
  ⟨c * candle.open, c * candle.high, c * candle.low, c * candle.close, d * candle.volume⟩

def scaled (c d : ℚ) (df : DataFrame) : DataFrame := df.map (fun r => (r.1, scaleCandle c d r.2))

variable {c d : ℚ} {df : DataFrame}

theorem length_scaled : (scaled c d df).length = df.length := List.length_map _

theorem column_scaled (field : Ohlcv → ℚ) {k : ℚ} (h : ∀ o, field (scaleCandle c d o) = k * field o) :
    column field (scaled c d df) = (column field df).map (k * ·) := by
  funext i
  simp [column, scaled, Column.map, Function.comp_def, h]

theorem values_scaled (field : Ohlcv → ℚ) {k : ℚ} (h : ∀ o, field (scaleCandle c d o) = k * field o) :
    values field (scaled c d df) = fun i => k * values field df i := by
  funext i
  rw [values, column_scaled field h, values, Column.map]
  cases column field df i <;> simp

theorem close_scaled : column Ohlcv.close (scaled c d df) = (column Ohlcv.close df).map (c * ·) :=
  column_scaled Ohlcv.close (fun _ => rfl)

section Adx

theorem average_mul (period : ℕ) (v : ℕ → ℚ) (i : ℕ) :
    average period (fun j => c * v j) i = c * average period v i := by
  rw [average, rangeMean_mul, wilder_mul]
  rfl

variable (hc : 0 < c)

include hc

theorem plusDm_scaled : plusDm (scaled c d df) = fun i => c * plusDm df i := by
  funext i
  simp only [plusDm, values_scaled Ohlcv.high (fun _ => rfl), values_scaled Ohlcv.low (fun _ => rfl),
    ← mul_sub, mul_lt_mul_iff_right₀ hc, mul_pos_iff_of_pos_left hc, mul_ite, mul_zero]

theorem minusDm_scaled : minusDm (scaled c d df) = fun i => c * minusDm df i := by
  funext i
  simp only [minusDm, values_scaled Ohlcv.high (fun _ => rfl), values_scaled Ohlcv.low (fun _ => rfl),
    ← mul_sub, mul_lt_mul_iff_right₀ hc, mul_pos_iff_of_pos_left hc, mul_ite, mul_zero]

theorem trueRange_scaled : trueRange (scaled c d df) = fun i => c * trueRange df i := by
  funext i
  simp only [trueRange, values_scaled Ohlcv.high (fun _ => rfl), values_scaled Ohlcv.low (fun _ => rfl),
    values_scaled Ohlcv.close (fun _ => rfl), ← mul_sub, abs_mul, abs_of_pos hc, mul_max_of_nonneg _ _ hc.le]

theorem index_mul (sP sM : ℚ) : index (c * sP) (c * sM) = index sP sM := by
  simp only [index, ← mul_add, ← mul_sub, mul_pos_iff_of_pos_left hc, abs_mul, abs_of_pos hc]
  rw [mul_left_comm, mul_div_mul_left _ _ hc.ne']

theorem dxOf_scaled (period : ℕ) : dxOf (scaled c d df) period = dxOf df period := by
  funext i
  rw [dxOf, plusDm_scaled hc, minusDm_scaled hc, average_mul, average_mul, index_mul hc]
  rfl

theorem computeAdx_scaled {period : ℕ} (hperiod : 0 < period) (hn : period < df.length) :
    computeAdx (scaled c d df) period = computeAdx df period := by
  rw [computeAdx_eq hperiod (by rwa [length_scaled]), computeAdx_eq hperiod hn]
  simp only [length_scaled, dxOf_scaled hc, plusDm_scaled hc, minusDm_scaled hc, trueRange_scaled hc, average_mul,
    mul_eq_zero, hc.ne', false_or, mul_left_comm (100 : ℚ) c, mul_div_mul_left _ _ hc.ne']

end Adx

section Gap

variable (hc : 0 < c)

include hc

theorem computeTrendGap_scaled (hdf : df ≠ []) (fast slow : ℕ) :
    computeTrendGap (scaled c d df) fast slow = computeTrendGap df fast slow := by
  have hewm : ∀ a, (column Ohlcv.close (scaled c d df)).ewm a 0 (df.length - 1) =
      some (c * ema a (values Ohlcv.close df) (df.length - 1)) := by
    intro a
    have hlast := ewm_last Ohlcv.close (show scaled c d df ≠ [] by simpa [scaled] using hdf) a
    rwa [length_scaled, values_scaled Ohlcv.close (fun _ => rfl), ema_mul] at hlast
  simp only [computeTrendGap, hewm, ewm_last _ hdf, length_scaled, Option.bind_eq_bind, Option.bind_some, mul_eq_zero,
    hc.ne', false_or, ← mul_sub, mul_div_mul_left _ _ hc.ne']

theorem pctChange_scaled : pctChange (column Ohlcv.close (scaled c d df)) = pctChange (column Ohlcv.close df) := by
  rw [close_scaled, pctChange, Column.shift_map, pctChange]
  funext i
  simp only [Column.map₂, Column.map]
  cases column Ohlcv.close df i <;> cases (column Ohlcv.close df).shift i <;>
    simp [mul_div_mul_left _ _ hc.ne']

theorem computeVolPercentile_scaled (lookback : ℕ) :
    computeVolPercentile (scaled c d df) lookback = computeVolPercentile df lookback := by
  rw [computeVolPercentile, pctChange_scaled hc, length_scaled, computeVolPercentile]

end Gap

section Width

variable (k : ℚ) (xs : List ℚ)

theorem sum_map_mul : (xs.map (k * ·)).sum = k * xs.sum := by
  simpa using xs.sum_map_mul_left id k

theorem mean_map_mul : mean (xs.map (k * ·)) = (mean xs).map (k * ·) := by
  unfold mean
  rw [sum_map_mul, List.length_map, mul_div_assoc]
  by_cases hxs : xs = [] <;> simp [hxs]

theorem variance_map_mul : variance (xs.map (k * ·)) = (variance xs).map (k ^ 2 * ·) := by
  have hsquare : ∀ x, (k * x - k * (xs.sum / xs.length)) ^ 2 = k ^ 2 * (x - xs.sum / xs.length) ^ 2 := by
    intro x
    ring
  unfold variance
  rw [sum_map_mul, List.length_map, List.map_map]
  by_cases hxs : xs.length ≤ 1
  · simp [hxs]
  · simp only [hxs, if_false, Function.comp_def, hsquare, List.sum_map_mul_left, mul_div_assoc, Option.map_some]

/-- The deviation scales with the prices, so its ratio to their mean does not. -/
theorem width_mul (hc : 0 < c) (v m : ℚ) :
    ((Surd.sqrt (c ^ 2 * v)).scale k).scale (c * m)⁻¹ = ((Surd.sqrt v).scale k).scale m⁻¹ := by
  have hmax : max (c ^ 2 * v) 0 = c ^ 2 * max v 0 := by rw [mul_max_of_nonneg _ _ (sq_nonneg c), mul_zero]
  simp only [Surd.sqrt, Surd.scale, Surd.mk.injEq, hmax, mul_inv, abs_mul, abs_of_pos (inv_pos.2 hc)]
  field_simp

theorem bbWidth_scaled (hc : 0 < c) (period : ℕ) (stdMult : ℚ) :
    bbWidth (scaled c d df) period stdMult = bbWidth df period stdMult := by
  funext i
  simp only [bbWidth, Column.map₂, Column.rolling, close_scaled, Column.window_map]
  cases Column.window period (column Ohlcv.close df) i with
  | none => rfl
  | some xs =>
      simp only [Option.map_some, Option.bind_some, std, mean_map_mul, variance_map_mul]
      cases variance xs with
      | none => rfl
      | some v =>
          cases mean xs with
          | none => rfl
          | some m => exact congrArg some (width_mul (2 * stdMult) hc v m)

end Width

theorem computeBbWidthPercentile_scaled (hc : 0 < c) (period : ℕ) (stdMult : ℚ) (lookback : ℕ) :
    computeBbWidthPercentile (scaled c d df) period stdMult lookback =
      computeBbWidthPercentile df period stdMult lookback := by
  rw [computeBbWidthPercentile, bbWidth_scaled hc, length_scaled, computeBbWidthPercentile]

theorem computeVolumeRatio_scaled (hd : 0 < d) (maPeriod : ℕ) :
    computeVolumeRatio (scaled c d df) maPeriod = computeVolumeRatio df maPeriod := by
  have hvolume : column Ohlcv.volume (scaled c d df) = (column Ohlcv.volume df).map (d * ·) :=
    column_scaled Ohlcv.volume (fun _ => rfl)
  have hlast : column Ohlcv.volume (scaled c d df) (df.length - 1) =
      (column Ohlcv.volume df (df.length - 1)).map (d * ·) := congrFun hvolume _
  have hmean : (column Ohlcv.volume (scaled c d df)).rolling maPeriod mean (df.length - 1) =
      ((column Ohlcv.volume df).rolling maPeriod mean (df.length - 1)).map (d * ·) := by
    rw [hvolume]
    exact congrFun (Column.rolling_map (mean_map_mul d) maPeriod _) _
  rw [computeVolumeRatio, length_scaled, hlast, hmean, computeVolumeRatio]
  cases column Ohlcv.volume df (df.length - 1) with
  | none => rfl
  | some last =>
      cases (column Ohlcv.volume df).rolling maPeriod mean (df.length - 1) with
      | none => rfl
      | some lastMa => simp [hd.ne', mul_div_mul_left _ _ hd.ne']

/-- Prices and volumes in other units leave the whole classification as it is. -/
theorem compute_scaled (hc : 0 < c) (hd : 0 < d) (p : RegimeParams) (df : DataFrame) :
    compute p (scaled c d df) = compute p df := by
  unfold compute
  rw [length_scaled]
  split_ifs with hlen
  · rfl
  · have hdf : df ≠ [] := List.length_pos_iff.1 (by omega)
    have hadx : p.adxPeriod < df.length := by omega
    rw [computeAdx_scaled hc p.adxPeriod_pos hadx, computeTrendGap_scaled hc hdf, computeVolPercentile_scaled hc,
      computeBbWidthPercentile_scaled hc, computeVolumeRatio_scaled hd]
    simp only [scaled, List.getLast?_map, Option.bind_eq_bind, Option.bind_map, Function.comp_def]

theorem compute_scaled_slope :
    compute {} (scaled (1 / 1000) 7 (slope 1)) = compute {} (slope 1) ∧
      compute {} (scaled (1 / 1000) 7 (slope (-1))) = compute {} (slope (-1)) ∧
      (compute {} (slope 1)).isSome = true ∧ (compute {} (slope (-1))).isSome = true :=
  ⟨compute_scaled (by norm_num) (by norm_num) {} (slope 1),
    compute_scaled (by norm_num) (by norm_num) {} (slope (-1)), compute_slope 1, compute_slope (-1)⟩

end Autr.Domain.RegimeScale
