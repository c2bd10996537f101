import Autr.Domain.RegimeScale
import Autr.Collection.FeatureBars
import Autr.Series.Units

namespace Autr.Collection.FeatureScale

open Domain.CandleFrame Domain.Regime Domain.RegimeScale FeatureBars Infra.QuantStore Infra.QuantTables Series

/-- The features of candles whose prices are in other units. -/
def scaleFeatures (c : ℚ) (f : Features) : Features :=
  { f with close := c * f.close, atr14 := c * f.atr14, emaFast50 := c * f.emaFast50, emaSlow200 := c * f.emaSlow200 }

variable {log : ℚ → ℚ} {c d : ℚ} {df : DataFrame}

theorem closes_scaled (c d : ℚ) (df : DataFrame) : closes (scaled c d df) = (closes df).map (c * ·) :=
  close_scaled

theorem tr_scaled (hc : 0 < c) : tr (scaled c d df) = (tr df).map (c * ·) := by
  rw [tr, tr, ← Column.rowMax_map_mul hc, column_scaled Ohlcv.high (fun _ => rfl),
    column_scaled Ohlcv.low (fun _ => rfl), closes_scaled, Column.shift_map, Column.map₂_sub_mul,
    Column.map₂_distance_mul hc, Column.map₂_distance_mul hc]
  rfl

theorem ret1_scaled (hc : 0 < c) : ret1 (scaled c d df) = ret1 df := pctChange_scaled hc

theorem retLog1_scaled (hc : 0 < c) : retLog1 log (scaled c d df) = retLog1 log df := by
  funext i
  rw [retLog1, closes_scaled, Column.shift_map, Column.quotient_map_mul hc.ne', retLog1]

theorem vol20_scaled (hc : 0 < c) : vol20 (scaled c d df) = vol20 df := by
  rw [vol20, ret1_scaled hc, vol20]

theorem atr14_scaled (hc : 0 < c) : atr14 (scaled c d df) = (atr14 df).map (c * ·) := by
  rw [atr14, tr_scaled hc, atr14]
  exact Column.rolling_map (mean_map_mul c) 14 (tr df)

theorem ema_scaled {span i : ℕ} (hspan : 1 ≤ span) (hi : i < df.length) :
    ema (scaled c d df) span i = (ema df span i).map (c * ·) := by
  obtain ⟨a, ha, h⟩ := ema_isSome hi hspan
  obtain ⟨b, hb, h'⟩ := ema_isSome ((length_scaled (c := c) (d := d)).symm ▸ hi) hspan
  cases ha.symm.trans hb
  rw [h, h', values_scaled Ohlcv.close (fun _ => rfl), ema_mul, Option.map_some]

theorem trendGapPct_scaled (hc : 0 < c) {i : ℕ} (hi : i < df.length) :
    trendGapPct (scaled c d df) i = trendGapPct df i := by
  have hfast := ema_scaled (c := c) (d := d) (show 1 ≤ 50 by omega) hi
  have hslow := ema_scaled (c := c) (d := d) (show 1 ≤ 200 by omega) hi
  simp only [trendGapPct, Column.quotient, Column.map₂, hfast, hslow]
  cases ema df 50 i <;> cases ema df 200 i <;> simp [hc.ne', ← mul_sub, mul_div_mul_left]

/-- The deviation scales with the distance that is measured in it. -/
theorem ratio_mul (hc : 0 < c) (x v : ℚ) : Surd.ratio (c * x) (Surd.sqrt (c ^ 2 * v)) = Surd.ratio x (Surd.sqrt v) := by
  have hmax : max (c ^ 2 * v) 0 = c ^ 2 * max v 0 := by rw [mul_max_of_nonneg _ _ (sq_nonneg c), mul_zero]
  have hsquare : c * x * |c * x| = c ^ 2 * (x * |x|) := by
    rw [abs_mul, abs_of_pos hc]
    ring
  simp only [Surd.ratio, Surd.sqrt, hmax, hsquare, mul_div_mul_left _ _ (pow_pos hc 2).ne']

theorem zscore50_scaled (hc : 0 < c) : zscore50 (scaled c d df) = zscore50 df := by
  funext i
  simp only [zscore50, closes_scaled, Column.rolling, Column.window_map, Column.map]
  cases hclose : closes df i with
  | none => rfl
  | some close =>
      cases hwindow : Column.window 50 (closes df) i with
      | none => rfl
      | some xs =>
          simp only [Option.map_some, Option.bind_eq_bind, Option.bind_some, std, mean_map_mul, variance_map_mul]
          cases hmean : mean xs with
          | none => rfl
          | some m =>
              cases hvariance : variance xs with
              | none => rfl
              | some v =>
                  have hzero : (Surd.sqrt (c ^ 2 * v)).signedSq = 0 ↔ (Surd.sqrt v).signedSq = 0 := by
                    have hmax : max (c ^ 2 * v) 0 = c ^ 2 * max v 0 := by
                      rw [mul_max_of_nonneg _ _ (sq_nonneg c), mul_zero]
                    simp [Surd.sqrt, hmax, hc.ne']
                  simp only [Option.map_some, Option.bind_some, hzero, ← mul_sub, ratio_mul hc]

theorem getElem?_scaled (i : ℕ) : (scaled c d df)[i]? = (df[i]?).map (fun r => (r.1, scaleCandle c d r.2)) :=
  List.getElem?_map

/-- Prices in other units scale the features that are prices and leave the others as they are. -/
theorem computeFeatures_scaled (hc : 0 < c) :
    computeFeatures log (scaled c d df) =
      (computeFeatures log df).map (fun r => (r.1, scaleFeatures c r.2)) := by
  unfold computeFeatures
  rw [length_scaled]
  split_ifs
  · rfl
  · rw [Column.dropna, Column.dropna, List.map_filterMap]
    refine List.filterMap_congr (fun i hi => ?_)
    have hi := List.mem_range.1 hi
    simp only [featureRow, ret1_scaled hc, retLog1_scaled hc, vol20_scaled hc, atr14_scaled hc,
      ema_scaled (show 1 ≤ 50 by omega) hi, ema_scaled (show 1 ≤ 200 by omega) hi, trendGapPct_scaled hc hi,
      zscore50_scaled hc, Column.map, getElem?_scaled]
    cases df[i]? <;> cases ret1 df i <;> cases retLog1 log df i <;> cases vol20 df i <;> cases atr14 df i <;>
      cases ema df 50 i <;> cases ema df 200 i <;> cases trendGapPct df i <;> cases zscore50 df i <;> rfl

theorem computeFeatures_scaled_rising :
    computeFeatures (fun x => x - 1) (scaled (1 / 1000) 7 rising) =
      (computeFeatures (fun x => x - 1) rising).map (fun r => (r.1, scaleFeatures (1 / 1000) r.2)) :=
  computeFeatures_scaled (by norm_num)

end Autr.Collection.FeatureScale
