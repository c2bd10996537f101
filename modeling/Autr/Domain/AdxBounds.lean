import Autr.Domain.Regime

namespace Autr.Domain.AdxBounds

open CandleFrame Decimal Infra.QuantStore Regime Series Services.ConsumerLoop

/-- The close of every candle lies between its low and its high. -/
def Ordered (df : DataFrame) : Prop := ∀ c ∈ df, c.2.low ≤ c.2.close ∧ c.2.close ≤ c.2.high

section Movement

variable {df : DataFrame} {i : ℕ}

theorem plusDm_nonneg (df : DataFrame) (i : ℕ) : 0 ≤ plusDm df i := by
  unfold plusDm
  dsimp only
  split_ifs with h
  · exact h.2.le
  · exact le_rfl

theorem minusDm_nonneg (df : DataFrame) (i : ℕ) : 0 ≤ minusDm df i := by
  unfold minusDm
  dsimp only
  split_ifs with h
  · exact h.2.le
  · exact le_rfl

theorem low_le_close (hdf : Ordered df) (hi : i < df.length) :
    values Ohlcv.low df i ≤ values Ohlcv.close df i ∧ values Ohlcv.close df i ≤ values Ohlcv.high df i := by
  rw [values_get _ hi, values_get _ hi, values_get _ hi]
  exact hdf _ (List.getElem_mem hi)

/-- Of the two movements only the larger one counts, and it is within the true range. -/
theorem movement_le_trueRange (hdf : Ordered df) (hi : i < df.length) :
    plusDm df i + minusDm df i ≤ trueRange df i := by
  obtain ⟨hlow, hhigh⟩ := low_le_close hdf hi
  obtain ⟨hlow', hhigh'⟩ := low_le_close hdf (i.sub_le 1 |>.trans_lt hi)
  have hspan : values Ohlcv.high df i - values Ohlcv.low df i ≤ trueRange df i := le_max_left _ _
  have hup : values Ohlcv.high df i - values Ohlcv.close df (i - 1) ≤ trueRange df i :=
    (le_abs_self _).trans ((le_max_left _ _).trans (le_max_right _ _))
  have hdown : -(values Ohlcv.low df i - values Ohlcv.close df (i - 1)) ≤ trueRange df i :=
    (neg_le_abs _).trans ((le_max_right _ _).trans (le_max_right _ _))
  unfold plusDm minusDm
  dsimp only
  split_ifs <;> linarith

end Movement

section Average

variable {period i : ℕ} {v v' : ℕ → ℚ}

theorem average_add : average period (fun j => v j + v' j) i = average period v i + average period v' i := by
  rw [average, rangeMean_add, wilder_add]
  rfl

variable (hperiod : 0 < period)

include hperiod

theorem average_le_average (hi : period ≤ i) (h : ∀ j ≤ i, v j ≤ v' j) : average period v i ≤ average period v' i :=
  wilder_le_wilder hperiod (rangeMean_le_rangeMean (fun k hk => h _ (by omega))) (fun j hj => h j (by omega))

theorem average_nonneg (h : ∀ j, 0 ≤ v j) : 0 ≤ average period v i := by
  have hmean : 0 ≤ rangeMean 1 period v :=
    (rangeMean_const hperiod 0).symm.trans_le (rangeMean_le_rangeMean (fun k _ => h _))
  exact (wilder_const hperiod 0 _).symm.trans_le (wilder_le_wilder hperiod hmean (fun j _ => h j))

end Average

theorem index_bounds {sP sM : ℚ} (hP : 0 ≤ sP) (hM : 0 ≤ sM) : 0 ≤ index sP sM ∧ index sP sM ≤ 100 := by
  unfold index
  split_ifs with hpos
  · have habs : |sP - sM| ≤ sP + sM := abs_sub_le_iff.2 ⟨by linarith, by linarith⟩
    exact ⟨by positivity, (div_le_iff₀ hpos).2 (by linarith)⟩
  · norm_num

theorem lastAdx_bounds {period n : ℕ} {v : ℕ → ℚ} (hperiod : 0 < period) (h : ∀ i, 0 ≤ v i ∧ v i ≤ 100) :
    0 ≤ lastAdx period n v ∧ lastAdx period n v ≤ 100 := by
  unfold lastAdx
  split_ifs with hn
  · have hlow : 0 ≤ rangeMean period (period + 1) v :=
      (rangeMean_const period.succ_pos 0).symm.trans_le (rangeMean_le_rangeMean (fun k _ => (h _).1))
    have hhigh : rangeMean period (period + 1) v ≤ 100 :=
      (rangeMean_le_rangeMean (fun k _ => (h _).2)).trans_eq (rangeMean_const period.succ_pos 100)
    exact ⟨(wilder_const hperiod 0 _).symm.trans_le (wilder_le_wilder hperiod hlow (fun i _ => (h i).1)),
      (wilder_le_wilder hperiod hhigh (fun i _ => (h i).2)).trans_eq (wilder_const hperiod 100 _)⟩
  · norm_num

/-- The ranges of what `_compute_adx` returns. -/
structure Bounded (r : Adx) : Prop where
  adx_nonneg : 0 ≤ r.adx
  adx_le : r.adx ≤ 100
  diPlus_nonneg : 0 ≤ r.diPlus
  diMinus_nonneg : 0 ≤ r.diMinus
  di_le : r.diPlus + r.diMinus ≤ 100

theorem computeAdx_bounded {df : DataFrame} {period : ℕ} (hperiod : 0 < period) (hn : period < df.length)
    (hdf : Ordered df) : ∃ r, computeAdx df period = some r ∧ Bounded r := by
  have hplus : ∀ i, 0 ≤ average period (plusDm df) i := fun _ => average_nonneg hperiod (plusDm_nonneg df)
  have hminus : ∀ i, 0 ≤ average period (minusDm df) i := fun _ => average_nonneg hperiod (minusDm_nonneg df)
  have hrange : average period (plusDm df) (df.length - 1) + average period (minusDm df) (df.length - 1) ≤
      average period (trueRange df) (df.length - 1) := by
    rw [← average_add]
    exact average_le_average hperiod (by omega) (fun j hj => movement_le_trueRange hdf (by omega))
  refine ⟨_, computeAdx_eq hperiod hn, ?_⟩
  split_ifs with hatr
  · exact ⟨le_rfl, by norm_num, le_rfl, le_rfl, by norm_num⟩
  · have hplus' := hplus (df.length - 1)
    have hminus' := hminus (df.length - 1)
    have hpos : 0 < average period (trueRange df) (df.length - 1) := lt_of_le_of_ne (by linarith) (Ne.symm hatr)
    have hadx : 0 ≤ lastAdx period df.length (dxOf df period) ∧ lastAdx period df.length (dxOf df period) ≤ 100 :=
      lastAdx_bounds hperiod (fun i => index_bounds (hplus i) (hminus i))
    refine ⟨hadx.1, hadx.2, by positivity, by positivity, ?_⟩
    rw [← add_div, div_le_iff₀ hpos]
    linarith

theorem rounded_bounds {x : ℚ} (hlow : 3 / 10 ≤ x) (hhigh : x ≤ 1) : 3 / 10 ≤ roundTo 3 x ∧ roundTo 3 x ≤ 1 := by
  have hle : ((300 : ℤ) : ℚ) / 10 ^ 3 ≤ roundTo 3 x := le_roundTo (le_of_eq_of_le (by norm_num) hlow)
  have hge : roundTo 3 x ≤ ((1000 : ℤ) : ℚ) / 10 ^ 3 := roundTo_le (hhigh.trans_eq (by norm_num))
  exact ⟨le_of_eq_of_le (by norm_num) hle, hge.trans_eq (by norm_num)⟩

/-- The confidence of a trend: both of its terms beyond one half are non-negative. -/
theorem trend_bounds {r : Adx} {threshold spread : ℚ} (hadx : threshold ≤ r.adx) (hspread : 0 ≤ spread) :
    3 / 10 ≤ min 1 (1 / 2 + spread / max (r.diPlus + r.diMinus) 1 + (r.adx - threshold) / 50) ∧
      min 1 (1 / 2 + spread / max (r.diPlus + r.diMinus) 1 + (r.adx - threshold) / 50) ≤ 1 := by
  have hmax : 0 < max (r.diPlus + r.diMinus) 1 := lt_max_of_lt_right one_pos
  have hterm : 0 ≤ spread / max (r.diPlus + r.diMinus) 1 := by positivity
  exact ⟨le_min (by norm_num) (by linarith), min_le_left _ _⟩

theorem confidence_bounds {p : RegimeParams} {r : Adx} {trendGap volPct bbWidthPct : ℚ}
    (hvol : 3 / 10 ≤ p.volHighPercentile) (hbb : 3 / 10 ≤ p.bbWidthHighPercentile) :
    3 / 10 ≤ (classify p r trendGap volPct bbWidthPct).2 ∧ (classify p r trendGap volPct bbWidthPct).2 ≤ 1 := by
  unfold classify
  dsimp only
  split_ifs with htrend hup hdown hgap hvolatile
  · exact (trend_bounds htrend.1 (sub_nonneg.2 hup.2.le)).elim rounded_bounds
  · exact (trend_bounds htrend.1 (sub_nonneg.2 hdown.2.le)).elim rounded_bounds
  · norm_num
  · norm_num
  · exact rounded_bounds (le_min (by norm_num) (by linarith [hvolatile.1, hvolatile.2])) (min_le_left _ _)
  · exact rounded_bounds (le_max_left _ _) (max_le (by norm_num) (min_le_left _ _))

/-- `_compute_adx` divides by no zero and returns values in range, and with the default
parameters every classification of them has a confidence between 0.3 and 1. -/
theorem adx_in_range {df : DataFrame} {period : ℕ} (hperiod : 1 ≤ period) (hn : 2 * period < df.length)
    (hdf : Ordered df) :
    ∃ r, computeAdx df period = some r ∧ Bounded r ∧ ∀ trendGap volPct bbWidthPct,
      3 / 10 ≤ (classify {} r trendGap volPct bbWidthPct).2 ∧ (classify {} r trendGap volPct bbWidthPct).2 ≤ 1 := by
  obtain ⟨r, hr, hbounded⟩ := computeAdx_bounded hperiod (by omega) hdf
  exact ⟨r, hr, hbounded, fun _ _ _ => confidence_bounds (by norm_num) (by norm_num)⟩

/-- A candle up, and one down below the first. -/
def swing : DataFrame := [(0, ⟨10, 11, 9, 10, 1⟩), (1, ⟨11, 13, 10, 12, 1⟩), (2, ⟨12, 12, 8, 9, 1⟩)]

theorem adx_in_range_swing :
    ∃ r, computeAdx swing 1 = some r ∧ Bounded r ∧ ∀ trendGap volPct bbWidthPct,
      3 / 10 ≤ (classify {} r trendGap volPct bbWidthPct).2 ∧ (classify {} r trendGap volPct bbWidthPct).2 ≤ 1 :=
  adx_in_range (by decide) (by decide) (by unfold Ordered swing; decide +kernel)

end Autr.Domain.AdxBounds
