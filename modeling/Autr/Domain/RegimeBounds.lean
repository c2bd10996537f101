import Autr.Domain.AdxBounds
import Autr.Domain.RegimeDirection

namespace Autr.Domain.RegimeBounds

open AdxBounds CandleFrame Decimal Infra.QuantStore Regime RegimeDirection Series Services.ConsumerLoop

/-- A published state on its own: its numbers are in their ranges and bear out its regime. -/
structure Sound (s : RegimeState) : Prop where
  adx : 0 ≤ s.adx ∧ s.adx ≤ 100
  diPlus : 0 ≤ s.diPlus ∧ s.diPlus ≤ 100
  diMinus : 0 ≤ s.diMinus ∧ s.diMinus ≤ 100
  trendGapPct : -1 ≤ s.trendGapPct ∧ s.trendGapPct ≤ 3
  volPercentile : 0 ≤ s.volPercentile ∧ s.volPercentile ≤ 1
  bbWidthPercentile : 0 ≤ s.bbWidthPercentile ∧ s.bbWidthPercentile ≤ 1
  volRatio : 0 ≤ s.volRatio ∧ s.volRatio ≤ 20
  confidence : 3 / 10 ≤ s.confidence ∧ s.confidence ≤ 1
  trendingUp : s.regime = .trendingUp → 25 ≤ s.adx ∧ 5 / 1000 ≤ s.trendGapPct
  trendingDown : s.regime = .trendingDown → 25 ≤ s.adx ∧ s.trendGapPct ≤ -(5 / 1000)
  volatile : s.regime = .volatile → 8 / 10 ≤ s.volPercentile ∧ 8 / 10 ≤ s.bbWidthPercentile

section Indicators

theorem percentile_bounds {recent : List Surd} {x : ℚ} (h : percentile recent = some x) : 0 ≤ x ∧ x ≤ 1 := by
  obtain ⟨current, -, hx⟩ := Option.bind_eq_some_iff.1 h
  cases hx
  refine ⟨by positivity, div_le_one_of_le₀ ?_ (by positivity)⟩
  exact_mod_cast List.length_filter_le _ recent

theorem computeVolPercentile_bounds {df : DataFrame} {lookback : ℕ} {x : ℚ}
    (h : computeVolPercentile df lookback = some x) : 0 ≤ x ∧ x ≤ 1 := by
  rw [computeVolPercentile] at h
  dsimp only at h
  split_ifs at h
  · cases h
    norm_num
  · cases h
    norm_num
  · exact percentile_bounds h

theorem computeBbWidthPercentile_bounds {df : DataFrame} {period lookback : ℕ} {stdMult x : ℚ}
    (h : computeBbWidthPercentile df period stdMult lookback = some x) : 0 ≤ x ∧ x ≤ 1 := by
  rw [computeBbWidthPercentile] at h
  split_ifs at h
  · cases h
    norm_num
  · exact percentile_bounds h

/-- A value that is not more than a sum is not more than as many times the mean. -/
theorem div_mean_le {value total : ℚ} {n : ℕ} (hn : n ≠ 0) (htotal : 0 < total) (h : value ≤ total) :
    value / (total / n) ≤ n := by
  have hpos : (0 : ℚ) < n := by exact_mod_cast Nat.pos_of_ne_zero hn
  rw [div_div_eq_mul_div, div_le_iff₀ htotal, mul_comm]
  exact mul_le_mul_of_nonneg_left h hpos.le

theorem computeVolumeRatio_bounds {df : DataFrame} (hvolume : ∀ c ∈ df, 0 ≤ c.2.volume) {maPeriod : ℕ}
    (hperiod : 1 ≤ maPeriod) {x : ℚ} (h : computeVolumeRatio df maPeriod = some x) : 0 ≤ x ∧ x ≤ maPeriod := by
  have hone : (0 : ℚ) ≤ 1 ∧ (1 : ℚ) ≤ maPeriod := ⟨zero_le_one, by exact_mod_cast hperiod⟩
  have hcolumn : ∀ i v, column Ohlcv.volume df i = some v → 0 ≤ v := by
    intro i v hv
    obtain ⟨c, hc, rfl⟩ := Option.map_eq_some_iff.1 hv
    exact hvolume c (List.mem_of_getElem? hc)
  obtain ⟨last, hlast, h⟩ := Option.bind_eq_some_iff.1 h
  cases hmean : (column Ohlcv.volume df).rolling maPeriod mean (df.length - 1) with
  | none =>
      rw [hmean] at h
      cases h
      exact hone
  | some lastMa =>
      rw [hmean] at h
      dsimp only at h
      split_ifs at h with hzero
      · cases h
        exact hone
      · cases h
        obtain ⟨xs, hxs, hma⟩ := Option.bind_eq_some_iff.1 hmean
        obtain ⟨-, hlength, -⟩ := Column.window_eq_some hxs
        have hnonneg : ∀ v ∈ xs, 0 ≤ v := fun v hv => by
          obtain ⟨j, -, -, hj⟩ := (Column.mem_window hxs).1 hv
          exact hcolumn j v hj
        have hmem : last ∈ xs := (Column.mem_window hxs).2 ⟨_, le_rfl, by omega, hlast⟩
        have hne : xs ≠ [] := List.ne_nil_of_mem hmem
        rw [mean, if_neg hne, hlength] at hma
        cases hma
        have hsum : 0 < xs.sum := lt_of_le_of_ne (List.sum_nonneg hnonneg) (fun h => hzero (by rw [← h, zero_div]))
        exact ⟨div_nonneg (hcolumn _ _ hlast) (div_nonneg hsum.le (Nat.cast_nonneg _)),
          div_mean_le (by omega) hsum (List.single_le_sum hnonneg last hmem)⟩

/-- The averages are positive, and the fast one is at most as many times the slow one as it
gives a new close more weight. -/
theorem computeTrendGap_bounds {df : DataFrame} (hdf : df ≠ []) (hpos : ∀ c ∈ df, 0 < c.2.close) {fast slow : ℕ}
    (hspan : fast ≤ slow) {gap : ℚ} (h : computeTrendGap df fast slow = some gap) :
    -1 ≤ gap ∧ gap ≤ (slow + 1) / (fast + 1) - 1 := by
  obtain ⟨a, b, ha, hb, rfl⟩ := computeTrendGap_eq_some hdf hpos h
  have hslow := ema_pos_last (a := b) hdf hpos
  have hfast := ema_pos_last (a := a) hdf hpos
  have hratio : a.val / b.val = ((slow : ℚ) + 1) / (fast + 1) := by
    rw [(Weight.ofSpan_eq_some ha).2, (Weight.ofSpan_eq_some hb).2]
    field_simp
  have hn := List.length_pos_iff.2 hdf
  have hweights := Weight.ofSpan_anti ha hb (Nat.cast_le.2 hspan)
  have hle := ema_le_ratio_mul (v := values Ohlcv.close df) (t := df.length - 1) hweights
    (fun i hi => (values_of_forall hpos (show i < df.length by omega)).le)
  rw [hratio] at hle
  rw [sub_div, div_self hslow.ne']
  refine ⟨?_, sub_le_sub_right ((div_le_iff₀ hslow).2 hle) 1⟩
  have hquotient := div_pos hfast hslow
  linarith

end Indicators

/-- What the indicators are where a regime is not the default one. -/
theorem classify_supported {p : RegimeParams} (r : Adx) (trendGap volPct bbWidthPct : ℚ) :
    ((classify p r trendGap volPct bbWidthPct).1 = .trendingUp →
        p.adxTrendThreshold ≤ r.adx ∧ p.trendGapThreshold ≤ trendGap) ∧
      ((classify p r trendGap volPct bbWidthPct).1 = .trendingDown →
        p.adxTrendThreshold ≤ r.adx ∧ trendGap ≤ -p.trendGapThreshold) ∧
      ((classify p r trendGap volPct bbWidthPct).1 = .volatile →
        p.volHighPercentile ≤ volPct ∧ p.bbWidthHighPercentile ≤ bbWidthPct) := by
  have hup : 0 < trendGap → p.trendGapThreshold ≤ |trendGap| → p.trendGapThreshold ≤ trendGap :=
    fun hgap h => h.trans_eq (abs_of_pos hgap)
  have hdown : trendGap ≤ 0 → p.trendGapThreshold ≤ |trendGap| → trendGap ≤ -p.trendGapThreshold :=
    fun hgap h => le_neg.1 (h.trans_eq (abs_of_nonpos hgap))
  rw [classify]
  split_ifs with htrend hrise hfall hgap hvolatile
  · exact ⟨fun _ => ⟨htrend.1, hup hrise.1 htrend.2⟩, nofun, nofun⟩
  · exact ⟨nofun, fun _ => ⟨htrend.1, hdown hfall.1.le htrend.2⟩, nofun⟩
  · exact ⟨fun _ => ⟨htrend.1, hup hgap htrend.2⟩, nofun, nofun⟩
  · exact ⟨nofun, fun _ => ⟨htrend.1, hdown (not_lt.1 hgap) htrend.2⟩, nofun⟩
  · exact ⟨nofun, nofun, fun _ => hvolatile⟩
  · exact ⟨nofun, nofun, nofun⟩

section Rounding

variable {precision : ℕ} {k : ℤ} {bound x : ℚ}

theorem bound_le_roundTo (hbound : bound = k / 10 ^ precision) (h : bound ≤ x) : bound ≤ roundTo precision x := by
  rw [hbound] at h ⊢
  exact le_roundTo h

theorem roundTo_le_bound (hbound : bound = k / 10 ^ precision) (h : x ≤ bound) : roundTo precision x ≤ bound := by
  rw [hbound] at h ⊢
  exact roundTo_le h

end Rounding

/-- With the default parameters every series that is long enough is classified, and the
rounded state keeps to its ranges and supports its own regime. -/
theorem compute_sound {df : DataFrame} (hlength : 210 ≤ df.length) (hordered : Ordered df)
    (hpos : ∀ c ∈ df, 0 < c.2.close) (hvolume : ∀ c ∈ df, 0 ≤ c.2.volume) :
    ∃ s, compute {} df = some s ∧ Sound s ∧ df.getLast?.map Prod.fst = some s.ts := by
  obtain ⟨s, hs⟩ := Option.isSome_iff_exists.1
    (compute_isSome (p := {}) (by decide) (by decide) (by decide) (hlength.trans' (by decide)))
  refine ⟨s, hs, ?_⟩
  rw [compute] at hs
  split_ifs at hs
  obtain ⟨r, hr, hs⟩ := Option.bind_eq_some_iff.1 hs
  obtain ⟨trendGap, hgap, hs⟩ := Option.bind_eq_some_iff.1 hs
  obtain ⟨volPct, hvol, hs⟩ := Option.bind_eq_some_iff.1 hs
  obtain ⟨bbWidthPct, hbb, hs⟩ := Option.bind_eq_some_iff.1 hs
  obtain ⟨volRatio, hratio, hs⟩ := Option.bind_eq_some_iff.1 hs
  obtain ⟨last, hlast, hs⟩ := Option.bind_eq_some_iff.1 hs
  cases hs
  obtain ⟨r', hr', hbounded⟩ := computeAdx_bounded (by decide : 0 < 14) (by omega) hordered
  cases hr.symm.trans hr'
  have hdf : df ≠ [] := List.length_pos_iff.1 (by omega)
  obtain ⟨hgapLow, hgapHigh⟩ := computeTrendGap_bounds hdf hpos (by decide) hgap
  obtain ⟨hvolLow, hvolHigh⟩ := computeVolPercentile_bounds hvol
  obtain ⟨hbbLow, hbbHigh⟩ := computeBbWidthPercentile_bounds hbb
  obtain ⟨hratioLow, hratioHigh⟩ := computeVolumeRatio_bounds hvolume (by decide) hratio
  obtain ⟨hup, hdown, hvolatile⟩ := classify_supported (p := {}) r trendGap volPct bbWidthPct
  have hplus : r.diPlus ≤ 100 := by linarith [hbounded.diMinus_nonneg, hbounded.di_le]
  have hminus : r.diMinus ≤ 100 := by linarith [hbounded.diPlus_nonneg, hbounded.di_le]
  refine ⟨?_, by rw [hlast]; rfl⟩
  exact {
    adx := ⟨roundTo_nonneg 2 hbounded.adx_nonneg, roundTo_le_bound (k := 10000) (by norm_num) hbounded.adx_le⟩
    diPlus := ⟨roundTo_nonneg 2 hbounded.diPlus_nonneg, roundTo_le_bound (k := 10000) (by norm_num) hplus⟩
    diMinus := ⟨roundTo_nonneg 2 hbounded.diMinus_nonneg, roundTo_le_bound (k := 10000) (by norm_num) hminus⟩
    trendGapPct := ⟨bound_le_roundTo (k := -1000000) (by norm_num) hgapLow,
      roundTo_le_bound (k := 3000000) (by norm_num) (hgapHigh.trans (by norm_num))⟩
    volPercentile := ⟨roundTo_nonneg 4 hvolLow, roundTo_le_bound (k := 10000) (by norm_num) hvolHigh⟩
    bbWidthPercentile := ⟨roundTo_nonneg 4 hbbLow, roundTo_le_bound (k := 10000) (by norm_num) hbbHigh⟩
    volRatio := ⟨roundTo_nonneg 4 hratioLow,
      roundTo_le_bound (k := 200000) (by norm_num) (hratioHigh.trans_eq (by norm_num))⟩
    confidence := confidence_bounds (by norm_num) (by norm_num)
    trendingUp := fun h => ⟨bound_le_roundTo (k := 2500) (by norm_num) (hup h).1,
      bound_le_roundTo (k := 5000) (by norm_num) (hup h).2⟩
    trendingDown := fun h => ⟨bound_le_roundTo (k := 2500) (by norm_num) (hdown h).1,
      roundTo_le_bound (k := -5000) (by norm_num) (hdown h).2⟩
    volatile := fun h => ⟨bound_le_roundTo (k := 8000) (by norm_num) (hvolatile h).1,
      bound_le_roundTo (k := 8000) (by norm_num) (hvolatile h).2⟩ }

theorem compute_sound_slope :
    (∃ s, compute {} (slope 1) = some s ∧ Sound s ∧ (slope 1).getLast?.map Prod.fst = some s.ts) ∧
      ∃ s, compute {} (slope (-1)) = some s ∧ Sound s ∧ (slope (-1)).getLast?.map Prod.fst = some s.ts := by
  have hordered : ∀ step : ℚ, |step| ≤ 1 → Ordered (slope step) := fun step hstep =>
    forall_slope (P := fun o => o.low ≤ o.close ∧ o.close ≤ o.high)
      (fun x _ => ⟨(sub_one_lt x).le, (lt_add_one x).le⟩) hstep
  have hvolume : ∀ step : ℚ, |step| ≤ 1 → ∀ c ∈ slope step, 0 ≤ c.2.volume := fun step hstep =>
    forall_slope (P := fun o => 0 ≤ o.volume) (fun x hx => by norm_num) hstep
  have hup : |(1 : ℚ)| ≤ 1 := by norm_num
  have hdown : |(-1 : ℚ)| ≤ 1 := by norm_num
  exact ⟨compute_sound (length_slope 1).ge (hordered 1 hup) (close_slope_pos hup) (hvolume 1 hup),
    compute_sound (length_slope (-1)).ge (hordered (-1) hdown) (close_slope_pos hdown) (hvolume (-1) hdown)⟩

end Autr.Domain.RegimeBounds
