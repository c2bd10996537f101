import Autr.Domain.Regime
import Autr.Strategies.Frames

namespace Autr.Domain.RegimeDirection

open CandleFrame Infra.QuantStore Regime Series Services.ConsumerLoop Strategies.Frames Strategies.StrategyParams

def NeverFalls (df : DataFrame) : Prop :=
  ∀ i, i + 1 < df.length → values Ohlcv.close df i ≤ values Ohlcv.close df (i + 1)

def NeverRises (df : DataFrame) : Prop :=
  ∀ i, i + 1 < df.length → values Ohlcv.close df (i + 1) ≤ values Ohlcv.close df i

/-- Whatever the directional index says, a trend goes the way of the gap. -/
theorem classify_trend {p : RegimeParams} (r : Adx) (trendGap volPct bbWidthPct : ℚ)
    (hthreshold : 0 < p.trendGapThreshold) :
    ((classify p r trendGap volPct bbWidthPct).1 = .trendingUp → 0 < trendGap) ∧
      ((classify p r trendGap volPct bbWidthPct).1 = .trendingDown → trendGap < 0) := by
  unfold classify
  dsimp only
  split_ifs with htrend hup hdown hgap hvolatile
  · exact ⟨fun _ => hup.1, fun h => nomatch h⟩
  · exact ⟨fun h => (nomatch h), fun _ => hdown.1⟩
  · exact ⟨fun _ => hgap, fun h => nomatch h⟩
  · have hne : trendGap ≠ 0 := abs_pos.1 (hthreshold.trans_le htrend.2)
    exact ⟨fun h => (nomatch h), fun _ => lt_of_le_of_ne (not_lt.1 hgap) hne⟩
  · exact ⟨fun h => (nomatch h), fun h => nomatch h⟩
  · exact ⟨fun h => (nomatch h), fun h => nomatch h⟩

section Averages

variable {df : DataFrame} {a b : Weight ℚ}

theorem ema_pos_last (hdf : df ≠ []) (hpos : ∀ c ∈ df, 0 < c.2.close) :
    0 < ema a (values Ohlcv.close df) (df.length - 1) := by
  have hn := List.length_pos_iff.2 hdf
  exact ema_pos (fun i hi => values_of_forall hpos (by omega))

theorem ema_le_of_neverFalls (hab : b.val ≤ a.val) (h : NeverFalls df) :
    ema b (values Ohlcv.close df) (df.length - 1) ≤ ema a (values Ohlcv.close df) (df.length - 1) :=
  ema_le_ema hab (fun i hi => h i (by omega))

theorem ema_le_of_neverRises (hab : b.val ≤ a.val) (h : NeverRises df) :
    ema a (values Ohlcv.close df) (df.length - 1) ≤ ema b (values Ohlcv.close df) (df.length - 1) :=
  ema_le_ema_of_antitone hab (fun i hi => h i (by omega))

variable {fast slow : ℕ} {gap : ℚ}

theorem computeTrendGap_eq_some (hdf : df ≠ []) (hpos : ∀ c ∈ df, 0 < c.2.close)
    (h : computeTrendGap df fast slow = some gap) :
    ∃ a b, Weight.ofSpan (fast : ℚ) = some a ∧ Weight.ofSpan (slow : ℚ) = some b ∧
      gap = (ema a (values Ohlcv.close df) (df.length - 1) - ema b (values Ohlcv.close df) (df.length - 1)) /
        ema b (values Ohlcv.close df) (df.length - 1) := by
  obtain ⟨a, ha, h⟩ := Option.bind_eq_some_iff.1 h
  obtain ⟨b, hb, h⟩ := Option.bind_eq_some_iff.1 h
  simp only [ewm_last _ hdf, Option.bind_eq_bind, Option.bind_some, (ema_pos_last hdf hpos).ne', if_false] at h
  exact ⟨a, b, ha, hb, (Option.some.inj h).symm⟩

theorem computeTrendGap_nonneg (hdf : df ≠ []) (hpos : ∀ c ∈ df, 0 < c.2.close) (hspan : fast ≤ slow)
    (hmono : NeverFalls df) (h : computeTrendGap df fast slow = some gap) : 0 ≤ gap := by
  obtain ⟨a, b, ha, hb, rfl⟩ := computeTrendGap_eq_some hdf hpos h
  have hab := Weight.ofSpan_anti ha hb (Nat.cast_le.2 hspan)
  exact div_nonneg (sub_nonneg.2 (ema_le_of_neverFalls hab hmono)) (ema_pos_last hdf hpos).le

theorem computeTrendGap_nonpos (hdf : df ≠ []) (hpos : ∀ c ∈ df, 0 < c.2.close) (hspan : fast ≤ slow)
    (hmono : NeverRises df) (h : computeTrendGap df fast slow = some gap) : gap ≤ 0 := by
  obtain ⟨a, b, ha, hb, rfl⟩ := computeTrendGap_eq_some hdf hpos h
  have hab := Weight.ofSpan_anti ha hb (Nat.cast_le.2 hspan)
  exact div_nonpos_of_nonpos_of_nonneg (sub_nonpos.2 (ema_le_of_neverRises hab hmono)) (ema_pos_last hdf hpos).le

end Averages

section Compute

variable {p : RegimeParams} {df : DataFrame} {s : RegimeState}

/-- The regime of an accepted series is the classification of its trend gap with some other indicators. -/
theorem compute_eq_some (hs : compute p df = some s) :
    df ≠ [] ∧ ∃ r trendGap volPct bbWidthPct, computeTrendGap df p.emaFastPeriod p.emaSlowPeriod = some trendGap ∧
      s.regime = (classify p r trendGap volPct bbWidthPct).1 := by
  unfold compute at hs
  split_ifs at hs with hlen
  obtain ⟨r, hr, hs⟩ := Option.bind_eq_some_iff.1 hs
  obtain ⟨trendGap, hgap, hs⟩ := Option.bind_eq_some_iff.1 hs
  obtain ⟨volPct, hvol, hs⟩ := Option.bind_eq_some_iff.1 hs
  obtain ⟨bbWidthPct, hbb, hs⟩ := Option.bind_eq_some_iff.1 hs
  obtain ⟨volRatio, hratio, hs⟩ := Option.bind_eq_some_iff.1 hs
  obtain ⟨last, hlast, hs⟩ := Option.bind_eq_some_iff.1 hs
  cases hs
  refine ⟨?_, r, trendGap, volPct, bbWidthPct, hgap, rfl⟩
  rintro rfl
  cases hlast

end Compute

/-- The averages of the higher timeframe do not rise on a series that never does; a span
below one has no average. -/
theorem htfIsBullish_of_neverRises {df : DataFrame} {params : ParamsObject} {fast slow : ℚ} (hdf : df ≠ [])
    (hmono : NeverRises df) (hfast : params.number "htf_ema_fast" = some fast)
    (hslow : params.number "htf_ema_slow" = some slow) (hspan : fast < slow) :
    htfIsBullish params df ≠ some true ∧ (1 ≤ fast → htfIsBullish params df = some false) := by
  have hanswer : ∀ a b, Weight.ofSpan fast = some a → Weight.ofSpan slow = some b →
      ¬ ema b (values Ohlcv.close df) (df.length - 1) < ema a (values Ohlcv.close df) (df.length - 1) :=
    fun a b ha hb => not_lt.2 (ema_le_of_neverRises (Weight.ofSpan_anti ha hb hspan.le) hmono)
  have hspanFast : span params "htf_ema_fast" = Weight.ofSpan fast := by rw [span, hfast, Option.bind_some]
  rw [htfIsBullish_eq hdf hslow, hspanFast]
  split_ifs
  · exact ⟨by simp, fun _ => rfl⟩
  · refine ⟨?_, fun hone => ?_⟩
    · cases ha : Weight.ofSpan fast with
      | none => simp
      | some a =>
          cases hb : Weight.ofSpan slow with
          | none => simp
          | some b => simp [hanswer a b ha hb]
    · obtain ⟨a, ha⟩ := Weight.ofSpan_isSome hone
      obtain ⟨b, hb⟩ := Weight.ofSpan_isSome (hone.trans hspan.le)
      simp [ha, hb, hanswer a b ha hb]

/-- With the default parameters a series that never falls is no downtrend, and one that
never rises is no uptrend and is not bullish for the engine of two timeframes. -/
theorem direction_follows {df : DataFrame} {s : RegimeState} (hpos : ∀ c ∈ df, 0 < c.2.close)
    (hs : compute {} df = some s) :
    (NeverFalls df → s.regime ≠ .trendingDown) ∧
      (NeverRises df → s.regime ≠ .trendingUp ∧
        ∀ (params : ParamsObject) (fast slow : ℚ), params.number "htf_ema_fast" = some fast →
          params.number "htf_ema_slow" = some slow → fast < slow →
            htfIsBullish params df ≠ some true ∧ (1 ≤ fast → htfIsBullish params df = some false)) := by
  obtain ⟨hdf, r, trendGap, volPct, bbWidthPct, hgap, hregime⟩ := compute_eq_some hs
  obtain ⟨hup, hdown⟩ := classify_trend (p := {}) r trendGap volPct bbWidthPct (by norm_num)
  rw [hregime]
  refine ⟨fun hmono hd => ?_, fun hmono => ⟨fun hu => ?_, fun params fast slow hfast hslow hspan => ?_⟩⟩
  · exact absurd (hdown hd) (not_lt.2 (computeTrendGap_nonneg hdf hpos (by decide) hmono hgap))
  · exact absurd (hup hu) (not_lt.2 (computeTrendGap_nonpos hdf hpos (by decide) hmono hgap))
  · exact htfIsBullish_of_neverRises hdf hmono hfast hslow hspan

/-- A rising series is no downtrend, and a falling one no uptrend. -/
theorem direction_follows_slope :
    (∃ s, compute {} (slope 1) = some s ∧ s.regime ≠ .trendingDown) ∧
      ∃ s, compute {} (slope (-1)) = some s ∧ s.regime ≠ .trendingUp ∧
        htfIsBullish (ParamsClass.dualTimeframe.new "BTCUSDT") (slope (-1)) = some false := by
  have hclose : ∀ step : ℚ, ∀ i, i + 1 < (slope step).length →
      values Ohlcv.close (slope step) (i + 1) = values Ohlcv.close (slope step) i + step := by
    intro step i hi
    rw [length_slope] at hi
    rw [close_slope step hi, close_slope step (i.lt_succ_self.trans hi)]
    push_cast
    ring
  obtain ⟨s, hs⟩ := Option.isSome_iff_exists.1 (compute_slope 1)
  obtain ⟨s', hs'⟩ := Option.isSome_iff_exists.1 (compute_slope (-1))
  refine ⟨⟨s, hs, (direction_follows (close_slope_pos (by norm_num)) hs).1 (fun i hi => ?_)⟩, s', hs', ?_⟩
  · rw [hclose 1 i hi]
    linarith
  · obtain ⟨hup, hbullish⟩ := (direction_follows (close_slope_pos (by norm_num)) hs').2 (fun i hi => by
      rw [hclose (-1) i hi]
      linarith)
    exact ⟨hup, (hbullish _ 20 50 rfl rfl (by norm_num)).2 (by norm_num)⟩

end Autr.Domain.RegimeDirection
