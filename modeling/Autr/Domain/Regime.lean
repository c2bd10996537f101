import Autr.Decimal
import Autr.Domain.CandleFrame
import Autr.Services.ConsumerLoop

namespace Autr.Domain.Regime

open CandleFrame Decimal Infra.QuantStore Series Services.ConsumerLoop

structure RegimeParams where
  adxPeriod : ℕ := 14
  adxTrendThreshold : ℚ := 25
  emaFastPeriod : ℕ := 50
  emaSlowPeriod : ℕ := 200
  trendGapThreshold : ℚ := 5 / 1000
  volLookback : ℕ := 100
  volHighPercentile : ℚ := 8 / 10
  bbPeriod : ℕ := 20
  bbStd : ℚ := 2
  bbWidthHighPercentile : ℚ := 8 / 10
  volumeMaPeriod : ℕ := 20
  adxPeriod_pos : 0 < adxPeriod := by decide

structure RegimeState where
  regime : RegimeType
  confidence : ℚ
  adx : ℚ
  diPlus : ℚ
  diMinus : ℚ
  trendGapPct : ℚ
  volPercentile : ℚ
  bbWidthPercentile : ℚ
  volRatio : ℚ
  ts : ℤ
  deriving DecidableEq

/-- What `_compute_adx` returns. -/
structure Adx where
  adx : ℚ
  diPlus : ℚ
  diMinus : ℚ
  deriving DecidableEq

def classify (p : RegimeParams) (r : Adx) (trendGap volPct bbWidthPct : ℚ) : RegimeType × ℚ :=
  let conf (spread : ℚ) := roundTo 3
    (min 1 (1 / 2 + spread / max (r.diPlus + r.diMinus) 1 + (r.adx - p.adxTrendThreshold) / 50))
  if p.adxTrendThreshold ≤ r.adx ∧ p.trendGapThreshold ≤ |trendGap| then
    if 0 < trendGap ∧ r.diMinus < r.diPlus then (.trendingUp, conf (r.diPlus - r.diMinus))
    else if trendGap < 0 ∧ r.diPlus < r.diMinus then (.trendingDown, conf (r.diMinus - r.diPlus))
    else if 0 < trendGap then (.trendingUp, 4 / 10)
    else (.trendingDown, 4 / 10)
  else if p.volHighPercentile ≤ volPct ∧ p.bbWidthHighPercentile ≤ bbWidthPct then
    (.volatile, roundTo 3 (min 1 ((volPct + bbWidthPct) / 2)))
  else
    (.range, roundTo 3 (max (3 / 10) (min 1 (1 / 2 + (p.adxTrendThreshold - r.adx) / 50))))

section Adx

variable (df : DataFrame) (period : ℕ)

def plusDm (i : ℕ) : ℚ :=
  let hDiff := values Ohlcv.high df i - values Ohlcv.high df (i - 1)
  let lDiff := values Ohlcv.low df (i - 1) - values Ohlcv.low df i
  if lDiff < hDiff ∧ 0 < hDiff then hDiff else 0

def minusDm (i : ℕ) : ℚ :=
  let hDiff := values Ohlcv.high df i - values Ohlcv.high df (i - 1)
  let lDiff := values Ohlcv.low df (i - 1) - values Ohlcv.low df i
  if hDiff < lDiff ∧ 0 < lDiff then lDiff else 0

def trueRange (i : ℕ) : ℚ :=
  max (values Ohlcv.high df i - values Ohlcv.low df i)
    (max |values Ohlcv.high df i - values Ohlcv.close df (i - 1)|
      |values Ohlcv.low df i - values Ohlcv.close df (i - 1)|)

/-- A quotient of numbers. A division by zero has none: Python raises, and numpy goes on
with an infinity or a NaN. -/
def divide (x y : ℚ) : Option ℚ := if y = 0 then none else some (x / y)

def meanFrom (first count : ℕ) (v : ℕ → Option ℚ) : Option ℚ := do
  let xs ← (List.range count).mapM (fun k => v (first + k))
  divide xs.sum count

/-- Wilder smoothing of an array from the row `start` on; the argument counts the rows after it. -/
def smooth (start : ℕ) (seed : Option ℚ) (v : ℕ → Option ℚ) : ℕ → Option ℚ
  | 0 => seed
  | k + 1 => do
      let before ← smooth start seed v k
      let value ← v (start + k + 1)
      divide (before * (period - 1) + value) period

def smoothed (v : ℕ → ℚ) (i : ℕ) : Option ℚ :=
  let v i := some (v i)
  smooth period period (meanFrom 1 period v) v (i - period)

def dx (i : ℕ) : Option ℚ := do
  let sP ← smoothed period (plusDm df) i
  let sM ← smoothed period (minusDm df) i
  if 0 < sP + sM then divide (100 * |sP - sM|) (sP + sM) else return 0

def computeAdx : Option Adx :=
  let n := df.length
  -- `atr[period]` is out of range.
  if n ≤ period then none
  else do
    let lastAtr ← smoothed period (trueRange df) (n - 1)
    if lastAtr = 0 then return ⟨0, 0, 0⟩
    let diPlus ← divide (100 * (← smoothed period (plusDm df) (n - 1))) lastAtr
    let diMinus ← divide (100 * (← smoothed period (minusDm df) (n - 1))) lastAtr
    let start := period * 2
    let adx ←
      if start < n then
        smooth period start (meanFrom period (period + 1) (dx df period)) (dx df period) (n - 1 - start)
      else pure 0
    return ⟨adx, diPlus, diMinus⟩

end Adx

def computeTrendGap (df : DataFrame) (fast slow : ℕ) : Option ℚ := do
  let fastWeight ← Weight.ofSpan (fast : ℚ)
  let slowWeight ← Weight.ofSpan (slow : ℚ)
  let lastFast ← (column Ohlcv.close df).ewm fastWeight 0 (df.length - 1)
  let lastSlow ← (column Ohlcv.close df).ewm slowWeight 0 (df.length - 1)
  if lastSlow = 0 then return 0 else return (lastFast - lastSlow) / lastSlow

def std (xs : List ℚ) : Option Surd := (variance xs).map Surd.sqrt

/-- `iloc[-lookback:]`, which is everything for a lookback of zero. -/
def lastRows {α : Type} (lookback : ℕ) (xs : List α) : List α :=
  if lookback = 0 then xs else xs.drop (xs.length - lookback)

def percentile (recent : List Surd) : Option ℚ := do
  let current ← recent.getLast?
  return ((recent.filter (fun s => s < current)).length : ℚ) / recent.length

def pctChange (x : Column ℚ) : Column ℚ := Column.map₂ (fun value before => value / before - 1) x x.shift

def computeVolPercentile (df : DataFrame) (lookback : ℕ) : Option ℚ :=
  let returns := Column.dropna df.length (pctChange (column Ohlcv.close df))
  if returns.length < lookback then some (1 / 2)
  else
    let volSeries := Column.dropna returns.length (Column.rolling 20 std (fun i => returns[i]?))
    if volSeries = [] then some (1 / 2) else percentile (lastRows lookback volSeries)

def bbWidth (df : DataFrame) (period : ℕ) (stdMult : ℚ) : Column Surd :=
  let close := column Ohlcv.close df
  Column.map₂ (fun s sma => (s.scale (2 * stdMult)).scale sma⁻¹) (close.rolling period std)
    (close.rolling period mean)

def computeBbWidthPercentile (df : DataFrame) (period : ℕ) (stdMult : ℚ) (lookback : ℕ) : Option ℚ :=
  let widths := Column.dropna df.length (bbWidth df period stdMult)
  if widths.length < lookback then some (1 / 2) else percentile (lastRows lookback widths)

def computeVolumeRatio (df : DataFrame) (maPeriod : ℕ) : Option ℚ := do
  let last ← column Ohlcv.volume df (df.length - 1)
  match (column Ohlcv.volume df).rolling maPeriod mean (df.length - 1) with
  | none => return 1
  | some lastMa => if lastMa = 0 then return 1 else return last / lastMa

/-- The classification of a series of candles with positive prices; a failed indicator is
logged and leaves the series without one. -/
def compute (p : RegimeParams) (df : DataFrame) : Option RegimeState :=
  if df.length < max (max p.emaSlowPeriod p.volLookback) (p.adxPeriod * 3) + 10 then none
  else do
    let r ← computeAdx df p.adxPeriod
    let trendGap ← computeTrendGap df p.emaFastPeriod p.emaSlowPeriod
    let volPct ← computeVolPercentile df p.volLookback
    let bbWidthPct ← computeBbWidthPercentile df p.bbPeriod p.bbStd p.volLookback
    let volRatio ← computeVolumeRatio df p.volumeMaPeriod
    let (regime, confidence) := classify p r trendGap volPct bbWidthPct
    let last ← df.getLast?
    return {
      regime := regime
      confidence := confidence
      adx := roundTo 2 r.adx
      diPlus := roundTo 2 r.diPlus
      diMinus := roundTo 2 r.diMinus
      trendGapPct := roundTo 6 trendGap
      volPercentile := roundTo 4 volPct
      bbWidthPercentile := roundTo 4 bbWidthPct
      volRatio := roundTo 4 volRatio
      ts := last.1 }

section Checked

variable {df : DataFrame} {period : ℕ}

theorem divide_of_ne {x y : ℚ} (h : y ≠ 0) : divide x y = some (x / y) := if_neg h

theorem meanFrom_some {first count : ℕ} {v : ℕ → Option ℚ} {u : ℕ → ℚ} (hcount : 0 < count)
    (h : ∀ k < count, v (first + k) = some (u (first + k))) :
    meanFrom first count v = some (rangeMean first count u) := by
  have hxs : (List.range count).mapM (fun k => v (first + k)) =
      some ((List.range count).map (fun k => u (first + k))) :=
    Column.mapM_some (fun k hk => h k (List.mem_range.1 hk))
  rw [meanFrom, hxs]
  exact divide_of_ne (Nat.cast_ne_zero.2 hcount.ne')

theorem smooth_some {start : ℕ} {seed : ℚ} {v : ℕ → Option ℚ} {u : ℕ → ℚ} (hperiod : 0 < period) {k : ℕ}
    (h : ∀ j < k, v (start + j + 1) = some (u (start + j + 1))) :
    smooth period start (some seed) v k = some (wilder period start seed u k) := by
  induction k with
  | zero => rfl
  | succ k ih =>
      rw [smooth, ih (fun j hj => h j (hj.trans k.lt_succ_self)), h k k.lt_succ_self]
      exact divide_of_ne (Nat.cast_ne_zero.2 hperiod.ne')

/-- The smoothed value of an array at a row from `period` on. -/
def average (period : ℕ) (v : ℕ → ℚ) (i : ℕ) : ℚ :=
  wilder period period (rangeMean 1 period v) v (i - period)

theorem smoothed_eq (hperiod : 0 < period) (v : ℕ → ℚ) (i : ℕ) : smoothed period v i = some (average period v i) := by
  rw [smoothed, meanFrom_some hperiod (fun _ _ => rfl)]
  exact smooth_some hperiod (fun _ _ => rfl)

/-- The directional index of two smoothed movements. -/
def index (sP sM : ℚ) : ℚ := if 0 < sP + sM then 100 * |sP - sM| / (sP + sM) else 0

def dxOf (df : DataFrame) (period i : ℕ) : ℚ :=
  index (average period (plusDm df) i) (average period (minusDm df) i)

theorem dx_eq (hperiod : 0 < period) (i : ℕ) : dx df period i = some (dxOf df period i) := by
  simp only [dx, smoothed_eq hperiod, Option.bind_eq_bind, Option.bind_some, dxOf, index]
  split_ifs with hpos
  · exact divide_of_ne hpos.ne'
  · rfl

/-- The ADX that the last row has, zero while there are too few rows to seed it. -/
def lastAdx (period : ℕ) (n : ℕ) (v : ℕ → ℚ) : ℚ :=
  if period * 2 < n then
    wilder period (period * 2) (rangeMean period (period + 1) v) v (n - 1 - period * 2)
  else 0

/-- No division of `_compute_adx` is by zero. -/
theorem computeAdx_eq (hperiod : 0 < period) (hn : period < df.length) :
    computeAdx df period =
      let atr := average period (trueRange df) (df.length - 1)
      some (if atr = 0 then ⟨0, 0, 0⟩
        else ⟨lastAdx period df.length (dxOf df period), 100 * average period (plusDm df) (df.length - 1) / atr,
          100 * average period (minusDm df) (df.length - 1) / atr⟩) := by
  have hstart : ∀ k, smooth period (period * 2) (meanFrom period (period + 1) (dx df period)) (dx df period) k =
      some (wilder period (period * 2) (rangeMean period (period + 1) (dxOf df period)) (dxOf df period) k) := by
    intro k
    rw [meanFrom_some (u := dxOf df period) period.succ_pos (fun _ _ => dx_eq hperiod _)]
    exact smooth_some hperiod (fun _ _ => dx_eq hperiod _)
  simp only [computeAdx, smoothed_eq hperiod, not_le.2 hn, if_false, Option.bind_eq_bind, Option.bind_some, hstart]
  by_cases hatr : average period (trueRange df) (df.length - 1) = 0
  · simp [hatr]
  · simp only [hatr, if_false, divide_of_ne hatr, Option.bind_some, lastAdx]
    split_ifs <;> rfl

end Checked

section Reals

/-- The width of the bands as a real number. -/
theorem bbWidth_real {df : DataFrame} {period i : ℕ} {stdMult : ℚ} {w : Surd}
    (h : bbWidth df period stdMult i = some w) :
    ∃ v m, (column Ohlcv.close df).rolling period variance i = some v ∧
      (column Ohlcv.close df).rolling period mean i = some m ∧ w.toReal = 2 * stdMult * √v / m := by
  obtain ⟨s, m, hs, hm, rfl⟩ := Option.map₂_eq_some_iff.1 h
  obtain ⟨xs, hxs, hstd⟩ := Option.bind_eq_some_iff.1 hs
  obtain ⟨v, hv, rfl⟩ := Option.map_eq_some_iff.1 hstd
  refine ⟨v, m, by rw [Column.rolling, hxs]; exact hv, hm, ?_⟩
  rw [Surd.toReal_scale, Surd.toReal_scale, Surd.toReal_sqrt]
  push_cast
  ring

/-- The comparisons of a percentile are those of real numbers. -/
theorem percentile_real (recent : List Surd) (current : Surd) :
    (recent.filter (fun s => s < current)).length =
      recent.countP (fun s => decide (s.toReal < current.toReal)) := by
  rw [← List.countP_eq_length_filter]
  exact List.countP_congr (fun s _ => by simp [Surd.lt_iff_toReal])

end Reals

section Accepted

variable {p : RegimeParams} {df : DataFrame}

theorem percentile_isSome {widths : List Surd} (hne : widths ≠ []) (lookback : ℕ) :
    (percentile (lastRows lookback widths)).isSome := by
  have hlast : lastRows lookback widths ≠ [] := by
    unfold lastRows
    split_ifs with hzero
    · exact hne
    · have hlength := List.length_pos_iff.2 hne
      exact List.length_pos_iff.1 (by rw [List.length_drop]; omega)
  obtain ⟨current, hcurrent⟩ := Option.isSome_iff_exists.1 (List.getLast?_isSome.2 hlast)
  simp [percentile, hcurrent]

theorem computeTrendGap_isSome (hdf : df ≠ []) {fast slow : ℕ} (hfast : 1 ≤ fast) (hslow : 1 ≤ slow) :
    (computeTrendGap df fast slow).isSome := by
  obtain ⟨a, ha⟩ := Weight.ofSpan_isSome (K := ℚ) (Nat.one_le_cast.2 hfast)
  obtain ⟨b, hb⟩ := Weight.ofSpan_isSome (K := ℚ) (Nat.one_le_cast.2 hslow)
  simp only [computeTrendGap, ha, hb, ewm_last _ hdf, Option.bind_eq_bind, Option.bind_some]
  split_ifs <;> rfl

theorem computeVolPercentile_isSome (df : DataFrame) (lookback : ℕ) : (computeVolPercentile df lookback).isSome := by
  unfold computeVolPercentile
  dsimp only
  split_ifs with hshort hempty
  · rfl
  · rfl
  · exact percentile_isSome hempty lookback

theorem computeBbWidthPercentile_isSome (df : DataFrame) (period : ℕ) (stdMult : ℚ) {lookback : ℕ}
    (hlookback : 1 ≤ lookback) : (computeBbWidthPercentile df period stdMult lookback).isSome := by
  unfold computeBbWidthPercentile
  dsimp only
  split_ifs with hshort
  · rfl
  · exact percentile_isSome (List.length_pos_iff.1 (by omega)) lookback

theorem computeVolumeRatio_isSome (hdf : df ≠ []) (maPeriod : ℕ) : (computeVolumeRatio df maPeriod).isSome := by
  have hn := List.length_pos_iff.2 hdf
  simp only [computeVolumeRatio, column, List.getElem?_eq_getElem (Nat.sub_lt hn one_pos), Option.map_some,
    Option.bind_eq_bind, Option.bind_some]
  split
  · rfl
  · split_ifs <;> rfl

/-- A series of candles is classified as soon as it is long enough. -/
theorem compute_isSome (hfast : 1 ≤ p.emaFastPeriod) (hslow : 1 ≤ p.emaSlowPeriod) (hlookback : 1 ≤ p.volLookback)
    (hlen : max (max p.emaSlowPeriod p.volLookback) (p.adxPeriod * 3) + 10 ≤ df.length) : (compute p df).isSome := by
  have hdf : df ≠ [] := List.length_pos_iff.1 (by omega)
  obtain ⟨trendGap, hgap⟩ := Option.isSome_iff_exists.1 (computeTrendGap_isSome hdf hfast hslow)
  obtain ⟨volPct, hvol⟩ := Option.isSome_iff_exists.1 (computeVolPercentile_isSome df p.volLookback)
  obtain ⟨bbWidthPct, hbb⟩ :=
    Option.isSome_iff_exists.1 (computeBbWidthPercentile_isSome df p.bbPeriod p.bbStd hlookback)
  obtain ⟨volRatio, hratio⟩ := Option.isSome_iff_exists.1 (computeVolumeRatio_isSome hdf p.volumeMaPeriod)
  obtain ⟨last, hlast⟩ := Option.isSome_iff_exists.1 (List.getLast?_isSome.2 hdf)
  rw [compute, if_neg (not_lt.2 hlen)]
  simp [computeAdx_eq p.adxPeriod_pos (show p.adxPeriod < df.length by omega), hgap, hvol, hbb, hratio, hlast]

theorem compute_slope (step : ℚ) : (compute {} (slope step)).isSome :=
  compute_isSome (by decide) (by decide) (by decide) (by rw [length_slope]; decide)

end Accepted

end Autr.Domain.Regime
