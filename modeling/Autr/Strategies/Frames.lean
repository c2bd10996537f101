import Autr.Domain.CandleFrame
import Autr.Strategies.Engines

namespace Autr.Strategies.Frames

open Domain.CandleFrame Engines Infra.QuantStore Series StrategyParams

/-- A row of an indicator frame: the candle with its indicators. -/
structure FrameRow where
  ts : ℤ
  candle : Ohlcv
  indicators : Row

/-- A window length as `rolling` takes it. -/
def window (params : ParamsObject) (key : String) : Option ℕ :=
  match params.get key with
  | some (.int n) => if 0 ≤ n then some n.toNat else none
  | _ => none

def span (params : ParamsObject) (key : String) : Option (Weight ℚ) := (params.number key).bind Weight.ofSpan

/-- The copy of the candles to which the indicators are added. -/
def copy (candles : DataFrame) : Column FrameRow := fun i =>
  (candles[i]?).map (fun c => ⟨c.1, c.2, { close := c.2.close, atr := 0, volume := c.2.volume }⟩)

/-- The frame with a new column. -/
def assign (df : Column FrameRow) (set : Row → ℚ → Row) (x : Column ℚ) : Column FrameRow :=
  Column.map₂ (fun row value => { row with indicators := set row.indicators value }) df x

/-- The rows without a missing value; a frame has no other index than the order of its rows. -/
def frame (candles : DataFrame) (df : Column FrameRow) : List FrameRow := Column.dropna candles.length df

def computeEma (a : Weight ℚ) (x : Column ℚ) : Column ℚ := x.ewm a 0

/-- Wilder's RSI; an average loss of zero counts as missing. -/
def computeRsi (period : ℚ) (a : Weight ℚ) (x : Column ℚ) : Column ℚ :=
  let delta := Column.map₂ (· - ·) x x.shift
  let gain := delta.map (max · 0)
  let loss := delta.map (fun d => -min d 0)
  let avgGain := gain.ewm a ⌊period⌋.toNat
  let avgLoss := loss.ewm a ⌊period⌋.toNat
  (Column.quotient avgGain avgLoss).map (fun rs => 100 - 100 / (1 + rs))

def computeAtr (candles : DataFrame) (period : ℕ) : Column ℚ :=
  let high := column Ohlcv.high candles
  let low := column Ohlcv.low candles
  let prevClose := (column Ohlcv.close candles).shift
  let tr := Column.rowMax [Column.map₂ (· - ·) high low, Column.map₂ (fun h c => |h - c|) high prevClose,
    Column.map₂ (fun l c => |l - c|) low prevClose]
  tr.rolling period mean

def regimeTrendFrame (params : ParamsObject) (candles : DataFrame) : Option (List FrameRow) := do
  let close := column Ohlcv.close candles
  let emaFast := computeEma (← span params "ema_fast_period") close
  let emaSlow := computeEma (← span params "ema_slow_period") close
  let atr := computeAtr candles (← window params "atr_period")
  let df := assign (copy candles) (fun row x => { row with emaFast := x }) emaFast
  let df := assign df (fun row _ => row) emaSlow
  let df := assign df (fun row x => { row with atr := x }) atr
  let df := assign df (fun row x => { row with trendGapPct := x })
    (Column.quotient (Column.map₂ (· - ·) emaFast emaSlow) emaSlow)
  return frame candles df

def breakoutVolumeFrame (params : ParamsObject) (candles : DataFrame) : Option (List FrameRow) := do
  let atr := computeAtr candles (← window params "atr_period")
  let priorHigh := (column Ohlcv.high candles).shift.rolling (← window params "breakout_period") List.max?
  let volumeMa := (column Ohlcv.volume candles).rolling (← window params "volume_ma_period") mean
  let df := assign (copy candles) (fun row x => { row with atr := x }) atr
  let df := assign df (fun row x => { row with priorHigh := x }) priorHigh
  let df := assign df (fun row x => { row with volumeMa := x }) volumeMa
  return frame candles df

/-- The square root is a parameter: which value it has plays no part in which rows are kept. -/
def meanReversionFrame (sqrt : ℚ → ℚ) (params : ParamsObject) (candles : DataFrame) : Option (List FrameRow) := do
  let close := column Ohlcv.close candles
  let bbPeriod ← window params "bb_period"
  let bbStd ← params.number "bb_std"
  let bbMid := close.rolling bbPeriod mean
  let rollingStd := (close.rolling bbPeriod variance).map sqrt
  let bbUpper := Column.map₂ (fun mid std => mid + bbStd * std) bbMid rollingStd
  let bbLower := Column.map₂ (fun mid std => mid - bbStd * std) bbMid rollingStd
  let rsiPeriod ← params.number "rsi_period"
  let rsi := computeRsi rsiPeriod (← Weight.ofPeriod rsiPeriod) close
  let atr := computeAtr candles (← window params "atr_period")
  let df := assign (copy candles) (fun row x => { row with bbMid := x }) bbMid
  let df := assign df (fun row _ => row) bbUpper
  let df := assign df (fun row x => { row with bbLower := x }) bbLower
  let df := assign df (fun row x => { row with rsi := x }) rsi
  let df := assign df (fun row x => { row with atr := x }) atr
  return frame candles df

def dualTimeframeFrame (params : ParamsObject) (candles : DataFrame) : Option (List FrameRow) := do
  let close := column Ohlcv.close candles
  let ema := computeEma (← span params "ltf_ema_period") close
  let rsiPeriod ← params.number "ltf_rsi_period"
  let rsi := computeRsi rsiPeriod (← Weight.ofPeriod rsiPeriod) close
  let atr := computeAtr candles (← window params "atr_period")
  let df := assign (copy candles) (fun row x => { row with ema := x }) ema
  let df := assign df (fun row x => { row with rsi := x }) rsi
  let df := assign df (fun row x => { row with atr := x }) atr
  return frame candles df

/-- `build_indicator_frame`, or `build_ltf_frame` for the engine of two timeframes. -/
def buildFrame (sqrt : ℚ → ℚ) (e : Engine) (candles : DataFrame) : Option (List FrameRow) :=
  match e.kind with
  | .regimeTrend => regimeTrendFrame e.params candles
  | .breakoutVolume => breakoutVolumeFrame e.params candles
  | .meanReversion => meanReversionFrame sqrt e.params candles
  | .dualTimeframe => dualTimeframeFrame e.params candles

/-- Whether the averages of the higher timeframe rise, or `none` if a span is not one. -/
def htfIsBullish (params : ParamsObject) (candles : DataFrame) : Option Bool := do
  let slow ← params.number "htf_ema_slow"
  if (candles.length : ℚ) < slow + 5 then return false
  let emaFast := computeEma (← span params "htf_ema_fast") (column Ohlcv.close candles)
  let emaSlow := computeEma (← span params "htf_ema_slow") (column Ohlcv.close candles)
  let lastFast ← emaFast (candles.length - 1)
  let lastSlow ← emaSlow (candles.length - 1)
  return decide (lastSlow < lastFast)

theorem htfIsBullish_eq {params : ParamsObject} {candles : DataFrame} {slow : ℚ} (hcandles : candles ≠ [])
    (hslow : params.number "htf_ema_slow" = some slow) :
    htfIsBullish params candles =
      if (candles.length : ℚ) < slow + 5 then some false
      else (span params "htf_ema_fast").bind fun a => (Weight.ofSpan slow).map fun b =>
        decide (ema b (values Ohlcv.close candles) (candles.length - 1) <
          ema a (values Ohlcv.close candles) (candles.length - 1)) := by
  have hspan : span params "htf_ema_slow" = Weight.ofSpan slow := by rw [span, hslow, Option.bind_some]
  simp only [htfIsBullish, computeEma, hslow, hspan, Option.bind_eq_bind, Option.bind_some, ewm_last _ hcandles]
  split_ifs
  · rfl
  · cases span params "htf_ema_fast" <;> cases Weight.ofSpan slow <;> rfl

end Autr.Strategies.Frames
