import Autr.Domain.RegimeScale
import Autr.Series.Units
import Autr.Strategies.Frames

namespace Autr.Strategies.DecisionUnits

open Domain.CandleFrame Domain.RegimeScale Engines Frames Infra.QuantStore Series
open Services.StrategyConsumer StrategyParams

/-- The indicators of candles whose prices and volumes are in other units. -/
def scaleRow (c d : ℚ) (row : Row) : Row where
  close := c * row.close
  atr := c * row.atr
  trendGapPct := row.trendGapPct
  emaFast := c * row.emaFast
  priorHigh := c * row.priorHigh
  volume := d * row.volume
  volumeMa := d * row.volumeMa
  rsi := row.rsi
  bbLower := c * row.bbLower
  bbMid := c * row.bbMid
  ema := c * row.ema

def scaleFrameRow (c d : ℚ) (row : FrameRow) : FrameRow :=
  ⟨row.ts, scaleCandle c d row.candle, scaleRow c d row.indicators⟩

def scaleDecision (c : ℚ) (decision : Decision) : Decision where
  signal := decision.signal
  reason := decision.reason
  closePrice := c * decision.closePrice
  trailingStop := decision.trailingStop.map (c * ·)
  stopPrice := decision.stopPrice.map (c * ·)

/-- A square root takes a unit out of its square. -/
def Homogeneous (sqrt : ℚ → ℚ) : Prop := ∀ c x, 0 < c → sqrt (c ^ 2 * x) = c * sqrt x

theorem bind_map {α β γ : Type} {x : Option α} {f : α → Option γ} {g : α → Option β} {h : β → γ}
    (hfg : ∀ a, f a = (g a).map h) : x.bind f = (x.bind g).map h := by
  cases x with
  | none => rfl
  | some a => exact hfg a

theorem ite_map_of_iff {α β : Type} {p p' : Prop} [Decidable p] [Decidable p'] {x y : Option β} {x' y' : Option α}
    {h : α → β} (hp : p ↔ p') (hx : x = x'.map h) (hy : y = y'.map h) :
    (if p then x else y) = (if p' then x' else y').map h := by
  by_cases hp' : p'
  · rw [if_pos (hp.2 hp'), if_pos hp', hx]
  · rw [if_neg (mt hp.1 hp'), if_neg hp', hy]

theorem ite_map {α β : Type} {p : Prop} [Decidable p] {x y : Option β} {x' y' : Option α} {h : α → β}
    (hx : x = x'.map h) (hy : y = y'.map h) : (if p then x else y) = (if p then x' else y').map h :=
  ite_map_of_iff Iff.rfl hx hy

section Frame

variable {c d : ℚ} {candles : DataFrame} {params : ParamsObject} {sqrt : ℚ → ℚ}

theorem copy_scaled : copy (scaled c d candles) = (copy candles).map (scaleFrameRow c d) := by
  funext i
  simp only [copy, scaled, List.getElem?_map, Column.map, Option.map_map]
  refine congrArg (Option.map · _) (funext fun r => ?_)
  simp [scaleFrameRow, scaleRow, scaleCandle]

/-- A column in a unit of its own, set in rows in other units. -/
theorem assign_map (df : Column FrameRow) {set : Row → ℚ → Row} {g : ℚ → ℚ} (x : Column ℚ)
    (h : ∀ row value, set (scaleRow c d row) (g value) = scaleRow c d (set row value)) :
    assign (df.map (scaleFrameRow c d)) set (x.map g) = (assign df set x).map (scaleFrameRow c d) := by
  funext i
  simp only [assign, Column.map₂, Column.map]
  cases df i with
  | none => rfl
  | some row => cases x i <;> simp [scaleFrameRow, h]

theorem assign_same (df : Column FrameRow) {set : Row → ℚ → Row} (x : Column ℚ)
    (h : ∀ row value, set (scaleRow c d row) value = scaleRow c d (set row value)) :
    assign (df.map (scaleFrameRow c d)) set x = (assign df set x).map (scaleFrameRow c d) := by
  have hsame : x.map id = x := funext fun i => congrFun Option.map_id (x i)
  rw [← hsame]
  exact (assign_map df x h).trans (by rw [hsame])

theorem frame_scaled (df : Column FrameRow) :
    frame (scaled c d candles) (df.map (scaleFrameRow c d)) = (frame candles df).map (scaleFrameRow c d) := by
  rw [frame, frame, length_scaled, Column.dropna, Column.dropna, List.map_filterMap]
  rfl

theorem computeEma_scaled (a : Weight ℚ) : computeEma a (column Ohlcv.close (scaled c d candles)) =
    (computeEma a (column Ohlcv.close candles)).map (c * ·) := by
  rw [close_scaled, computeEma, computeEma, Column.ewm_map_mul]

/-- What the bands compute of a middle and a deviation has the unit of both. -/
theorem map₂_band {band : ℚ → ℚ → ℚ} (h : ∀ x y, band (c * x) (c * y) = c * band x y) (x y : Column ℚ) :
    Column.map₂ band (x.map (c * ·)) (y.map (c * ·)) = (Column.map₂ band x y).map (c * ·) := by
  funext i
  simp only [Column.map₂, Column.map]
  cases x i <;> cases y i <;> simp [h]

variable (hc : 0 < c)

include hc

theorem rollingStd_scaled (hsqrt : Homogeneous sqrt) (n : ℕ) (x : Column ℚ) :
    ((x.map (c * ·)).rolling n variance).map sqrt = ((x.rolling n variance).map sqrt).map (c * ·) := by
  rw [Column.rolling_map (variance_map_mul c) n x]
  funext i
  simp only [Column.map, Option.map_map]
  exact congrArg (Option.map · _) (funext fun v => hsqrt c v hc)

theorem computeAtr_scaled (period : ℕ) :
    computeAtr (scaled c d candles) period = (computeAtr candles period).map (c * ·) := by
  have htr := Column.rowMax_map_mul hc [Column.map₂ (· - ·) (column Ohlcv.high candles) (column Ohlcv.low candles),
    Column.map₂ (fun h c => |h - c|) (column Ohlcv.high candles) (column Ohlcv.close candles).shift,
    Column.map₂ (fun l c => |l - c|) (column Ohlcv.low candles) (column Ohlcv.close candles).shift]
  simp only [List.map_cons, List.map_nil, ← Column.map₂_sub_mul, ← Column.map₂_distance_mul hc] at htr
  rw [computeAtr, column_scaled Ohlcv.high (fun _ => rfl), column_scaled Ohlcv.low (fun _ => rfl), close_scaled,
    Column.shift_map, htr]
  exact Column.rolling_map (mean_map_mul c) period _

/-- The relative strength compares averages in the same unit. -/
theorem computeRsi_scaled (period : ℚ) (a : Weight ℚ) : computeRsi period a (column Ohlcv.close (scaled c d candles)) =
    computeRsi period a (column Ohlcv.close candles) := by
  have hgain : ∀ x : Column ℚ, (x.map (c * ·)).map (max · 0) = (x.map (max · 0)).map (c * ·) := by
    intro x
    funext i
    simp only [Column.map, Option.map_map]
    refine congrArg (Option.map · _) (funext fun v => ?_)
    simp [mul_max_of_nonneg _ _ hc.le]
  have hloss : ∀ x : Column ℚ, (x.map (c * ·)).map (fun v => -min v 0) = (x.map (fun v => -min v 0)).map (c * ·) := by
    intro x
    funext i
    simp only [Column.map, Option.map_map]
    refine congrArg (Option.map · _) (funext fun v => ?_)
    simp [mul_min_of_nonneg _ _ hc.le]
  simp only [computeRsi, close_scaled, Column.shift_map, Column.map₂_sub_mul, hgain, hloss, Column.ewm_map_mul,
    Column.quotient_map_mul hc.ne']

theorem regimeTrendFrame_scaled : regimeTrendFrame params (scaled c d candles) =
    (regimeTrendFrame params candles).map (List.map (scaleFrameRow c d)) := by
  refine bind_map (fun fast => bind_map (fun slow => bind_map (fun period => congrArg some ?_)))
  rw [← frame_scaled, computeEma_scaled, computeEma_scaled, computeAtr_scaled hc, copy_scaled, Column.map₂_sub_mul,
    Column.quotient_map_mul hc.ne', assign_map _ _ (fun _ _ => rfl), assign_map _ _ (fun _ _ => rfl),
    assign_map _ _ (fun _ _ => rfl), assign_same _ _ (fun _ _ => rfl)]

theorem breakoutVolumeFrame_scaled : breakoutVolumeFrame params (scaled c d candles) =
    (breakoutVolumeFrame params candles).map (List.map (scaleFrameRow c d)) := by
  refine bind_map (fun period => bind_map (fun breakout => bind_map (fun volume => congrArg some ?_)))
  have hmax := Column.rolling_map (Column.max?_map_mul hc) breakout (column Ohlcv.high candles).shift
  have hmean := Column.rolling_map (mean_map_mul d) volume (column Ohlcv.volume candles)
  rw [← frame_scaled, computeAtr_scaled hc, copy_scaled, column_scaled Ohlcv.high (fun _ => rfl),
    column_scaled Ohlcv.volume (fun _ => rfl), Column.shift_map, hmax, hmean, assign_map _ _ (fun _ _ => rfl),
    assign_map _ _ (fun _ _ => rfl), assign_map _ _ (fun _ _ => rfl)]

theorem dualTimeframeFrame_scaled : dualTimeframeFrame params (scaled c d candles) =
    (dualTimeframeFrame params candles).map (List.map (scaleFrameRow c d)) := by
  refine bind_map (fun ema => bind_map (fun period => bind_map (fun weight => bind_map (fun atr => congrArg some ?_))))
  rw [← frame_scaled, computeEma_scaled, computeRsi_scaled hc, computeAtr_scaled hc, copy_scaled,
    assign_map _ _ (fun _ _ => rfl), assign_same _ _ (fun _ _ => rfl), assign_map _ _ (fun _ _ => rfl)]

theorem meanReversionFrame_scaled (hsqrt : Homogeneous sqrt) : meanReversionFrame sqrt params (scaled c d candles) =
    (meanReversionFrame sqrt params candles).map (List.map (scaleFrameRow c d)) := by
  refine bind_map (fun bbPeriod => bind_map (fun bbStd => bind_map (fun period => bind_map (fun weight =>
    bind_map (fun atr => congrArg some ?_)))))
  have hmid := Column.rolling_map (mean_map_mul c) bbPeriod (column Ohlcv.close candles)
  have hupper : ∀ x y, c * x + bbStd * (c * y) = c * (x + bbStd * y) := fun x y => by ring
  have hlower : ∀ x y, c * x - bbStd * (c * y) = c * (x - bbStd * y) := fun x y => by ring
  rw [← frame_scaled, computeRsi_scaled hc, computeAtr_scaled hc, copy_scaled, close_scaled, hmid,
    rollingStd_scaled hc hsqrt, map₂_band hupper, map₂_band hlower, assign_map _ _ (fun _ _ => rfl),
    assign_map _ _ (fun _ _ => rfl), assign_map _ _ (fun _ _ => rfl), assign_same _ _ (fun _ _ => rfl),
    assign_map _ _ (fun _ _ => rfl)]

theorem buildFrame_scaled (hsqrt : Homogeneous sqrt) (e : Engine) : buildFrame sqrt e (scaled c d candles) =
    (buildFrame sqrt e candles).map (List.map (scaleFrameRow c d)) := by
  obtain ⟨kind, params⟩ := e
  cases kind with
  | regimeTrend => exact regimeTrendFrame_scaled hc
  | breakoutVolume => exact breakoutVolumeFrame_scaled hc
  | meanReversion => exact meanReversionFrame_scaled hc hsqrt
  | dualTimeframe => exact dualTimeframeFrame_scaled hc

theorem htfIsBullish_scaled : htfIsBullish params (scaled c d candles) = htfIsBullish params candles := by
  simp only [htfIsBullish, length_scaled, computeEma_scaled, Column.map, Option.bind_eq_bind, Option.bind_map,
    Function.comp_def, mul_lt_mul_iff_right₀ hc]

end Frame

section Decide

variable {c d : ℚ} {params : ParamsObject} {frame : List Row} {inPosition : Bool} {stop : Option ℚ}
  {barsSinceTrade : ℕ}

theorem signalDecision_scaled (kind : EngineKind) (signal : Signal) (reason : String) (stop : Option ℚ) (close : ℚ) :
    signalDecision kind signal reason (stop.map (c * ·)) (c * close) =
      scaleDecision c (signalDecision kind signal reason stop close) := by
  cases kind <;> rfl

theorem decided_scaled {kind : EngineKind} {signal : Signal} {reason : String} (stop : Option ℚ) {close : ℚ} :
    some (signalDecision kind signal reason (stop.map (c * ·)) (c * close)) =
      (some (signalDecision kind signal reason stop close)).map (scaleDecision c) :=
  congrArg some (signalDecision_scaled kind signal reason stop close)

theorem decidedStop_scaled (kind : EngineKind) (decision : Decision) :
    decidedStop kind (scaleDecision c decision) = (decidedStop kind decision).map (c * ·) := by
  cases kind <;> rfl

/-- A stop at a distance from a close, in another unit. -/
theorem distance_scaled (close atr mult : ℚ) : c * close - c * atr * mult = c * (close - atr * mult) := by ring

variable (hc : 0 < c)

include hc

theorem positiveOrElse_scaled (stop : Option ℚ) (candidate : ℚ) :
    positiveOrElse (stop.map (c * ·)) (c * candidate) = c * positiveOrElse stop candidate := by
  cases stop with
  | none => rfl
  | some x =>
      simp only [positiveOrElse, Option.map_some, mul_pos_iff_of_pos_left hc, mul_max_of_nonneg _ _ hc.le, mul_ite]

theorem max_orElse_scaled (stop : Option ℚ) (candidate : ℚ) :
    max (orElse (stop.map (c * ·)) (c * candidate)) (c * candidate) = c * max (orElse stop candidate) candidate := by
  cases stop with
  | none => simp [orElse]
  | some x =>
      by_cases hx : x = 0
      · simp [orElse, hx]
      · simp [orElse, hx, hc.ne', mul_max_of_nonneg _ _ hc.le]

theorem regimeTrendDecide_scaled :
    regimeTrendDecide params (frame.map (scaleRow c d)) inPosition (stop.map (c * ·)) barsSinceTrade =
      (regimeTrendDecide params frame inPosition stop barsSinceTrade).map (scaleDecision c) := by
  rw [regimeTrendDecide, regimeTrendDecide, List.getLast?_map]
  cases frame.getLast? with
  | none => simp [← signalDecision_scaled]
  | some last =>
      refine bind_map (fun minTrendGap => ?_)
      cases inPosition with
      | true =>
          refine bind_map (fun mult => ?_)
          simp only [scaleRow, distance_scaled, positiveOrElse_scaled hc, mul_le_mul_iff_right₀ hc]
          exact ite_map (decided_scaled (some _)) (ite_map (decided_scaled (some _)) (decided_scaled (some _)))
      | false =>
          refine bind_map (fun cooldownBars => ?_)
          simp only [scaleRow, distance_scaled, mul_lt_mul_iff_right₀ hc]
          exact ite_map (decided_scaled stop)
            (ite_map (bind_map (fun mult => decided_scaled (some _))) (decided_scaled stop))

theorem breakoutVolumeDecide_scaled (hd : 0 < d) :
    breakoutVolumeDecide params (frame.map (scaleRow c d)) inPosition (stop.map (c * ·)) barsSinceTrade =
      (breakoutVolumeDecide params frame inPosition stop barsSinceTrade).map (scaleDecision c) := by
  rw [breakoutVolumeDecide, breakoutVolumeDecide, List.getLast?_map]
  cases frame.getLast? with
  | none => simp [← signalDecision_scaled]
  | some last =>
      refine bind_map (fun multiplier => ?_)
      cases inPosition with
      | true =>
          refine bind_map (fun mult => ?_)
          simp only [scaleRow, distance_scaled, max_orElse_scaled hc, mul_le_mul_iff_right₀ hc]
          exact ite_map (decided_scaled (some _)) (decided_scaled (some _))
      | false =>
          refine bind_map (fun cooldownBars => ?_)
          simp only [scaleRow, distance_scaled, mul_lt_mul_iff_right₀ hc, mul_assoc d, mul_le_mul_iff_right₀ hd]
          exact ite_map (decided_scaled stop) (ite_map (bind_map (fun mult => decided_scaled (some _)))
            (ite_map (decided_scaled stop) (decided_scaled stop)))

theorem meanReversionDecide_scaled :
    meanReversionDecide params (frame.map (scaleRow c d)) inPosition (stop.map (c * ·)) barsSinceTrade =
      (meanReversionDecide params frame inPosition stop barsSinceTrade).map (scaleDecision c) := by
  rw [meanReversionDecide, meanReversionDecide, List.getLast?_map]
  cases frame.getLast? with
  | none => simp [← signalDecision_scaled]
  | some last =>
      dsimp only [Option.map_some]
      cases inPosition with
      | true =>
          simp only [if_true, scaleRow, mul_le_mul_iff_right₀ hc]
          refine ite_map_of_iff ?_ (decided_scaled stop) (bind_map (fun overbought => ?_))
          · cases stop with
            | none => exact Iff.rfl
            | some x => simp [hc.ne', mul_le_mul_iff_right₀ hc]
          · exact ite_map (decided_scaled stop) (ite_map (decided_scaled stop) (decided_scaled stop))
      | false =>
          rw [if_neg Bool.false_ne_true, if_neg Bool.false_ne_true]
          refine bind_map (fun cooldownBars => ite_map (decided_scaled stop) (bind_map (fun oversold => ?_)))
          simp only [scaleRow, distance_scaled, mul_le_mul_iff_right₀ hc]
          exact ite_map (bind_map (fun mult => decided_scaled (some _))) (decided_scaled stop)

theorem dualTimeframeDecide_scaled (htfBullish htfDataSufficient : Bool) :
    dualTimeframeDecide params (frame.map (scaleRow c d)) htfBullish htfDataSufficient inPosition (stop.map (c * ·))
        barsSinceTrade =
      (dualTimeframeDecide params frame htfBullish htfDataSufficient inPosition stop barsSinceTrade).map
        (scaleDecision c) := by
  rw [dualTimeframeDecide, dualTimeframeDecide, ← List.map_reverse]
  match frame.reverse with
  | [] | [_] => simp [← signalDecision_scaled]
  | last :: prev :: _ =>
      simp only [List.map_cons]
      cases inPosition with
      | true =>
          refine bind_map (fun mult => ?_)
          simp only [scaleRow, distance_scaled, max_orElse_scaled hc, mul_le_mul_iff_right₀ hc]
          exact ite_map (decided_scaled (some _)) (ite_map (decided_scaled (some _)) (decided_scaled (some _)))
      | false =>
          refine bind_map (fun cooldownBars => ite_map (decided_scaled stop) (ite_map (decided_scaled stop)
            (bind_map (fun oversold => ?_))))
          simp only [scaleRow, distance_scaled, mul_lt_mul_iff_right₀ hc]
          exact ite_map (bind_map (fun mult => decided_scaled (some _))) (decided_scaled stop)

/-- Prices and volumes in other units change no signal and no reason, and scale the close and
the stop of every decision. -/
theorem decide_scaled (hd : 0 < d) (e : Engine) (htfBullish htfDataSufficient : Bool) :
    e.decide (frame.map (scaleRow c d)) htfBullish htfDataSufficient inPosition (stop.map (c * ·)) barsSinceTrade =
      (e.decide frame htfBullish htfDataSufficient inPosition stop barsSinceTrade).map (scaleDecision c) := by
  obtain ⟨kind, params⟩ := e
  cases kind with
  | regimeTrend => exact regimeTrendDecide_scaled hc
  | breakoutVolume => exact breakoutVolumeDecide_scaled hc hd
  | meanReversion => exact meanReversionDecide_scaled hc
  | dualTimeframe => exact dualTimeframeDecide_scaled hc htfBullish htfDataSufficient

end Decide

end Autr.Strategies.DecisionUnits
