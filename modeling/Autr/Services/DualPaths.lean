import Autr.Domain.Regime
import Autr.Strategies.Frames

namespace Autr.Services.DualPaths

open ConsumerLoop Domain Domain.CandleFrame Infra.QuantStore Series StrategyConsumer
open Strategies.Engines Strategies.Frames Strategies.StrategyParams

/-- The candles of a fetch window, sorted by time as the history is. -/
def newestRows (limit : ℕ) (history : DataFrame) : DataFrame := history.drop (history.length - limit)

/-- The candles that the consumer reads. They come newest first and are sorted. -/
def storeCandles (T : RawOhlcv) (symbol timeframe : String) (limit : ℕ) : DataFrame :=
  (fetchOhlcv T symbol "spot" timeframe limit).reverse

def storeHistory (T : RawOhlcv) (symbol timeframe : String) : DataFrame :=
  storeCandles T symbol timeframe T.rows.length

/-- What a read of the store is to the consumer is the end of the history that is in it. -/
theorem storeCandles_eq (T : RawOhlcv) (symbol timeframe : String) (limit : ℕ) :
    storeCandles T symbol timeframe limit = newestRows limit (storeHistory T symbol timeframe) := by
  unfold storeHistory storeCandles fetchOhlcv Store.newest newestRows
  generalize hrows : T.rows.filter _ = rows
  have hall : (rows.insertionSort (fun a b => b.key.ts ≤ a.key.ts)).length ≤ T.rows.length := by
    rw [List.length_insertionSort, ← hrows]
    exact List.length_filter_le _ _
  rw [List.take_of_length_le hall, ← List.map_reverse, List.reverse_take, ← List.map_reverse, List.map_drop]
  simp

/-- The trend of the higher timeframe as the consumer reads it, and whether it has enough candles. -/
def htfAnswer (params : ParamsObject) (htf : DataFrame) : Option (Bool × Bool) := do
  let slow ← window params "htf_ema_slow"
  let rows := newestRows (slow + 10) htf
  let bullish ← if rows = [] then some false else htfIsBullish params rows
  return (bullish, decide (slow + 5 ≤ rows.length))

/-- What `_decide_dual` finds in the histories of its two timeframes. -/
def dualCandles (params : ParamsObject) (ltf htf : DataFrame) : Candles :=
  match window params "ltf_lookback_bars" with
  | none => .unreadable
  | some lookback =>
      let rows := newestRows lookback ltf
      if rows.length < 50 then .few
      else .read ((Regime.compute {} rows).map Regime.RegimeState.regime)
        ((dualTimeframeFrame params rows).map (List.map FrameRow.indicators))
        (rows.getLast?.elim 0 Prod.fst) (htfAnswer params htf)

/-- The decision of `execute_strategy`, or `none` if it returns or raises before it acts on one. -/
def executeStrategy (params : ParamsObject) (ltf htf : DataFrame) (inPosition : Bool) (trailingStop : Option ℚ)
    (barsSinceTrade : ℕ) : Option Decision := do
  let slow ← window params "htf_ema_slow"
  let htfCandles := newestRows (max (slow * 3) (slow + 20)) htf
  let ltfCandles := newestRows (← window params "ltf_lookback_bars") ltf
  if ltfCandles = [] then none
  let htfBullish ← htfIsBullish params htfCandles
  let htfDataSufficient := decide (slow + 5 ≤ htfCandles.length)
  let ltfFrame ← dualTimeframeFrame params ltfCandles
  let decision ← dualTimeframeDecide params (ltfFrame.map FrameRow.indicators) htfBullish htfDataSufficient inPosition
    trailingStop barsSinceTrade
  -- The indicators that are logged are those of the last row.
  if ltfFrame = [] then none
  return decision

/-- Params of the strategy with the two numbers that the fetch windows are made of. -/
structure DualParams (params : ParamsObject) (slow lookback : ℕ) : Prop where
  slow : params.get "htf_ema_slow" = some (.int slow)
  lookback : params.get "ltf_lookback_bars" = some (.int lookback)
  ltfInterval : (params.get "ltf_interval").isSome
  htfInterval : (params.get "htf_interval").isSome
  numbers : (∃ x, params.number "trailing_stop_atr_mult" = some x) ∧ (∃ x, params.number "cooldown_bars" = some x) ∧
    (∃ x, params.number "ltf_rsi_oversold" = some x) ∧ ∃ x, params.number "initial_stop_atr_mult" = some x

/-- The decision depends on the trend: the stop is not hit, or the cooldown is over. -/
def Consults (params : ParamsObject) (rows : List Row) (inPosition : Bool) (trailingStop : Option ℚ)
    (barsSinceTrade : ℕ) : Prop :=
  2 ≤ rows.length ∧ ∃ last, rows.getLast? = some last ∧
    if inPosition then
      ∃ mult, params.number "trailing_stop_atr_mult" = some mult ∧
        max (orElse trailingStop (last.close - last.atr * mult)) (last.close - last.atr * mult) < last.close
    else ∃ cooldownBars, params.number "cooldown_bars" = some cooldownBars ∧ cooldownBars ≤ barsSinceTrade

/-- What a decision tells: its signal, its reason and its stop. -/
def told (d : Decision) : Signal × String × Option ℚ := (d.signal, d.reason, d.trailingStop)

section Windows

variable {params : ParamsObject} {slow lookback : ℕ} {ltf htf : DataFrame}

theorem length_newestRows {limit : ℕ} {history : DataFrame} (h : limit ≤ history.length) :
    (newestRows limit history).length = limit := by
  rw [newestRows, List.length_drop]
  omega

theorem window_nat {key : String} {n : ℕ} (h : params.get key = some (.int n)) : window params key = some n := by
  simp [window, h]

theorem number_nat {key : String} {n : ℕ} (h : params.get key = some (.int n)) :
    params.number key = some (n : ℚ) := by
  simp [ParamsObject.number, h]

/-- With enough candles it depends on the spans alone whether there is an answer. -/
theorem htfIsBullish_isSome (hp : DualParams params slow lookback) {candles : DataFrame}
    (h : slow + 5 ≤ candles.length) :
    (htfIsBullish params candles).isSome ↔
      (span params "htf_ema_fast").isSome ∧ (Weight.ofSpan (slow : ℚ)).isSome := by
  have hne : candles ≠ [] := List.length_pos_iff.1 (by omega)
  have hlen : ¬ (candles.length : ℚ) < slow + 5 := by exact_mod_cast not_lt.2 h
  rw [htfIsBullish_eq hne (number_nat hp.slow), if_neg hlen]
  cases span params "htf_ema_fast" <;> cases Weight.ofSpan (slow : ℚ) <;> simp

theorem htfAnswer_eq (hp : DualParams params slow lookback) (h : slow + 10 ≤ htf.length) :
    htfAnswer params htf = (htfIsBullish params (newestRows (slow + 10) htf)).map (fun b => (b, true)) := by
  have hlen := length_newestRows h
  have hne : newestRows (slow + 10) htf ≠ [] := List.length_pos_iff.1 (by omega)
  simp only [htfAnswer, window_nat hp.slow, Option.bind_eq_bind, Option.bind_some, hne, if_false, hlen]
  cases htfIsBullish params (newestRows (slow + 10) htf) <;> simp

end Windows

section Paths

variable {s : Live} {slow lookback : ℕ} {ltf htf : DataFrame}

theorem decision_of (d : Option Decision) : (Outcome.of d).decision = d := by
  cases d <;> rfl

/-- The rows that the engine is asked about. -/
def ltfRows (params : ParamsObject) (lookback : ℕ) (ltf : DataFrame) : Option (List Row) :=
  (dualTimeframeFrame params (newestRows lookback ltf)).map (List.map FrameRow.indicators)

theorem decideDual_eq (hp : DualParams s.params slow lookback) (hengine : s.engine = ⟨.dualTimeframe, s.params⟩)
    (hltf : lookback ≤ ltf.length) (hhtf : slow + 10 ≤ htf.length) :
    (decideDual (dualCandles s.params ltf htf) s).2.decision =
      if lookback < 50 then none
      else (ltfRows s.params lookback ltf).bind fun rows =>
        if rows = [] then none
        else (htfIsBullish s.params (newestRows (slow + 10) htf)).bind fun b =>
          dualTimeframeDecide s.params rows b true s.inPosition s.trailingStop s.barsSinceTrade := by
  obtain ⟨ltfInterval, hltfInterval⟩ := Option.isSome_iff_exists.1 hp.ltfInterval
  obtain ⟨htfInterval, hhtfInterval⟩ := Option.isSome_iff_exists.1 hp.htfInterval
  simp only [dualCandles, window_nat hp.lookback, length_newestRows hltf, htfAnswer_eq hp hhtf, ltfRows]
  by_cases hfew : lookback < 50
  · simp [decideDual, hp.lookback, hltfInterval, hfew, Outcome.decision]
  · cases hframe : dualTimeframeFrame s.params (newestRows lookback ltf) with
    | none => simp [decideDual, hp.lookback, hltfInterval, hfew, Outcome.decision]
    | some f =>
        by_cases hempty : f = []
        · simp [decideDual, observeRegime, hp.lookback, hltfInterval, hfew, hengine, hempty, Outcome.decision]
        · cases htfIsBullish s.params (newestRows (slow + 10) htf) with
          | none =>
              simp [decideDual, observeRegime, hp.lookback, hltfInterval, hhtfInterval, number_nat hp.slow, hfew,
                hengine, hempty, Outcome.decision]
          | some b =>
              simp [decideDual, observeRegime, hp.lookback, hltfInterval, hhtfInterval, number_nat hp.slow, hfew,
                hengine, hempty, decision_of, Engine.decide]

theorem dualTimeframeFrame_nil {params : ParamsObject} {f : List FrameRow}
    (h : dualTimeframeFrame params [] = some f) : f = [] := by
  obtain ⟨emaWeight, -, h⟩ := Option.bind_eq_some_iff.1 h
  obtain ⟨rsiPeriod, -, h⟩ := Option.bind_eq_some_iff.1 h
  obtain ⟨rsiWeight, -, h⟩ := Option.bind_eq_some_iff.1 h
  obtain ⟨atrPeriod, -, h⟩ := Option.bind_eq_some_iff.1 h
  exact (Option.some.inj h).symm

theorem executeStrategy_eq {params : ParamsObject} (hp : DualParams params slow lookback)
    (hhtf : max (slow * 3) (slow + 20) ≤ htf.length) (inPosition : Bool) (trailingStop : Option ℚ)
    (barsSinceTrade : ℕ) :
    executeStrategy params ltf htf inPosition trailingStop barsSinceTrade =
      (ltfRows params lookback ltf).bind fun rows =>
        if rows = [] then none
        else (htfIsBullish params (newestRows (max (slow * 3) (slow + 20)) htf)).bind fun b =>
          dualTimeframeDecide params rows b true inPosition trailingStop barsSinceTrade := by
  have hlen := length_newestRows hhtf
  have hsufficient : slow + 5 ≤ max (slow * 3) (slow + 20) := by omega
  simp only [executeStrategy, window_nat hp.slow, window_nat hp.lookback, Option.bind_eq_bind, Option.bind_some, hlen,
    hsufficient, decide_true, ltfRows]
  cases hframe : dualTimeframeFrame params (newestRows lookback ltf) with
  | none =>
      by_cases hltf' : newestRows lookback ltf = []
      · simp [hltf']
      · cases htfIsBullish params (newestRows (max (slow * 3) (slow + 20)) htf) <;> simp [hltf']
  | some f =>
      by_cases hempty : f = []
      · by_cases hltf' : newestRows lookback ltf = []
        · simp [hltf', hempty]
        · cases htfIsBullish params (newestRows (max (slow * 3) (slow + 20)) htf) <;> simp [hltf', hempty]
      · have hltf' : newestRows lookback ltf ≠ [] := fun hnil => hempty (dualTimeframeFrame_nil (hnil ▸ hframe))
        cases htfIsBullish params (newestRows (max (slow * 3) (slow + 20)) htf) <;> simp [hltf', hempty]

end Paths

section Trend

variable {params : ParamsObject} {slow lookback : ℕ} (hp : DualParams params slow lookback) (rows : List Row)
  (inPosition : Bool) (trailingStop : Option ℚ) (barsSinceTrade : ℕ)

include hp

theorem dualTimeframeDecide_isSome (b sufficient : Bool) :
    (dualTimeframeDecide params rows b sufficient inPosition trailingStop barsSinceTrade).isSome := by
  obtain ⟨⟨trailing, htrailing⟩, ⟨cooldown, hcooldown⟩, ⟨oversold, hoversold⟩, initial, hinitial⟩ := hp.numbers
  unfold dualTimeframeDecide
  split
  · rfl
  · rfl
  · simp only [htrailing, hcooldown, hoversold, hinitial, Option.bind_eq_bind, Option.bind_some]
    split_ifs <;> rfl

/-- The two answers of the trend filter lead to the same decision exactly when it does not
depend on the trend. -/
theorem told_trend_iff :
    (dualTimeframeDecide params rows true true inPosition trailingStop barsSinceTrade).map told =
        (dualTimeframeDecide params rows false true inPosition trailingStop barsSinceTrade).map told ↔
      ¬ Consults params rows inPosition trailingStop barsSinceTrade := by
  obtain ⟨⟨trailing, htrailing⟩, ⟨cooldown, hcooldown⟩, ⟨oversold, hoversold⟩, initial, hinitial⟩ := hp.numbers
  have hlength : rows.reverse.length = rows.length := List.length_reverse
  unfold dualTimeframeDecide Consults
  match hrows : rows.reverse with
  | [] | [_] =>
      rw [hrows] at hlength
      exact iff_of_true rfl (fun h => absurd h.1 (by simp at hlength; omega))
  | last :: prev :: rest =>
      rw [hrows] at hlength
      have htwo : 2 ≤ rows.length := by simp at hlength; omega
      have hlast : rows.getLast? = some last := getLast?_of_reverse hrows
      simp only [htrailing, hcooldown, hoversold, hinitial, hlast, htwo, Option.bind_eq_bind, Option.bind_some,
        Option.some.injEq, exists_eq_left', true_and]
      cases inPosition with
      | true =>
          generalize max (orElse trailingStop (last.close - last.atr * trailing))
            (last.close - last.atr * trailing) = nextStop
          by_cases hstop : last.close ≤ nextStop
          · simp [hstop]
          · simp [hstop, not_le.1 hstop, told, signalDecision]
      | false =>
          by_cases hcooled : (barsSinceTrade : ℚ) < cooldown
          · simp [hcooled]
          · by_cases hentry : prev.rsi ≤ oversold ∧ oversold < last.rsi ∧ last.ema < last.close
            · simp [hcooled, hentry, told, signalDecision]
            · simp [hcooled, hentry, told, signalDecision]

theorem told_eq_iff (b b' : Bool) :
    (dualTimeframeDecide params rows b true inPosition trailingStop barsSinceTrade).map told =
        (dualTimeframeDecide params rows b' true inPosition trailingStop barsSinceTrade).map told ↔
      ¬ Consults params rows inPosition trailingStop barsSinceTrade ∨ b = b' := by
  have htold := told_trend_iff hp rows inPosition trailingStop barsSinceTrade
  cases b with
  | true =>
      cases b' with
      | true => simp
      | false => simpa using htold
  | false =>
      cases b' with
      | true => simpa using eq_comm.trans htold
      | false => simp

end Trend

/-- The candles of the lower timeframe give no row to decide on, or the spans no averages. -/
def Idle (params : ParamsObject) (slow lookback : ℕ) (ltf htf : DataFrame) : Prop :=
  ltfRows params lookback ltf = none ∨ ltfRows params lookback ltf = some [] ∨
    htfIsBullish params (newestRows (max (slow * 3) (slow + 20)) htf) = none

/-- The decision does not depend on the trend, or the two windows of the higher timeframe
show the same one. -/
def SameTrend (params : ParamsObject) (slow lookback : ℕ) (ltf htf : DataFrame) (inPosition : Bool)
    (trailingStop : Option ℚ) (barsSinceTrade : ℕ) : Prop :=
  (∀ rows, ltfRows params lookback ltf = some rows →
      ¬ Consults params rows inPosition trailingStop barsSinceTrade) ∨
    htfIsBullish params (newestRows (slow + 10) htf) =
      htfIsBullish params (newestRows (max (slow * 3) (slow + 20)) htf)

/-- Both paths decide alike on the same histories exactly when neither decides, or the
consumer has its fifty candles and the shorter window of the higher timeframe does not
turn the trend. -/
theorem paths_agree_iff {s : Live} {slow lookback : ℕ} {ltf htf : DataFrame} (hp : DualParams s.params slow lookback)
    (hengine : s.engine = ⟨.dualTimeframe, s.params⟩) (hltf : lookback < ltf.length)
    (hhtf : max (slow * 3) (slow + 20) < htf.length) :
    (decideDual (dualCandles s.params ltf htf) s).2.decision.map told =
        (executeStrategy s.params ltf htf s.inPosition s.trailingStop s.barsSinceTrade).map told ↔
      Idle s.params slow lookback ltf htf ∨
        50 ≤ lookback ∧ SameTrend s.params slow lookback ltf htf s.inPosition s.trailingStop s.barsSinceTrade := by
  have hlen10 := length_newestRows (show slow + 10 ≤ htf.length by omega)
  have hlen := length_newestRows hhtf.le
  have hsame : (htfIsBullish s.params (newestRows (slow + 10) htf)).isSome ↔
      (htfIsBullish s.params (newestRows (max (slow * 3) (slow + 20)) htf)).isSome :=
    (htfIsBullish_isSome hp (by omega)).trans (htfIsBullish_isSome hp (by omega)).symm
  rw [decideDual_eq hp hengine hltf.le (by omega), executeStrategy_eq hp hhtf.le]
  unfold Idle SameTrend
  cases hrows : ltfRows s.params lookback ltf with
  | none => simp
  | some rows =>
      by_cases hempty : rows = []
      · simp [hempty]
      · cases hb : htfIsBullish s.params (newestRows (max (slow * 3) (slow + 20)) htf) with
        | none =>
            have hb10 : htfIsBullish s.params (newestRows (slow + 10) htf) = none := by simpa [hb] using hsame
            simp [hempty, hb10]
        | some b =>
            obtain ⟨b10, hb10⟩ : ∃ b10, htfIsBullish s.params (newestRows (slow + 10) htf) = some b10 :=
              Option.isSome_iff_exists.1 (hsame.2 (by rw [hb]; rfl))
            obtain ⟨d, hd⟩ := Option.isSome_iff_exists.1
              (dualTimeframeDecide_isSome hp rows s.inPosition s.trailingStop s.barsSinceTrade b true)
            by_cases hlong : lookback < 50
            · simp [hempty, hlong, hd, not_le.2 hlong]
            · simp only [hempty, hlong, hb10, not_lt.1 hlong, if_false, Option.bind_some, Option.some.injEq,
                reduceCtorEq, false_or, true_and, forall_eq']
              exact told_eq_iff hp rows _ _ _ b10 b

/-- Params with short averages. -/
def quickParams : ParamsObject :=
  ⟨.dualTimeframe, [("symbol", .str "BTCUSDT"), ("htf_interval", .str "60"), ("htf_ema_fast", .int 1),
    ("htf_ema_slow", .int 2), ("ltf_interval", .str "15"), ("ltf_lookback_bars", .int 50), ("ltf_rsi_period", .int 2),
    ("ltf_rsi_oversold", .float 40), ("ltf_ema_period", .int 1), ("atr_period", .int 1),
    ("initial_stop_atr_mult", .float 2), ("trailing_stop_atr_mult", .float (5 / 2)), ("loop_seconds", .int 60),
    ("cooldown_bars", .int 2)]⟩

/-- A consumer with a position and a stop far below. -/
def holding : Live where
  strategyName := "dual_timeframe"
  symbol := "BTCUSDT"
  inPosition := true
  trailingStop := some 1
  barsSinceTrade := 5
  lastSignal := .hold
  lastReason := ""
  lastClose := 0
  params := quickParams
  engine := ⟨.dualTimeframe, quickParams⟩
  lastRegime := none

def closes (prices : List ℚ) : DataFrame :=
  (prices.zipIdx).map (fun (price, i) => ((i : ℤ), ⟨price, price, price, price, 1⟩))

/-- Closes that swing by one. -/
def swings : DataFrame := closes ((List.range 51).map (fun i => if i % 2 = 0 then 100 else 99))

/-- A rise that is older than the consumer's window of the higher timeframe. -/
def oldRise : DataFrame := closes (List.replicate 11 50 ++ List.replicate 12 100)

theorem quickParams_dual : DualParams quickParams 2 50 where
  slow := rfl
  lookback := rfl
  ltfInterval := by decide
  htfInterval := by decide
  numbers := ⟨⟨_, rfl⟩, ⟨_, rfl⟩, ⟨_, rfl⟩, _, rfl⟩

theorem old_rise_splits :
    (decideDual (dualCandles quickParams swings oldRise) holding).2.decision.map told =
        some (.sell, "htf_trend_reversed", some (195 / 2)) ∧
      (executeStrategy quickParams swings oldRise true (some 1) 5).map told =
        some (.hold, "in_position_hold", some (195 / 2)) := by
  decide +kernel

theorem still_market_agrees :
    (decideDual (dualCandles quickParams swings (closes (List.replicate 23 100))) holding).2.decision.map told =
      (executeStrategy quickParams swings (closes (List.replicate 23 100)) true (some 1) 5).map told :=
  (paths_agree_iff (s := holding) quickParams_dual rfl (by decide) (by decide)).2
    (.inr ⟨le_rfl, .inr (by decide +kernel)⟩)

end Autr.Services.DualPaths
