import Autr.Services.StrategyConsumer
import Autr.Strategies.StrategyParams

namespace Autr.Strategies.Engines

open StrategyParams Services StrategyConsumer

inductive EngineKind
  | regimeTrend
  | dualTimeframe
  | breakoutVolume
  | meanReversion
  deriving DecidableEq

structure Engine where
  kind : EngineKind
  params : ParamsObject
  deriving DecidableEq

def buildEngine (strategyName : String) (params : ParamsObject) : Option Engine :=
  if strategyName = "regime_trend" then some ⟨.regimeTrend, params⟩
  else if strategyName = "dual_timeframe" then some ⟨.dualTimeframe, params⟩
  else if strategyName = "breakout_volume" then some ⟨.breakoutVolume, params⟩
  else if strategyName = "mean_reversion" then some ⟨.meanReversion, params⟩
  else none

/-- A row of an indicator frame with the columns that some engine decides on. -/
structure Row where
  close : ℚ
  atr : ℚ
  trendGapPct : ℚ := 0
  emaFast : ℚ := 0
  priorHigh : ℚ := 0
  volume : ℚ := 0
  volumeMa : ℚ := 0
  rsi : ℚ := 0
  bbLower : ℚ := 0
  bbMid : ℚ := 0
  ema : ℚ := 0

/-- The `SignalDecision` of an engine. That of mean reversion names its stop `stop_price`. -/
def signalDecision (kind : EngineKind) (signal : Signal) (reason : String) (stop : Option ℚ) (closePrice : ℚ) :
    Decision :=
  match kind with
  | .meanReversion => ⟨signal, reason, closePrice, none, stop⟩
  | .regimeTrend | .dualTimeframe | .breakoutVolume => ⟨signal, reason, closePrice, stop, none⟩

@[simp]
theorem signalDecision_signal (kind : EngineKind) (signal : Signal) (reason : String) (stop : Option ℚ)
    (closePrice : ℚ) : (signalDecision kind signal reason stop closePrice).signal = signal := by
  cases kind <;> rfl

/-- The stop in the field that the engine's decisions have. -/
def decidedStop (kind : EngineKind) (d : Decision) : Option ℚ :=
  match kind with
  | .meanReversion => d.stopPrice
  | .regimeTrend | .dualTimeframe | .breakoutVolume => d.trailingStop

theorem stopOf_of_pos {kind : EngineKind} {signal : Signal} {reason : String} {stop close : ℚ} (h : 0 < stop) :
    stopOf (signalDecision kind signal reason (some stop) close) = some stop := by
  cases kind <;> simp [signalDecision, stopOf, h.ne']

/-- Python's `stop or candidate`. -/
def orElse (stop : Option ℚ) (candidate : ℚ) : ℚ :=
  match stop with
  | some x => if x = 0 then candidate else x
  | none => candidate

def positiveOrElse (stop : Option ℚ) (candidate : ℚ) : ℚ :=
  match stop with
  | some x => if 0 < x then max x candidate else candidate
  | none => candidate

def regimeTrendDecide (params : ParamsObject) (frame : List Row) (inPosition : Bool) (trailingStop : Option ℚ)
    (barsSinceTrade : ℕ) : Option Decision :=
  match frame.getLast? with
  | none => some (signalDecision .regimeTrend .hold "insufficient_indicators" trailingStop 0)
  | some last => do
      let minTrendGap ← params.number "min_trend_gap_pct"
      let bullishRegime := decide (minTrendGap ≤ last.trendGapPct)
      if inPosition then
        let mult ← params.number "trailing_stop_atr_mult"
        let nextStop := positiveOrElse trailingStop (last.close - last.atr * mult)
        if last.close ≤ nextStop then
          return signalDecision .regimeTrend .sell "trailing_stop_hit" (some nextStop) last.close
        else if !bullishRegime then
          return signalDecision .regimeTrend .sell "regime_exit" (some nextStop) last.close
        else
          return signalDecision .regimeTrend .hold "in_position_hold" (some nextStop) last.close
      else
        let cooldownBars ← params.number "cooldown_bars"
        if barsSinceTrade < cooldownBars then
          return signalDecision .regimeTrend .hold "cooldown" trailingStop last.close
        else if bullishRegime && decide (last.emaFast < last.close) then
          let mult ← params.number "initial_stop_atr_mult"
          return signalDecision .regimeTrend .buy "bullish_regime_breakout" (some (last.close - last.atr * mult))
            last.close
        else
          return signalDecision .regimeTrend .hold "no_entry" trailingStop last.close

def breakoutVolumeDecide (params : ParamsObject) (frame : List Row) (inPosition : Bool) (trailingStop : Option ℚ)
    (barsSinceTrade : ℕ) : Option Decision :=
  match frame.getLast? with
  | none => some (signalDecision .breakoutVolume .hold "insufficient_data" trailingStop 0)
  | some last => do
      let multiplier ← params.number "volume_multiplier"
      let volumeSurge := decide (last.volumeMa * multiplier ≤ last.volume)
      if inPosition then
        let mult ← params.number "trailing_stop_atr_mult"
        let candidateStop := last.close - last.atr * mult
        let nextStop := max (orElse trailingStop candidateStop) candidateStop
        if last.close ≤ nextStop then
          return signalDecision .breakoutVolume .sell "trailing_stop_hit" (some nextStop) last.close
        else
          return signalDecision .breakoutVolume .hold "in_position_hold" (some nextStop) last.close
      else
        let cooldownBars ← params.number "cooldown_bars"
        if barsSinceTrade < cooldownBars then
          return signalDecision .breakoutVolume .hold "cooldown" trailingStop last.close
        else if decide (last.priorHigh < last.close) && volumeSurge then
          let mult ← params.number "initial_stop_atr_mult"
          return signalDecision .breakoutVolume .buy "breakout_volume_confirmed"
            (some (last.close - last.atr * mult)) last.close
        else if decide (last.priorHigh < last.close) && !volumeSurge then
          return signalDecision .breakoutVolume .hold "breakout_no_volume" trailingStop last.close
        else
          return signalDecision .breakoutVolume .hold "no_breakout" trailingStop last.close

def meanReversionDecide (params : ParamsObject) (frame : List Row) (inPosition : Bool) (stopPrice : Option ℚ)
    (barsSinceTrade : ℕ) : Option Decision :=
  match frame.getLast? with
  | none => some (signalDecision .meanReversion .hold "insufficient_data" stopPrice 0)
  | some last =>
      if inPosition then
        if stopPrice.any (fun stop => stop ≠ 0 ∧ last.close ≤ stop) then
          some (signalDecision .meanReversion .sell "stop_hit" stopPrice last.close)
        else do
          let rsiOverbought ← params.number "rsi_overbought"
          if rsiOverbought ≤ last.rsi then
            return signalDecision .meanReversion .sell "rsi_overbought" stopPrice last.close
          else if last.bbMid ≤ last.close then
            return signalDecision .meanReversion .sell "bb_mid_reached" stopPrice last.close
          else
            return signalDecision .meanReversion .hold "in_position_hold" stopPrice last.close
      else do
        let cooldownBars ← params.number "cooldown_bars"
        if barsSinceTrade < cooldownBars then
          return signalDecision .meanReversion .hold "cooldown" stopPrice last.close
        else
          let rsiOversold ← params.number "rsi_oversold"
          if last.rsi ≤ rsiOversold ∧ last.close ≤ last.bbLower then
            let mult ← params.number "stop_atr_mult"
            return signalDecision .meanReversion .buy "rsi_oversold_bb_lower" (some (last.close - last.atr * mult))
              last.close
          else
            return signalDecision .meanReversion .hold "no_entry" stopPrice last.close

def dualTimeframeDecide (params : ParamsObject) (ltfFrame : List Row) (htfBullish htfDataSufficient : Bool)
    (inPosition : Bool) (trailingStop : Option ℚ) (barsSinceTrade : ℕ) : Option Decision :=
  match ltfFrame.reverse with
  | [] | [_] => some (signalDecision .dualTimeframe .hold "insufficient_data" trailingStop 0)
  | last :: prev :: _ =>
      if inPosition then do
        let mult ← params.number "trailing_stop_atr_mult"
        let candidateStop := last.close - last.atr * mult
        let nextStop := max (orElse trailingStop candidateStop) candidateStop
        if last.close ≤ nextStop then
          return signalDecision .dualTimeframe .sell "trailing_stop_hit" (some nextStop) last.close
        else if !htfBullish then
          return signalDecision .dualTimeframe .sell "htf_trend_reversed" (some nextStop) last.close
        else
          return signalDecision .dualTimeframe .hold "in_position_hold" (some nextStop) last.close
      else do
        let cooldownBars ← params.number "cooldown_bars"
        if barsSinceTrade < cooldownBars then
          return signalDecision .dualTimeframe .hold "cooldown" trailingStop last.close
        else if !htfBullish then
          let reason := if !htfDataSufficient then "htf_insufficient_data" else "no_htf_bull"
          return signalDecision .dualTimeframe .hold reason trailingStop last.close
        else
          let oversold ← params.number "ltf_rsi_oversold"
          if prev.rsi ≤ oversold ∧ oversold < last.rsi ∧ last.ema < last.close then
            let mult ← params.number "initial_stop_atr_mult"
            return signalDecision .dualTimeframe .buy "htf_bull_rsi_recovery"
              (some (last.close - last.atr * mult)) last.close
          else
            return signalDecision .dualTimeframe .hold "ltf_no_entry" trailingStop last.close

def Engine.decide (e : Engine) (frame : List Row) (htfBullish htfDataSufficient : Bool) (inPosition : Bool)
    (stop : Option ℚ) (barsSinceTrade : ℕ) : Option Decision :=
  match e.kind with
  | .regimeTrend => regimeTrendDecide e.params frame inPosition stop barsSinceTrade
  | .dualTimeframe =>
      dualTimeframeDecide e.params frame htfBullish htfDataSufficient inPosition stop barsSinceTrade
  | .breakoutVolume => breakoutVolumeDecide e.params frame inPosition stop barsSinceTrade
  | .meanReversion => meanReversionDecide e.params frame inPosition stop barsSinceTrade

/-- The rows that an engine needs before it reads any. -/
def neededRows (kind : EngineKind) : ℕ := if kind = .dualTimeframe then 2 else 1

def entryMult (kind : EngineKind) : String :=
  if kind = .meanReversion then "stop_atr_mult" else "initial_stop_atr_mult"

/-- What an engine decides for a consumer without a position. -/
inductive FlatDecision (e : Engine) (frame : List Row) (stop : Option ℚ) (barsSinceTrade : ℕ) : Decision → Prop
  | wait (reason) (close) : FlatDecision e frame stop barsSinceTrade (signalDecision e.kind .hold reason stop close)
  | enter (reason) (last : Row) (cooldownBars mult : ℚ) (hlast : frame.getLast? = some last)
      (hcooldown : e.params.number "cooldown_bars" = some cooldownBars) (hcooled : cooldownBars ≤ barsSinceTrade)
      (hmult : e.params.number (entryMult e.kind) = some mult) :
      FlatDecision e frame stop barsSinceTrade
        (signalDecision e.kind .buy reason (some (last.close - last.atr * mult)) last.close)

/-- What an engine decides for a consumer with a position. Mean reversion never moves a stop. -/
inductive HeldDecision (e : Engine) (frame : List Row) (stop : Option ℚ) : Decision → Prop
  | short (reason) (hshort : frame.length < neededRows e.kind) :
      HeldDecision e frame stop (signalDecision e.kind .hold reason stop 0)
  | carry (signal) (reason) (close) (hkind : e.kind = .meanReversion) (hrows : neededRows e.kind ≤ frame.length)
      (hsignal : signal ≠ .buy) :
      HeldDecision e frame stop (signalDecision e.kind signal reason stop close)
  | trail (signal) (reason) (last : Row) (mult next : ℚ) (hkind : e.kind ≠ .meanReversion)
      (hrows : neededRows e.kind ≤ frame.length) (hlast : frame.getLast? = some last)
      (hmult : e.params.number "trailing_stop_atr_mult" = some mult) (hsignal : signal ≠ .buy)
      (hnext : last.close - last.atr * mult ≤ next) :
      HeldDecision e frame stop (signalDecision e.kind signal reason (some next) last.close)

theorem le_positiveOrElse (stop : Option ℚ) (candidate : ℚ) : candidate ≤ positiveOrElse stop candidate := by
  unfold positiveOrElse
  split
  · split
    · exact le_max_right _ _
    · exact le_rfl
  · exact le_rfl

theorem length_of_getLast? {frame : List Row} {last : Row} (h : frame.getLast? = some last) : 1 ≤ frame.length := by
  cases frame with
  | nil => cases h
  | cons row frame => exact Nat.succ_pos _

section Kinds

variable {params : ParamsObject} {frame : List Row} {stop : Option ℚ} {barsSinceTrade : ℕ} {d : Decision}

theorem regimeTrendDecide_flat (h : regimeTrendDecide params frame false stop barsSinceTrade = some d) :
    FlatDecision ⟨.regimeTrend, params⟩ frame stop barsSinceTrade d := by
  unfold regimeTrendDecide at h
  split at h
  · cases h
    exact .wait _ _
  next last hlast =>
    obtain ⟨minTrendGap, -, h⟩ := Option.bind_eq_some_iff.1 h
    obtain ⟨cooldownBars, hcooldown, h⟩ := Option.bind_eq_some_iff.1 h
    split at h
    · cases h
      exact .wait _ _
    next hcooled =>
      split at h
      · obtain ⟨mult, hmult, h⟩ := Option.bind_eq_some_iff.1 h
        cases h
        exact .enter _ last cooldownBars mult hlast hcooldown (not_lt.1 hcooled) hmult
      · cases h
        exact .wait _ _

theorem regimeTrendDecide_held (h : regimeTrendDecide params frame true stop barsSinceTrade = some d) :
    HeldDecision ⟨.regimeTrend, params⟩ frame stop d := by
  unfold regimeTrendDecide at h
  split at h
  next hlast =>
    cases h
    exact .short _ (by rw [List.getLast?_eq_none_iff.1 hlast]; exact Nat.zero_lt_one)
  next last hlast =>
    obtain ⟨minTrendGap, -, h⟩ := Option.bind_eq_some_iff.1 h
    obtain ⟨mult, hmult, h⟩ := Option.bind_eq_some_iff.1 h
    have hkind : EngineKind.regimeTrend ≠ .meanReversion := by decide
    have hrows := length_of_getLast? hlast
    have hnext := le_positiveOrElse stop (last.close - last.atr * mult)
    dsimp only at h
    split at h
    · cases h
      exact .trail .sell _ last mult _ hkind hrows hlast hmult (by decide) hnext
    · split at h
      · cases h
        exact .trail .sell _ last mult _ hkind hrows hlast hmult (by decide) hnext
      · cases h
        exact .trail .hold _ last mult _ hkind hrows hlast hmult (by decide) hnext

theorem breakoutVolumeDecide_flat (h : breakoutVolumeDecide params frame false stop barsSinceTrade = some d) :
    FlatDecision ⟨.breakoutVolume, params⟩ frame stop barsSinceTrade d := by
  unfold breakoutVolumeDecide at h
  split at h
  · cases h
    exact .wait _ _
  next last hlast =>
    obtain ⟨multiplier, -, h⟩ := Option.bind_eq_some_iff.1 h
    obtain ⟨cooldownBars, hcooldown, h⟩ := Option.bind_eq_some_iff.1 h
    split at h
    · cases h
      exact .wait _ _
    next hcooled =>
      split at h
      · obtain ⟨mult, hmult, h⟩ := Option.bind_eq_some_iff.1 h
        cases h
        exact .enter _ last cooldownBars mult hlast hcooldown (not_lt.1 hcooled) hmult
      · split at h <;> cases h <;> exact .wait _ _

theorem breakoutVolumeDecide_held (h : breakoutVolumeDecide params frame true stop barsSinceTrade = some d) :
    HeldDecision ⟨.breakoutVolume, params⟩ frame stop d := by
  unfold breakoutVolumeDecide at h
  split at h
  next hlast =>
    cases h
    exact .short _ (by rw [List.getLast?_eq_none_iff.1 hlast]; exact Nat.zero_lt_one)
  next last hlast =>
    obtain ⟨multiplier, -, h⟩ := Option.bind_eq_some_iff.1 h
    obtain ⟨mult, hmult, h⟩ := Option.bind_eq_some_iff.1 h
    have hkind : EngineKind.breakoutVolume ≠ .meanReversion := by decide
    have hrows := length_of_getLast? hlast
    dsimp only at h
    split at h
    · cases h
      exact .trail .sell _ last mult _ hkind hrows hlast hmult (by decide) (le_max_right _ _)
    · cases h
      exact .trail .hold _ last mult _ hkind hrows hlast hmult (by decide) (le_max_right _ _)

theorem meanReversionDecide_flat (h : meanReversionDecide params frame false stop barsSinceTrade = some d) :
    FlatDecision ⟨.meanReversion, params⟩ frame stop barsSinceTrade d := by
  unfold meanReversionDecide at h
  split at h
  · cases h
    exact .wait _ _
  next last hlast =>
    obtain ⟨cooldownBars, hcooldown, h⟩ := Option.bind_eq_some_iff.1 h
    split at h
    · cases h
      exact .wait _ _
    next hcooled =>
      obtain ⟨rsiOversold, -, h⟩ := Option.bind_eq_some_iff.1 h
      split at h
      · obtain ⟨mult, hmult, h⟩ := Option.bind_eq_some_iff.1 h
        cases h
        exact .enter _ last cooldownBars mult hlast hcooldown (not_lt.1 hcooled) hmult
      · cases h
        exact .wait _ _

theorem meanReversionDecide_held (h : meanReversionDecide params frame true stop barsSinceTrade = some d) :
    HeldDecision ⟨.meanReversion, params⟩ frame stop d := by
  unfold meanReversionDecide at h
  split at h
  next hlast =>
    cases h
    exact .short _ (by rw [List.getLast?_eq_none_iff.1 hlast]; exact Nat.zero_lt_one)
  next last hlast =>
    have hrows := length_of_getLast? hlast
    rw [if_pos rfl] at h
    split at h
    · cases h
      exact .carry .sell _ _ rfl hrows (by decide)
    · obtain ⟨rsiOverbought, -, h⟩ := Option.bind_eq_some_iff.1 h
      split at h
      · cases h
        exact .carry .sell _ _ rfl hrows (by decide)
      · split at h
        · cases h
          exact .carry .sell _ _ rfl hrows (by decide)
        · cases h
          exact .carry .hold _ _ rfl hrows (by decide)

theorem getLast?_of_reverse {rest : List Row} {last : Row} (h : frame.reverse = last :: rest) :
    frame.getLast? = some last := by
  rw [← List.head?_reverse, h, List.head?_cons]

variable {htfBullish htfDataSufficient : Bool}

theorem dualTimeframeDecide_flat
    (h : dualTimeframeDecide params frame htfBullish htfDataSufficient false stop barsSinceTrade = some d) :
    FlatDecision ⟨.dualTimeframe, params⟩ frame stop barsSinceTrade d := by
  unfold dualTimeframeDecide at h
  split at h
  · cases h
    exact .wait _ _
  · cases h
    exact .wait _ _
  next last prev rest hframe =>
    obtain ⟨cooldownBars, hcooldown, h⟩ := Option.bind_eq_some_iff.1 h
    split at h
    · cases h
      exact .wait _ _
    next hcooled =>
      split at h
      · cases h
        exact .wait _ _
      · obtain ⟨oversold, -, h⟩ := Option.bind_eq_some_iff.1 h
        split at h
        · obtain ⟨mult, hmult, h⟩ := Option.bind_eq_some_iff.1 h
          cases h
          exact .enter _ last cooldownBars mult (getLast?_of_reverse hframe) hcooldown (not_lt.1 hcooled) hmult
        · cases h
          exact .wait _ _

theorem dualTimeframeDecide_held
    (h : dualTimeframeDecide params frame htfBullish htfDataSufficient true stop barsSinceTrade = some d) :
    HeldDecision ⟨.dualTimeframe, params⟩ frame stop d := by
  have hlength := frame.length_reverse
  unfold dualTimeframeDecide at h
  split at h
  next hframe =>
    cases h
    rw [hframe] at hlength
    exact .short _ (hlength ▸ Nat.zero_lt_two)
  next row hframe =>
    cases h
    rw [hframe] at hlength
    exact .short _ (hlength ▸ Nat.one_lt_two)
  next last prev rest hframe =>
    rw [hframe] at hlength
    have hrows : 2 ≤ frame.length := hlength ▸ Nat.le_add_left 2 rest.length
    have hkind : EngineKind.dualTimeframe ≠ .meanReversion := by decide
    have hlast := getLast?_of_reverse hframe
    obtain ⟨mult, hmult, h⟩ := Option.bind_eq_some_iff.1 h
    dsimp only at h
    split at h
    · cases h
      exact .trail .sell _ last mult _ hkind hrows hlast hmult (by decide) (le_max_right _ _)
    · split at h
      · cases h
        exact .trail .sell _ last mult _ hkind hrows hlast hmult (by decide) (le_max_right _ _)
      · cases h
        exact .trail .hold _ last mult _ hkind hrows hlast hmult (by decide) (le_max_right _ _)

end Kinds

section Spec

variable {e : Engine} {frame : List Row} {htfBullish htfDataSufficient : Bool} {stop : Option ℚ}
  {barsSinceTrade : ℕ} {d : Decision}

theorem Engine.decide_flat
    (h : e.decide frame htfBullish htfDataSufficient false stop barsSinceTrade = some d) :
    FlatDecision e frame stop barsSinceTrade d := by
  cases e with
  | mk kind params =>
      cases kind with
      | regimeTrend => exact regimeTrendDecide_flat h
      | dualTimeframe => exact dualTimeframeDecide_flat h
      | breakoutVolume => exact breakoutVolumeDecide_flat h
      | meanReversion => exact meanReversionDecide_flat h

theorem Engine.decide_held
    (h : e.decide frame htfBullish htfDataSufficient true stop barsSinceTrade = some d) :
    HeldDecision e frame stop d := by
  cases e with
  | mk kind params =>
      cases kind with
      | regimeTrend => exact regimeTrendDecide_held h
      | dualTimeframe => exact dualTimeframeDecide_held h
      | breakoutVolume => exact breakoutVolumeDecide_held h
      | meanReversion => exact meanReversionDecide_held h

end Spec

end Autr.Strategies.Engines
