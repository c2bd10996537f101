import Autr.Strategies.Engines

namespace Autr.Services.ConsumerLoop

open Autr.Infra TradeTracker StrategyConsumer Strategies StrategyParams Engines

inductive RegimeType
  | trendingUp
  | trendingDown
  | range
  | volatile
  deriving DecidableEq

def RegimeType.value : RegimeType → String
  | .trendingUp => "trending_up"
  | .trendingDown => "trending_down"
  | .range => "range"
  | .volatile => "volatile"

def regimeStrategyMap : RegimeType → Option String
  | .trendingUp => some "regime_trend"
  | .trendingDown => none
  | .range => some "mean_reversion"
  | .volatile => none

/-- The consumer with the fields that a change of strategy replaces. -/
structure Live extends Consumer where
  params : ParamsObject
  engine : Engine
  lastRegime : Option RegimeType

/-- What the store has for a tick: the regime if the classifier finds one, the indicator
frame if the engine can make one, the newest candle of the frame, and what the candles of
the higher timeframe show if they can be read. -/
inductive Candles
  | unreadable
  | few
  | read (regime : Option RegimeType) (frame : Option (List Row)) (newest : ℤ) (htf : Option (Bool × Bool))

/-- The frame that the engine is asked about. -/
def Candles.rows : Candles → List Row
  | .read _ (some frame) _ _ => frame
  | _ => []

def Candles.newest : Candles → Option ℤ
  | .read _ _ newest _ => some newest
  | .unreadable | .few => none

/-- A tick with the answers it meets; `none` where a read raises. -/
structure Feed where
  symbol : Option String := none
  candles : Candles
  enabled : Option Bool := some true
  autoSwitch : Option Bool := some false
  switchStored : Bool := true
  pushed : Bool := true
  stamp : String := ""

structure SignalLog where
  symbol : String
  strategy : String
  signal : Signal
  reason : String
  closePrice : ℚ
  regime : Option RegimeType
  trailingStop : Option ℚ
  inPosition : Bool
  params : ParamsObject

inductive Outcome
  | raised
  | nothing
  | decided (d : Decision)

def Outcome.decision : Outcome → Option Decision
  | .decided d => some d
  | .raised | .nothing => none

/-- What a tick leaves behind: its row for the signal log, and the signal it tried to push
with whether the push went through. -/
structure Report where
  log : Option SignalLog := none
  push : Option (Message × Bool) := none

def Report.published (r : Report) : Option Message := r.push.bind (fun p => if p.2 then some p.1 else none)

def observeRegime (regime : Option RegimeType) (s : Live) : Live := { s with lastRegime := regime <|> s.lastRegime }

def Outcome.of : Option Decision → Outcome
  | some d => .decided d
  | none => .raised

/-- Mean reversion's `decide` takes its stop under another name than the others'. -/
def decideSingle (candles : Candles) (s : Live) : Live × Outcome :=
  match candles with
  | .unreadable => (s, .raised)
  | .few => (s, .nothing)
  | .read regime frame _ _ =>
      let s := observeRegime regime s
      match frame with
      | none => (s, .raised)
      | some frame =>
          if s.engine.kind = .dualTimeframe then (s, .raised)
          else if frame = [] then (s, .nothing)
          else if (s.strategyName = "mean_reversion" ↔ s.engine.kind = .meanReversion) then
            (s, .of (s.engine.decide frame false false s.inPosition s.trailingStop s.barsSinceTrade))
          else (s, .raised)

def decideDual (candles : Candles) (s : Live) : Live × Outcome :=
  match s.params.get "ltf_interval", s.params.get "ltf_lookback_bars" with
  | some _, some _ =>
      match candles with
      | .unreadable => (s, .raised)
      | .few => (s, .nothing)
      | .read regime frame _ htf =>
          let s := observeRegime regime s
          match frame with
          | none => (s, .raised)
          | some frame =>
              if s.engine.kind ≠ .dualTimeframe then (s, .raised)
              else if frame = [] then (s, .nothing)
              else
                match s.params.get "htf_interval", s.params.number "htf_ema_slow", htf with
                | some _, some _, some (htfBullish, htfSufficient) =>
                    (s, .of (s.engine.decide frame htfBullish htfSufficient s.inPosition s.trailingStop
                      s.barsSinceTrade))
                | _, _, _ => (s, .raised)
  | _, _ => (s, .raised)

def decide (candles : Candles) (s : Live) : Live × Outcome :=
  if s.strategyName = "dual_timeframe" then decideDual candles s else decideSingle candles s

section Switch

variable (py : Python)

/-- The name, the params and the engine are replaced one after another, and no later than
the first that raises. -/
def replaceStrategy (strategy : String) (cls : ParamsClass) (s : Live) : Live × Bool :=
  let s := { s with strategyName := strategy, params := cls.new s.symbol }
  match withBuiltinPreset py strategy s.symbol cls with
  | none => (s, false)
  | some params =>
      let s := { s with params := params }
      match buildEngine strategy params with
      | none => (s, false)
      | some engine => ({ s with engine := engine }, true)

/-- The second component tells whether it returned. -/
def checkStrategyChange (requested : Option String) (s : Live) : Live × Bool :=
  match requested with
  | none => (s, true)
  | some requested =>
      if requested = "" ∨ requested = s.strategyName then (s, true)
      else
        let newStrategy := Text.trim requested
        match strategyParamsMap newStrategy with
        | none => (s, true)
        | some cls =>
            match replaceStrategy py newStrategy cls s with
            | (s, false) => (s, false)
            | (s, true) =>
                ({ s with trailingStop := none, lastSignal := .hold, lastReason := "strategy_changed" }, true)

def maybeAutoSwitch (feed : Feed) (regime : RegimeType) (s : Live) : Live × Bool :=
  match feed.autoSwitch with
  | none => (s, false)
  | some false => (s, true)
  | some true =>
      match regimeStrategyMap regime with
      | none => (s, true)
      | some suggested =>
          if suggested = s.strategyName then (s, true)
          else
            match strategyParamsMap suggested with
            | none => (s, true)
            | some cls =>
                match replaceStrategy py suggested cls s with
                | (s, false) => (s, false)
                | (s, true) =>
                    ({ s with trailingStop := none, lastReason := "auto_switch:" ++ regime.value },
                      feed.switchStored)

def autoSwitch (feed : Feed) (s : Live) : Live × Bool :=
  match s.lastRegime, s.inPosition with
  | some regime, false => maybeAutoSwitch py feed regime s
  | _, _ => (s, true)

def signalLog (feed : Feed) (d : Decision) (s : Live) : SignalLog where
  symbol := feed.symbol.getD s.symbol
  strategy := s.strategyName
  signal := d.signal
  reason := d.reason
  closePrice := d.closePrice
  regime := s.lastRegime
  trailingStop := s.trailingStop
  inPosition := s.inPosition
  params := s.params

/-- The flag moves before the signal is pushed. -/
def publishSignal (side : Bybit.Side) (d : Decision) (feed : Feed) (s : Live) : Live × Option (Message × Bool) :=
  let (consumer, m) := StrategyConsumer.publishSignal side d.closePrice feed.stamp s.toConsumer
  ({ s with toConsumer := consumer }, m.map (fun m => (m, feed.pushed)))

def trade (feed : Feed) (d : Decision) (s : Live) : Live × Option (Message × Bool) :=
  match d.signal, s.inPosition with
  | .buy, false => publishSignal .buy d feed s
  | .sell, true => publishSignal .sell d feed s
  | _, _ => (s, none)

def processTick (feed : Feed) (s : Live) : Live × Report :=
  match decide feed.candles s with
  | (s, .raised) | (s, .nothing) => (s, {})
  | (s, .decided d) =>
      let s := { s with toConsumer := observe d s.toConsumer }
      let log := some (signalLog feed d s)
      match feed.enabled with
      | none => (s, { log })
      | some enabled =>
          match autoSwitch py feed s with
          | (s, false) => (s, { log })
          | (s, true) =>
              if enabled then
                let (s, push) := trade feed d s
                (s, { log, push })
              else (s, { log })

/-- One round of the main loop: the queue and the heartbeat answer, the strategy asked for
is read, and the tick, if there is one, can be parsed. `none` where a call raises. -/
structure Round where
  alive : Bool := true
  requested : Option (Option String) := some none
  tick : Option Feed

def run (round : Round) (s : Live) : Live × Report :=
  match round.alive, round.requested with
  | true, some requested =>
      match checkStrategyChange py requested s, round.tick with
      | (s, true), some feed => processTick py feed s
      | (s, _), _ => (s, {})
  | _, _ => (s, {})

/-- The tick that a round comes to, and the consumer that handles it. -/
def handled (round : Round) (s : Live) : Option (Feed × Live) :=
  match round.alive, round.requested, round.tick with
  | true, some requested, some feed =>
      match checkStrategyChange py requested s with
      | (s, true) => some (feed, s)
      | (_, false) => none
  | _, _, _ => none

/-- What the rounds of a run leave behind. -/
def reports : List Round → Live → List Report
  | [], _ => []
  | round :: rounds, s => (run py round s).2 :: reports rounds (run py round s).1

def lower (s : String) : String := String.ofList (Text.lower s.toList)

def defaultStrategy : String := "regime_trend"

def storedStrategy (stored : Option String) : String :=
  lower (Text.trim ((stored.filter (· ≠ "")).getD defaultStrategy))

def startStrategy (stored : Option String) : String :=
  if (strategyParamsMap (storedStrategy stored)).isSome then storedStrategy stored else defaultStrategy

def cooldownBars (params : ParamsObject) : Option ℕ :=
  match params.get "cooldown_bars" with
  | some (.int n) => some n.toNat
  | _ => none

/-- A new consumer, unless its engine cannot be built. -/
def construct (strategyName symbol : String) (params : ParamsObject) : Option Live := do
  let engine ← buildEngine strategyName params
  let bars ← cooldownBars params
  return { strategyName, symbol, inPosition := false, trailingStop := none, barsSinceTrade := bars,
           lastSignal := .hold, lastReason := "", lastClose := 0, params, engine, lastRegime := none }

def main (stored : Option String) (symbol : String) : Option Live := do
  let strategyName := startStrategy stored
  let cls ← strategyParamsMap strategyName
  let params ← withBuiltinPreset py strategyName symbol cls
  construct strategyName symbol params

/-- A position that cannot be read back counts as none. -/
def restoreState (openPositions : Option (List Position)) (s : Live) : Live :=
  match openPositions with
  | none => s
  | some openPositions => { s with toConsumer := StrategyConsumer.restoreState openPositions s.toConsumer }

end Switch

def observed (regime : Option RegimeType) (d : Decision) (s : Live) : Live :=
  { observeRegime regime s with toConsumer := observe d s.toConsumer }

/-- The answer of the engine behind a decision, and the frame it was asked about. -/
structure Answered (candles : Candles) (s : Live) (regime : Option RegimeType) (frame : List Row) (d : Decision) :
    Prop where
  read : ∃ newest htf, candles = .read regime (some frame) newest htf
  nonempty : frame ≠ []
  answer : ∃ htfBullish htfSufficient,
    s.engine.decide frame htfBullish htfSufficient s.inPosition s.trailingStop s.barsSinceTrade = some d

structure Asked (candles : Candles) (s : Live) (regime : Option RegimeType) (frame : List Row) (d : Decision) : Prop
    extends Answered candles s regime frame d where
  decides : decide candles s = (observeRegime regime s, .decided d)

theorem decision_eq_some {o : Outcome} {d : Decision} : o.decision = some d ↔ o = .decided d := by
  cases o <;> simp [Outcome.decision]

theorem of_eq_decided {answer : Option Decision} {d : Decision} (h : Outcome.of answer = .decided d) :
    answer = some d := by
  cases answer with
  | none => cases h
  | some d' =>
      cases h
      rfl

theorem decideSingle_decided {candles : Candles} {s s' : Live} {d : Decision}
    (h : decideSingle candles s = (s', .decided d)) :
    ∃ regime frame, s' = observeRegime regime s ∧ Answered candles s regime frame d := by
  unfold decideSingle at h
  split at h
  · cases h
  · cases h
  next regime frame newest htf =>
    dsimp only at h
    split at h
    · cases h
    next frame =>
      split at h
      · cases h
      split at h
      · cases h
      next hframe =>
        split at h
        · obtain ⟨hs, hanswer⟩ := Prod.mk.inj h
          exact ⟨regime, frame, hs.symm, ⟨newest, htf, rfl⟩, hframe, false, false, of_eq_decided hanswer⟩
        · cases h

theorem decideDual_decided {candles : Candles} {s s' : Live} {d : Decision}
    (h : decideDual candles s = (s', .decided d)) :
    ∃ regime frame, s' = observeRegime regime s ∧ Answered candles s regime frame d := by
  unfold decideDual at h
  split at h
  · split at h
    · cases h
    · cases h
    next regime frame newest htf =>
      dsimp only at h
      split at h
      · cases h
      next frame =>
        split at h
        · cases h
        split at h
        · cases h
        next hframe =>
          split at h
          next htfBullish htfSufficient _ _ =>
            obtain ⟨hs, hanswer⟩ := Prod.mk.inj h
            exact ⟨regime, frame, hs.symm, ⟨newest, _, rfl⟩, hframe, htfBullish, htfSufficient,
              of_eq_decided hanswer⟩
          · cases h
  · cases h

theorem decide_decided {candles : Candles} {s s' : Live} {d : Decision} (h : decide candles s = (s', .decided d)) :
    ∃ regime frame, s' = observeRegime regime s ∧ Asked candles s regime frame d := by
  have hanswered : ∃ regime frame, s' = observeRegime regime s ∧ Answered candles s regime frame d := by
    have h := h
    unfold decide at h
    split at h
    · exact decideDual_decided h
    · exact decideSingle_decided h
  obtain ⟨regime, frame, rfl, hanswered⟩ := hanswered
  exact ⟨regime, frame, rfl, hanswered, h⟩

theorem decide_keeps (candles : Candles) (s : Live) : ∃ regime, (decide candles s).1 = observeRegime regime s := by
  unfold decide decideDual decideSingle
  split
  · split
    · split
      · exact ⟨none, rfl⟩
      · exact ⟨none, rfl⟩
      next regime _ _ _ =>
        refine ⟨regime, ?_⟩
        dsimp only
        repeat' split
        all_goals rfl
    · exact ⟨none, rfl⟩
  · split
    · exact ⟨none, rfl⟩
    · exact ⟨none, rfl⟩
    next regime _ _ _ =>
      refine ⟨regime, ?_⟩
      dsimp only
      repeat' split
      all_goals rfl

/-- An automatic switch that the tick completes in the consumer. -/
def Switching (feed : Feed) (s : Live) : Prop :=
  s.inPosition = false ∧ feed.autoSwitch = some true ∧
    ∃ regime ∈ s.lastRegime, ∃ strategy ∈ regimeStrategyMap regime, strategy ≠ s.strategyName

instance (feed : Feed) (s : Live) : Decidable (Switching feed s) :=
  inferInstanceAs (Decidable (_ ∧ _ ∧ ∃ regime ∈ s.lastRegime, ∃ strategy ∈ regimeStrategyMap regime,
    strategy ≠ s.strategyName))

/-- A change of strategy that went through. -/
structure Replaced (py : Python) (strategy : String) (s : Live) (params : ParamsObject) (engine : Engine) : Prop where
  known : ∃ cls, strategyParamsMap strategy = some cls ∧ withBuiltinPreset py strategy s.symbol cls = some params
  built : buildEngine strategy params = some engine

section Tick

variable {py : Python}

theorem replaceStrategy_cases (py : Python) {strategy : String} {cls : ParamsClass}
    (hcls : strategyParamsMap strategy = some cls) (s : Live) :
    ∃ params, withBuiltinPreset py strategy s.symbol cls = some params ∧
      ((buildEngine strategy params = none ∧
          replaceStrategy py strategy cls s = ({ s with strategyName := strategy, params := params }, false)) ∨
        ∃ engine, buildEngine strategy params = some engine ∧
          replaceStrategy py strategy cls s =
            ({ s with strategyName := strategy, params := params, engine := engine }, true)) := by
  obtain ⟨params, hparams⟩ := Option.isSome_iff_exists.1 (withBuiltinPreset_isSome py hcls s.symbol)
  refine ⟨params, hparams, ?_⟩
  unfold replaceStrategy
  dsimp only
  rw [hparams]
  dsimp only
  cases hengine : buildEngine strategy params with
  | none => exact .inl ⟨rfl, rfl⟩
  | some engine => exact .inr ⟨engine, rfl, rfl⟩

theorem suggested_known {regime : RegimeType} {strategy : String} (h : regimeStrategyMap regime = some strategy) :
    ∃ cls, strategyParamsMap strategy = some cls ∧ ∀ params, (buildEngine strategy params).isSome := by
  cases regime with
  | trendingUp =>
      cases h
      exact ⟨.regimeTrend, rfl, fun _ => rfl⟩
  | range =>
      cases h
      exact ⟨.meanReversion, rfl, fun _ => rfl⟩
  | trendingDown | volatile => cases h

/-- Without a position and with a regime, the flag of the automatic switch is read. -/
def Answers (feed : Feed) (s : Live) : Prop := s.inPosition = true ∨ s.lastRegime = none ∨ feed.autoSwitch ≠ none

theorem autoSwitch_cases (py : Python) (feed : Feed) (s : Live) :
    (¬ Switching feed s ∧ ∃ ok, autoSwitch py feed s = (s, ok) ∧ (ok = true ↔ Answers feed s)) ∨
    (Switching feed s ∧ ∃ regime strategy params engine, s.lastRegime = some regime ∧
      regimeStrategyMap regime = some strategy ∧ strategy ≠ s.strategyName ∧
      Replaced py strategy s params engine ∧
      autoSwitch py feed s =
        ({ s with
            strategyName := strategy, params := params, engine := engine, trailingStop := none
            lastReason := "auto_switch:" ++ regime.value },
          feed.switchStored)) := by
  unfold autoSwitch
  split
  next regime hregime hflat =>
    unfold maybeAutoSwitch
    split
    next hauto =>
      refine .inl ⟨fun h => Option.some_ne_none _ (h.2.1.symm.trans hauto), false, rfl, ?_⟩
      simp [Answers, hauto, hflat, hregime]
    next hauto =>
      refine .inl ⟨fun h => Bool.false_ne_true (Option.some.inj (hauto.symm.trans h.2.1)), true, rfl, ?_⟩
      simp [Answers, hauto]
    next hauto =>
      have hanswers : true = true ↔ Answers feed s := by simp [Answers, hauto]
      split
      next hnone =>
        refine .inl ⟨fun h => ?_, true, rfl, hanswers⟩
        obtain ⟨r, hr, strategy, hstrategy, -⟩ := h.2.2
        rw [hregime] at hr
        cases hr
        rw [hnone] at hstrategy
        cases hstrategy
      next strategy hstrategy =>
        split
        next hsame =>
          refine .inl ⟨fun h => ?_, true, rfl, hanswers⟩
          obtain ⟨r, hr, strategy', hstrategy', hne⟩ := h.2.2
          rw [hregime] at hr
          cases hr
          rw [hstrategy] at hstrategy'
          cases hstrategy'
          exact hne hsame
        next hne =>
          obtain ⟨cls, hcls, hbuilds⟩ := suggested_known hstrategy
          have hswitching : Switching feed s := ⟨hflat, hauto, regime, hregime, strategy, hstrategy, hne⟩
          rw [hcls]
          dsimp only
          obtain ⟨params, hparams, ⟨hnone, -⟩ | ⟨engine, hengine, hreplace⟩⟩ := replaceStrategy_cases py hcls s
          · have := hbuilds params
            rw [hnone] at this
            cases this
          · rw [hreplace]
            exact .inr ⟨hswitching, regime, strategy, params, engine, hregime, hstrategy, hne,
              ⟨⟨cls, hcls, hparams⟩, hengine⟩, rfl⟩
  next hno =>
    have hother : s.inPosition = true ∨ s.lastRegime = none := by
      cases hregime : s.lastRegime with
      | none => exact .inr rfl
      | some regime => exact .inl (Bool.eq_true_of_not_eq_false (fun hflat => hno regime hregime hflat))
    refine .inl ⟨fun h => ?_, true, rfl, ?_⟩
    · obtain ⟨regime, hregime, -⟩ := h.2.2
      exact hno regime hregime h.1
    · exact ⟨fun _ => hother.imp_right .inl, fun _ => rfl⟩

theorem autoSwitch_held (py : Python) (feed : Feed) {s : Live} (hheld : s.inPosition = true) :
    autoSwitch py feed s = (s, true) := by
  unfold autoSwitch
  split
  next hflat => exact absurd (hheld.symm.trans hflat) Bool.noConfusion
  · rfl

def turningSignal (inPosition : Bool) : Signal := if inPosition then .sell else .buy

theorem turning_eq_buy (inPosition : Bool) : turning inPosition = .buy ↔ inPosition = false := by
  cases inPosition <;> decide

theorem trade_eq (feed : Feed) (d : Decision) (s : Live) :
    trade feed d s =
      if d.signal = turningSignal s.inPosition then
        ({ s with inPosition := !s.inPosition, barsSinceTrade := 0 },
          some (message (turning s.inPosition) d.closePrice feed.stamp s.toConsumer, feed.pushed))
      else (s, none) := by
  cases hheld : s.inPosition with
  | false =>
      cases hsignal : d.signal <;> simp [trade, hheld, hsignal, turningSignal, publishSignal,
        StrategyConsumer.publishSignal, turning]
  | true =>
      cases hsignal : d.signal <;> simp [trade, hheld, hsignal, turningSignal, publishSignal,
        StrategyConsumer.publishSignal, turning]

/-- What a tick comes to. -/
inductive Ticked (py : Python) (feed : Feed) (s : Live) : Live × Report → Prop
  | undecided (regime) (hno : ∀ d, (decide feed.candles s).2 ≠ .decided d) :
      Ticked py feed s (observeRegime regime s, {})
  | cut (regime) (frame) (d) (hasked : Asked feed.candles s regime frame d) (henabled : feed.enabled = none) :
      Ticked py feed s (observed regime d s, { log := some (signalLog feed d (observed regime d s)) })
  | idle (regime) (frame) (d) (hasked : Asked feed.candles s regime frame d) (s') (ok)
      (hswitch : autoSwitch py feed (observed regime d s) = (s', ok)) (enabled) (henabled : feed.enabled = some enabled)
      (hidle : ¬ (ok = true ∧ enabled = true ∧ d.signal = turningSignal s.inPosition)) :
      Ticked py feed s (s', { log := some (signalLog feed d (observed regime d s)) })
  | traded (regime) (frame) (d) (hasked : Asked feed.candles s regime frame d) (s')
      (hswitch : autoSwitch py feed (observed regime d s) = (s', true)) (henabled : feed.enabled = some true)
      (hsignal : d.signal = turningSignal s.inPosition) :
      Ticked py feed s
        ({ s' with inPosition := !s.inPosition, barsSinceTrade := 0 },
          { log := some (signalLog feed d (observed regime d s))
            push := some (message (turning s.inPosition) d.closePrice feed.stamp s'.toConsumer, feed.pushed) })

theorem autoSwitch_keeps {feed : Feed} {s s' : Live} {ok : Bool} (h : autoSwitch py feed s = (s', ok)) :
    s'.inPosition = s.inPosition ∧ s'.barsSinceTrade = s.barsSinceTrade ∧ s'.symbol = s.symbol := by
  obtain ⟨-, ok', hswitch, -⟩ | ⟨-, regime, strategy, params, engine, -, -, -, -, hswitch⟩ :=
    autoSwitch_cases py feed s
  · rw [hswitch] at h
    cases h
    exact ⟨rfl, rfl, rfl⟩
  · rw [hswitch] at h
    cases h
    exact ⟨rfl, rfl, rfl⟩

theorem processTick_ticked (py : Python) (feed : Feed) (s : Live) : Ticked py feed s (processTick py feed s) := by
  obtain ⟨regime, hkeeps⟩ := decide_keeps feed.candles s
  unfold processTick
  split
  next s₁ h =>
    have hs₁ : s₁ = observeRegime regime s := (congrArg Prod.fst h).symm.trans hkeeps
    exact hs₁ ▸ .undecided regime (fun d hd => Outcome.noConfusion ((congrArg Prod.snd h).symm.trans hd))
  next s₁ h =>
    have hs₁ : s₁ = observeRegime regime s := (congrArg Prod.fst h).symm.trans hkeeps
    exact hs₁ ▸ .undecided regime (fun d hd => Outcome.noConfusion ((congrArg Prod.snd h).symm.trans hd))
  next s₁ d h =>
    obtain ⟨regime, frame, rfl, hasked⟩ := decide_decided h
    change Ticked py feed s (let s := observed regime d s; _)
    dsimp only
    split
    next henabled => exact .cut regime frame d hasked henabled
    next enabled henabled =>
      split
      next s' hswitch =>
        exact .idle regime frame d hasked s' false hswitch enabled henabled (fun h => Bool.false_ne_true h.1)
      next s' hswitch =>
        have hflag : s'.inPosition = s.inPosition := (autoSwitch_keeps hswitch).1
        split
        next hon =>
          rw [trade_eq, hflag]
          split
          next hsignal =>
            exact .traded regime frame d hasked s' hswitch (by rw [henabled, hon]) hsignal
          next hsignal =>
            exact .idle regime frame d hasked s' true hswitch enabled henabled (fun h => hsignal h.2.2)
        next hoff => exact .idle regime frame d hasked s' true hswitch enabled henabled (fun h => hoff h.2.1)

theorem autoSwitch_refines {feed : Feed} {s s' : Live} {ok : Bool} (h : autoSwitch py feed s = (s', ok)) :
    ∃ suggested, s'.toConsumer = StrategyConsumer.maybeAutoSwitch suggested s.toConsumer := by
  obtain ⟨-, ok', hswitch, -⟩ | ⟨hswitching, regime, strategy, params, engine, -, -, -, -, hswitch⟩ :=
    autoSwitch_cases py feed s
  · rw [hswitch] at h
    cases h
    exact ⟨none, rfl⟩
  · rw [hswitch] at h
    cases h
    refine ⟨some (strategy, regime.value), ?_⟩
    rw [StrategyConsumer.maybeAutoSwitch, if_neg (by simp [hswitching.1])]

/-- The tick with its candles and its engine is a tick of the consumer that only sees a decision. -/
theorem processTick_refines (py : Python) (feed : Feed) (s : Live) :
    ∃ tick, StrategyConsumer.processTick tick s.toConsumer =
      ((processTick py feed s).1.toConsumer, (processTick py feed s).2.push.map Prod.fst) := by
  have hticked := processTick_ticked py feed s
  generalize processTick py feed s = p at hticked
  cases hticked with
  | undecided regime => exact ⟨⟨none, false, none, ""⟩, rfl⟩
  | cut regime frame d => exact ⟨⟨some d, false, none, ""⟩, rfl⟩
  | idle regime frame d hasked s' ok hswitch =>
      obtain ⟨suggested, hs'⟩ := autoSwitch_refines hswitch
      refine ⟨⟨some d, false, suggested, ""⟩, ?_⟩
      rw [hs']
      rfl
  | traded regime frame d hasked s' hswitch henabled hsignal =>
      obtain ⟨suggested, hs'⟩ := autoSwitch_refines hswitch
      have hflag : s'.inPosition = s.inPosition := (autoSwitch_keeps hswitch).1
      refine ⟨⟨some d, true, suggested, feed.stamp⟩, ?_⟩
      simp only [StrategyConsumer.processTick]
      rw [← show s'.toConsumer = StrategyConsumer.maybeAutoSwitch suggested (observe d s.toConsumer) from hs', hsignal,
        hflag]
      cases s.inPosition <;> rfl

theorem processTick_flag (py : Python) (feed : Feed) (s : Live) :
    ((processTick py feed s).2.push = none ∧ (processTick py feed s).1.inPosition = s.inPosition) ∨
    ∃ m ok, (processTick py feed s).2.push = some (m, ok) ∧ m.side = turning s.inPosition ∧
      (processTick py feed s).1.inPosition = !s.inPosition := by
  obtain ⟨tick, htick⟩ := processTick_refines py feed s
  have hcases := StrategyConsumer.processTick_cases tick s.toConsumer
  rw [htick] at hcases
  obtain ⟨hpush, hflag⟩ | ⟨m, hpush, -, hside, hflag⟩ := hcases
  · exact .inl ⟨Option.map_eq_none_iff.1 hpush, hflag⟩
  · obtain ⟨⟨m, ok⟩, hpushed, rfl⟩ := Option.map_eq_some_iff.1 hpush
    exact .inr ⟨m, ok, hpushed, hside, hflag⟩

theorem construct_eq_some {strategyName symbol : String} {params : ParamsObject} {s : Live}
    (h : construct strategyName symbol params = some s) :
    s.strategyName = strategyName ∧ s.symbol = symbol ∧ s.params = params ∧
      buildEngine strategyName params = some s.engine := by
  unfold construct at h
  obtain ⟨engine, hengine, h⟩ := Option.bind_eq_some_iff.1 h
  obtain ⟨bars, -, h⟩ := Option.bind_eq_some_iff.1 h
  cases h
  exact ⟨rfl, rfl, rfl, hengine⟩

theorem main_eq_some {stored : Option String} {symbol : String} {s : Live} (h : main py stored symbol = some s) :
    s.symbol = symbol ∧ Replaced py s.strategyName s s.params s.engine := by
  unfold main at h
  obtain ⟨cls, hcls, h⟩ := Option.bind_eq_some_iff.1 h
  obtain ⟨params, hparams, h⟩ := Option.bind_eq_some_iff.1 h
  obtain ⟨hname, hsymbol, rfl, hengine⟩ := construct_eq_some h
  rw [← hname] at hcls hparams hengine
  rw [← hsymbol] at hparams
  exact ⟨hsymbol, ⟨⟨cls, hcls, hparams⟩, hengine⟩⟩

/-- A new and known strategy is taken on, as far as its engine can be built. -/
theorem checkStrategyChange_known (py : Python) {name : String} {cls : ParamsClass} {s : Live} (hname : name ≠ "")
    (hnew : name ≠ s.strategyName) (hcls : strategyParamsMap (Text.trim name) = some cls) :
    ∃ params, withBuiltinPreset py (Text.trim name) s.symbol cls = some params ∧
      ((buildEngine (Text.trim name) params = none ∧
          checkStrategyChange py (some name) s =
            ({ s with strategyName := Text.trim name, params := params }, false)) ∨
        ∃ engine, buildEngine (Text.trim name) params = some engine ∧
          checkStrategyChange py (some name) s =
            ({ s with
                strategyName := Text.trim name, params := params, engine := engine, trailingStop := none
                lastSignal := .hold, lastReason := "strategy_changed" }, true)) := by
  obtain ⟨params, hparams, hreplace⟩ := replaceStrategy_cases py hcls s
  refine ⟨params, hparams, ?_⟩
  unfold checkStrategyChange
  dsimp only
  rw [if_neg (not_or.2 ⟨hname, hnew⟩), hcls]
  obtain ⟨hengine, hreplace⟩ | ⟨engine, hengine, hreplace⟩ := hreplace
  · dsimp only
    rw [hreplace]
    exact .inl ⟨hengine, rfl⟩
  · dsimp only
    rw [hreplace]
    exact .inr ⟨engine, hengine, rfl⟩

/-- A requested change of strategy is ignored, goes through, or stops at the engine. -/
theorem checkStrategyChange_cases (py : Python) (requested : Option String) (s : Live) :
    checkStrategyChange py requested s = (s, true) ∨
    ∃ name cls params, requested = some name ∧ strategyParamsMap (Text.trim name) = some cls ∧
      withBuiltinPreset py (Text.trim name) s.symbol cls = some params ∧
      ((buildEngine (Text.trim name) params = none ∧
          checkStrategyChange py requested s = ({ s with strategyName := Text.trim name, params := params }, false)) ∨
        ∃ engine, buildEngine (Text.trim name) params = some engine ∧
          checkStrategyChange py requested s =
            ({ s with
                strategyName := Text.trim name, params := params, engine := engine, trailingStop := none
                lastSignal := .hold, lastReason := "strategy_changed" }, true)) := by
  cases requested with
  | none => exact .inl rfl
  | some name =>
      by_cases hold : name = "" ∨ name = s.strategyName
      · exact .inl (if_pos hold)
      · cases hcls : strategyParamsMap (Text.trim name) with
        | none =>
            refine .inl ?_
            unfold checkStrategyChange
            dsimp only
            rw [if_neg hold, hcls]
        | some cls =>
            obtain ⟨hname, hnew⟩ := not_or.1 hold
            obtain ⟨params, hparams, hcases⟩ := checkStrategyChange_known py hname hnew hcls
            exact .inr ⟨name, cls, params, rfl, hcls, hparams, hcases⟩

theorem checkStrategyChange_keeps (py : Python) (requested : Option String) (s : Live) :
    (checkStrategyChange py requested s).1.inPosition = s.inPosition ∧
      (checkStrategyChange py requested s).1.barsSinceTrade = s.barsSinceTrade ∧
      (checkStrategyChange py requested s).1.symbol = s.symbol := by
  obtain hsame | ⟨name, cls, params, -, -, -, ⟨-, hhalf⟩ | ⟨engine, -, hfull⟩⟩ :=
    checkStrategyChange_cases py requested s
  · rw [hsame]
    exact ⟨rfl, rfl, rfl⟩
  · rw [hhalf]
    exact ⟨rfl, rfl, rfl⟩
  · rw [hfull]
    exact ⟨rfl, rfl, rfl⟩

theorem run_handled {round : Round} {s s₁ : Live} {feed : Feed} (h : handled py round s = some (feed, s₁)) :
    run py round s = processTick py feed s₁ ∧ s₁.inPosition = s.inPosition ∧
      s₁.barsSinceTrade = s.barsSinceTrade := by
  unfold handled at h
  split at h
  next requested feed' halive hrequested htick =>
    have hkeeps := checkStrategyChange_keeps py requested s
    split at h
    next s' hcheck =>
      cases h
      rw [hcheck] at hkeeps
      refine ⟨?_, hkeeps.1, hkeeps.2.1⟩
      unfold run
      rw [halive, hrequested, htick]
      dsimp only
      rw [hcheck]
    · cases h
  · cases h

theorem run_unhandled {round : Round} {s : Live} (h : handled py round s = none) :
    (run py round s).2 = {} ∧ (run py round s).1.inPosition = s.inPosition ∧
      (run py round s).1.barsSinceTrade = s.barsSinceTrade := by
  unfold run
  split
  next requested halive hrequested =>
    have hkeeps := checkStrategyChange_keeps py requested s
    split
    next s' feed hcheck htick =>
      unfold handled at h
      rw [halive, hrequested, htick] at h
      dsimp only at h
      rw [hcheck] at h
      cases h
    next s' ok tick hcheck _ =>
      rw [hcheck] at hkeeps
      exact ⟨rfl, hkeeps.1, hkeeps.2.1⟩
  · exact ⟨rfl, rfl, rfl⟩

theorem run_flag (py : Python) (round : Round) (s : Live) :
    ((run py round s).2.push = none ∧ (run py round s).1.inPosition = s.inPosition) ∨
    ∃ m ok, (run py round s).2.push = some (m, ok) ∧ m.side = turning s.inPosition ∧
      (run py round s).1.inPosition = !s.inPosition := by
  cases hhandled : handled py round s with
  | none =>
      obtain ⟨hreport, hflag, -⟩ := run_unhandled hhandled
      rw [hreport]
      exact .inl ⟨rfl, hflag⟩
  | some p =>
      obtain ⟨feed, s₁⟩ := p
      obtain ⟨hrun, hflag, -⟩ := run_handled hhandled
      rw [hrun, ← hflag]
      exact processTick_flag py feed s₁

theorem silent_of_unlogged {round : Round} {s : Live} (h : ¬ (run py round s).2.log.isSome) :
    (run py round s).2 = {} := by
  cases hhandled : handled py round s with
  | none => exact (run_unhandled hhandled).1
  | some p =>
      obtain ⟨feed, s₁⟩ := p
      rw [(run_handled hhandled).1] at h ⊢
      have hticked := processTick_ticked py feed s₁
      generalize processTick py feed s₁ = p at h hticked
      cases hticked with
      | undecided => rfl
      | cut | idle | traded => exact absurd rfl h

end Tick

end Autr.Services.ConsumerLoop
