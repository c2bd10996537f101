import Autr.Async.Runs
import Autr.Services.ConsumerLoop
import Autr.Strategies.StopRules

namespace Autr.Services.UnchangedCandle

open Async StrategyConsumer ConsumerLoop Strategies StrategyParams Engines

/-- What the engine is told about the higher timeframe. -/
def htfOf (strategyName : String) (candles : Candles) : Bool × Bool :=
  match candles with
  | .read _ _ _ (some htf) => if strategyName = "dual_timeframe" then htf else (false, false)
  | _ => (false, false)

variable {candles : Candles} {s : Live} {d : Decision}

theorem decideSingle_answer (hname : s.strategyName ≠ "dual_timeframe")
    (h : (decideSingle candles s).2 = .decided d) :
    s.engine.decide candles.rows (htfOf s.strategyName candles).1 (htfOf s.strategyName candles).2 s.inPosition
      s.trailingStop s.barsSinceTrade = some d := by
  have hhtf : htfOf s.strategyName candles = (false, false) := by
    unfold htfOf
    split
    · exact if_neg hname
    · rfl
  rw [hhtf]
  unfold decideSingle at h
  split at h
  · cases h
  · cases h
  · dsimp only at h
    split at h
    · cases h
    · split at h
      · cases h
      split at h
      · cases h
      split at h
      · exact of_eq_decided h
      · cases h

theorem decideDual_answer (hname : s.strategyName = "dual_timeframe") (h : (decideDual candles s).2 = .decided d) :
    s.engine.decide candles.rows (htfOf s.strategyName candles).1 (htfOf s.strategyName candles).2 s.inPosition
      s.trailingStop s.barsSinceTrade = some d := by
  unfold decideDual at h
  split at h
  · split at h
    · cases h
    · cases h
    · dsimp only at h
      split at h
      · cases h
      · split at h
        · cases h
        split at h
        · cases h
        split at h
        · rw [htfOf, if_pos hname]
          exact of_eq_decided h
        · cases h
  · cases h

theorem decide_answer (h : (decide candles s).2 = .decided d) :
    s.engine.decide candles.rows (htfOf s.strategyName candles).1 (htfOf s.strategyName candles).2 s.inPosition
      s.trailingStop s.barsSinceTrade = some d := by
  unfold ConsumerLoop.decide at h
  split at h
  next hname => exact decideDual_answer hname h
  next hname => exact decideSingle_answer hname h

/-- The stop that a consumer takes over from a decision to buy lies below the price. -/
theorem stopOf_lt {e : Engine} {frame : List Row} {htfBullish htfDataSufficient : Bool} {stop : Option ℚ}
    {bars : ℕ} (hflat : e.decide frame htfBullish htfDataSufficient false stop bars = some d)
    (hbuy : d.signal = .buy) (hstays : StaysBought e frame htfBullish htfDataSufficient d) :
    ∀ x ∈ stopOf d, x < d.closePrice := by
  intro x hx
  obtain ⟨⟨y, hy, hstop⟩, -⟩ := hstays
  cases Engine.decide_flat hflat with
  | wait reason close => exact absurd ((signalDecision_signal ..).symm.trans hbuy) (by decide)
  | enter reason last cooldownBars mult =>
      rw [decidedStop_signalDecision] at hstop
      cases hstop
      rw [stopOf_signalDecision _ _ _ _ _ x hx]
      exact hy

/-- A position under a strategy, with a stop below a price. -/
structure Holding (strategyName : String) (e : Engine) (close : ℚ) (s : Live) : Prop where
  name : s.strategyName = strategyName
  engine : s.engine = e
  held : s.inPosition = true
  stop : ∀ x ∈ s.trailingStop, x < close

section Held

variable {e : Engine} {strategyName : String}

/-- What is decided about a candle on which a purchase has been decided before. -/
theorem Holding.decided (hs : Holding strategyName e d.closePrice s)
    (hstays : StaysBought e candles.rows (htfOf strategyName candles).1 (htfOf strategyName candles).2 d)
    {d' : Decision} (h : (ConsumerLoop.decide candles s).2 = .decided d') :
    d'.signal = .hold ∧ ∀ x ∈ stopOf d', x < d.closePrice := by
  have hanswer := decide_answer h
  rw [hs.name, hs.engine, hs.held] at hanswer
  obtain ⟨d'', hdecide, hhold⟩ := hstays.2 _ hs.stop s.barsSinceTrade
  obtain rfl := Option.some.inj (hdecide.symm.trans hanswer)
  exact hhold

/-- While a position is held the strategy is not switched. -/
theorem Holding.observed (hs : Holding strategyName e d.closePrice s) {d' : Decision}
    (hstop : ∀ x ∈ stopOf d', x < d.closePrice) (py : Python) (feed : Feed) (regime : Option RegimeType) :
    Holding strategyName e d.closePrice (ConsumerLoop.observed regime d' s) ∧
      (autoSwitch py feed (ConsumerLoop.observed regime d' s)).1 = ConsumerLoop.observed regime d' s := by
  refine ⟨⟨hs.name, hs.engine, hs.held, hstop⟩, ?_⟩
  obtain ⟨-, ok, hswitch, -⟩ | ⟨hswitching, -⟩ := autoSwitch_cases py feed (ConsumerLoop.observed regime d' s)
  · rw [hswitch]
  · exact absurd (hs.held.symm.trans hswitching.1) Bool.noConfusion

/-- A further tick on the candle of a purchase publishes nothing and keeps the position. -/
theorem Holding.tick (hs : Holding strategyName e d.closePrice s)
    (hstays : StaysBought e candles.rows (htfOf strategyName candles).1 (htfOf strategyName candles).2 d)
    (py : Python) {feed : Feed} (hcandles : feed.candles = candles) :
    (processTick py feed s).2.push = none ∧ Holding strategyName e d.closePrice (processTick py feed s).1 := by
  have hticked := processTick_ticked py feed s
  generalize processTick py feed s = p at hticked
  cases hticked with
  | undecided regime hno => exact ⟨rfl, hs.name, hs.engine, hs.held, hs.stop⟩
  | cut regime frame d' hasked henabled =>
      obtain ⟨-, hstop⟩ := hs.decided hstays (hcandles ▸ congrArg Prod.snd hasked.decides)
      exact ⟨rfl, (hs.observed hstop py feed regime).1⟩
  | idle regime frame d' hasked s' ok hswitch =>
      obtain ⟨-, hstop⟩ := hs.decided hstays (hcandles ▸ congrArg Prod.snd hasked.decides)
      obtain ⟨hobserved, hkept⟩ := hs.observed hstop py feed regime
      rw [hswitch] at hkept
      exact ⟨rfl, hkept ▸ hobserved⟩
  | traded regime frame d' hasked s' hswitch henabled hsignal =>
      obtain ⟨hhold, -⟩ := hs.decided hstays (hcandles ▸ congrArg Prod.snd hasked.decides)
      rw [hs.held, hhold] at hsignal
      cases hsignal

end Held

/-- What a tick that buys leaves behind, unless it also switches the strategy. -/
structure Bought (feed : Feed) (s s' : Live) (d : Decision) : Prop where
  decided : (ConsumerLoop.decide feed.candles s).2 = .decided d
  flat : s.inPosition = false
  signal : d.signal = .buy
  name : s'.strategyName = s.strategyName
  params : s'.params = s.params
  engine : s'.engine = s.engine
  held : s'.inPosition = true
  stop : s'.trailingStop = stopOf d

theorem bought_of_push {py : Python} {feed : Feed} {m : Message} {ok : Bool}
    (hpush : (processTick py feed s).2.push = some (m, ok)) (hside : m.side = .buy)
    (hunswitched : ¬ Switching feed (ConsumerLoop.decide feed.candles s).1) :
    ∃ d, Bought feed s (processTick py feed s).1 d := by
  have hticked := processTick_ticked py feed s
  generalize processTick py feed s = p at hpush hticked
  cases hticked with
  | undecided | cut | idle => cases hpush
  | traded regime frame d hasked s' hswitch henabled hsignal =>
      obtain ⟨rfl, -⟩ := Prod.mk.inj (Option.some.inj hpush)
      have hflat : s.inPosition = false := (turning_eq_buy _).1 hside
      rw [hflat] at hsignal
      have hobserved : ¬ Switching feed (observed regime d s) := by
        rw [hasked.decides] at hunswitched
        exact hunswitched
      obtain ⟨-, ok', heq, -⟩ | ⟨hswitching, -⟩ := autoSwitch_cases py feed (observed regime d s)
      · rw [hswitch] at heq
        cases heq
        exact ⟨d, by rw [hasked.decides], hflat, hsignal, rfl, rfl, rfl, by rw [hflat]; rfl, rfl⟩
      · exact absurd hswitching hobserved

/-- An engine that answers with a purchase holds it on the same frame, and so does a
consumer that publishes the purchase, on every further tick with the same candles. -/
theorem bought_holds {e : Engine} {frame : List Row} (hproper : Proper e.kind frame) (hsound : Sound e) :
    (∀ htfBullish htfDataSufficient stop bars d,
      e.decide frame htfBullish htfDataSufficient false stop bars = some d → d.signal = .buy →
        ∀ bars', ∃ d', e.decide frame htfBullish htfDataSufficient true (decidedStop e.kind d) bars' = some d' ∧
          d'.signal = .hold) ∧
    ∀ py feed s m ok, s.engine = e → feed.candles.rows = frame →
      (processTick py feed s).2.push = some (m, ok) → m.side = .buy →
      ¬ Switching feed (ConsumerLoop.decide feed.candles s).1 →
        ∀ feeds : List Feed, (∀ feed' ∈ feeds, feed'.candles = feed.candles) →
          AlongRun (fun s feed' => (processTick py feed' s).1) (fun s feed' => (processTick py feed' s).2.push = none)
            (processTick py feed s).1 feeds := by
  refine ⟨fun htfBullish htfDataSufficient stop bars d h hbuy bars' => ?_, ?_⟩
  · obtain ⟨⟨x, hx, hstop⟩, hholds⟩ := Engine.decide_bought hproper hsound h hbuy
    rw [hstop]
    obtain ⟨d', hdecide, hhold, -⟩ := hholds (some x) (fun y hy => Option.some.inj hy ▸ hx) bars'
    exact ⟨d', hdecide, hhold⟩
  · intro py feed s m ok hengine hframe hpush hside hunswitched feeds hcandles
    subst hengine hframe
    obtain ⟨d, hbought⟩ := bought_of_push hpush hside hunswitched
    have hanswer := decide_answer hbought.decided
    rw [hbought.flat] at hanswer
    have hstays := Engine.decide_bought hproper hsound hanswer hbought.signal
    have hstart : Holding s.strategyName s.engine d.closePrice (processTick py feed s).1 :=
      ⟨hbought.name, hbought.engine, hbought.held, hbought.stop ▸ stopOf_lt hanswer hbought.signal hstays⟩
    -- The invariant is that the position is held with its stop below the price of the purchase.
    exact alongRun_of_step (fun _ _ hs hfeed => (hs.tick hstays py hfeed).2)
      (fun _ _ hs hfeed => (hs.tick hstays py hfeed).1) hstart (alongRun_of_forall hcandles)

/-- A candle on which the default strategy buys. -/
def entryRow : Row := { close := 100, atr := 2, trendGapPct := 1 / 100, emaFast := 99 }

def entryFeed : Feed := { candles := .read none (some [entryRow]) 0 none }

theorem entry_repeated : ∃ s ∈ main wordless none "BTCUSDT",
    AlongRun (fun s feed => (processTick wordless feed s).1) (fun s feed => (processTick wordless feed s).2.push = none)
      (processTick wordless entryFeed s).1 (List.replicate 3 entryFeed) := by
  have hbuys : ∀ s ∈ main wordless none "BTCUSDT",
      (processTick wordless entryFeed s).2.push.map (fun p => p.1.side) = some .buy ∧
        ¬ Switching entryFeed (ConsumerLoop.decide entryFeed.candles s).1 := by decide +kernel
  have hproper : Proper .regimeTrend [entryRow] := by
    intro last hlast
    cases hlast
    exact ⟨by decide +kernel, fun hkind => EngineKind.noConfusion hkind⟩
  have hsound : Sound ⟨.regimeTrend, ParamsClass.regimeTrend.new "BTCUSDT"⟩ :=
    ⟨⟨5 / 2, rfl, by decide +kernel⟩, 3, rfl, by decide +kernel⟩
  obtain ⟨hbuy, hunswitched⟩ := hbuys _ rfl
  obtain ⟨⟨m, ok⟩, hpush, hside⟩ := Option.map_eq_some_iff.1 hbuy
  exact ⟨_, rfl, (bought_holds hproper hsound).2 wordless entryFeed _ m ok rfl rfl hpush hside hunswitched
    (List.replicate 3 entryFeed) (fun feed h => congrArg Feed.candles (List.eq_of_mem_replicate h))⟩

end Autr.Services.UnchangedCandle
