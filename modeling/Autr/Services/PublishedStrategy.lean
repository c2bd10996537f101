import Autr.Services.ConsumerLoop

namespace Autr.Services.PublishedStrategy

open Autr.Infra Bybit StrategyConsumer ConsumerLoop Strategies StrategyParams Engines

variable (py : Python)

/-- A published signal names the strategy in the tick's row of the signal log, and after a
published buy the stop is that of the decision. -/
def KeepsWord (feed : Feed) (s : Live) : Prop :=
  ∀ m ∈ (processTick py feed s).2.published,
    (∃ row ∈ (processTick py feed s).2.log, m.strategy = row.strategy) ∧
      (m.side = .buy → ∀ d ∈ (decide feed.candles s).2.decision,
        (processTick py feed s).1.trailingStop = decidedStop s.engine.kind d)

instance (feed : Feed) (s : Live) : Decidable (KeepsWord py feed s) :=
  inferInstanceAs (Decidable (∀ m ∈ (processTick py feed s).2.published,
    (∃ row ∈ (processTick py feed s).2.log, m.strategy = row.strategy) ∧
      (m.side = .buy → ∀ d ∈ (decide feed.candles s).2.decision, _ = _)))

/-- On a tick that buys and is not cut short, no automatic switch is due, and a stop named
`trailing_stop` is not zero. -/
def Undisturbed (feed : Feed) (s : Live) : Prop :=
  ∀ d ∈ (decide feed.candles s).2.decision,
    s.inPosition = false → d.signal = .buy → feed.enabled = some true → feed.pushed = true →
      Answers feed (decide feed.candles s).1 →
      (Switching feed (decide feed.candles s).1 → feed.switchStored = true) →
        ¬ Switching feed (decide feed.candles s).1 ∧ d.trailingStop ≠ some 0

theorem stopOf_eq_iff (kind : EngineKind) (signal : Signal) (reason : String) (stop close : ℚ) :
    stopOf (signalDecision kind signal reason (some stop) close) =
        decidedStop kind (signalDecision kind signal reason (some stop) close) ↔
      (signalDecision kind signal reason (some stop) close).trailingStop ≠ some 0 := by
  cases kind with
  | meanReversion => simp [signalDecision, stopOf, decidedStop]
  | regimeTrend | dualTimeframe | breakoutVolume =>
      by_cases hzero : stop = 0 <;> simp [signalDecision, stopOf, decidedStop, hzero]

variable {feed : Feed} {s : Live} {regime : Option RegimeType} {frame : List Row} {d : Decision}

theorem forall_decision (hasked : Asked feed.candles s regime frame d) {P : Decision → Prop} :
    (∀ d' ∈ (decide feed.candles s).2.decision, P d') ↔ P d := by
  rw [hasked.decides]
  constructor
  · intro h
    exact h d rfl
  · rintro h d' hd'
    cases hd'
    exact h

theorem undisturbed_iff (hasked : Asked feed.candles s regime frame d) :
    Undisturbed feed s ↔
      (s.inPosition = false → d.signal = .buy → feed.enabled = some true → feed.pushed = true →
        Answers feed (observed regime d s) → (Switching feed (observed regime d s) → feed.switchStored = true) →
          ¬ Switching feed (observed regime d s) ∧ d.trailingStop ≠ some 0) := by
  unfold Undisturbed
  rw [forall_decision hasked, hasked.decides]
  exact Iff.rfl

theorem entry_stop (hasked : Asked feed.candles s regime frame d) (hflat : s.inPosition = false)
    (hbuy : d.signal = .buy) : stopOf d = decidedStop s.engine.kind d ↔ d.trailingStop ≠ some 0 := by
  obtain ⟨htfBullish, htfSufficient, hanswer⟩ := hasked.answer
  rw [hflat] at hanswer
  cases Engine.decide_flat hanswer with
  | wait reason close => exact absurd ((signalDecision_signal ..).symm.trans hbuy) (by decide)
  | enter reason last cooldownBars mult => exact stopOf_eq_iff ..

theorem answers_of_switching (h : Switching feed s) : Answers feed s :=
  .inr (.inr (fun hno => Option.some_ne_none _ (h.2.1.symm.trans hno)))

theorem autoSwitch_done_iff {s' : Live} {ok : Bool} (hswitch : autoSwitch py feed s = (s', ok)) :
    ok = true ↔ Answers feed s ∧ (Switching feed s → feed.switchStored = true) := by
  obtain ⟨hno, ok', heq, hiff⟩ | ⟨hswitching, regime', strategy, params, engine, -, -, -, -, heq⟩ :=
    autoSwitch_cases py feed s
  · rw [hswitch] at heq
    cases heq
    rw [hiff]
    exact (and_iff_left fun h => absurd h hno).symm
  · have hok : ok = feed.switchStored := congrArg Prod.snd (hswitch.symm.trans heq)
    rw [hok, and_iff_right (answers_of_switching hswitching)]
    exact ⟨fun h _ => h, fun h => h hswitching⟩

/-- A consumer about to publish its buy still goes by the logged name and the decided stop
exactly when it did not switch on the way and the stop is not a zero. -/
theorem bought_iff (hasked : Asked feed.candles s regime frame d) (hflat : s.inPosition = false)
    (hbuy : d.signal = .buy) {s' : Live} (hswitch : autoSwitch py feed (observed regime d s) = (s', true)) :
    s'.strategyName = s.strategyName ∧ s'.trailingStop = decidedStop s.engine.kind d ↔
      ¬ Switching feed (observed regime d s) ∧ d.trailingStop ≠ some 0 := by
  obtain ⟨hno, ok, heq, -⟩ | ⟨hswitching, regime', strategy, params, engine, -, -, hne, -, heq⟩ :=
    autoSwitch_cases py feed (observed regime d s)
  · rw [hswitch] at heq
    cases heq
    rw [and_iff_right hno, ← entry_stop hasked hflat hbuy]
    exact and_iff_right rfl
  · have hs' : s'.strategyName = strategy := by
      rw [show s' = _ from congrArg Prod.fst (hswitch.symm.trans heq)]
    exact iff_of_false (fun h => hne (hs'.symm.trans h.1)) (fun h => h.1 hswitching)

/-- In any state, a tick keeps its word exactly when it is not disturbed. -/
theorem keepsWord_iff (py : Python) (feed : Feed) (s : Live) : KeepsWord py feed s ↔ Undisturbed feed s := by
  have hticked := processTick_ticked py feed s
  unfold KeepsWord
  generalize processTick py feed s = p at hticked
  cases hticked with
  | undecided regime hno =>
      exact ⟨fun _ d hd => absurd (decision_eq_some.1 hd) (hno d), fun _ m hm => absurd hm.symm (Option.some_ne_none m)⟩
  | cut regime frame d hasked henabled =>
      rw [undisturbed_iff hasked]
      refine ⟨fun _ _ _ hon => ?_, fun _ m hm => absurd hm.symm (Option.some_ne_none m)⟩
      exact absurd (hon.symm.trans henabled) (Option.some_ne_none _)
  | idle regime frame d hasked s' ok hswitch enabled henabled hidle =>
      rw [undisturbed_iff hasked]
      refine ⟨fun _ hflat hbuy hon _ hanswers hstored => ?_, fun _ m hm => absurd hm.symm (Option.some_ne_none m)⟩
      have hok : ok = true := (autoSwitch_done_iff py hswitch).2 ⟨hanswers, hstored⟩
      rw [henabled] at hon
      exact absurd ⟨hok, Option.some.inj hon, by rw [hflat]; exact hbuy⟩ hidle
  | traded regime frame d hasked s' hswitch henabled hsignal =>
      rw [undisturbed_iff hasked, forall_decision hasked]
      cases hpushed : feed.pushed with
      | false =>
          exact ⟨fun _ _ _ _ h => Bool.noConfusion h, fun _ m hm => by simp [Report.published] at hm⟩
      | true =>
          cases hheld : s.inPosition with
          | true =>
              rw [autoSwitch_held py feed (s := observed regime d s) hheld] at hswitch
              cases hswitch
              refine ⟨fun _ h => Bool.noConfusion h, fun _ m hm => ?_⟩
              cases hm
              exact ⟨⟨_, rfl, rfl⟩, fun hsell => Side.noConfusion hsell⟩
          | false =>
              rw [hheld] at hsignal
              have hbought := bought_iff py hasked hheld hsignal hswitch
              obtain ⟨hanswers, hstored⟩ := (autoSwitch_done_iff py hswitch).1 rfl
              constructor
              · intro h _ _ _ _ _ _
                obtain ⟨⟨row, hrow, hstrategy⟩, hstop⟩ := h _ rfl
                cases hrow
                exact hbought.1 ⟨hstrategy, hstop rfl⟩
              · intro h m hm
                cases hm
                obtain ⟨hstrategy, hstop⟩ := hbought.2 (h rfl hsignal henabled rfl hanswers hstored)
                exact ⟨⟨_, rfl, hstrategy⟩, fun _ => hstop⟩

/-- A consumer of the default strategy that has seen a range, on a tick that buys. -/
theorem buy_named_after_switch : ∃ s ∈ main wordless none "BTCUSDT",
    ¬ KeepsWord wordless
      { candles := .read (some .range) (some [{ close := 100, atr := 2, trendGapPct := 1 / 100, emaFast := 99 }]) 0 none
        autoSwitch := some true } s := by
  refine ⟨_, rfl, ?_⟩
  decide +kernel

end Autr.Services.PublishedStrategy
