import Autr.Async.Runs
import Autr.Services.ConsumerLoop

namespace Autr.Services.HeldStop

open Autr.Async Autr.Infra TradeTracker StrategyConsumer ConsumerLoop Strategies StrategyParams Engines

/-- The consumer is started, once or again, or goes through a round of its loop. A start
whose engine cannot be built leaves no consumer. -/
inductive Label
  | start (stored : Option String) (symbol : String) (openPositions : Option (List Position))
  | round (r : Round)

def step (py : Python) (x : Option Live) : Label → Option Live
  | .start stored symbol openPositions => (main py stored symbol).map (ConsumerLoop.restoreState openPositions)
  | .round r => x.map (fun s => (run py r s).1)

/-- The condition `P` on the tick, if any, that the next step handles. -/
def OnTick (py : Python) (P : Feed → Live → Prop) (x : Option Live) : Label → Prop
  | .start _ _ _ => True
  | .round r => ∀ s ∈ x, ∀ p ∈ handled py r s, P p.1 p.2

/-- A tick that was decided on leaves a position with a stop. -/
def HoldsStop (py : Python) (x : Option Live) : Label → Prop
  | .start _ _ _ => True
  | .round r => ∀ s ∈ x, (run py r s).2.log.isSome → (run py r s).1.inPosition = true →
      (run py r s).1.trailingStop ≠ none

/-- Prices are positive, and so are the distances to the stops, which stay below the price. -/
def Priced (feed : Feed) (s : Live) : Prop :=
  ∀ last ∈ feed.candles.rows.getLast?, 0 < last.close ∧
    ∀ key ∈ ["initial_stop_atr_mult", "trailing_stop_atr_mult", "stop_atr_mult"],
      ∀ mult ∈ s.engine.params.number key, 0 < last.atr * mult ∧ last.atr * mult < last.close

/-- The engine only hands its stop on, and there is none. -/
def CarriesNoStop (candles : Candles) (s : Live) : Prop :=
  (s.engine.kind = .meanReversion ∧ s.trailingStop = none) ∨
    (s.engine.kind = .dualTimeframe ∧ candles.rows.length < 2 ∧ s.trailingStop.all (· = 0))

/-- A tick with a position does not merely carry a missing stop, unless it sells, and a tick
that buys is not the tick of an automatic switch. -/
def KeepsStop (feed : Feed) (s : Live) : Prop :=
  ∀ d ∈ (decide feed.candles s).2.decision,
    if s.inPosition then CarriesNoStop feed.candles s → feed.enabled = some true ∧ d.signal = .sell
    else ¬ (feed.enabled = some true ∧ d.signal = .buy ∧ Switching feed (decide feed.candles s).1 ∧
      feed.switchStored = true)

section Decidable

variable (py : Python)

instance (feed : Feed) (s : Live) : Decidable (Priced feed s) :=
  inferInstanceAs (Decidable (∀ last ∈ feed.candles.rows.getLast?, _ ∧ ∀ key ∈ _,
    ∀ mult ∈ s.engine.params.number key, _ ∧ _))

instance (candles : Candles) (s : Live) : Decidable (CarriesNoStop candles s) :=
  inferInstanceAs (Decidable (_ ∨ _))

instance (feed : Feed) (s : Live) : Decidable (KeepsStop feed s) :=
  inferInstanceAs (Decidable (∀ d ∈ (decide feed.candles s).2.decision, if s.inPosition then _ → _ else ¬ (_ ∧ _ ∧
    Switching feed (decide feed.candles s).1 ∧ _)))

instance (P : Feed → Live → Prop) [∀ feed s, Decidable (P feed s)] (x : Option Live) :
    (l : Label) → Decidable (OnTick py P x l)
  | .start _ _ _ => .isTrue trivial
  | .round r => inferInstanceAs (Decidable (∀ s ∈ x, ∀ p ∈ handled py r s, P p.1 p.2))

instance (x : Option Live) : (l : Label) → Decidable (HoldsStop py x l)
  | .start _ _ _ => .isTrue trivial
  | .round r => inferInstanceAs (Decidable (∀ s ∈ x, (run py r s).2.log.isSome → (run py r s).1.inPosition = true →
      (run py r s).1.trailingStop ≠ none))

end Decidable

section Stops

variable {feed : Feed} {s : Live} {regime : Option RegimeType} {frame : List Row} {d : Decision}

theorem rows_eq (hasked : Asked feed.candles s regime frame d) : feed.candles.rows = frame := by
  obtain ⟨newest, htf, hread⟩ := hasked.read
  rw [hread]
  rfl

theorem stop_pos (hpriced : Priced feed s) (hasked : Asked feed.candles s regime frame d) {last : Row} {key : String}
    {mult : ℚ} (hlast : frame.getLast? = some last)
    (hkey : key ∈ ["initial_stop_atr_mult", "trailing_stop_atr_mult", "stop_atr_mult"])
    (hmult : s.engine.params.number key = some mult) : 0 < last.close - last.atr * mult := by
  have hdistance := (hpriced last (by rw [rows_eq hasked]; exact hlast)).2 key hkey mult hmult
  exact sub_pos.2 hdistance.2

/-- A tick that buys takes the stop of the entry. -/
theorem stop_entered (hpriced : Priced feed s) (hasked : Asked feed.candles s regime frame d)
    (hflat : s.inPosition = false) (hbuy : d.signal = .buy) : stopOf d ≠ none := by
  obtain ⟨htfBullish, htfSufficient, hanswer⟩ := hasked.answer
  rw [hflat] at hanswer
  cases Engine.decide_flat hanswer with
  | wait reason close => exact absurd hbuy (by cases s.engine.kind <;> exact Signal.noConfusion)
  | enter reason last cooldownBars mult hlast hcooldown hcooled hmult =>
      rw [stopOf_of_pos (stop_pos hpriced hasked hlast ?_ hmult)]
      · exact Option.some_ne_none _
      · unfold entryMult
        split <;> simp

/-- With a position, only an engine that hands its stop on can leave it without one. -/
theorem stop_held (hpriced : Priced feed s) (hasked : Asked feed.candles s regime frame d)
    (hheld : s.inPosition = true) :
    (stopOf d ≠ none ↔ ¬ CarriesNoStop feed.candles s) ∧ d.signal ≠ .buy := by
  obtain ⟨htfBullish, htfSufficient, hanswer⟩ := hasked.answer
  rw [hheld] at hanswer
  have hrow : 1 ≤ frame.length := List.length_pos_iff.2 hasked.nonempty
  rw [CarriesNoStop, rows_eq hasked]
  cases Engine.decide_held hanswer with
  | short reason hshort =>
      have hkind : s.engine.kind = .dualTimeframe := by
        by_contra hkind
        rw [neededRows, if_neg hkind] at hshort
        omega
      rw [neededRows, if_pos hkind] at hshort
      rw [hkind]
      refine ⟨?_, Signal.noConfusion⟩
      cases hstop : s.trailingStop with
      | none => simp [signalDecision, stopOf, hshort]
      | some stop =>
          by_cases hzero : stop = 0
          · simp [signalDecision, stopOf, hshort, hzero]
          · simp [signalDecision, stopOf, hzero]
  | carry signal reason close hkind hrows hsignal =>
      rw [hkind]
      refine ⟨?_, hsignal⟩
      cases s.trailingStop <;> simp [signalDecision, stopOf]
  | trail signal reason last mult next hkind hrows hlast hmult hsignal hnext =>
      have hpos := (stop_pos hpriced hasked hlast (by simp) hmult).trans_le hnext
      rw [stopOf_of_pos hpos]
      refine ⟨⟨fun _ => ?_, fun _ => Option.some_ne_none _⟩, ?_⟩
      · rintro (⟨hmean, -⟩ | ⟨hdual, hshort, -⟩)
        · exact hkind hmean
        · rw [neededRows, if_pos hdual] at hrows
          omega
      · cases s.engine.kind <;> exact hsignal

theorem keepsStop_iff (hasked : Asked feed.candles s regime frame d) :
    KeepsStop feed s ↔
      if s.inPosition then CarriesNoStop feed.candles s → feed.enabled = some true ∧ d.signal = .sell
      else ¬ (feed.enabled = some true ∧ d.signal = .buy ∧ Switching feed (observed regime d s) ∧
        feed.switchStored = true) := by
  unfold KeepsStop
  rw [hasked.decides]
  constructor
  · intro h
    exact h d rfl
  · rintro h d' hd'
    cases hd'
    exact h

/-- What a decided tick does with the stop of a position, when it does not trade. -/
theorem untraded_iff (hpriced : Priced feed s) (hasked : Asked feed.candles s regime frame d)
    (hheld : s.inPosition = true) (huntraded : ¬ (feed.enabled = some true ∧ d.signal = .sell)) :
    stopOf d ≠ none ↔ KeepsStop feed s := by
  rw [keepsStop_iff hasked, if_pos hheld, (stop_held hpriced hasked hheld).1]
  exact ⟨fun hstop hcarries => absurd hcarries hstop, fun hkeeps hcarries => huntraded (hkeeps hcarries)⟩

theorem processTick_iff (py : Python) (hpriced : Priced feed s) :
    ((processTick py feed s).2.log.isSome → (processTick py feed s).1.inPosition = true →
      (processTick py feed s).1.trailingStop ≠ none) ↔ KeepsStop feed s := by
  have hticked := processTick_ticked py feed s
  generalize processTick py feed s = p at hticked
  cases hticked with
  | undecided regime hno =>
      refine ⟨fun _ d hd => ?_, fun _ hlog => Bool.noConfusion hlog⟩
      exact absurd (decision_eq_some.1 hd) (hno d)
  | cut regime frame d hasked henabled =>
      cases hheld : s.inPosition with
      | true =>
          rw [← untraded_iff hpriced hasked hheld (fun h => Option.some_ne_none _ (h.1.symm.trans henabled))]
          exact ⟨fun h => h rfl hheld, fun h _ _ => h⟩
      | false =>
          rw [keepsStop_iff hasked, hheld]
          exact ⟨fun _ h => Option.some_ne_none _ (h.1.symm.trans henabled),
            fun _ _ h => Bool.noConfusion (hheld.symm.trans h)⟩
  | idle regime frame d hasked s' ok hswitch enabled henabled hidle =>
      cases hheld : s.inPosition with
      | true =>
          rw [autoSwitch_held py feed (s := observed regime d s) hheld] at hswitch
          cases hswitch
          rw [← untraded_iff hpriced hasked hheld]
          · exact ⟨fun h => h rfl hheld, fun h _ _ => h⟩
          · rintro ⟨hon, hsell⟩
            rw [henabled] at hon
            exact hidle ⟨rfl, Option.some.inj hon, by rw [hheld]; exact hsell⟩
      | false =>
          have hflag : s'.inPosition = false := (autoSwitch_keeps hswitch).1.trans hheld
          rw [keepsStop_iff hasked, hheld]
          refine ⟨?_, fun _ _ h => Bool.noConfusion (hflag.symm.trans h)⟩
          rintro - ⟨hon, hbuy, hswitching, hstored⟩
          obtain ⟨hno, -⟩ | ⟨-, regime', strategy, params, engine, -, -, -, -, heq⟩ :=
            autoSwitch_cases py feed (observed regime d s)
          · exact hno hswitching
          · rw [hswitch] at heq
            rw [henabled] at hon
            exact hidle ⟨(congrArg Prod.snd heq).trans hstored, Option.some.inj hon, by rw [hheld]; exact hbuy⟩
  | traded regime frame d hasked s' hswitch henabled hsignal =>
      cases hheld : s.inPosition with
      | true =>
          rw [hheld] at hsignal
          rw [keepsStop_iff hasked, hheld]
          exact ⟨fun _ _ => ⟨henabled, hsignal⟩, fun _ _ h => Bool.noConfusion h⟩
      | false =>
          rw [hheld] at hsignal
          have hentered := stop_entered hpriced hasked hheld hsignal
          rw [keepsStop_iff hasked, hheld]
          obtain ⟨hno, ok, heq, -⟩ | ⟨hswitching, regime', strategy, params, engine, -, -, -, -, heq⟩ :=
            autoSwitch_cases py feed (observed regime d s)
          · rw [hswitch] at heq
            cases heq
            exact ⟨fun _ h => hno h.2.2.1, fun _ _ _ => hentered⟩
          · rw [hswitch] at heq
            obtain ⟨rfl, hstored⟩ := Prod.mk.inj heq
            exact ⟨fun h => absurd rfl (h rfl rfl),
              fun h => absurd ⟨henabled, hsignal, hswitching, hstored.symm⟩ h⟩

end Stops

section Runs

variable (py : Python)

theorem holdsStop_iff {x : Option Live} {l : Label} (hpriced : OnTick py Priced x l) :
    HoldsStop py x l ↔ OnTick py KeepsStop x l := by
  cases l with
  | start stored symbol openPositions => exact Iff.rfl
  | round r =>
      refine forall₂_congr (fun s hs => ?_)
      cases hhandled : handled py r s with
      | none =>
          rw [(run_unhandled hhandled).1]
          exact ⟨fun _ p hp => absurd hp.symm (Option.some_ne_none p), fun _ h => Bool.noConfusion h⟩
      | some p =>
          rw [(run_handled hhandled).1, processTick_iff py (hpriced s hs p hhandled)]
          constructor
          · rintro h _ hp
            cases hp
            exact h
          · intro h
            exact h p rfl

/-- Along every run, positions are held with a stop exactly as long as no tick carries a
missing stop on and none buys while the strategy is switched. -/
theorem positions_hold_stop_iff (x : Option Live) (ls : List Label)
    (hpriced : AlongRun (step py) (OnTick py Priced) x ls) :
    AlongRun (step py) (HoldsStop py) x ls ↔ AlongRun (step py) (OnTick py KeepsStop) x ls :=
  alongRun_congr (P := fun _ => True) (fun _ _ _ _ => trivial) (fun _ _ _ h => holdsStop_iff py h) trivial hpriced

/-- A restart into mean reversion with an open row, and a tick on which it holds. -/
def restartedHeld : List Label :=
  [.start (some "mean_reversion") "BTCUSDT" (some [(Executor.longPosition "BTCUSDT" 30000 1).row "a" 1]),
    .round { tick := some { candles := .read none (some [{ close := 100, atr := 2, rsi := 50, bbMid := 110 }]) 0 none } }]

theorem restarted_without_stop :
    AlongRun (step wordless) (OnTick wordless Priced) none restartedHeld ∧
      ¬ AlongRun (step wordless) (HoldsStop wordless) none restartedHeld := by
  decide +kernel

/-- The same restart into the default strategy, which sets a stop on its first tick. -/
def restartedTrailing : List Label :=
  [.start none "BTCUSDT" (some [(Executor.longPosition "BTCUSDT" 30000 1).row "a" 1]),
    .round { tick := some { candles := .read none (some [{ close := 100, atr := 2, trendGapPct := 1 / 100 }]) 0 none } }]

theorem positions_hold_stop_trailing : AlongRun (step wordless) (HoldsStop wordless) none restartedTrailing :=
  (positions_hold_stop_iff wordless none restartedTrailing (by decide +kernel)).2 (by decide +kernel)

end Runs

end Autr.Services.HeldStop
