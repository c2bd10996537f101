import Autr.Async.Runs
import Autr.Services.ConsumerLoop

namespace Autr.Services.Cooldown

open Autr.Async Autr.Infra TradeTracker Bybit StrategyConsumer ConsumerLoop Strategies StrategyParams Engines

/-- The consumer, the candle of the last sell it published with the ticks decided on since,
and the newest candle decided on. -/
structure Clocked where
  consumer : Live
  lastSell : Option (ℚ × ℕ)
  latest : Option ℚ

variable (py : Python)

/-- The newest candle of the tick that a round handles. -/
def newest (round : Round) (s : Live) : Option ℚ :=
  (handled py round s).bind (fun p => p.1.candles.newest.map Int.cast)

def Clocked.step (x : Clocked) (round : Round) : Clocked :=
  let r := run py round x.consumer
  if r.2.log.isSome then
    { consumer := r.1
      lastSell :=
        if r.2.published.any (fun m => m.side = .sell) then (newest py round x.consumer).map (·, 0)
        else x.lastSell.map (fun sold => (sold.1, sold.2 + 1))
      latest := newest py round x.consumer }
  else { x with consumer := r.1 }

/-- Every tick is decided on by an engine with this cooldown. -/
def CoolsFor (c : ℚ) (x : Clocked) (round : Round) : Prop :=
  ∀ p ∈ handled py round x.consumer, p.2.engine.params.number "cooldown_bars" = some c

/-- A published buy keeps the cooldown in candles since the last published sell. -/
def Cooled (c interval : ℚ) (x : Clocked) (round : Round) : Prop :=
  ∀ m ∈ (run py round x.consumer).2.published, m.side = .buy →
    ∀ sold ∈ x.lastSell, ∀ candle ∈ newest py round x.consumer, sold.1 + c * interval ≤ candle

/-- A consumer without a position that has decided on as many ticks since its last sell as
the cooldown has bars finds as many candles passed. -/
def InStep (c interval : ℚ) (x : Clocked) (round : Round) : Prop :=
  x.consumer.inPosition = false → ∀ sold ∈ x.lastSell, c ≤ sold.2 →
    ∀ candle ∈ newest py round x.consumer, sold.1 + c * interval ≤ candle

instance (c : ℚ) (x : Clocked) (round : Round) : Decidable (CoolsFor py c x round) :=
  inferInstanceAs (Decidable (∀ p ∈ handled py round x.consumer, _ = _))

instance (c interval : ℚ) (x : Clocked) (round : Round) : Decidable (Cooled py c interval x round) :=
  inferInstanceAs (Decidable (∀ m ∈ (run py round x.consumer).2.published, _ → ∀ sold ∈ x.lastSell,
    ∀ candle ∈ newest py round x.consumer, _ ≤ _))

instance (c interval : ℚ) (x : Clocked) (round : Round) : Decidable (InStep py c interval x round) :=
  inferInstanceAs (Decidable (_ → ∀ sold ∈ x.lastSell, _ → ∀ candle ∈ newest py round x.consumer, _ ≤ _))

/-- Without a position, the bar counter is at most the ticks since the last published sell. -/
def Counted (x : Clocked) : Prop :=
  x.consumer.inPosition = false → ∀ sold ∈ x.lastSell, x.consumer.barsSinceTrade ≤ sold.2

variable {py}

theorem processTick_bars (py : Python) (feed : Feed) (s : Live) :
    ((processTick py feed s).2 = {} ∧ (processTick py feed s).1.barsSinceTrade = s.barsSinceTrade ∧
      (processTick py feed s).1.inPosition = s.inPosition) ∨
    ((processTick py feed s).2.log.isSome ∧ (processTick py feed s).2.push = none ∧
      (processTick py feed s).1.barsSinceTrade = s.barsSinceTrade + 1 ∧
      (processTick py feed s).1.inPosition = s.inPosition) ∨
    ((processTick py feed s).2.log.isSome ∧ (processTick py feed s).1.barsSinceTrade = 0 ∧
      ∃ m ok, (processTick py feed s).2.push = some (m, ok) ∧ m.side = turning s.inPosition ∧
        (m.side = .buy → ∀ c, s.engine.params.number "cooldown_bars" = some c → c ≤ s.barsSinceTrade)) := by
  have hticked := processTick_ticked py feed s
  generalize processTick py feed s = p at hticked
  cases hticked with
  | undecided regime hno => exact .inl ⟨rfl, rfl, rfl⟩
  | cut regime frame d hasked henabled => exact .inr (.inl ⟨rfl, rfl, rfl, rfl⟩)
  | idle regime frame d hasked s' ok hswitch enabled henabled hidle =>
      obtain ⟨hflag, hbars, -⟩ := autoSwitch_keeps hswitch
      exact .inr (.inl ⟨rfl, rfl, hbars, hflag⟩)
  | traded regime frame d hasked s' hswitch henabled hsignal =>
      refine .inr (.inr ⟨rfl, rfl, _, _, rfl, rfl, fun hbuy c hc => ?_⟩)
      have hflat : s.inPosition = false := by
        cases hheld : s.inPosition with
        | false => rfl
        | true => exact absurd (show turning true = .buy from hheld ▸ hbuy) (by decide)
      obtain ⟨htfBullish, htfSufficient, hanswer⟩ := hasked.answer
      rw [hflat] at hanswer hsignal
      cases Engine.decide_flat hanswer with
      | wait reason close => exact absurd ((signalDecision_signal ..).symm.trans hsignal) (by decide)
      | enter reason last cooldownBars mult hlast hcooldown hcooled hmult =>
          rw [hcooldown] at hc
          cases hc
          exact hcooled

theorem step_silent {x : Clocked} {round : Round} (h : (run py round x.consumer).2 = {}) :
    x.step py round = { x with consumer := (run py round x.consumer).1 } := by
  unfold Clocked.step
  simp only [h]
  rfl

theorem step_logged {x : Clocked} {round : Round} (h : (run py round x.consumer).2.log.isSome) :
    x.step py round =
      { consumer := (run py round x.consumer).1
        lastSell :=
          if (run py round x.consumer).2.published.any (fun m => m.side = .sell) then
            (newest py round x.consumer).map (·, 0)
          else x.lastSell.map (fun sold => (sold.1, sold.2 + 1))
        latest := newest py round x.consumer } := by
  unfold Clocked.step
  exact if_pos h

theorem step_counted {x : Clocked} (hx : Counted x) (round : Round) : Counted (x.step py round) := by
  cases hhandled : handled py round x.consumer with
  | none =>
      obtain ⟨hreport, hflag, hbars⟩ := run_unhandled hhandled
      rw [step_silent hreport]
      intro hflat sold hsold
      rw [hbars]
      exact hx (hflag.symm.trans hflat) sold hsold
  | some p =>
      obtain ⟨feed, s₁⟩ := p
      obtain ⟨hrun, hflag, hbars⟩ := run_handled hhandled
      obtain ⟨hreport, hbars', hflag'⟩ | ⟨hlog, hpush, hbars', hflag'⟩ | ⟨hlog, hbars', -⟩ :=
        processTick_bars py feed s₁
      · rw [step_silent (hrun ▸ hreport), hrun]
        intro hflat sold hsold
        rw [hbars', hbars]
        exact hx ((hflag'.trans hflag).symm.trans hflat) sold hsold
      · rw [step_logged (hrun ▸ hlog), hrun, Report.published, hpush]
        intro hflat sold hsold
        obtain ⟨before, hbefore, rfl⟩ := Option.map_eq_some_iff.1 hsold
        rw [hbars', hbars]
        exact Nat.succ_le_succ (hx ((hflag'.trans hflag).symm.trans hflat) before hbefore)
      · rw [step_logged (hrun ▸ hlog), hrun]
        intro _ sold _
        rw [hbars']
        exact Nat.zero_le _

theorem cooled_of_counted {x : Clocked} {round : Round} {c interval : ℚ} (hx : Counted x)
    (hcools : CoolsFor py c x round) (hclock : InStep py c interval x round) : Cooled py c interval x round := by
  intro m hm hbuy sold hsold
  cases hhandled : handled py round x.consumer with
  | none =>
      rw [(run_unhandled hhandled).1] at hm
      cases hm
  | some p =>
      obtain ⟨feed, s₁⟩ := p
      obtain ⟨hrun, hflag, hbars⟩ := run_handled hhandled
      rw [hrun] at hm
      obtain ⟨hreport, -⟩ | ⟨-, hpush, -⟩ | ⟨-, -, m', ok, hpush, hside, hbought⟩ :=
        processTick_bars py feed s₁
      · rw [hreport] at hm
        cases hm
      · rw [Report.published, hpush] at hm
        cases hm
      · have hmm : m = m' := by
          rw [Report.published, hpush] at hm
          cases ok with
          | true => exact (Option.some.inj hm).symm
          | false => cases hm
        subst hmm
        have hflat : x.consumer.inPosition = false := by
          rw [← hflag]
          exact (turning_eq_buy s₁.inPosition).1 (hside.symm.trans hbuy)
        have hcooled : c ≤ x.consumer.barsSinceTrade := hbars ▸ hbought hbuy c (hcools (feed, s₁) hhandled)
        have hcounted : (x.consumer.barsSinceTrade : ℚ) ≤ sold.2 := Nat.cast_le.2 (hx hflat sold hsold)
        exact hclock hflat sold hsold (hcooled.trans hcounted)

/-- In every run in which the candles keep up with the ticks that follow a sell, a buy comes
the cooldown in candles after it. -/
theorem buys_cooled (py : Python) (s : Live) (c interval : ℚ) (rounds : List Round)
    (hcools : AlongRun (Clocked.step py) (CoolsFor py c) ⟨s, none, none⟩ rounds)
    (hclock : AlongRun (Clocked.step py) (InStep py c interval) ⟨s, none, none⟩ rounds) :
    AlongRun (Clocked.step py) (Cooled py c interval) ⟨s, none, none⟩ rounds :=
  alongRun_of_step (P := Counted) (fun _ round hx _ => step_counted hx round)
    (fun _ _ hx hround => cooled_of_counted hx hround.1 hround.2)
    (fun _ _ hsold => absurd hsold.symm (Option.some_ne_none _)) (hcools.and hclock)

/-- A closing price of 100 lets the default strategy buy, and one of 90 makes it sell at its stop. -/
def tickAt (candle : ℤ) (close : ℚ) : Round :=
  { tick := some { candles := .read none (some [{ close, atr := 2, trendGapPct := 1 / 100, emaFast := 99 }]) candle none } }

theorem buys_cooled_later : ∃ s ∈ main wordless none "BTCUSDT",
    AlongRun (Clocked.step wordless) (Cooled wordless 2 900000) ⟨s, none, none⟩
      [tickAt 0 100, tickAt 900000 90, tickAt 1800000 90, tickAt 2700000 90, tickAt 3600000 100] :=
  ⟨_, rfl, buys_cooled wordless _ 2 900000 _ (by decide +kernel) (by decide +kernel)⟩

/-- Five ticks of one candle: a buy, a sell, and a buy again. -/
theorem buys_within_candle : ∃ s ∈ main wordless none "BTCUSDT",
    AlongRun (Clocked.step wordless) (CoolsFor wordless 2) ⟨s, none, none⟩
        [tickAt 0 100, tickAt 0 90, tickAt 0 90, tickAt 0 90, tickAt 0 100] ∧
      ¬ AlongRun (Clocked.step wordless) (Cooled wordless 2 900000) ⟨s, none, none⟩
        [tickAt 0 100, tickAt 0 90, tickAt 0 90, tickAt 0 90, tickAt 0 100] := by
  refine ⟨_, rfl, ?_, ?_⟩ <;> decide +kernel

section Candles

/-- A tick comes at least a candle after the last one decided on. -/
def Advances (py : Python) (interval : ℚ) (x : Clocked) (round : Round) : Prop :=
  ∀ before ∈ x.latest, ∀ candle ∈ newest py round x.consumer, before + interval ≤ candle

/-- The ticks since the last published sell have each brought a candle. -/
def Spread (interval : ℚ) (x : Clocked) : Prop :=
  ∀ sold ∈ x.lastSell, ∃ before ∈ x.latest, sold.1 + sold.2 * interval ≤ before

theorem newest_of_logged {round : Round} {s : Live} (h : (run py round s).2.log.isSome) :
    ∃ candle, newest py round s = some candle := by
  cases hhandled : handled py round s with
  | none =>
      rw [(run_unhandled hhandled).1] at h
      exact Bool.noConfusion h
  | some p =>
      obtain ⟨feed, s₁⟩ := p
      rw [(run_handled hhandled).1] at h
      have hread : ∃ regime frame d, Asked feed.candles s₁ regime frame d := by
        have hticked := processTick_ticked py feed s₁
        generalize processTick py feed s₁ = p at h hticked
        cases hticked with
        | undecided => exact Bool.noConfusion h
        | cut regime frame d hasked | idle regime frame d hasked | traded regime frame d hasked =>
            exact ⟨regime, frame, d, hasked⟩
      obtain ⟨regime, frame, d, hasked⟩ := hread
      obtain ⟨candle, htf, hcandles⟩ := hasked.read
      refine ⟨candle, ?_⟩
      rw [newest, hhandled, Option.bind_some, hcandles]
      rfl

theorem step_spread {x : Clocked} {round : Round} {interval : ℚ} (hx : Spread interval x)
    (hround : Advances py interval x round) : Spread interval (x.step py round) := by
  by_cases hlog : (run py round x.consumer).2.log.isSome
  · obtain ⟨candle, hcandle⟩ := newest_of_logged hlog
    rw [step_logged hlog, hcandle]
    intro sold hsold
    refine ⟨candle, rfl, ?_⟩
    dsimp only at hsold
    split at hsold
    · cases hsold
      simp
    · obtain ⟨before, hbefore, rfl⟩ := Option.map_eq_some_iff.1 hsold
      obtain ⟨latest, hlatest, hspread⟩ := hx before hbefore
      have hstep := hround latest hlatest candle hcandle
      push_cast
      linarith
  · have hsilent : (run py round x.consumer).2 = {} := silent_of_unlogged hlog
    rw [step_silent hsilent]
    exact hx

/-- When every candle brings one tick, the ticks since a sell measure the candles since. -/
theorem inStep_of_candles (py : Python) (s : Live) (c : ℚ) {interval : ℚ} (hinterval : 0 ≤ interval)
    (rounds : List Round) (hadvances : AlongRun (Clocked.step py) (Advances py interval) ⟨s, none, none⟩ rounds) :
    AlongRun (Clocked.step py) (InStep py c interval) ⟨s, none, none⟩ rounds := by
  refine alongRun_of_step (P := Spread interval) (fun _ _ hx hround => step_spread hx hround) ?_
    (fun _ hsold => absurd hsold.symm (Option.some_ne_none _)) hadvances
  intro x round hx hround _ sold hsold hcount candle hcandle
  obtain ⟨latest, hlatest, hspread⟩ := hx sold hsold
  have hstep := hround latest hlatest candle hcandle
  have hmul : c * interval ≤ sold.2 * interval := mul_le_mul_of_nonneg_right hcount hinterval
  linarith

end Candles

end Autr.Services.Cooldown
