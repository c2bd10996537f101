import Autr.Async.Runs
import Autr.Services.UnchangedCandle

namespace Autr.Services.StopRatchet

open Autr.Async StrategyConsumer ConsumerLoop Strategies StrategyParams Engines UnchangedCandle

/-- The stop that a decided tick proposes: the last close of its frame less the trailing
distance. A frame counts from the number of rows given for the engine. -/
def proposal (rows : EngineKind → ℕ) (feed : Feed) (s : Live) : Option ℚ := do
  let _ ← (ConsumerLoop.decide feed.candles s).2.decision
  if rows s.engine.kind ≤ feed.candles.rows.length then
    let last ← feed.candles.rows.getLast?
    let mult ← s.engine.params.number "trailing_stop_atr_mult"
    return last.close - last.atr * mult
  else none

variable (py : Python)

/-- What the rounds of a run propose, one after another. -/
def proposals (rows : EngineKind → ℕ) : List Round → Live → List ℚ
  | [], _ => []
  | r :: rs, s =>
      ((handled py r s).bind (fun p => proposal rows p.1 p.2)).toList ++ proposals rows rs (run py r s).1

def highest (entry : ℚ) (stops : List ℚ) : ℚ := stops.foldl max entry

/-- The round brings no change of strategy. -/
def Unswitched (r : Round) (s : Live) : Prop :=
  ∀ requested ∈ r.requested, checkStrategyChange py requested s = (s, true)

def Silent (r : Round) (s : Live) : Prop := (run py r s).2.push = none

/-- The closed form of the stop after the rounds and one more, which sells when its close
is not above that stop. -/
structure Ratcheted (rows : EngineKind → ℕ) (entry : ℚ) (rs : List Round) (r : Round) (s : Live) : Prop where
  before : (rs.foldl (fun s r => (run py r s).1) s).trailingStop = some (highest entry (proposals py rows rs s))
  after : ((rs ++ [r]).foldl (fun s r => (run py r s).1) s).trailingStop =
    some (highest entry (proposals py rows (rs ++ [r]) s))
  rising : highest entry (proposals py rows rs s) ≤ highest entry (proposals py rows (rs ++ [r]) s)
  sells : ∀ p ∈ handled py r (rs.foldl (fun s r => (run py r s).1) s), ∀ last ∈ p.1.candles.rows.getLast?,
    (proposal rows p.1 p.2).isSome → p.1.enabled = some true →
      last.close ≤ highest entry (proposals py rows (rs ++ [r]) s) →
        ∃ m, (run py r (rs.foldl (fun s r => (run py r s).1) s)).2.push = some (m, p.1.pushed) ∧ m.side = .sell

/-- A tick buys with a positive entry stop, and does not switch the strategy. -/
structure Entered (feed : Feed) (s : Live) (entry : ℚ) : Prop where
  trails : s.engine.kind ≠ .meanReversion
  buys : ∃ m ok, (processTick py feed s).2.push = some (m, ok) ∧ m.side = .buy
  unswitched : ¬ Switching feed (ConsumerLoop.decide feed.candles s).1
  stop : ∃ d, (ConsumerLoop.decide feed.candles s).2 = .decided d ∧ decidedStop s.engine.kind d = some entry
  pos : 0 < entry

/-- The strategy stays the same over the rounds and one more, before which nothing is sold. -/
def Undisturbed (rs : List Round) (r : Round) (s : Live) : Prop :=
  AlongRun (fun s r => (run py r s).1) (fun s r => Unswitched py r s ∧ Silent py r s) s rs ∧
    Unswitched py r (rs.foldl (fun s r => (run py r s).1) s)

/-- A position of an engine that trails its stop, with that stop. -/
structure Trailing (e : Engine) (x : ℚ) (s : Live) : Prop where
  engine : s.engine = e
  held : s.inPosition = true
  stop : s.trailingStop = some x
  pos : 0 < x

section Tick

variable {py} {e : Engine} {x : ℚ} {feed : Feed} {s : Live} {r : Round}

theorem le_highest (entry : ℚ) (stops : List ℚ) : entry ≤ highest entry stops := by
  induction stops generalizing entry with
  | nil => exact le_rfl
  | cons stop stops ih => exact (le_max_left entry stop).trans (ih (max entry stop))

theorem highest_append (entry : ℚ) (stops stops' : List ℚ) :
    highest entry (stops ++ stops') = highest (highest entry stops) stops' := List.foldl_append

/-- What a decision on the tick of a position makes of its stop. -/
theorem stopOf_trailing (hkind : e.kind ≠ .meanReversion) (h : Trailing e x s) {d : Decision}
    (hd : (ConsumerLoop.decide feed.candles s).2 = .decided d) :
    stopOf d = some (highest x (proposal neededRows feed s).toList) ∧
      ∀ last ∈ feed.candles.rows.getLast?, (proposal neededRows feed s).isSome →
        last.close ≤ highest x (proposal neededRows feed s).toList → d.signal = .sell := by
  have hanswer := decide_answer hd
  rw [h.engine, h.held, h.stop] at hanswer
  have hproposal : proposal neededRows feed s =
      if neededRows e.kind ≤ feed.candles.rows.length then (do
        let last ← feed.candles.rows.getLast?
        let mult ← e.params.number "trailing_stop_atr_mult"
        return last.close - last.atr * mult)
      else none := by
    rw [← h.engine, proposal, hd]
    rfl
  cases Engine.decide_trailing hkind h.pos hanswer with
  | short reason hshort =>
      have hnone : proposal neededRows feed s = none := by
        rw [hproposal, if_neg hshort.not_ge]
      rw [hnone]
      exact ⟨stopOf_of_pos h.pos, fun last _ hsome => absurd hsome Bool.false_ne_true⟩
  | trail signal reason last mult hrows hlast hmult hsignal hsell =>
      have hsome : proposal neededRows feed s = some (last.close - last.atr * mult) := by
        rw [hproposal, if_pos hrows, hlast, hmult]
        rfl
      rw [hsome]
      refine ⟨stopOf_of_pos (h.pos.trans_le (le_max_left _ _)), fun last' hlast' _ hclose => ?_⟩
      rw [hlast] at hlast'
      cases hlast'
      rw [signalDecision_signal]
      exact hsell hclose

/-- What a round, or the tick it handles, does to a trailing position: the stop follows the
proposal, and the position goes on unless a signal is pushed. -/
structure Follows (e : Engine) (y : ℚ) (x' : Live × Report) : Prop where
  stop : x'.1.trailingStop = some y
  goesOn : x'.2.push = none → Trailing e y x'.1

theorem processTick_follows (hkind : e.kind ≠ .meanReversion) (h : Trailing e x s) :
    Follows e (highest x (proposal neededRows feed s).toList) (processTick py feed s) := by
  have hpos := h.pos.trans_le (le_highest x (proposal neededRows feed s).toList)
  have hticked := processTick_ticked py feed s
  generalize processTick py feed s = p at hticked
  cases hticked with
  | undecided regime hno =>
      have hnone : proposal neededRows feed s = none := by
        unfold proposal
        cases hdecide : (ConsumerLoop.decide feed.candles s).2 with
        | raised | nothing => rfl
        | decided d => exact absurd hdecide (hno d)
      rw [hnone]
      exact ⟨h.stop, fun _ => ⟨h.engine, h.held, h.stop, h.pos⟩⟩
  | cut regime frame d hasked henabled =>
      have hstop := (stopOf_trailing hkind h (by rw [hasked.decides])).1
      exact ⟨hstop, fun _ => ⟨h.engine, h.held, hstop, hpos⟩⟩
  | idle regime frame d hasked s' ok hswitch =>
      have hstop := (stopOf_trailing hkind h (by rw [hasked.decides])).1
      rw [autoSwitch_held py feed (s := observed regime d s) h.held] at hswitch
      cases hswitch
      exact ⟨hstop, fun _ => ⟨h.engine, h.held, hstop, hpos⟩⟩
  | traded regime frame d hasked s' hswitch =>
      have hstop := (stopOf_trailing hkind h (by rw [hasked.decides])).1
      rw [autoSwitch_held py feed (s := observed regime d s) h.held] at hswitch
      cases hswitch
      exact ⟨hstop, fun hnone => absurd hnone (Option.some_ne_none _)⟩

/-- With trading enabled, a close that is not above the stop is sold at once. -/
theorem processTick_sells (hkind : e.kind ≠ .meanReversion) (h : Trailing e x s) {last : Row}
    (hlast : last ∈ feed.candles.rows.getLast?) (hproposal : (proposal neededRows feed s).isSome)
    (henabled : feed.enabled = some true)
    (hclose : last.close ≤ highest x (proposal neededRows feed s).toList) :
    ∃ m, (processTick py feed s).2.push = some (m, feed.pushed) ∧ m.side = .sell := by
  have hticked := processTick_ticked py feed s
  generalize processTick py feed s = p at hticked
  cases hticked with
  | undecided regime hno =>
      unfold proposal at hproposal
      cases hdecide : (ConsumerLoop.decide feed.candles s).2 with
      | raised | nothing =>
          rw [hdecide] at hproposal
          cases hproposal
      | decided d => exact absurd hdecide (hno d)
  | cut regime frame d hasked hcut => exact absurd (henabled.symm.trans hcut) (Option.some_ne_none _)
  | idle regime frame d hasked s' ok hswitch enabled hread hidle =>
      have hsell := (stopOf_trailing hkind h (by rw [hasked.decides])).2 last hlast hproposal hclose
      rw [autoSwitch_held py feed (s := observed regime d s) h.held] at hswitch
      cases hswitch
      have hon : enabled = true := Option.some.inj (hread.symm.trans henabled)
      exact absurd ⟨rfl, hon, by rw [h.held]; exact hsell⟩ hidle
  | traded regime frame d hasked s' hswitch hread hsignal =>
      refine ⟨_, rfl, ?_⟩
      rw [h.held]
      rfl

theorem run_unswitched (hr : Unswitched py r s) :
    run py r s = match handled py r s with
      | some p => processTick py p.1 p.2
      | none => (s, {}) := by
  unfold run handled
  cases r.alive with
  | false => rfl
  | true =>
      cases hrequested : r.requested with
      | none => rfl
      | some requested =>
          dsimp only
          cases r.tick <;> simp only [hr requested hrequested]

theorem handled_unswitched (hr : Unswitched py r s) {p : Feed × Live} (hp : handled py r s = some p) : p.2 = s := by
  unfold handled at hp
  split at hp
  next requested feed halive hrequested htick =>
    rw [hr requested hrequested] at hp
    cases hp
    rfl
  · cases hp

theorem run_follows (hkind : e.kind ≠ .meanReversion) (h : Trailing e x s) (hr : Unswitched py r s) :
    Follows e (highest x (proposals py neededRows [r] s)) (run py r s) := by
  rw [run_unswitched hr, proposals, proposals, List.append_nil]
  cases hhandled : handled py r s with
  | none => exact ⟨h.stop, fun _ => h⟩
  | some p =>
      obtain ⟨feed, s'⟩ := p
      obtain rfl : s' = s := handled_unswitched hr hhandled
      exact processTick_follows hkind h

theorem proposals_append (rows : EngineKind → ℕ) (rs rs' : List Round) (s : Live) :
    proposals py rows (rs ++ rs') s =
      proposals py rows rs s ++ proposals py rows rs' (rs.foldl (fun s r => (run py r s).1) s) := by
  induction rs generalizing s with
  | nil => rfl
  | cons r rs ih => rw [List.cons_append, proposals, proposals, ih, List.append_assoc, List.foldl_cons]

theorem proposals_cons (rows : EngineKind → ℕ) (r : Round) (rs : List Round) (s : Live) :
    proposals py rows (r :: rs) s = proposals py rows [r] s ++ proposals py rows rs (run py r s).1 :=
  proposals_append rows [r] rs s

/-- As long as nothing is sold and no strategy is changed, the position trails its stop. -/
theorem runs_trailing (hkind : e.kind ≠ .meanReversion) {rs : List Round} (h : Trailing e x s)
    (hrs : AlongRun (fun s r => (run py r s).1) (fun s r => Unswitched py r s ∧ Silent py r s) s rs) :
    Trailing e (highest x (proposals py neededRows rs s)) (rs.foldl (fun s r => (run py r s).1) s) := by
  induction rs generalizing x s with
  | nil => exact h
  | cons r rs ih =>
      obtain ⟨⟨hunswitched, hsilent⟩, hrs⟩ := hrs
      rw [proposals_cons, highest_append]
      exact ih ((run_follows hkind h hunswitched).goesOn hsilent) hrs

theorem trailing_of_entered {entry : ℚ} (h : Entered py feed s entry) :
    Trailing s.engine entry (processTick py feed s).1 := by
  obtain ⟨m, ok, hpush, hside⟩ := h.buys
  obtain ⟨d, hdecided, hentry⟩ := h.stop
  obtain ⟨d', hbought⟩ := bought_of_push hpush hside h.unswitched
  obtain rfl : d' = d := Outcome.decided.inj (hbought.decided.symm.trans hdecided)
  have hanswer := decide_answer hbought.decided
  rw [hbought.flat] at hanswer
  refine ⟨hbought.engine, hbought.held, ?_, h.pos⟩
  rw [hbought.stop]
  cases Engine.decide_flat hanswer with
  | wait reason close => exact absurd ((signalDecision_signal ..).symm.trans hbought.signal) (by decide)
  | enter reason last cooldownBars mult =>
      rw [decidedStop_signalDecision] at hentry
      rw [hentry]
      exact stopOf_of_pos h.pos

end Tick

/-- From the tick that buys on, the stop is the highest of the entry stop and what the ticks
on enough rows have proposed since, and a close that is not above it is sold at once. -/
theorem stop_ratchets (py : Python) {feed : Feed} {s : Live} {entry : ℚ} {rs : List Round} {r : Round}
    (hentered : Entered py feed s entry) (hrun : Undisturbed py rs r (processTick py feed s).1) :
    (processTick py feed s).1.trailingStop = some entry ∧
      Ratcheted py neededRows entry rs r (processTick py feed s).1 := by
  obtain ⟨hrs, hr⟩ := hrun
  have hstart := trailing_of_entered hentered
  have hend := runs_trailing hentered.trails hstart hrs
  have hlast := run_follows hentered.trails hend hr
  rw [← highest_append, ← proposals_append] at hlast
  refine ⟨hstart.stop, hend.stop, ?_, ?_, ?_⟩
  · rw [List.foldl_append]
    exact hlast.stop
  · rw [proposals_append, highest_append]
    exact le_highest _ _
  · intro p hp last hlast hproposal henabled hclose
    obtain ⟨feed', s'⟩ := p
    have hs' := handled_unswitched hr hp
    rw [run_unswitched hr, hp]
    rw [proposals_append, highest_append, proposals, proposals, List.append_nil, hp] at hclose
    dsimp only at hs' hproposal hlast hclose ⊢
    subst hs'
    exact processTick_sells hentered.trails hend hlast hproposal henabled hclose

/-- A tick on which the dual-timeframe engine buys, with its stop at 96. -/
def dualEntry : Feed where
  candles := .read none
    (some [{ close := 99, atr := 2, rsi := 30 }, { close := 100, atr := 2, rsi := 50, ema := 90 }]) 1
    (some (true, true))

/-- A tick whose frame has one row, of a close below the stop. -/
def crash : Feed where
  candles := .read none (some [{ close := 50, atr := 2, rsi := 20, ema := 90 }]) 2 (some (true, true))

theorem dualEntry_entered : ∀ s ∈ main wordless (some "dual_timeframe") "BTCUSDT", Entered wordless dualEntry s 96 := by
  have hbuys : ∀ s ∈ main wordless (some "dual_timeframe") "BTCUSDT", s.engine.kind ≠ .meanReversion ∧
      (processTick wordless dualEntry s).2.push.map (fun p => p.1.side) = some .buy ∧
        ¬ Switching dualEntry (ConsumerLoop.decide dualEntry.candles s).1 ∧
          (ConsumerLoop.decide dualEntry.candles s).2.decision.map (decidedStop s.engine.kind) = some (some 96) := by
    decide +kernel
  intro s hs
  obtain ⟨htrails, hbuy, hunswitched, hstop⟩ := hbuys s hs
  obtain ⟨⟨m, ok⟩, hpush, hside⟩ := Option.map_eq_some_iff.1 hbuy
  obtain ⟨d, hdecision, hentry⟩ := Option.map_eq_some_iff.1 hstop
  exact ⟨htrails, ⟨m, ok, hpush, hside⟩, hunswitched, ⟨d, decision_eq_some.1 hdecision, hentry⟩, by decide +kernel⟩

theorem undisturbed_once (r : Round) (hr : r.requested = some none) (s : Live) : Undisturbed wordless [] r s := by
  refine ⟨trivial, fun requested hrequested => ?_⟩
  rw [hr] at hrequested
  cases hrequested
  rfl

/-- Counting the frame of one row too, the close below the stop is not sold. -/
theorem crash_not_sold : ∃ s ∈ main wordless (some "dual_timeframe") "BTCUSDT",
    Entered wordless dualEntry s 96 ∧
      Undisturbed wordless [] { tick := some crash } (processTick wordless dualEntry s).1 ∧
      ¬ Ratcheted wordless (fun _ => 1) 96 [] { tick := some crash } (processTick wordless dualEntry s).1 := by
  have hcrash : ∀ s ∈ main wordless (some "dual_timeframe") "BTCUSDT",
      (run wordless { tick := some crash } (processTick wordless dualEntry s).1).2.push.isNone ∧
        (proposal (fun _ => 1) crash (processTick wordless dualEntry s).1).isSome ∧
          50 ≤ highest 96 (proposals wordless (fun _ => 1) [{ tick := some crash }]
            (processTick wordless dualEntry s).1) := by
    decide +kernel
  refine ⟨_, rfl, dualEntry_entered _ rfl, undisturbed_once _ rfl _, fun hratcheted => ?_⟩
  obtain ⟨hnone, hproposal, hclose⟩ := hcrash _ rfl
  obtain ⟨m, hpush, -⟩ := hratcheted.sells _ rfl _ rfl hproposal rfl hclose
  rw [List.foldl_nil] at hpush
  rw [hpush] at hnone
  cases hnone

/-- The same close on a frame of two rows. -/
def crashSeen : Feed where
  candles := .read none
    (some [{ close := 100, atr := 2, rsi := 50 }, { close := 50, atr := 2, rsi := 20, ema := 90 }]) 2
    (some (true, true))

theorem crash_sold : ∃ s ∈ main wordless (some "dual_timeframe") "BTCUSDT",
    Ratcheted wordless neededRows 96 [] { tick := some crashSeen } (processTick wordless dualEntry s).1 :=
  ⟨_, rfl, (stop_ratchets wordless (dualEntry_entered _ rfl) (undisturbed_once _ rfl _)).2⟩

end Autr.Services.StopRatchet
