import Autr.Services.ConsumerLoop
import Autr.Store.Alternation

namespace Autr.Services.SignalAlternation

open Autr.Infra TradeTracker Bybit StrategyConsumer ConsumerLoop Store Alternation Strategies StrategyParams Engines

/-- The signals that a run tried to push, each with whether it went through. -/
def attempts (rs : List Report) : List (Message × Bool) := rs.filterMap Report.push

def enqueued (rs : List Report) : List Message := rs.filterMap Report.published

def other : Side → Side
  | .buy => .sell
  | .sell => .buy

theorem other_iff (a b : Side) : b = other a ↔ b ≠ a := by
  cases a <;> cases b <;> decide

theorem turning_not (inPosition : Bool) : turning (!inPosition) = other (turning inPosition) := by
  cases inPosition <;> rfl

theorem turning_buy (inPosition : Bool) (side : Side) :
    side = turning inPosition ↔ (side = .buy ↔ inPosition = false) := by
  cases inPosition <;> cases side <;> decide

theorem attempts_alternate (py : Python) (rounds : List Round) (s : Live) :
    Alternates other (turning s.inPosition) ((attempts (reports py rounds s)).map (fun p => p.1.side)) := by
  induction rounds generalizing s with
  | nil => trivial
  | cons round rounds ih =>
      rw [reports, attempts]
      obtain ⟨hpush, hflag⟩ | ⟨m, ok, hpush, hside, hflag⟩ := run_flag py round s
      · rw [List.filterMap_cons_none hpush, ← hflag]
        exact ih _
      · rw [List.filterMap_cons_some hpush]
        refine ⟨hside, ?_⟩
        rw [← turning_not, ← hflag]
        exact ih _

theorem kept_sides (rs : List Report) :
    kept ((attempts rs).map (fun p => (p.1.side, p.2))) = (enqueued rs).map Message.side := by
  induction rs with
  | nil => rfl
  | cons r rs ih =>
      cases hpush : r.push with
      | none =>
          rw [attempts, enqueued, List.filterMap_cons_none hpush,
            List.filterMap_cons_none (by rw [Report.published, hpush]; rfl)]
          exact ih
      | some attempt =>
          obtain ⟨m, ok⟩ := attempt
          rw [attempts, List.filterMap_cons_some hpush]
          cases ok with
          | true =>
              rw [enqueued, List.filterMap_cons_some (by rw [Report.published, hpush]; rfl)]
              exact congrArg (m.side :: ·) ih
          | false =>
              rw [enqueued, List.filterMap_cons_none (by rw [Report.published, hpush]; rfl)]
              exact ih

/-- The enqueued signals of a run alternate from the restored position on exactly when its
failed pushes come in pairs. -/
theorem signals_alternate_iff (py : Python) (openPositions : Option (List Position)) (started : Live)
    (rounds : List Round) :
    let s := ConsumerLoop.restoreState openPositions started
    let sides := (enqueued (reports py rounds s)).map Message.side
    (sides.IsChain (· ≠ ·) ∧ ∀ side ∈ sides.head?, (side = .buy ↔ s.inPosition = false)) ↔
      LostInPairs 0 ((attempts (reports py rounds s)).map Prod.snd) := by
  intro s sides
  have hattempts := attempts_alternate py rounds s
  have hkept : Alternates other (turning s.inPosition) (kept ((attempts (reports py rounds s)).map
      (fun p => (p.1.side, p.2)))) ↔ LostInPairs 0 (((attempts (reports py rounds s)).map
        (fun p => (p.1.side, p.2))).map Prod.snd) :=
    kept_alternates_iff other_iff (by rwa [if_pos Even.zero, List.map_map])
  rw [kept_sides, List.map_map, alternates_iff other_iff] at hkept
  simp only [turning_buy] at hkept
  exact hkept

/-- A buy that is lost, and the sell at the stop of the position that was never opened. -/
def lostBuy : List Round :=
  [{ tick := some
      { candles := .read none (some [{ close := 100, atr := 2, trendGapPct := 1 / 100, emaFast := 99 }]) 0 none
        pushed := false } },
    { tick := some { candles := .read none (some [{ close := 90, atr := 2, trendGapPct := 1 / 100 }]) 0 none } }]

theorem lost_buy_sells_first :
    ∃ started, main wordless none "BTCUSDT" = some started ∧
      ¬ (let s := ConsumerLoop.restoreState (some []) started
        let sides := (enqueued (reports wordless lostBuy s)).map Message.side
        sides.IsChain (· ≠ ·) ∧ ∀ side ∈ sides.head?, (side = .buy ↔ s.inPosition = false)) := by
  refine ⟨_, rfl, ?_⟩
  decide +kernel

end Autr.Services.SignalAlternation
