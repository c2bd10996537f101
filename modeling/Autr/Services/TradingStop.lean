import Autr.Services.SignalPipeline

namespace Autr.Services.TradingStop

open Autr.Async Autr.Infra Bybit StrategyConsumer SignalPipeline

def buys (symbol : String) : Op → Bool
  | .submitOrder s .buy _ => s = symbol
  | _ => false

def isBuy (symbol : String) (d : Decided) : Bool := d.message.side = .buy && d.message.symbol = symbol

/-- No step that comes after a stop and before the next start places a buy. -/
def NoBuy (symbol : String) (x : Pipeline) (l : Label) : Prop :=
  match l with
  | .answered _ => x.stopped = true → x.task.next.all (fun op => !buys symbol op) = true
  | _ => True

/-- No buy is on its way: neither published and not pushed, nor queued, nor under way. No
start has found the flag absent and not written it yet. -/
structure Drained (symbol : String) (x : Pipeline) : Prop where
  starting : x.starting = 0
  publishing : ∀ d ∈ x.publishing, isBuy symbol d = false
  queue : ∀ d, some d ∈ x.queue → isBuy symbol d = false
  task : x.task.Uses (fun op => buys symbol op = false)

def StopsDrained (symbol : String) (x : Pipeline) (l : Label) : Prop :=
  match l with
  | .stopTrading => Drained symbol x
  | _ => True

instance (symbol : String) (x : Pipeline) (l : Label) : Decidable (NoBuy symbol x l) :=
  match l with
  | .answered _ => inferInstanceAs (Decidable (_ → _))
  | .startTrading | .enable | .stopTrading | .tick _ _ | .failedTick _ | .changeStrategy _ | .push _
  | .restart _ _ _ | .pop _ _ | .surroundings _ => .isTrue trivial

def Held (symbol : String) (x : Pipeline) : Prop := x.stopped = true → x.enabled = false ∧ Drained symbol x

variable {S : Setting} {symbol : String} {x : Pipeline}

theorem buys_of_orderless {op : Op} (h : Orderless op) : buys symbol op = false := by
  cases op <;> first | rfl | cases h.1

theorem callOf_buyless {d : Decided} (h : isBuy symbol d = false) :
    (PositionFlag.callOf d.message).prog.Uses (fun op => buys symbol op = false) := by
  refine (callOf_placed d).mono (fun op hop => ?_)
  cases op with
  | submitOrder s side qty =>
      obtain ⟨rfl, rfl⟩ := hop
      cases hside : d.message.side with
      | sell => rfl
      | buy => simpa [isBuy, buys, hside] using h
  | _ => rfl

theorem serve_buyless (heartbeat : Bool) (due : Option String) {raw : Option Decided}
    (h : ∀ d ∈ raw, isBuy symbol d = false) :
    (serve S heartbeat due raw).Uses (fun op => buys symbol op = false) :=
  serve_uses S heartbeat due raw (fun _ => buys_of_orderless) (fun d hd => callOf_buyless (h d hd))

theorem answer_held (hx : Held symbol x) (c : Env) : Held symbol (x.answer S c) := by
  unfold Pipeline.answer
  split
  · next op k htask =>
      intro hs
      obtain ⟨henabled, hdrained⟩ := hx hs
      have huses := hdrained.task
      rw [htask] at huses
      exact ⟨henabled, hdrained.starting, hdrained.publishing, hdrained.queue, huses.2 _⟩
  · exact hx

theorem moved_held (hx : Held symbol x) (s : Consumer) (w : World) :
    Held symbol { x with consumer := s, world := w } := by
  intro hs
  obtain ⟨henabled, hdrained⟩ := hx hs
  exact ⟨henabled, hdrained.starting, hdrained.publishing, hdrained.queue, hdrained.task⟩

/-- A tick that finds the flag cleared publishes nothing. -/
theorem tick_held (hx : Held symbol x) (t : Tick) (candle : ℤ) : Held symbol (x.step S (.tick t candle)) := by
  cases hpublishing : x.publishing with
  | some d => simpa only [Pipeline.step, hpublishing] using hx
  | none =>
      simp only [Pipeline.step, hpublishing]
      intro hs
      obtain ⟨henabled, hdrained⟩ := hx hs
      have hnone := processTick_disabled { t with enabled := x.enabled } henabled x.consumer
      refine ⟨henabled, hdrained.starting, ?_, hdrained.queue, hdrained.task⟩
      intro d hd
      dsimp only at hd
      rw [hnone] at hd
      cases hd

theorem push_held (hx : Held symbol x) (raised : Bool) : Held symbol (x.step S (.push raised)) := by
  cases hpublishing : x.publishing with
  | none => simpa only [Pipeline.step, hpublishing] using hx
  | some d =>
      simp only [Pipeline.step, hpublishing]
      intro hs
      obtain ⟨henabled, hdrained⟩ := hx hs
      refine ⟨henabled, hdrained.starting, (fun _ h => nomatch h), ?_, hdrained.task⟩
      intro d' hd'
      cases raised with
      | true => exact hdrained.queue d' hd'
      | false =>
          rcases mem_queuePush hd' with hd' | hd'
          · exact hdrained.queue d' hd'
          · cases hd'
            exact hdrained.publishing d hpublishing

theorem pop_held (hx : Held symbol x) (heartbeat : Bool) (due : Option String) :
    Held symbol (x.step S (.pop heartbeat due)) := by
  simp only [Pipeline.step]
  split
  · intro hs
    obtain ⟨henabled, hdrained⟩ := hx hs
    have htail : ∀ d, some d ∈ x.queue.tail → isBuy symbol d = false := fun d hd =>
      hdrained.queue d (List.mem_of_mem_tail hd)
    refine ⟨henabled, hdrained.starting, hdrained.publishing, htail, serve_buyless heartbeat due ?_⟩
    intro d hd
    exact hdrained.queue d (List.mem_of_mem_head? (Option.join_eq_some_iff.1 hd))
  · exact hx

/-- While trading is stopped nothing new gets on its way. -/
theorem step_held (hx : Held symbol x) (l : Label) (hl : StopsDrained symbol x l) : Held symbol (x.step S l) := by
  cases l with
  | startTrading => exact fun hs => by cases hs
  | stopTrading => exact fun _ => ⟨rfl, hl.starting, hl.publishing, hl.queue, hl.task⟩
  | answered c => exact answer_held hx c
  | enable =>
      by_cases hstarting : x.starting = 0
      · simpa only [Pipeline.step, if_pos hstarting] using hx
      · simp only [Pipeline.step, if_neg hstarting]
        exact fun hs => absurd (hx hs).2.starting hstarting
  | tick t candle => exact tick_held hx t candle
  | failedTick t =>
      simp only [Pipeline.step]
      split
      · exact moved_held hx _ _
      · exact hx
  | changeStrategy strategy =>
      simp only [Pipeline.step]
      split
      · exact hx
      · exact moved_held hx _ _
  | push raised => exact push_held hx raised
  | restart strategy cooldownBars restored =>
      exact fun hs => ⟨(hx hs).1, (hx hs).2.starting, (fun _ h => nomatch h), (hx hs).2.queue, (hx hs).2.task⟩
  | pop heartbeat due => exact pop_held hx heartbeat due
  | surroundings w => exact moved_held hx _ w

theorem noBuy_of_held (hx : Held symbol x) (l : Label) : NoBuy symbol x l := by
  cases l with
  | answered c =>
      intro hs
      have huses := (hx hs).2.task
      cases htask : x.task with
      | pure a | raise e => rfl
      | call op k =>
          rw [htask] at huses
          simp [Prog.next, huses.1]
  | _ => trivial

/-- Where every stop finds no buy on its way and no start half done, no buy is placed from a
stop to the next start. -/
theorem no_buy_while_stopped (S : Setting) (symbol : String) (x : Pipeline) (hx : x.stopped = false)
    (ls : List Label) (hstop : AlongRun (Pipeline.step S) (StopsDrained symbol) x ls) :
    AlongRun (Pipeline.step S) (NoBuy symbol) x ls := by
  have hheld : Held symbol x := fun hs => by simp [hx] at hs
  exact alongRun_of_step (P := Held symbol) (fun x l hx hl => step_held hx l hl) (fun x l hx _ => noBuy_of_held hx l)
    hheld hstop

def buyDecision : Decision := ⟨.buy, "cross", 30000, some 29000, none⟩

def buyTick : Tick := ⟨some buyDecision, true, none, "20240101000000-1"⟩

/-- Trading is on, no position is held, and nothing is on its way. -/
def begun : Pipeline where
  enabled := true
  starting := 0
  stopped := false
  consumer := fresh "ema" "BTCUSDT" 0
  publishing := none
  queue := []
  taken := none
  task := pure ()
  world := .empty
  orders := []

theorem no_buy_while_stopped_atOnce : AlongRun (Pipeline.step defaults) (NoBuy "BTCUSDT") begun
    [.stopTrading, .tick buyTick 7, .push false, .pop true none, .answered Env.trading] := by
  refine no_buy_while_stopped defaults "BTCUSDT" begun rfl _ ⟨?_, trivial, trivial, trivial, trivial, trivial⟩
  exact ⟨rfl, (fun _ h => nomatch h), (fun _ h => nomatch h), trivial⟩

/-- The stop comes after the buy has been queued and before it is executed. -/
theorem queued_buy_placed : ¬ ∀ (S : Setting) (symbol : String) (x : Pipeline) (ls : List Label), x.stopped = false →
    AlongRun (Pipeline.step S) (NoBuy symbol) x ls := by
  intro h
  have hrun := h defaults "BTCUSDT" begun ([.tick buyTick 7, .push false, .stopTrading, .pop false none] ++
    List.replicate 5 (.answered Env.trading)) rfl
  revert hrun
  decide +kernel

end Autr.Services.TradingStop
