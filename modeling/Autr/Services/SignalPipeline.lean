import Autr.Async.Runs
import Autr.Services.PositionFlag

namespace Autr.Services.SignalPipeline

open Autr.Async Autr.Infra Bybit Redis TradeTracker StrategyConsumer

/-- A signal with the newest candle it was decided on, which the payload does not carry. -/
structure Decided where
  message : Message
  candle : ℤ

/-- What the contract makes a signal id of. -/
structure Identity where
  strategy : String
  symbol : String
  side : Side
  candle : ℤ
  deriving DecidableEq

/-- The trading flag, the strategy consumer, the queue and the executor consumer. Queued
payloads that the executor drops are `none`. A start that has found no flag has still to
write it; `stopped` tells whether a stop has returned and no start has been called since. -/
structure Pipeline where
  enabled : Bool
  starting : ℕ
  stopped : Bool
  consumer : Consumer
  publishing : Option Decided
  queue : List (Option Decided)
  taken : Option Decided
  task : Svc Unit
  world : World
  orders : List Identity

inductive Label
  | startTrading
  | enable
  | stopTrading
  | tick (t : Tick) (candle : ℤ)
  | failedTick (t : Tick)
  | changeStrategy (strategy : String)
  | push (raised : Bool)
  | restart (strategy : String) (cooldownBars : ℕ) (restored : Bool)
  | pop (heartbeat : Bool) (due : Option String)
  | answered (c : Env)
  | surroundings (w : World)

def fresh (strategy symbol : String) (cooldownBars : ℕ) : Consumer where
  strategyName := strategy
  symbol := symbol
  inPosition := false
  trailingStop := none
  barsSinceTrade := cooldownBars
  lastSignal := .hold
  lastReason := ""
  lastClose := 0

/-- A position that cannot be read back counts as none. -/
def restarted (strategy : String) (cooldownBars : ℕ) (restored : Bool) (symbol : String) (w : World) : Consumer :=
  let s := fresh strategy symbol cooldownBars
  if restored then restoreState (getPositions (some .open) symbol defaultLimit w.positions) s else s

def checkStrategyChange (strategy : String) (s : Consumer) : Consumer :=
  { s with strategyName := strategy, trailingStop := none, lastSignal := .hold, lastReason := "strategy_changed" }

def recordHeartbeat (due : Bool) : Svc Unit :=
  if due then Prog.attempt (await (.set "hb:executor" "" (some 300))) (fun _ => return ()) else return ()

def periodicReconcile (S : Setting) : Option String → Svc Unit
  | some symbol =>
      Prog.attempt (do let _ ← Executor.reconcile S.bybit.minOrderSize symbol; return ()) (fun _ => return ())
  | none => return ()

def executeSignal : Option Decided → Svc Unit
  | some d => do
      let _ ← (PositionFlag.callOf d.message).prog
      return ()
  | none => return ()

/-- What the executor consumer does with what it has popped. -/
def serve (S : Setting) (heartbeat : Bool) (due : Option String) (raw : Option Decided) : Svc Unit := do
  recordHeartbeat heartbeat
  periodicReconcile S due
  executeSignal raw

/-- An accepted order, under the identity of the signal it was placed for. -/
def orderOf (taken : Option Decided) (op : Op) (r : Except Exc op.Res) : Option Identity :=
  match op, r with
  | .submitOrder symbol side _, .ok (.success _ _) =>
      taken.map (fun d => ⟨d.message.strategy, symbol, side, d.candle⟩)
  | _, _ => none

def Pipeline.answer (S : Setting) (x : Pipeline) (c : Env) : Pipeline :=
  match x.task with
  | .call op k =>
      let r := exec S op c x.world
      { x with task := k r.1, world := r.2, orders := (orderOf x.taken op r.1).toList ++ x.orders }
  | _ => x

/-- Between two awaits of one party all the others may move. The strategy consumer reads the
flag in the middle of a tick and pushes what it then publishes. -/
def Pipeline.step (S : Setting) (x : Pipeline) : Label → Pipeline
  | .startTrading => { x with stopped := false, starting := if x.enabled then x.starting else x.starting + 1 }
  | .enable => if x.starting = 0 then x else { x with enabled := true, starting := x.starting - 1 }
  | .stopTrading => { x with enabled := false, stopped := true }
  | .tick t candle =>
      match x.publishing with
      | some _ => x
      | none =>
          let r := processTick { t with enabled := x.enabled } x.consumer
          { x with consumer := r.1, publishing := r.2.map (⟨·, candle⟩) }
  | .failedTick t =>
      match x.publishing, t.decision with
      | none, some d => { x with consumer := observe d x.consumer }
      | _, _ => x
  | .changeStrategy strategy =>
      match x.publishing with
      | some _ => x
      | none => { x with consumer := checkStrategyChange strategy x.consumer }
  | .push raised =>
      match x.publishing with
      | none => x
      | some d => { x with publishing := none, queue := if raised then x.queue else queuePush S.backend (some d) x.queue }
  | .restart strategy cooldownBars restored =>
      { x with
        consumer := restarted strategy cooldownBars restored x.consumer.symbol x.world
        publishing := none }
  | .pop heartbeat due =>
      if x.task.next = none then
        { x with
          queue := x.queue.tail
          taken := x.queue.head?.join
          task := serve S heartbeat due x.queue.head?.join }
      else x
  | .answered c => x.answer S c
  | .surroundings w => { x with world := w }

theorem queuePush_sublist {b : Backend} {α : Type} (m : α) (q : List α) : (queuePush b m q).Sublist (q ++ [m]) := by
  cases b with
  | inMemory =>
      rw [queuePush]
      split
      · exact (List.tail_sublist q).append_right [m]
      · exact List.Sublist.refl _
  | real => exact List.drop_sublist _ _

theorem mem_queuePush {b : Backend} {α : Type} {m a : α} {q : List α} (h : a ∈ queuePush b m q) : a ∈ q ∨ a = m := by
  simpa using (queuePush_sublist m q).subset h

theorem processTick_disabled (t : Tick) (h : t.enabled = false) (s : Consumer) : (processTick t s).2 = none := by
  unfold processTick
  split
  · rfl
  · dsimp only
    rw [if_neg (by simp [h])]

theorem recordHeartbeat_orderless (due : Bool) : (recordHeartbeat due).Uses Orderless := by
  unfold recordHeartbeat
  split
  · exact Prog.uses_attempt (Prog.uses_perform ⟨rfl, rfl⟩) (fun _ => trivial)
  · trivial

theorem periodicReconcile_orderless (S : Setting) (due : Option String) :
    (periodicReconcile S due).Uses Orderless := by
  cases due with
  | none => trivial
  | some symbol =>
      refine Prog.uses_attempt (Prog.uses_bind ?_ (fun _ => trivial)) (fun _ => trivial)
      exact (Executor.reconcile_reconciling _ symbol).mono Executor.orderless_of_reconciling

/-- Before it comes to its signal, an iteration places no order. -/
theorem serve_uses {P : Op → Prop} (S : Setting) (heartbeat : Bool) (due : Option String) (raw : Option Decided)
    (hP : ∀ op, Orderless op → P op) (hraw : ∀ d ∈ raw, (PositionFlag.callOf d.message).prog.Uses P) :
    (serve S heartbeat due raw).Uses P := by
  refine Prog.uses_bind ((recordHeartbeat_orderless heartbeat).mono hP) (fun _ => ?_)
  refine Prog.uses_bind ((periodicReconcile_orderless S due).mono hP) (fun _ => ?_)
  cases raw with
  | none => trivial
  | some d => exact Prog.uses_bind (hraw d rfl) (fun _ => trivial)

/-- An order is for the symbol and on the side of the signal. -/
def PlacedFor (d : Decided) : Op → Prop
  | .submitOrder symbol side _ => symbol = d.message.symbol ∧ side = d.message.side
  | _ => True

theorem callOf_placed (d : Decided) : (PositionFlag.callOf d.message).prog.Uses (PlacedFor d) := by
  have hcall : (PositionFlag.callOf d.message).symbol = d.message.symbol ∧
      (PositionFlag.callOf d.message).side = d.message.side := by
    unfold PositionFlag.callOf
    split
    · next hside => exact ⟨rfl, hside.symm⟩
    · next hside => exact ⟨rfl, hside.symm⟩
  have hbody : (PositionFlag.callOf d.message).body.Uses (PlacedFor d) := by
    refine (Call.body_permitted _).mono (fun op hop => ?_)
    rw [hcall.1, hcall.2] at hop
    cases op with
    | submitOrder => exact hop
    | _ => trivial
  rw [Call.prog_eq]
  refine Prog.uses_bind (Prog.uses_perform trivial) (fun acquired => ?_)
  split
  · exact Prog.uses_ensure hbody (Prog.uses_perform trivial)
  · trivial

end Autr.Services.SignalPipeline
