import Mathlib.Algebra.Order.Ring.Unbundled.Rat
import Mathlib.Data.Rat.Defs

namespace Autr.Services.ExecutorConsumer

/-- A value of a JSON field; of a list or an object only the truth matters. -/
inductive Value
  | null
  | bool (b : Bool)
  | number (x : ℚ)
  | text (s : String)
  | container (empty : Bool)
  deriving DecidableEq

def Value.truthy : Value → Bool
  | .null => false
  | .bool b => b
  | .number x => x ≠ 0
  | .text s => s ≠ ""
  | .container empty => !empty

/-- An object as the dictionary `json.loads` makes of it. -/
abbrev Payload := String → Option Value

inductive Raw
  | timeout
  | malformed
  | notAnObject
  | object (payload : Payload)

inductive Pop
  | raised
  | returned (raw : Raw)

/-- What the surroundings decide about one iteration. -/
structure Iteration where
  pop : Pop
  now : ℚ

inductive Action
  | recordHeartbeat
  | reconcile (symbol : Value)
  | executeBuy (symbol strategy sigId : Value) (closePrice : ℚ)
  | executeSell (symbol strategy sigId : Value) (closePrice : ℚ)
  deriving DecidableEq

/-- The local names that live on from one iteration to the next. -/
structure Locals where
  symbol : Value
  lastHb : ℚ
  lastReconcile : ℚ
  deriving DecidableEq

def hbInterval : ℚ := 60

/-- The interval of the periodic reconcile, and `float`, which fails on what is no number. -/
structure Setting where
  reconcileInterval : ℚ
  float : Value → Option ℚ

def symbolOf (payload : Payload) : Value := (payload "symbol").getD (.text "")

def execute (S : Setting) (symbol : Value) (payload : Payload) : List Action :=
  let strategy := (payload "strategy").getD (.text "unknown")
  let side := (payload "signal").getD (.text "")
  let sigId := (payload "sig_id").getD (.text "")
  match S.float ((payload "close_price").getD (.number 0)) with
  | none => []
  | some closePrice =>
      if !symbol.truthy || !side.truthy || !sigId.truthy then []
      else if side = .text "buy" then [.executeBuy symbol strategy sigId closePrice]
      else if side = .text "sell" then [.executeSell symbol strategy sigId closePrice]
      else []

/-- The name `symbol` is assigned before the rest of the payload is read. -/
def consume (S : Setting) (raw : Raw) (s : Locals) : Locals × List Action :=
  match raw with
  | .object payload => ({ s with symbol := symbolOf payload }, execute S (symbolOf payload) payload)
  | .timeout | .malformed | .notAnObject => (s, [])

def hbDue (now : ℚ) (s : Locals) : Bool := hbInterval ≤ now - s.lastHb

def reconcileDue (S : Setting) (now : ℚ) (s : Locals) : Bool := S.reconcileInterval ≤ now - s.lastReconcile

def heartbeat (now : ℚ) (s : Locals) : Locals × List Action :=
  if hbDue now s then ({ s with lastHb := now }, [.recordHeartbeat]) else (s, [])

def periodicReconcile (S : Setting) (now : ℚ) (s : Locals) : Locals × List Action :=
  if reconcileDue S now s then ({ s with lastReconcile := now }, [.reconcile s.symbol]) else (s, [])

/-- One pass of the loop. A pop that raises ends it; what a heartbeat or a reconcile raises
is caught where it is raised. -/
def iterate (S : Setting) (s : Locals) (it : Iteration) : Locals × List Action :=
  match it.pop with
  | .raised => (s, [])
  | .returned raw =>
      let beaten := heartbeat it.now s
      let reconciled := periodicReconcile S it.now beaten.1
      let consumed := consume S raw reconciled.1
      (consumed.1, beaten.2 ++ reconciled.2 ++ consumed.2)

def begin (symbol : String) : Locals := ⟨.text symbol, 0, 0⟩

def run (S : Setting) (s : Locals) : List Iteration → Locals × List Action
  | [] => (s, [])
  | it :: its =>
      let (s, actions) := iterate S s it
      let (s, rest) := run S s its
      (s, actions ++ rest)

def reached (it : Iteration) : Option Raw :=
  match it.pop with
  | .raised => none
  | .returned raw => some raw

def payloadOf : Option Raw → Option Payload
  | some (.object payload) => some payload
  | _ => none

/-- The payloads that have been taken for a signal, in order. -/
def payloads (its : List Iteration) : List Payload := its.filterMap (fun it => payloadOf (reached it))

/-- Whether an iteration makes a periodic reconcile. -/
def reconciles (S : Setting) (s : Locals) (it : Iteration) : Prop :=
  (reached it).isSome ∧ reconcileDue S it.now s = true

variable {S : Setting} {s : Locals} {it : Iteration}

theorem reconcile_not_mem_execute (v symbol : Value) (payload : Payload) :
    .reconcile v ∉ execute S symbol payload := by
  unfold execute
  dsimp only
  split
  · simp
  · split_ifs <;> simp

theorem consume_spec (raw : Raw) :
    (consume S raw s).1.symbol = ((payloadOf (some raw)).map symbolOf).getD s.symbol ∧
      ∀ v, .reconcile v ∉ (consume S raw s).2 := by
  cases raw with
  | object payload => exact ⟨rfl, fun v => reconcile_not_mem_execute v _ payload⟩
  | timeout | malformed | notAnObject => exact ⟨rfl, fun v => by simp [consume]⟩

theorem heartbeat_spec (now : ℚ) (s : Locals) : (heartbeat now s).1.symbol = s.symbol ∧
    reconcileDue S now (heartbeat now s).1 = reconcileDue S now s ∧ ∀ v, .reconcile v ∉ (heartbeat now s).2 := by
  unfold heartbeat
  split
  · exact ⟨rfl, rfl, fun v => by simp⟩
  · exact ⟨rfl, rfl, fun v => by simp⟩

theorem periodicReconcile_spec (now : ℚ) (s : Locals) : (periodicReconcile S now s).1.symbol = s.symbol ∧
    ∀ v, .reconcile v ∈ (periodicReconcile S now s).2 ↔ reconcileDue S now s = true ∧ v = s.symbol := by
  unfold periodicReconcile
  split
  · next hdue => exact ⟨rfl, fun v => by simp [hdue]⟩
  · next hdue => exact ⟨rfl, fun v => by simp [hdue]⟩

/-- What one pass does to the symbol, and which reconcile it makes. -/
theorem iterate_spec (S : Setting) (s : Locals) (it : Iteration) :
    (iterate S s it).1.symbol = ((payloadOf (reached it)).map symbolOf).getD s.symbol ∧
      ∀ v, .reconcile v ∈ (iterate S s it).2 ↔ reconciles S s it ∧ v = s.symbol := by
  unfold iterate reconciles reached
  cases it.pop with
  | raised => simp [payloadOf]
  | returned raw =>
      dsimp only
      obtain ⟨hkept, hdue, hbeat⟩ := heartbeat_spec (S := S) it.now s
      obtain ⟨hsame, hreconcile⟩ := periodicReconcile_spec (S := S) it.now (heartbeat it.now s).1
      obtain ⟨hconsumed, hnone⟩ := consume_spec (S := S)
        (s := (periodicReconcile S it.now (heartbeat it.now s).1).1) raw
      refine ⟨by rw [hconsumed, hsame, hkept], fun v => ?_⟩
      simp only [List.mem_append, hbeat v, hnone v, false_or, or_false, hreconcile v, hdue, hkept]
      simp

theorem run_symbol (S : Setting) (s : Locals) (its : List Iteration) :
    (run S s its).1.symbol = ((payloads its).getLast?.map symbolOf).getD s.symbol := by
  induction its generalizing s with
  | nil => rfl
  | cons it its ih =>
      have hcons : payloads (it :: its) = (payloadOf (reached it)).toList ++ payloads its := by
        rw [payloads, List.filterMap_cons]
        cases payloadOf (reached it) <;> rfl
      rw [run, hcons, List.getLast?_append]
      refine (ih (iterate S s it).1).trans ?_
      rw [(iterate_spec S s it).1]
      cases (payloads its).getLast? <;> cases payloadOf (reached it) <;> rfl

theorem run_reconciles_iff (S : Setting) (s : Locals) (symbol : Value) (its : List Iteration) :
    (∀ v, .reconcile v ∈ (run S s its).2 → v = symbol) ↔
      ∀ before it after, its = before ++ it :: after → reconciles S (run S s before).1 it →
        (run S s before).1.symbol = symbol := by
  induction its generalizing s with
  | nil => simp [run]
  | cons it its ih =>
      have hstep := (iterate_spec S s it).2
      have hrest := ih (iterate S s it).1
      constructor
      · intro h before it' after he hdue
        cases before with
        | nil =>
            cases he
            exact h _ (List.mem_append_left _ ((hstep s.symbol).2 ⟨hdue, rfl⟩))
        | cons first before =>
            cases he
            exact hrest.1 (fun v hv => h v (List.mem_append_right _ hv)) before it' after rfl hdue
      · intro h v hv
        rcases List.mem_append.1 hv with hv | hv
        · obtain ⟨hdue, rfl⟩ := (hstep v).1 hv
          exact h [] it its rfl hdue
        · exact hrest.2 (fun before it' after he hdue => h (it :: before) it' after (by rw [he]; rfl) hdue) v hv

/-- The periodic reconciles are for the symbol of the consumer exactly when the last
payload before each of them, if there is one, carries that symbol. -/
theorem reconcile_symbol_iff (S : Setting) (symbol : String) (its : List Iteration) :
    (∀ v, .reconcile v ∈ (run S (begin symbol) its).2 → v = .text symbol) ↔
      ∀ before it after, its = before ++ it :: after → reconciles S (run S (begin symbol) before).1 it →
        ∀ payload ∈ (payloads before).getLast?, symbolOf payload = .text symbol := by
  refine (run_reconciles_iff S (begin symbol) (.text symbol) its).trans ?_
  refine forall₃_congr (fun before it after => forall₂_congr (fun _ _ => ?_))
  rw [run_symbol]
  cases (payloads before).getLast? <;> simp [begin]

def defaults : Setting := ⟨300, fun v => match v with
  | .number x => some x
  | _ => none⟩

def signal (symbol : String) : Raw := .object fun key =>
  if key = "symbol" then some (.text symbol)
  else if key = "signal" then some (.text "buy")
  else if key = "sig_id" then some (.text "sig-1")
  else none

/-- A signal for another coin, and a reconcile five minutes later. -/
def otherCoin : List Iteration := [⟨.returned (signal "ETHUSDT"), 300⟩, ⟨.returned .timeout, 600⟩]

theorem reconciled_other_coin : ¬ ∀ (S : Setting) (symbol : String) (its : List Iteration) (v : Value),
    .reconcile v ∈ (run S (begin symbol) its).2 → v = .text symbol := by
  intro h
  have hother := h defaults "BTCUSDT" otherCoin (.text "ETHUSDT") (by decide +kernel)
  revert hother
  decide

end Autr.Services.ExecutorConsumer
