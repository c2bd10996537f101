import Autr.Async.Tape
import Autr.Positions.PositionService

namespace Autr.Positions.ReportedFailure

open Autr.Async Autr.Infra TradeTracker TradeDb PositionService

inductive Request
  | open (symbol positionType : String) (entryPrice quantity dollarAmount : ℚ)
  | close (id : String) (closePrice : Option ℚ)

def Request.prog : Request → Desk Result
  | .open symbol positionType entryPrice quantity dollarAmount =>
      openPosition live symbol positionType entryPrice quantity dollarAmount
  | .close id closePrice => closePosition live id closePrice

/-- One run of a program whose calls are answered in turn. -/
abbrev play {α : Type} (tape : ℕ → Env) (p : Desk α) (s : World × ℕ) : Except String α × World × ℕ :=
  eval (handler.taped (fun _ => true)) (fun _ => tape) p s

def Unchanged (w w' : World) : Prop :=
  w'.orders = w.orders ∧ w'.trades = w.trades ∧ w'.positions = w.positions

/-- The claim of a failed result, that nothing has happened. -/
def HonestFailure (tape : ℕ → Env) (r : Request) (w : World) : Prop :=
  ∀ error message, (play tape r.prog (w, 0)).1 = .ok (.failure error message) →
    Unchanged w (play tape r.prog (w, 0)).2.1

def Accepted (c : Env) : Prop := c.fault = .none ∧ ∃ orderId, c.reply = .accepted orderId

/-- How many calls come before the order of a request that gets there. -/
def Request.orderAt : Request → ℕ
  | .open _ _ _ _ _ => 0
  | .close _ (some _) => 1
  | .close _ none => 2

def Request.Reaches (tape : ℕ → Env) (w : World) : Request → Prop
  | .open _ positionType _ _ _ => positionType ≠ "short"
  | .close id closePrice => (tape 0).fault = .none ∧
      (∃ p, TradeTracker.getPositionById id w.positions = some p ∧ p.status = .open) ∧
      (closePrice = none → (tape 1).fault = .none)

/-- Every call after the order succeeds: the price and the two rows of an entry, the row
of an exit and the three statements that close the position. -/
def Request.Completes (tape : ℕ → Env) (w : World) : Request → Prop
  | .open _ _ _ _ _ => (tape 1).fault = .none ∧ (tape 2).fault = .none ∧ (tape 3).fault = .none ∧
      (tape 3).uuid ∉ w.positions.rows.map Position.id
  | .close id closePrice =>
      let n := (Request.close id closePrice).orderAt
      (tape (n + 1)).fault = .none ∧ (tape (n + 2)).fault = .none ∧ (tape (n + 3)).fault = .none ∧
        (tape (n + 4)).fault = .none

section Play

variable {α β : Type} {tape : ℕ → Env} {w : World} {n : ℕ} {s : World × ℕ}

theorem play_orders {p : Desk α} (hp : p.Uses (fun op => op.isOrder = false)) :
    (play tape p s).2.1.orders = s.1.orders :=
  eval_of_uses (g := fun s : World × ℕ => s.1.orders) _ _ (fun _ s hop => exec_orders hop _ s.1) p hp s

theorem recordOpen_orderless (p : NewPosition) (orderId : Option String) :
    (recordOpen p orderId).Uses (fun op => op.isOrder = false) :=
  Prog.uses_bind (Prog.uses_perform rfl) (fun _ => Prog.uses_bind (Prog.uses_perform rfl) (fun _ => trivial))

theorem recordClose_orderless (id : String) (p : Position) (closePrice : ℚ) (orderId : Option String) :
    (recordClose id p closePrice orderId).Uses (fun op => op.isOrder = false) := by
  refine Prog.uses_bind (Prog.uses_perform rfl) (fun _ => Prog.uses_bind ?_ (fun _ => trivial))
  refine Prog.uses_bind (Prog.uses_perform rfl) (fun position => ?_)
  cases position with
  | none => trivial
  | some position =>
      dsimp only
      split
      · trivial
      · exact Prog.uses_bind (Prog.uses_perform rfl) (fun _ => Prog.uses_perform rfl)

theorem recordOpen_success (p : NewPosition) (orderId : Option String) :
    (recordOpen p orderId).Returns (fun a => a.success = true) :=
  Prog.returns_bind _ (fun _ => Prog.returns_bind _ (fun _ => rfl))

theorem recordClose_success (id : String) (p : Position) (closePrice : ℚ) (orderId : Option String) :
    (recordClose id p closePrice orderId).Returns (fun a => a.success = true) :=
  Prog.returns_bind _ (fun _ => Prog.returns_bind _ (fun _ => rfl))

theorem recordAtMarket_orderless (p : NewPosition) (orderId : Option String) :
    (recordAtMarket p orderId).Uses (fun op => op.isOrder = false) :=
  Prog.uses_bind (Prog.uses_perform rfl) (fun _ => recordOpen_orderless _ orderId)

theorem recordAtMarket_success (p : NewPosition) (orderId : Option String) :
    (recordAtMarket p orderId).Returns (fun a => a.success = true) :=
  Prog.returns_bind _ (fun _ => recordOpen_success _ orderId)

def Ends (tape : ℕ → Env) (p : Desk α) (s : World × ℕ) : Prop := ∃ a, (play tape p s).1 = .ok a

theorem recordOpen_ends (p : NewPosition) (orderId : Option String) :
    Ends tape (recordOpen p orderId) (w, n) ↔ (tape n).fault = .none ∧ (tape (n + 1)).fault = .none ∧
      (tape (n + 1)).uuid ∉ w.positions.rows.map Position.id := by
  cases h₁ : (tape n).fault with
  | lost text | late text => simp [Ends, recordOpen, addTrade, exec, Fault.apply, h₁]
  | none =>
  cases hT : TradeTracker.createPosition (tape (n + 1)).uuid (tape (n + 1)).utc
    { p with entryTradeId := some (w.lastTradeId + 1) } w.positions with
  | none =>
      have hid : (tape (n + 1)).uuid ∈ w.positions.rows.map Position.id := by
        by_contra hid
        obtain ⟨T, hT', _⟩ := createPosition_fresh (tape (n + 1)).utc
          { p with entryTradeId := some (w.lastTradeId + 1) } hid
        cases hT.symm.trans hT'
      refine iff_of_false ?_ (fun h => h.2.2 hid)
      simp [Ends, recordOpen, addTrade, TradeDb.createPosition, exec, Fault.apply, h₁, hT]
  | some T =>
      have hid := (createPosition_rows hT).1
      cases h₂ : (tape (n + 1)).fault with
      | lost text | late text =>
          simp [Ends, recordOpen, addTrade, TradeDb.createPosition, exec, Fault.apply, h₁, h₂, hT]
      | none =>
          refine iff_of_true ?_ ⟨rfl, rfl, hid⟩
          simp [Ends, recordOpen, addTrade, TradeDb.createPosition, exec, Fault.apply, h₁, h₂, hT]

theorem recordAtMarket_ends (p : NewPosition) (orderId : Option String) :
    Ends tape (recordAtMarket p orderId) (w, n) ↔ (tape n).fault = .none ∧ (tape (n + 1)).fault = .none ∧
      (tape (n + 2)).fault = .none ∧ (tape (n + 2)).uuid ∉ w.positions.rows.map Position.id := by
  rw [recordAtMarket]
  cases h₀ : (tape n).fault with
  | lost text | late text => simp [Ends, exec, Fault.apply, h₀]
  | none =>
      rw [Ends, play, eval_bind]
      simp only [eval_perform, taped_exec, handler_exec, exec, Fault.apply, h₀, if_true, true_and]
      exact recordOpen_ends _ orderId

theorem closePosition_ends {id : String} {p : Position} (hp : TradeTracker.getPositionById id w.positions = some p)
    (hopen : p.status = .open) (closePrice : ℚ) (exitTradeId : Option ℕ) :
    Ends tape (TradeDb.closePosition id closePrice exitTradeId) (w, n) ↔
      (tape n).fault = .none ∧ (tape (n + 1)).fault = .none ∧ (tape (n + 2)).fault = .none := by
  rw [TradeDb.closePosition, closeVia, TradeDb.getPositionById]
  cases h₀ : (tape n).fault with
  | lost text | late text => simp [Ends, exec, Fault.apply, h₀]
  | none =>
  cases h₁ : (tape (n + 1)).fault with
  | lost text | late text => simp [Ends, exec, Fault.apply, h₀, h₁, hp, hopen]
  | none =>
  cases h₂ : (tape (n + 2)).fault with
  | lost text | late text => simp [Ends, exec, Fault.apply, h₀, h₁, h₂, hp, hopen]
  | none => simp [Ends, exec, Fault.apply, h₀, h₁, h₂, hp, hopen]

theorem ends_bind_pure {p : Desk α} {g : α → β} : Ends tape (p >>= fun a => pure (g a)) s ↔ Ends tape p s := by
  rw [Ends, play, eval_bind, Ends, play]
  rcases eval (handler.taped fun _ => true) (fun _ => tape) p s with ⟨_ | a, s'⟩ <;> simp

theorem recordClose_ends {id : String} {p : Position} (hp : TradeTracker.getPositionById id w.positions = some p)
    (hopen : p.status = .open) (closePrice : ℚ) (orderId : Option String) :
    Ends tape (recordClose id p closePrice orderId) (w, n) ↔ (tape n).fault = .none ∧
      (tape (n + 1)).fault = .none ∧ (tape (n + 2)).fault = .none ∧ (tape (n + 3)).fault = .none := by
  rw [recordClose, addTrade]
  cases h₀ : (tape n).fault with
  | lost text | late text => simp [Ends, exec, Fault.apply, h₀]
  | none =>
      rw [Ends, play, eval_bind]
      simp only [eval_perform, taped_exec, handler_exec, exec, Fault.apply, h₀, if_true, true_and]
      exact ends_bind_pure.trans (closePosition_ends (by exact hp) hopen closePrice _)

/-- Success is reported, or nothing has happened. -/
def Truthful (w : World) (r : Except String Result × World × ℕ) : Prop :=
  (∃ a, r.1 = .ok a ∧ a.success = true) ∨ Unchanged w r.2.1

/-- What the result of a request says, from what the body of its try statement does. -/
theorem honest_iff (p : Desk Result) (message : String) :
    (∀ error m, (play tape (p.attempt (fun e => return .failure e message)) (w, 0)).1 = .ok (.failure error m) →
      Unchanged w (play tape (p.attempt (fun e => return .failure e message)) (w, 0)).2.1) ↔
    Truthful w (play tape p (w, 0)) := by
  simp only [Truthful, play, eval_attempt]
  rcases eval (handler.taped fun _ => true) (fun _ => tape) p (w, 0) with ⟨e | a, s'⟩
  · simp [eval_pure]
  · cases a <;> simp [Result.success]

theorem returned_iff {p : Desk Result} (hp : p.Returns (fun a => a.success = true)) :
    (∃ a, (play tape p s).1 = .ok a ∧ a.success = true) ↔ Ends tape p s :=
  ⟨fun ⟨a, ha, _⟩ => ⟨a, ha⟩, fun ⟨a, ha⟩ => ⟨a, ha, eval_of_returns _ _ p hp s ha⟩⟩

theorem changed_of_ordered {order : Order} {w' : World} (h : w'.orders = w.orders ++ [order]) : ¬ Unchanged w w' := by
  intro hu
  have hlen := congrArg List.length (h.symm.trans hu.1)
  simp at hlen

/-- An order that is not accepted leaves no trace, and one that is leaves one for good. -/
theorem afterOrder_iff (order : Order) (message : String) {record : Option String → Desk Result}
    (horder : ∀ orderId, (record orderId).Uses (fun op => op.isOrder = false))
    (hsuccess : ∀ orderId, (record orderId).Returns (fun a => a.success = true)) :
    Truthful w (play tape (afterOrder order message record) (w, n)) ↔ ∀ orderId, (tape n).fault = .none → (tape n).reply = .accepted orderId →
      Ends tape (record orderId) ({ w with orders := w.orders ++ [order] }, n + 1) := by
  rw [Truthful, afterOrder, play, eval_bind]
  cases hf : (tape n).fault with
  | lost text | late text => simp [exec, hf, Unchanged]
  | none =>
  cases hr : (tape n).reply with
  | rejected error => simp [exec, hf, hr, Unchanged]
  | accepted orderId =>
      simp only [eval_perform, taped_exec, handler_exec, exec, hf, hr, if_true]
      have horders : (play tape (record orderId) ({ w with orders := w.orders ++ [order] }, n + 1)).2.1.orders =
          w.orders ++ [order] := play_orders (horder orderId)
      have hchanged := changed_of_ordered horders
      rw [or_iff_left hchanged]
      exact ⟨fun h oid _ hoid => Reply.accepted.inj hoid ▸ (returned_iff (hsuccess orderId)).1 h,
        fun h => (returned_iff (hsuccess orderId)).2 (h orderId trivial rfl)⟩

end Play

theorem open_honest_iff (tape : ℕ → Env) (w : World) (symbol positionType : String)
    (entryPrice quantity dollarAmount : ℚ) :
    let r := Request.open symbol positionType entryPrice quantity dollarAmount
    HonestFailure tape r w ↔ (r.Reaches tape w → Accepted (tape r.orderAt) → r.Completes tape w) := by
  intro r
  refine (honest_iff _ _).trans ?_
  by_cases hshort : positionType = "short"
  · refine iff_of_true (.inr ?_) (fun h => absurd hshort h)
    simp [live, Trading.live, hshort, Unchanged]
  simp only [r, live, Trading.live, Bool.not_false, Bool.and_true, if_true, if_neg hshort]
  rw [afterOrder_iff _ _ (recordAtMarket_orderless _) (recordAtMarket_success _)]
  simp only [recordAtMarket_ends]
  exact ⟨fun h _ ⟨hf, orderId, hr⟩ => h orderId hf hr, fun h orderId hf hr => h hshort ⟨hf, orderId, hr⟩⟩

/-- A position that is open is priced, if no price is given, and then ordered away. -/
theorem closeFound_iff {tape : ℕ → Env} {w : World} {id : String} {p : Position}
    (hp : TradeTracker.getPositionById id w.positions = some p) (hopen : p.status = .open) (closePrice : Option ℚ) :
    let r := Request.close id closePrice
    Truthful w (play tape (closeFound live id p closePrice) (w, 1)) ↔
      ((closePrice = none → (tape 1).fault = .none) → Accepted (tape r.orderAt) → r.Completes tape w) := by
  have hiff : ∀ n price, Truthful w (play tape (afterOrder ⟨p.symbol, exitSide p.positionType, p.quantity⟩
      "Exchange close order failed; local position unchanged." (recordClose id p price)) (w, n)) ↔
      (Accepted (tape n) → (tape (n + 1)).fault = .none ∧ (tape (n + 2)).fault = .none ∧
        (tape (n + 3)).fault = .none ∧ (tape (n + 4)).fault = .none) := by
    intro n price
    rw [afterOrder_iff _ _ (recordClose_orderless id p price) (recordClose_success id p price)]
    have hends : ∀ orderId, Ends tape (recordClose id p price orderId)
        ({ w with orders := w.orders ++ [⟨p.symbol, exitSide p.positionType, p.quantity⟩] }, n + 1) ↔ _ :=
      fun orderId => recordClose_ends (by exact hp) hopen price orderId
    simp only [hends]
    exact ⟨fun h ⟨hf, orderId, hr⟩ => h orderId hf hr, fun h orderId hf hr => h ⟨hf, orderId, hr⟩⟩
  cases closePrice with
  | some price =>
      refine (hiff 1 price).trans ?_
      simp [Request.orderAt, Request.Completes]
  | none =>
      rw [closeFound, play, eval_bind]
      cases hf : (tape 1).fault with
      | none =>
          simp only [priceToClose, live, if_true, eval_perform, taped_exec, handler_exec, exec, hf, Fault.apply]
          refine (hiff 2 (tape 1).price).trans ?_
          simp [Request.orderAt, Request.Completes]
      | lost text | late text =>
          simp [Truthful, priceToClose, live, exec, hf, Fault.apply, Unchanged]

theorem close_honest_iff (tape : ℕ → Env) (w : World) (id : String) (closePrice : Option ℚ) :
    let r := Request.close id closePrice
    HonestFailure tape r w ↔ (r.Reaches tape w → Accepted (tape r.orderAt) → r.Completes tape w) := by
  intro r
  refine (honest_iff _ _).trans ?_
  rw [TradeDb.getPositionById, play, eval_bind]
  cases hf : (tape 0).fault with
  | lost text | late text => simp [Truthful, exec, hf, Fault.apply, Unchanged, r, Request.Reaches]
  | none =>
  simp only [eval_perform, taped_exec, handler_exec, exec, hf, Fault.apply, if_true]
  cases hp : TradeTracker.getPositionById id w.positions with
  | none => simp [Truthful, Unchanged, r, Request.Reaches, hp]
  | some p =>
      by_cases hopen : p.status = .open
      · simp only [hopen, ne_eq, not_true_eq_false, if_false]
        refine (closeFound_iff hp hopen closePrice).trans ?_
        exact ⟨fun h hreach => h hreach.2.2, fun h hprice => h ⟨hf, ⟨p, hp, hopen⟩, hprice⟩⟩
      · simp [Truthful, Unchanged, r, Request.Reaches, hp, hopen]

/-- A failed result tells the truth exactly when the order was not accepted or all that
comes after it succeeds, in which case the result is no failure. -/
theorem failure_honest_iff (tape : ℕ → Env) (r : Request) (w : World) :
    HonestFailure tape r w ↔ (r.Reaches tape w → Accepted (tape r.orderAt) → r.Completes tape w) := by
  cases r with
  | «open» symbol positionType entryPrice quantity dollarAmount =>
      exact open_honest_iff tape w symbol positionType entryPrice quantity dollarAmount
  | close id closePrice => exact close_honest_iff tape w id closePrice

/-- The order is filled, and the database is locked when the trade is to be stored. -/
def lockedDatabase (n : ℕ) : Env :=
  ⟨if n = 2 then .lost "database is locked" else .none, "position-1", 1, 30000, .accepted (some "order-1")⟩

theorem failed_open_leaves_order : ¬ ∀ (tape : ℕ → Env) (r : Request) (w : World), HonestFailure tape r w := by
  intro h
  have hopen := h lockedDatabase (.open "BTCUSDT" "long" 30000 (1 / 1000) 30)
    ⟨[], 0, Store.Table.empty, []⟩ "database is locked" "Failed to open position" (by decide +kernel)
  have horders := hopen.1
  revert horders
  decide +kernel

end Autr.Positions.ReportedFailure
