import Autr.Async.Protocol
import Autr.Services.FundingArbConsumer

namespace Autr.Services.ArbOrders

open Autr.Async Autr.Infra Bybit Decimal Strategies.FundingArb Executor FundingArbExecutor FundingArbConsumer

/-- How far a cycle is on its way to an order. -/
inductive Phase
  | off
  | on
  | priced (price : ℚ)
  | locked (price : ℚ)
  | opening (price : ℚ)
  | shorted (qty : ℚ)
  | bare (qty : ℚ)
  | closing (qty : ℚ)
  | covered (qty : ℚ)
  | done
  deriving DecidableEq

def accepted : Except Exc OrderResult → Bool
  | .ok result => result.isSuccess
  | .error _ => false

def refused : Except Exc OrderResult → Bool
  | .ok result => !result.isSuccess
  | .error _ => false

variable (p : Params)

/-- The quantity that closes a position, once one is read. -/
def closingQty : Except Exc (Option LinearPosition) → Option ℚ
  | .ok position =>
      if 0 < perpSize position then some (roundTo (symbolPrecision p.symbol) (perpSize position)) else none
  | .error _ => none

def Phase.next (q : Phase) : (op : Op) → Except Exc op.Res → Phase
  | .get key, r => if key = fundingArbEnabledKey p.symbol ∧ r.toOption = some (some "1") then .on else .off
  | .getCurrentPrice _, r =>
      match q, r with
      | .on, .ok price => .priced price
      | q, _ => q
  | .acquireLock _ _, r =>
      match q, r with
      | .priced price, .ok true => .locked price
      | q, _ => q
  | .setLeverage _ _ _, r =>
      match q, r with
      | .locked price, .ok _ => .opening price
      | q, _ => q
  | .getLinearPositions _, r =>
      match q, closingQty p r with
      | .locked _, some qty => .closing qty
      | q, _ => q
  | .placeLinearOrder _ .sell qty _, r => if accepted r then .shorted qty else .done
  | .placeLinearOrder _ .buy qty _, r =>
      match q with
      | .closing _ => if accepted r then .covered qty else .done
      | _ => .done
  | .submitOrder _ .buy qty, r => if refused r then .bare qty else .done
  | .submitOrder _ .sell _, _ => .done
  | .releaseLock _, _ => .off
  | _, _ => q

/-- The orders of the consumer, each by what has come before it in its cycle: the flag was
read as set, a price was read and the lock was taken; a short is sold first, the spot is
bought for an accepted short and the short bought back for a refused purchase; a read
position is bought back first, and the spot is sold for an accepted cover. -/
def Permitted (q : Phase) : Op → Prop
  | .acquireLock key _ => key = Redis.fundingArbLock p.symbol ∧ ∃ price, q = .priced price
  | .placeLinearOrder symbol .sell qty reduceOnly =>
      symbol = p.symbol ∧ reduceOnly = false ∧ ∃ price, q = .opening price ∧ calcQty p price = some qty
  | .submitOrder symbol .buy qty => symbol = p.symbol ∧ q = .shorted qty
  | .placeLinearOrder symbol .buy qty reduceOnly =>
      symbol = p.symbol ∧ reduceOnly = true ∧ (q = .bare qty ∨ q = .closing qty)
  | .submitOrder symbol .sell qty => symbol = p.symbol ∧ q = .covered qty
  | _ => True

def arbOrders : Protocol Op Op.Res Exc Phase where
  start := .off
  next q _ op r := q.next p op r
  allows := Permitted p
  final _ := True

/-- Calls that ask for no permission. -/
def Plain : Op → Prop
  | .acquireLock _ _ | .placeLinearOrder _ _ _ _ | .submitOrder _ _ _ => False
  | _ => True

variable {dumps : CycleState → String} {p}

theorem plain_wp {α : Type} {prog : Svc α} (h : prog.Uses Plain) (q : Phase) :
    prog.wp (arbOrders p).spec (fun _ _ => True) q := by
  refine Prog.wp_of_uses (arbOrders p).spec_mono (I := fun _ => True)
    (fun op q hop _ => ⟨?_, fun _ _ => trivial⟩) prog h q trivial
  cases op with
  | acquireLock _ _ | placeLinearOrder _ _ _ _ | submitOrder _ _ _ => exact hop.elim
  | _ => trivial

theorem notify_wp {α : Type} (notice : Notice) (a : α) (q : Phase) :
    (notify notice >>= fun _ => (pure a : Svc α)).wp (arbOrders p).spec (fun _ _ => True) q := by
  rw [Prog.wp_bind, notify, Prog.wp_perform]
  exact ⟨trivial, fun t r => by cases r <;> trivial⟩

theorem buySpot_follows (qty spotPrice perpPrice : ℚ) (perpOrderId : String) (perpFilled : ℚ) :
    (buySpot p.symbol qty spotPrice perpPrice perpOrderId perpFilled).wp (arbOrders p).spec (fun _ _ => True)
      (.shorted qty) := by
  rw [buySpot, Prog.wp_bind, Executor.placeOrder, Prog.wp_perform]
  refine ⟨⟨rfl, rfl⟩, fun t r => ?_⟩
  rcases r with e | ⟨orderId, filled⟩ | error
  · trivial
  · exact notify_wp _ _ _
  · rw [Prog.out_ok, Prog.wp_bind, placeLinearOrder, Prog.wp_perform]
    refine ⟨⟨rfl, rfl, .inl rfl⟩, fun t r => ?_⟩
    cases r with
    | error e => trivial
    | ok rollback => exact notify_wp _ _ _

theorem openLegs_follows {price qty : ℚ} (hqty : calcQty p price = some qty) (spotPrice perpPrice : ℚ) :
    (openLegs p.symbol qty spotPrice perpPrice).wp (arbOrders p).spec (fun _ _ => True) (.opening price) := by
  rw [openLegs, Prog.wp_bind, placeLinearOrder, Prog.wp_perform]
  refine ⟨⟨rfl, rfl, price, rfl, hqty⟩, fun t r => ?_⟩
  rcases r with e | ⟨perpOrderId, perpFilled⟩ | error
  · trivial
  · exact buySpot_follows qty spotPrice perpPrice perpOrderId perpFilled
  · exact notify_wp _ _ _

theorem openSection_follows (price perpPrice : ℚ) :
    (openSection p price perpPrice).wp (arbOrders p).spec (fun _ _ => True) (.locked price) := by
  rw [openSection, Prog.wp_bind, Prog.wp_perform]
  refine ⟨trivial, fun t r => ?_⟩
  cases r with
  | error e => trivial
  | ok _ =>
      rw [Prog.out_ok]
      cases hqty : calcQty p price with
      | none => trivial
      | some qty => exact openLegs_follows hqty price perpPrice

theorem sellSpot_follows (qty : ℚ) (reason : Reason) (perpFilled : ℚ) :
    (sellSpot p.symbol qty reason perpFilled).wp (arbOrders p).spec (fun _ _ => True) (.covered qty) := by
  rw [sellSpot, Prog.wp_bind, Executor.placeOrder, Prog.wp_perform]
  refine ⟨⟨rfl, rfl⟩, fun t r => ?_⟩
  rcases r with e | ⟨orderId, filled⟩ | error
  · trivial
  · exact notify_wp _ _ _
  · exact notify_wp _ _ _

theorem closeLegs_follows (qty : ℚ) (reason : Reason) :
    (closeLegs p.symbol qty reason).wp (arbOrders p).spec (fun _ _ => True) (.closing qty) := by
  rw [closeLegs, Prog.wp_bind, placeLinearOrder, Prog.wp_perform]
  refine ⟨⟨rfl, rfl, .inr rfl⟩, fun t r => ?_⟩
  rcases r with e | ⟨orderId, perpFilled⟩ | error
  · trivial
  · exact sellSpot_follows qty reason perpFilled
  · exact notify_wp _ _ _

theorem closeSection_follows (reason : Reason) (price : ℚ) :
    (closeSection p reason).wp (arbOrders p).spec (fun _ _ => True) (.locked price) := by
  rw [closeSection, Prog.wp_bind, Prog.wp_perform]
  refine ⟨trivial, fun t r => ?_⟩
  cases r with
  | error e => trivial
  | ok position =>
      rw [Prog.out_ok]
      split
      · trivial
      · next hsize =>
          have hphase : (arbOrders p).next (.locked price) t (.getLinearPositions p.symbol) (.ok position) =
              .closing (roundTo (symbolPrecision p.symbol) (perpSize position)) := by
            simp [arbOrders, Phase.next, closingQty, not_le.1 hsize]
          rw [hphase]
          exact closeLegs_follows _ reason

/-- A section that is entered with the lock. -/
theorem withLock_follows {body : Svc FundingArbExecutor.Outcome} {price : ℚ}
    (hbody : body.wp (arbOrders p).spec (fun _ _ => True) (.locked price)) :
    (FundingArbExecutor.withLock p.symbol body).wp (arbOrders p).spec (fun _ _ => True) (.priced price) := by
  rw [FundingArbExecutor.withLock, Prog.wp_bind, Prog.wp_perform]
  refine ⟨⟨rfl, price, rfl⟩, fun t r => ?_⟩
  rcases r with e | _ | _
  · trivial
  · trivial
  · rw [Prog.out_ok, if_pos rfl]
    have hrelease : (await (.releaseLock (Redis.fundingArbLock p.symbol))).Uses Plain := Prog.uses_perform trivial
    exact Prog.wp_ensure_of (arbOrders p).spec_mono hbody (fun q _ => plain_wp hrelease q)

theorem getArbStatus_follows (price : ℚ) :
    (getArbStatus p).wp (arbOrders p).spec (fun _ q => q = .priced price) (.priced price) := by
  refine Protocol.wp_of_uses (arbOrders p) (U := fun op => match op with
    | .getLinearPositions _ | .getWalletBalance | .getLinearTicker _ => True
    | _ => False) (fun op hop => ?_) _ ?_
  · cases op with
    | getLinearPositions _ => exact ⟨trivial, fun _ _ => rfl⟩
    | getWalletBalance | getLinearTicker _ => exact ⟨trivial, fun _ _ => rfl⟩
    | _ => exact hop.elim
  · exact Prog.uses_attempt (Prog.uses_bind (Prog.uses_perform trivial) (fun _ => Prog.uses_bind
      (Prog.uses_perform trivial) (fun _ => Prog.uses_bind (Prog.uses_perform trivial) (fun _ => trivial))))
      (fun _ => trivial)

theorem execute_follows (decision : Decision) (price perpPrice : ℚ) :
    (execute p decision price perpPrice).wp (arbOrders p).spec (fun _ _ => True) (.priced price) := by
  rw [execute]
  cases decision.signal with
  | «open» => exact Prog.wp_map_of (arbOrders p).spec_mono (withLock_follows (openSection_follows price perpPrice))
  | close | emergencyClose =>
      exact Prog.wp_map_of (arbOrders p).spec_mono (withLock_follows (closeSection_follows decision.reason price))
  | hold => trivial

theorem writeState_plain (state : CycleState) : (writeState dumps state).Uses Plain := Prog.uses_perform trivial

theorem trade_follows (count : ℕ) (ticker : Ticker) :
    (trade dumps p count ticker).wp (arbOrders p).spec (fun _ _ => True) .on := by
  rw [trade, Prog.wp_bind, currentPriceOf, Prog.wp_perform]
  refine ⟨trivial, fun t r => ?_⟩
  cases r with
  | error e => trivial
  | ok price =>
      rw [Prog.out_ok, Prog.wp_bind]
      refine Prog.wp_mono (arbOrders p).spec_mono _ (fun r q hq => ?_) _ (getArbStatus_follows price)
      cases r with
      | error e => trivial
      | ok status =>
          subst hq
          exact Prog.wp_bind_of (arbOrders p).spec_mono (execute_follows _ price ticker.markPrice)
            (fun _ q _ => plain_wp (writeState_plain _) q)

theorem cycle_follows (count : ℕ) (q : Phase) :
    (cycle dumps p count).wp (arbOrders p).spec (fun _ _ => True) q := by
  rw [cycle, Prog.wp_bind, Prog.wp_perform]
  refine ⟨trivial, fun t r => ?_⟩
  cases r with
  | error e => trivial
  | ok enabled =>
      rw [Prog.out_ok]
      split
      · exact plain_wp (writeState_plain _) _
      · next henabled =>
          obtain rfl : enabled = some "1" := not_not.1 henabled
          have hphase : (arbOrders p).next q t (.get (fundingArbEnabledKey p.symbol)) (.ok (some "1")) = .on := by
            simp [arbOrders, Phase.next, Except.toOption]
          rw [hphase, Prog.wp_bind, Prog.wp_perform]
          refine ⟨trivial, fun t' r => ?_⟩
          rcases r with e | _ | ticker
          · trivial
          · trivial
          · exact trade_follows count ticker

theorem run_follows (cycles : ℕ) : (arbOrders p).Follows .off (run dumps p cycles) :=
  Prog.wp_forEach_of (arbOrders p).spec_mono (fun n q _ => Prog.wp_attempt_of (arbOrders p).spec_mono
    (cycle_follows (n + 1) q) (fun _ q' _ => plain_wp (writeState_plain _) q')) _ trivial

variable {ι : Type} [DecidableEq ι]

end Autr.Services.ArbOrders
