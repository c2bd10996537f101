import Autr.Services.Evaluate
import Mathlib.Tactic.Linarith

namespace Autr.Services.HedgeLegs

open Autr.Async Autr.Infra Bybit Redis Decimal Strategies.FundingArb FundingArbExecutor Evaluate

variable {S : Setting} {f : Op → Env} {p : Params} {w : World} {symbol : String} {qty : ℚ}

/-- How much the coins of the wallet exceed the short. -/
def excess (symbol : String) (w : World) : ℚ := w.wallet (baseCurrency symbol) - w.short symbol

/-- The coins of the wallet, less those that are not the arbitrage's, match the short. -/
def Hedged (p : Params) (other : ℚ) (w : World) : Prop :=
  w.wallet (baseCurrency p.symbol) - other = w.short p.symbol

instance (p : Params) (other : ℚ) (w : World) : Decidable (Hedged p other w) :=
  inferInstanceAs (Decidable (_ = _))

theorem hedged_iff {other : ℚ} : Hedged p other w ↔ excess p.symbol w = other := by
  rw [Hedged, excess]
  constructor <;> intro h <;> linarith

theorem excess_of_account {w' : World} (h : w.account = w'.account) : excess symbol w = excess symbol w' := by
  have hwallet : w.wallet = w'.wallet := congrArg Prod.fst h
  have hshort : w.short = w'.short := congrArg Prod.snd h
  rw [excess, excess, hwallet, hshort]

theorem excess_fillSpot (side : Side) (executed : ℚ) :
    excess symbol (fillSpot symbol side executed w) = excess symbol w + spotChange side executed := by
  simp only [excess, fillSpot, Function.update_self]
  ring

theorem excess_fillLinear (side : Side) (reduceOnly : Bool) (executed : ℚ) :
    excess symbol (fillLinear symbol side reduceOnly executed w) =
      excess symbol w - shortChange side reduceOnly executed (w.short symbol) := by
  simp only [excess, fillLinear, Function.update_self]
  ring

theorem eval_orderless {α : Type} {prog : Svc α} (h : prog.Uses Orderless) (w : World) :
    (eval (handler S) f prog w).2.account = w.account :=
  eval_of_uses (handler S) f (g := World.account) (P := Orderless) (fun _ _ hop => exec_account hop) prog h w

theorem excess_notify {α : Type} (notice : Notice) (a : α) (w : World) :
    excess symbol (eval (handler S) f (do Executor.notify notice; return a) w).2 = excess symbol w :=
  excess_of_account (eval_orderless (Executor.notify_orderless notice a) w)

/-- What the surroundings are assumed to do: an accepted order is filled in full, and the
roll-back of an opening is accepted. -/
structure Answers (f : Op → Env) (p : Params) (call : ArbCall) : Prop where
  filled : ∀ op, fillsOrder (f op) op = true
  rollback : ∀ spotPrice perpPrice qty, call = .opening spotPrice perpPrice →
    (f (.placeLinearOrder p.symbol .buy qty true)).reply.isAccepted = true

def perpAnswer (S : Setting) (f : Op → Env) (symbol : String) (side : Side) (qty : ℚ) (reduceOnly : Bool) : Reply :=
  linearReply S (f (.placeLinearOrder symbol side qty reduceOnly))

def spotAnswer (S : Setting) (f : Op → Env) (symbol : String) (side : Side) (qty : ℚ) : Reply :=
  spotReply S side qty (f (.submitOrder symbol side qty))

section Legs

variable (hfill : ∀ op, fillsOrder (f op) op = true)

include hfill

theorem executed_perp (symbol : String) (side : Side) (qty : ℚ) (reduceOnly : Bool) :
    (perpAnswer S f symbol side qty reduceOnly).executed =
      if (perpAnswer S f symbol side qty reduceOnly).isAccepted then qty else 0 :=
  Reply.executed_of_fills (linearReply_fills (hfill (.placeLinearOrder symbol side qty reduceOnly)))

theorem executed_spot (symbol : String) (side : Side) (qty : ℚ) :
    (spotAnswer S f symbol side qty).executed =
      if (spotAnswer S f symbol side qty).isAccepted then qty else 0 :=
  Reply.executed_of_fills (spotReply_fills (hfill (.submitOrder symbol side qty)))

theorem excess_buySpot (spotPrice perpPrice : ℚ) (perpOrderId : String) (perpFilled : ℚ) (hqty : 0 ≤ qty)
    (hroll : (perpAnswer S f symbol .buy qty true).isAccepted = true) (hshort : qty ≤ w.short symbol) :
    excess symbol (eval (handler S) f (buySpot symbol qty spotPrice perpPrice perpOrderId perpFilled) w).2 =
      excess symbol w + qty := by
  have hspot := executed_spot (S := S) hfill symbol .buy qty
  rw [buySpot, eval_bind, eval_placeOrder]
  change _ = excess symbol (later (f (.submitOrder symbol .buy qty)) w) + qty
  dsimp only
  rw [← spotAnswer]
  cases hr : spotAnswer S f symbol .buy qty with
  | accepted spotOrderId executed reported =>
      rw [hr] at hspot
      simp only [Reply.result]
      rw [excess_notify, excess_fillSpot, hspot]
      rfl
  | rejected error =>
      simp only [Reply.result]
      rw [eval_bind, eval_placeLinearOrder]
      dsimp only
      rw [excess_notify, excess_fillLinear, ← perpAnswer, executed_perp hfill, hroll, if_pos rfl]
      change excess symbol (fillSpot symbol .buy 0 _) - shortChange .buy true qty (w.short symbol) = _
      rw [excess_fillSpot, shortChange, if_pos rfl, max_eq_left (hqty.trans hshort), min_eq_left hshort, spotChange]
      ring

theorem excess_openLegs (spotPrice perpPrice : ℚ) (hqty : 0 ≤ qty)
    (hroll : (f (.placeLinearOrder symbol .buy qty true)).reply.isAccepted = true) (hshort : 0 ≤ w.short symbol) :
    excess symbol (eval (handler S) f (openLegs symbol qty spotPrice perpPrice) w).2 = excess symbol w := by
  have hperp := executed_perp (S := S) hfill symbol .sell qty false
  rw [openLegs, eval_bind, eval_placeLinearOrder]
  change _ = excess symbol (later (f (.placeLinearOrder symbol .sell qty false)) w)
  dsimp only
  rw [← perpAnswer]
  cases hr : perpAnswer S f symbol .sell qty false with
  | rejected error =>
      simp only [Reply.result]
      rw [excess_notify, excess_fillLinear]
      simp [Reply.executed, shortChange]
  | accepted perpOrderId executed reported =>
      rw [hr] at hperp
      have hroll' : (perpAnswer S f symbol .buy qty true).isAccepted = true := by
        rw [perpAnswer, linearReply] at hr ⊢
        cases hauth : S.bybit.authenticated with
        | false => simp [hauth] at hr
        | true => exact hroll
      simp only [Reply.result]
      rw [excess_buySpot hfill _ _ _ _ hqty hroll', excess_fillLinear, hperp]
      · simp [Reply.isAccepted, shortChange]
      · rw [hperp]
        simpa [Reply.isAccepted, shortChange, fillLinear] using hshort

theorem excess_sellSpot (reason : Reason) (perpFilled : ℚ) :
    excess symbol (eval (handler S) f (sellSpot symbol qty reason perpFilled) w).2 =
      excess symbol w - if (spotAnswer S f symbol .sell qty).isAccepted then qty else 0 := by
  have hspot := executed_spot (S := S) hfill symbol .sell qty
  rw [sellSpot, eval_bind, eval_placeOrder]
  change _ = excess symbol (later (f (.submitOrder symbol .sell qty)) w) - _
  dsimp only
  rw [← spotAnswer, ← hspot]
  cases hr : spotAnswer S f symbol .sell qty with
  | accepted spotOrderId executed reported =>
      simp only [Reply.result]
      rw [excess_notify, excess_fillSpot, spotChange, sub_eq_add_neg]
  | rejected error =>
      simp only [Reply.result]
      rw [excess_notify, excess_fillSpot, spotChange, sub_eq_add_neg]

theorem excess_closeLegs (reason : Reason) :
    excess symbol (eval (handler S) f (closeLegs symbol qty reason) w).2 =
      excess symbol w + if (perpAnswer S f symbol .buy qty true).isAccepted then
        min qty (max (w.short symbol) 0) - (if (spotAnswer S f symbol .sell qty).isAccepted then qty else 0)
      else 0 := by
  have hperp := executed_perp (S := S) hfill symbol .buy qty true
  rw [closeLegs, eval_bind, eval_placeLinearOrder]
  change _ = excess symbol (later (f (.placeLinearOrder symbol .buy qty true)) w) + _
  dsimp only
  rw [← perpAnswer]
  cases hr : perpAnswer S f symbol .buy qty true with
  | rejected error =>
      simp only [Reply.result]
      rw [excess_notify, excess_fillLinear]
      simp [Reply.executed, Reply.isAccepted, shortChange]
  | accepted perpOrderId executed reported =>
      rw [hr] at hperp
      simp only [Reply.result]
      rw [excess_sellSpot hfill, excess_fillLinear, hperp, shortChange]
      simp only [Reply.isAccepted, if_true]
      change _ - -min qty (max (w.short symbol) 0) - _ = _
      ring

end Legs

def Enters (S : Setting) (f : Op → Env) (symbol : String) (w : World) : Prop :=
  let c := f (.acquireLock (fundingArbLock symbol) lockTtl)
  c.fault = .none ∧ (acquireLock S.backend (w.now + c.elapsed) (fundingArbLock symbol) lockTtl w.redis).1 = true

instance (S : Setting) (f : Op → Env) (symbol : String) (w : World) : Decidable (Enters S f symbol w) :=
  inferInstanceAs (Decidable (_ ∧ _))

theorem enters_iff : Enters S f symbol w ↔
    (exec S (.acquireLock (fundingArbLock symbol) lockTtl)
      (f (.acquireLock (fundingArbLock symbol) lockTtl)) w).1 = .ok true := by
  rw [Enters, exec]
  cases (f (.acquireLock (fundingArbLock symbol) lockTtl)).fault <;> simp [Fault.apply]

theorem excess_withLock (symbol : String) (body : Svc Outcome) :
    ∃ w', w'.account = w.account ∧ excess symbol (eval (handler S) f (withLock symbol body) w).2 =
      if Enters S f symbol w then excess symbol (eval (handler S) f body w').2 else excess symbol w := by
  have horderless : Orderless (.acquireLock (fundingArbLock symbol) lockTtl) := ⟨rfl, rfl⟩
  have hacquire := exec_account (S := S) (c := f (.acquireLock (fundingArbLock symbol) lockTtl)) (w := w) horderless
  rw [withLock, eval_bind, eval_perform, handler_exec]
  simp only [enters_iff]
  generalize exec S (.acquireLock (fundingArbLock symbol) lockTtl)
    (f (.acquireLock (fundingArbLock symbol) lockTtl)) w = r at hacquire
  rcases r with ⟨e | _ | _, w'⟩
  · exact ⟨w', hacquire, by simpa using excess_of_account hacquire⟩
  · exact ⟨w', hacquire, by simpa using excess_of_account hacquire⟩
  · refine ⟨w', hacquire, ?_⟩
    have horderless' : Orderless (.releaseLock (fundingArbLock symbol)) := ⟨rfl, rfl⟩
    have hrelease := exec_account (S := S) (c := f (.releaseLock (fundingArbLock symbol)))
      (w := (eval (handler S) f body w').2) horderless'
    simp only [if_true, eval_ensure, eval_perform, handler_exec]
    generalize exec S (.releaseLock (fundingArbLock symbol)) (f (.releaseLock (fundingArbLock symbol)))
      (eval (handler S) f body w').2 = r' at hrelease
    rcases r' with ⟨e | _, w''⟩ <;> exact excess_of_account hrelease

theorem short_of_account {w' : World} (h : w'.account = w.account) : w'.short = w.short := congrArg Prod.snd h

theorem excess_openSection (spotPrice perpPrice : ℚ) (hfill : ∀ op, fillsOrder (f op) op = true)
    (hroll : ∀ qty, (f (.placeLinearOrder p.symbol .buy qty true)).reply.isAccepted = true)
    (hshort : 0 ≤ w.short p.symbol) :
    excess p.symbol (eval (handler S) f (openSection p spotPrice perpPrice) w).2 = excess p.symbol w := by
  rw [openSection, eval_bind, eval_perform]
  change _ = excess p.symbol (later (f (.setLeverage p.symbol (toString p.leverage) (toString p.leverage))) w)
  cases hqty : calcQty p spotPrice with
  | none => rfl
  | some qty => exact excess_openLegs hfill spotPrice perpPrice (calcQty_pos hqty).le (hroll qty) hshort

/-- The closing sees a short, and its first leg goes through while the second one does not
follow: the spot sale is refused, or the size was rounded up and more is sold. -/
def OneLeg (S : Setting) (f : Op → Env) (p : Params) (w : World) : Prop :=
  let short := w.short p.symbol
  let qty := roundTo (symbolPrecision p.symbol) short
  keyedAnswer S (f (.getLinearPositions p.symbol)) = true ∧ 0 < short ∧
    (perpAnswer S f p.symbol .buy qty true).isAccepted = true ∧
    if (spotAnswer S f p.symbol .sell qty).isAccepted then short < qty else 0 < qty

theorem eval_getLinearPositions :
    eval (handler S) f (await (.getLinearPositions symbol)) w =
      let c := f (.getLinearPositions symbol)
      (.ok (if keyedAnswer S c then some ⟨|w.short symbol|, c.entryPrice, c.unrealizedPnl⟩ else none),
        later c w) := by
  rw [eval_perform]
  rfl

theorem excess_later (c : Env) (w : World) : excess symbol (later c w) = excess symbol w := rfl

theorem follows_iff {short : ℚ} {accepted : Bool} (hshort : 0 < short) (hqty : 0 ≤ qty) :
    min qty (max short 0) - (if accepted then qty else 0) = 0 ↔ ¬ if accepted then short < qty else 0 < qty := by
  rw [max_eq_left hshort.le]
  cases accepted with
  | true =>
      simp only [if_true, not_lt, sub_eq_zero]
      exact min_eq_left_iff
  | false =>
      simp only [Bool.false_eq_true, if_false, sub_zero, not_lt]
      constructor
      · intro h
        rcases min_choice qty short with hmin | hmin
        · exact (hmin.symm.trans h).le
        · exact absurd (hmin.symm.trans h) hshort.ne'
      · intro h
        rw [le_antisymm h hqty]
        exact min_eq_left hshort.le

theorem excess_closeSection (reason : Reason) (hfill : ∀ op, fillsOrder (f op) op = true)
    (hshort : 0 ≤ w.short p.symbol) :
    excess p.symbol (eval (handler S) f (closeSection p reason) w).2 = excess p.symbol w ↔ ¬ OneLeg S f p w := by
  rw [closeSection, eval_bind, eval_getLinearPositions, OneLeg]
  dsimp only
  cases keyedAnswer S (f (.getLinearPositions p.symbol)) with
  | false => simp [perpSize, excess_later]
  | true =>
      have hsize : ∀ c : Env, perpSize (some ⟨|w.short p.symbol|, c.entryPrice, c.unrealizedPnl⟩) =
        w.short p.symbol := fun _ => abs_of_nonneg hshort
      rw [if_pos rfl, hsize]
      rcases hshort.eq_or_lt with hzero | hpos
      · simp [← hzero, excess_later]
      · rw [if_neg (not_le.2 hpos), excess_closeLegs hfill, excess_later, later_short]
        have hqty := roundTo_nonneg (symbolPrecision p.symbol) hshort
        cases (perpAnswer S f p.symbol .buy (roundTo (symbolPrecision p.symbol) (w.short p.symbol)) true).isAccepted with
        | false => simp
        | true => simpa [hpos] using follows_iff hpos hqty

def KeepsHedge (S : Setting) (f : Op → Env) (p : Params) (w : World) : ArbCall → Prop
  | .opening _ _ => True
  | .closing _ => ¬ (Enters S f p.symbol w ∧ OneLeg S f p w)

theorem oneLeg_of_account {w' : World} (h : w'.account = w.account) : OneLeg S f p w' ↔ OneLeg S f p w := by
  rw [OneLeg, OneLeg, short_of_account h]

/-- A call that starts with equal legs ends with equal legs: an opening always, a closing
exactly when its second leg follows the first. -/
theorem hedge_kept_iff (S : Setting) (f : Op → Env) (p : Params) (w : World) (other : ℚ) (call : ArbCall)
    (hanswers : Answers f p call) (hshort : 0 ≤ w.short p.symbol) (hw : Hedged p other w) :
    Hedged p other (eval (handler S) f (call.prog p) w).2 ↔ KeepsHedge S f p w call := by
  rw [hedged_iff, ← hedged_iff.1 hw]
  cases call with
  | opening spotPrice perpPrice =>
      obtain ⟨w', haccount, hlock⟩ := excess_withLock (S := S) (f := f) (w := w) p.symbol
        (openSection p spotPrice perpPrice)
      have hroll := fun qty => hanswers.rollback spotPrice perpPrice qty rfl
      have hopen := excess_openSection (S := S) (w := w') spotPrice perpPrice hanswers.filled hroll
        (by rwa [short_of_account haccount])
      rw [ArbCall.prog, openPosition, hlock, hopen, excess_of_account haccount, ite_self]
      exact iff_of_true rfl trivial
  | closing reason =>
      obtain ⟨w', haccount, hlock⟩ := excess_withLock (S := S) (f := f) (w := w) p.symbol
        (closeSection p reason)
      have hclose := excess_closeSection (S := S) (p := p) (w := w') reason hanswers.filled
        (by rwa [short_of_account haccount])
      rw [oneLeg_of_account haccount, excess_of_account haccount] at hclose
      rw [ArbCall.prog, closePosition, hlock, KeepsHedge]
      by_cases henters : Enters S f p.symbol w
      · rw [if_pos henters, hclose]
        exact (not_congr (and_iff_right henters)).symm
      · rw [if_neg henters]
        exact iff_of_true rfl (fun h => henters h.1)

def spotRefused (op : Op) : Env :=
  { Env.trading with
    reply := match op with
      | .placeLinearOrder _ _ qty _ => .accepted "order-1" qty true
      | _ => .rejected (.rejected "insufficient balance") }

def hedgedWorld : World :=
  { World.empty with
    wallet := fun coin => if coin = "BTC" then 1 / 1000 else 0
    short := fun symbol => if symbol = "BTCUSDT" then 1 / 1000 else 0 }

theorem spotRefused_answers (call : ArbCall) : Answers spotRefused defaultParams call where
  filled op := by
    cases op with
    | placeLinearOrder => simp [fillsOrder, spotRefused, Op.orderQty, Reply.fills]
    | _ => rfl
  rollback _ _ _ _ := rfl

theorem hedge_kept_opening :
    Hedged defaultParams 0
        (eval (handler defaults) spotRefused ((ArbCall.opening 30000 30000).prog defaultParams) hedgedWorld).2 ↔
      KeepsHedge defaults spotRefused defaultParams hedgedWorld (.opening 30000 30000) :=
  hedge_kept_iff defaults spotRefused defaultParams hedgedWorld 0 (.opening 30000 30000)
    (spotRefused_answers _) (by decide +kernel) (by decide +kernel)

/-- The perpetual is closed, the spot sale is refused, and nothing is rolled back. -/
theorem refused_sale_leaves_spot :
    Answers spotRefused defaultParams (.closing .normal) ∧ Hedged defaultParams 0 hedgedWorld ∧
    ¬ Hedged defaultParams 0
      (eval (handler defaults) spotRefused ((ArbCall.closing .normal).prog defaultParams) hedgedWorld).2 :=
  ⟨spotRefused_answers _, by decide +kernel, by decide +kernel⟩

end Autr.Services.HedgeLegs
