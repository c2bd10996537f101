import Autr.Async.Protocol
import Autr.Services.FundingArbExecutor
import Mathlib.Tactic.Linarith

namespace Autr.Services.SharedAccount

open Autr.Async Autr.Infra Bybit Decimal TradeTracker Strategies.FundingArb

inductive AccountCall
  | buy (strategy sigId : String) (closePrice : ℚ)
  | sell (strategy sigId : String) (closePrice : ℚ) (qty : Option ℚ)
  | reconcile
  | arb (call : FundingArbExecutor.ArbCall)

def AccountCall.isExecutor : AccountCall → Bool
  | .arb _ => false
  | _ => true

inductive AccountResult
  | executed (outcome : Executor.Outcome)
  | reconciled (result : Executor.Reconciled)
  | arb (outcome : FundingArbExecutor.Outcome)
  deriving DecidableEq

def AccountCall.prog (S : Setting) (p : Params) : AccountCall → Svc AccountResult
  | .buy strategy sigId closePrice =>
      AccountResult.executed <$> Executor.executeBuy p.symbol strategy sigId closePrice
  | .sell strategy sigId closePrice qty =>
      AccountResult.executed <$> Executor.executeSell p.symbol strategy sigId closePrice qty
  | .reconcile => AccountResult.reconciled <$> Executor.reconcile S.bybit.minOrderSize p.symbol
  | .arb call => AccountResult.arb <$> call.prog p

variable {ι : Type} [DecidableEq ι]

abbrev Account (ι : Type) := Conf ι Op Op.Res Exc World AccountResult

def begin (S : Setting) (p : Params) (calls : ι → AccountCall) (w : World) : Account ι :=
  start (fun i => (calls i).prog S p) w

/-- The size a sale without a quantity was given by the client, and the orders a call of
the executor may place: buys only, that one sale, or none. -/
def orderProtocol (symbol : String) (call : AccountCall) : Protocol Op Op.Res Exc (Option ℚ) where
  start := none
  next sized _ op r := match op, r with
    | .calculateSafeOrderSize s side, .ok size => if s = symbol ∧ side = .sell then size else sized
    | _, _ => sized
  allows sized op := match call, op with
    | .arb _, _ => True
    | .buy _ _ _, .submitOrder s side _ => s = symbol ∧ side = .buy
    | .sell _ _ _ qty, .submitOrder s side q => s = symbol ∧ side = .sell ∧ qty.or sized = some q
    | _, op => Orderless op
  final _ := True

variable {S : Setting} {p : Params} {symbol strategy sigId : String} {closePrice : ℚ} {call : AccountCall}
  {calls : ι → AccountCall}

theorem allows_of_orderless {op : Op} (h : Orderless op) (sized : Option ℚ) :
    (orderProtocol symbol call).allows sized op := by
  cases call <;> cases op <;> first | exact h | exact trivial | exact absurd h.1 Bool.true_eq_false.mp

theorem wp_of_orderless {α : Type} {prog : Svc α} (h : prog.Uses Orderless) (sized : Option ℚ) :
    prog.wp (orderProtocol symbol call).spec (fun _ _ => True) sized :=
  Prog.wp_of_uses (orderProtocol symbol call).spec_mono (I := fun _ => True)
    (fun _ sized hop _ => ⟨allows_of_orderless hop sized, fun _ _ => trivial⟩) prog h sized trivial

theorem withLock_follows {body : Svc Executor.Outcome}
    (h : ∀ sized, body.wp (orderProtocol symbol call).spec (fun _ _ => True) sized) (sized : Option ℚ) :
    (Executor.withLock symbol body).wp (orderProtocol symbol call).spec (fun _ _ => True) sized := by
  refine Prog.wp_bind_of (orderProtocol symbol call).spec_mono
    (wp_of_orderless (Prog.uses_perform ⟨rfl, rfl⟩) sized) (fun acquired sized' _ => ?_)
  cases acquired with
  | false => trivial
  | true =>
      exact Prog.wp_ensure_of (orderProtocol symbol call).spec_mono (h sized')
        (fun sized'' _ => wp_of_orderless (Prog.uses_perform ⟨rfl, rfl⟩) sized'')

theorem buySection_follows (sized : Option ℚ) :
    (Executor.buySection symbol strategy sigId closePrice).wp
      (orderProtocol symbol (.buy strategy sigId closePrice)).spec (fun _ _ => True) sized := by
  refine Prog.wp_of_uses (orderProtocol symbol (.buy strategy sigId closePrice)).spec_mono (I := fun _ => True)
    (fun op sized hop _ => ⟨?_, fun _ _ => trivial⟩) _
    (Executor.buySection_permitted symbol strategy sigId closePrice) sized trivial
  cases op with
  | submitOrder s side q => exact hop
  | placeLinearOrder => exact hop.elim
  | _ => exact allows_of_orderless ⟨rfl, rfl⟩ sized

/-- A sale submits the quantity it was called with, or else the size it has just been given. -/
theorem placeOrder_follows (qty sized : Option ℚ) :
    (Executor.placeOrder symbol .sell qty).wp (orderProtocol symbol (.sell strategy sigId closePrice qty)).spec
      (fun _ _ => True) sized := by
  cases qty with
  | some q =>
      rw [Executor.placeOrder, Prog.wp_perform]
      exact ⟨⟨rfl, rfl, rfl⟩, fun _ _ => trivial⟩
  | none =>
      rw [Executor.placeOrder, Prog.wp_bind, Prog.wp_perform]
      refine ⟨⟨rfl, rfl⟩, fun t r => ?_⟩
      rcases r with e | _ | q
      · trivial
      · trivial
      · rw [Prog.out_ok, Prog.wp_perform]
        exact ⟨⟨rfl, rfl, if_pos ⟨rfl, rfl⟩⟩, fun _ _ => trivial⟩

theorem sellSection_follows (qty sized : Option ℚ) :
    (Executor.sellSection symbol strategy sigId closePrice qty).wp
      (orderProtocol symbol (.sell strategy sigId closePrice qty)).spec (fun _ _ => True) sized := by
  have hmono := (orderProtocol symbol (.sell strategy sigId closePrice qty)).spec_mono
  have hprocessed : (Executor.isProcessed sigId).Uses Orderless :=
    Prog.uses_bind (Prog.uses_perform ⟨rfl, rfl⟩) (fun _ => trivial)
  refine Prog.wp_bind_of hmono (wp_of_orderless hprocessed sized) (fun processed sized₁ _ => ?_)
  cases processed with
  | true => trivial
  | false =>
      refine Prog.wp_bind_of hmono (wp_of_orderless (Prog.uses_perform ⟨rfl, rfl⟩) sized₁)
        (fun openPositions sized₂ _ => ?_)
      refine Prog.wp_bind_of hmono (placeOrder_follows qty sized₂) (fun result sized₃ _ => ?_)
      cases result with
      | failure error => exact wp_of_orderless (Executor.notify_orderless _ _) sized₃
      | success orderId filled =>
          exact wp_of_orderless ((Executor.recordSell_recording symbol strategy sigId closePrice _ _ orderId).mono
            Executor.orderless_of_recording) sized₃

theorem reconcile_orderless (minOrderSize : ℚ) (symbol : String) :
    (Executor.reconcile minOrderSize symbol).Uses Orderless :=
  (Executor.reconcile_reconciling minOrderSize symbol).mono Executor.orderless_of_reconciling

theorem call_follows (call : AccountCall) : (orderProtocol p.symbol call).Follows none (call.prog S p) := by
  cases call with
  | buy strategy sigId closePrice =>
      exact Prog.wp_map_of (Protocol.spec_mono _) (withLock_follows buySection_follows none)
  | sell strategy sigId closePrice qty =>
      exact Prog.wp_map_of (Protocol.spec_mono _) (withLock_follows (sellSection_follows qty) none)
  | reconcile => exact Prog.wp_map_of (Protocol.spec_mono _) (wp_of_orderless (reconcile_orderless _ _) none)
  | arb call =>
      exact Prog.wp_of_uses (Protocol.spec_mono _) (I := fun _ => True)
        (fun _ _ _ _ => ⟨trivial, fun _ _ => trivial⟩) _ (Prog.uses_true _) none trivial

/-- The trace lies between an opening that succeeded and the next closing. -/
def inWindow (calls : ι → AccountCall) : List (Event ι Op Op.Res Exc AccountResult) → Bool
  | [] => false
  | e :: tr => match calls e.task, e.op, e.outcome with
      | .arb (.opening _ _), _, some (.ok (.arb (.opened _ _ _ _))) => true
      | .arb (.closing _), .acquireLock _ _, _ => false
      | _, _, _ => inWindow calls tr

/-- The spot balance is no less than the short. -/
def Backed (p : Params) (w : World) : Prop := w.short p.symbol ≤ w.wallet (baseCurrency p.symbol)

/-- Within the window no step of the executor makes the spot balance fall below the short. -/
def Unharmed (S : Setting) (p : Params) (calls : ι → AccountCall) (x : Account ι) (i : ι) (c : Env) : Prop :=
  inWindow calls x.trace = true → (calls i).isExecutor = true → Backed p x.world →
    Backed p (step (handler S) x (i, c)).world

/-- An accepted order is filled in full, and never with a negative quantity. -/
def Filled (x : Account ι) (i : ι) (c : Env) : Prop :=
  (x.task i).next.all (fillsOrder c) = true ∧ 0 ≤ c.reply.executed

/-- The account, and the free balance of the coin that the exchange reported to each call
when the call last asked the client for the size of a sale. -/
structure Watched (ι : Type) where
  account : Account ι
  free : ι → Option ℚ

def asksSize (p : Params) (x : Account ι) (i : ι) : Bool :=
  (x.task i).next = some (.calculateSafeOrderSize p.symbol .sell)

def watch (S : Setting) (p : Params) (y : Watched ι) (l : ι × Env) : Watched ι where
  account := step (handler S) y.account l
  free :=
    if asksSize p y.account l.1 then Function.update y.free l.1 (some (l.2.available (baseCurrency p.symbol)))
    else y.free

/-- What a sale is for: the quantity it was called with, or without one the free balance
it was told, floored to the precision of the symbol. -/
def saleQty (p : Params) (free : Option ℚ) : AccountCall → Option ℚ
  | .sell _ _ _ qty => qty.or (free.map (floorTo (symbolPrecision p.symbol)))
  | _ => none

/-- A sale accepted within the window leaves, of the coins that are there, what the short
needs. -/
def Spared (S : Setting) (p : Params) (calls : ι → AccountCall) (y : Watched ι) (l : ι × Env) : Prop :=
  inWindow calls y.account.trace = true → Backed p y.account.world →
    (y.account.task l.1).next.any Op.isSpotOrder = true → ∀ qty ∈ saleQty p (y.free l.1) (calls l.1),
      (spotReply S .sell qty l.2).isAccepted = true →
        y.account.world.short p.symbol + qty ≤ y.account.world.wallet (baseCurrency p.symbol)

instance (p : Params) (w : World) : Decidable (Backed p w) := inferInstanceAs (Decidable (_ ≤ _))

instance (S : Setting) (p : Params) (calls : ι → AccountCall) (x : Account ι) (i : ι) (c : Env) :
    Decidable (Unharmed S p calls x i c) := inferInstanceAs (Decidable (_ → _ → _ → _))

instance (x : Account ι) (i : ι) (c : Env) : Decidable (Filled x i c) := inferInstanceAs (Decidable (_ ∧ _))

instance (S : Setting) (p : Params) (calls : ι → AccountCall) (y : Watched ι) (l : ι × Env) :
    Decidable (Spared S p calls y l) := inferInstanceAs (Decidable (_ → _ → _ → ∀ qty ∈ _, _ → _))

theorem backed_of_account {w w' : World} (h : w.account = w'.account) : Backed p w ↔ Backed p w' := by
  have hwallet : w.wallet = w'.wallet := congrArg Prod.fst h
  have hshort : w.short = w'.short := congrArg Prod.snd h
  rw [Backed, Backed, hwallet, hshort]

theorem backed_submitOrder {c : Env} {w : World} (side : Side) (qty : ℚ) :
    Backed p (exec S (.submitOrder p.symbol side qty) c w).2 ↔
      w.short p.symbol ≤ w.wallet (baseCurrency p.symbol) + spotChange side (spotReply S side qty c).executed := by
  rw [Backed, exec_submitOrder_wallet, exec_short_of_ne rfl]

theorem spotReply_executed_nonneg {c : Env} {side : Side} {qty : ℚ} (h : 0 ≤ c.reply.executed) :
    0 ≤ (spotReply S side qty c).executed := by
  rw [spotReply]
  split
  · exact le_rfl
  · split
    · exact le_rfl
    · exact h

theorem executor_allows {sized : Option ℚ} {op : Op} (hexec : call.isExecutor = true)
    (h : (orderProtocol symbol call).allows sized op) :
    Orderless op ∨ (∃ qty, op = .submitOrder symbol .buy qty ∧ ∀ strategy sigId closePrice given,
      call ≠ .sell strategy sigId closePrice given) ∨
    ∃ qty strategy sigId closePrice given, op = .submitOrder symbol .sell qty ∧
      call = .sell strategy sigId closePrice given ∧ given.or sized = some qty := by
  cases call with
  | arb => cases hexec
  | reconcile => exact .inl h
  | buy =>
      cases op with
      | submitOrder s side qty =>
          obtain ⟨rfl, rfl⟩ := h
          exact .inr (.inl ⟨qty, rfl, fun _ _ _ _ he => by cases he⟩)
      | placeLinearOrder => exact .inl h
      | _ => exact .inl ⟨rfl, rfl⟩
  | sell strategy sigId closePrice given =>
      cases op with
      | submitOrder s side qty =>
          obtain ⟨rfl, rfl, hqty⟩ := h
          exact .inr (.inr ⟨qty, strategy, sigId, closePrice, given, rfl, rfl, hqty⟩)
      | placeLinearOrder => exact .inl h
      | _ => exact .inl ⟨rfl, rfl⟩

theorem saleQty_eq_none {free : Option ℚ}
    (h : ∀ strategy sigId closePrice given, call ≠ .sell strategy sigId closePrice given) :
    saleQty p free call = none := by
  cases call with
  | sell strategy sigId closePrice given => exact absurd rfl (h strategy sigId closePrice given)
  | _ => rfl

theorem safeOrderSize_sell {cfg : Config} {price size : ℚ} {b : Balances}
    (h : safeOrderSize cfg symbol .sell price b = some size) :
    0 < availableOf b (baseCurrency symbol) ∧
      floorTo (symbolPrecision symbol) (availableOf b (baseCurrency symbol)) = size := by
  rw [safeOrderSize] at h
  split at h
  · cases h
  · dsimp only at h
    split at h
    · cases h
    · next hpos => exact ⟨not_le.1 hpos, Option.some.inj h⟩

/-- A coin that can be sold is one the exchange has reported. -/
theorem availableOf_readBalance {w : World} {c : Env} {coin : String} (h : 0 < availableOf (readBalance S w c) coin) :
    availableOf (readBalance S w c) coin = c.available coin := by
  rw [availableOf, readBalance] at h ⊢
  by_cases hkeyed : keyedAnswer S c = true
  swap
  · rw [if_neg hkeyed] at h
    exact absurd h (lt_irrefl (0 : ℚ))
  rw [if_pos hkeyed] at h ⊢
  unfold balances at h ⊢
  dsimp only at h ⊢
  generalize (if coin = quoteCoin then c.quote else w.wallet coin) = walletBalance at h ⊢
  by_cases hheld : 0 < walletBalance
  · rw [if_pos hheld]
    rfl
  · rw [if_neg hheld] at h
    exact absurd h (lt_irrefl (0 : ℚ))

/-- A call that has been given a size was told the balance which gives that size. -/
def Sized (p : Params) (calls : ι → AccountCall) (y : Watched ι) : Prop :=
  ∀ i, ∀ size ∈ phase (orderProtocol p.symbol (calls i)) i y.account.trace,
    (y.free i).map (floorTo (symbolPrecision p.symbol)) = some size

theorem next_of_other {op : Op} (hop : op ≠ .calculateSafeOrderSize symbol .sell) (sized : Option ℚ) (t : ℚ)
    (r : Except Exc (Op.Res op)) : (orderProtocol symbol call).next sized t op r = sized := by
  cases op with
  | calculateSafeOrderSize s side =>
      cases r with
      | error e => rfl
      | ok size => exact if_neg (fun h => hop (by rw [h.1, h.2]))
  | _ => rfl

theorem sized_watch {y : Watched ι} (hy : Sized p calls y) (l : ι × Env) : Sized p calls (watch S p y l) := by
  obtain ⟨i, c⟩ := l
  rcases step_cases (handler S) y.account i c with ⟨hnext, hs⟩ | ⟨op, k, hp, hs⟩
  · have hasks : asksSize p y.account i = false := by rw [asksSize, hnext]; rfl
    have hsame : watch S p y (i, c) = y := by rw [watch, hs, hasks]; rfl
    rwa [hsame]
  have hnext : (y.account.task i).next = some op := by rw [hp]; rfl
  intro j size hsize
  rw [watch] at hsize ⊢
  dsimp only at hsize ⊢
  rw [hs] at hsize
  by_cases hj : j = i
  swap
  · rw [phase_answered_ne _ _ hj] at hsize
    split
    · rw [Function.update_of_ne hj]
      exact hy j size hsize
    · exact hy j size hsize
  subst hj
  rw [phase_answered] at hsize
  by_cases hop : op = .calculateSafeOrderSize p.symbol .sell
  · subst hop
    have hasks : asksSize p y.account j = true := by rw [asksSize, hnext]; exact decide_eq_true rfl
    rw [if_pos hasks, Function.update_self, Option.map_some]
    have hsize' : safeOrderSize S.bybit p.symbol .sell c.price
        (readBalance S { y.account.world with now := y.account.world.now + c.elapsed } c) = some size :=
      (if_pos ⟨rfl, rfl⟩).symm.trans hsize
    obtain ⟨hpos, hfloor⟩ := safeOrderSize_sell hsize'
    rw [← availableOf_readBalance hpos, hfloor]
  · have hasks : asksSize p y.account j = false := by
      rw [asksSize, hnext]
      exact decide_eq_false (fun he => hop (Option.some.inj he))
    rw [next_of_other hop] at hsize
    rw [hasks]
    exact hy j size hsize

/-- A sale keeps the balance above the short exactly when it leaves enough of it. -/
theorem backed_sale_iff {w : World} {c : Env} {qty : ℚ} (hfill : (spotReply S .sell qty c).fills qty = true)
    (hbacked : Backed p w) :
    w.short p.symbol ≤ w.wallet (baseCurrency p.symbol) + spotChange .sell (spotReply S .sell qty c).executed ↔
      ((spotReply S .sell qty c).isAccepted = true →
        w.short p.symbol + qty ≤ w.wallet (baseCurrency p.symbol)) := by
  rw [spotChange, Reply.executed_of_fills hfill]
  cases (spotReply S .sell qty c).isAccepted with
  | false => simpa [Backed] using hbacked
  | true =>
      simp only [if_true, true_imp_iff]
      constructor <;> intro h <;> linarith

/-- One step of another harms nothing, and is no sale. -/
theorem unharmed_iff_spared_other {y : Watched ι} {i : ι} {c : Env} (hexec : (calls i).isExecutor = false) :
    Unharmed S p calls y.account i c ↔ Spared S p calls y (i, c) := by
  have hnone : saleQty p (y.free i) (calls i) = none :=
    saleQty_eq_none (fun _ _ _ _ he => by rw [he] at hexec; cases hexec)
  refine iff_of_true (fun _ h => absurd (hexec.symm.trans h) Bool.false_ne_true) (fun _ _ _ qty hqty => ?_)
  rw [hnone] at hqty
  cases hqty

theorem unharmed_iff_spared {y : Watched ι}
    (hd : Disciplined (fun i => orderProtocol p.symbol (calls i)) y.account) (hsized : Sized p calls y) (i : ι)
    {c : Env} (hfill : Filled y.account i c) : Unharmed S p calls y.account i c ↔ Spared S p calls y (i, c) := by
  by_cases hexec : (calls i).isExecutor = true
  swap
  · exact unharmed_iff_spared_other (Bool.eq_false_iff.2 hexec)
  rcases step_cases (handler S) y.account i c with ⟨hnext, hs⟩ | ⟨op, k, hp, hs⟩
  · refine iff_of_true (fun _ _ h => by rwa [hs]) (fun _ _ h => ?_)
    rw [hnext] at h
    cases h
  have hnext : (y.account.task i).next = some op := by rw [hp]; rfl
  obtain ⟨hfills, hnonneg⟩ := hfill
  rw [hnext, Option.all_some] at hfills
  rw [Unharmed, Spared, hs, hnext, Option.any_some, handler_exec]
  rcases executor_allows hexec (hd.allows hp) with horderless | ⟨qty, rfl, hother⟩ |
    ⟨qty, strategy, sigId, closePrice, given, rfl, hcall, hgiven⟩
  · refine iff_of_true (fun _ _ h => (backed_of_account (exec_account horderless)).2 h) (fun _ _ h => ?_)
    exact absurd (horderless.1.symm.trans h) Bool.false_ne_true
  · refine iff_of_true (fun _ _ h => (backed_submitOrder .buy qty).2 ?_) (fun _ _ _ q hq => ?_)
    · exact h.trans (le_add_of_nonneg_right (spotReply_executed_nonneg hnonneg))
    · rw [saleQty_eq_none hother] at hq
      cases hq
  · have hsale : saleQty p (y.free i) (calls i) = some qty := by
      rw [hcall, saleQty]
      cases given with
      | some q => exact hgiven
      | none => exact hsized i qty hgiven
    have hfills' : (spotReply S .sell qty c).fills qty = true := spotReply_fills hfills
    rw [hsale, backed_submitOrder]
    simp only [hexec, Op.isSpotOrder, Option.mem_some_iff, forall_eq', forall_const]
    refine imp_congr_right (fun _ => imp_congr_right (fun hbacked => ?_))
    exact backed_sale_iff hfills' hbacked

theorem along_watched {A : Account ι → ι → Env → Prop} {y : Watched ι} {ls : List (ι × Env)} :
    AlongRun (watch S p) (fun y l => A y.account l.1 l.2) y ls ↔ Along (handler S) A y.account ls :=
  alongRun_map (f := Watched.account) (A := fun x (l : ι × Env) => A x l.1 l.2) (fun _ _ => rfl)

/-- The executor never harms the hedge of an arbitrage that is open exactly when each of
its accepted sales meanwhile is for no more than the coins that exceed the short. -/
theorem hedge_unharmed_iff (S : Setting) (p : Params) (calls : ι → AccountCall) (w : World)
    (ls : List (ι × Env)) (hfill : Along (handler S) Filled (begin S p calls w) ls) :
    Along (handler S) (Unharmed S p calls) (begin S p calls w) ls ↔
      AlongRun (watch S p) (Spared S p calls) ⟨begin S p calls w, fun _ => none⟩ ls := by
  refine (along_watched (p := p) (y := ⟨begin S p calls w, fun _ => none⟩)).symm.trans ?_
  refine alongRun_congr (P := fun y => Disciplined (fun i => orderProtocol p.symbol (calls i)) y.account ∧
      Sized p calls y) (fun y l hy _ => ?_) (fun y l hy hok => ?_) ?_ (along_watched.2 hfill)
  · exact ⟨disciplined_step _ _ hy.1 l.1 l.2, sized_watch hy.2 l⟩
  · exact unharmed_iff_spared hy.1 hy.2 l.1 hok
  · refine ⟨disciplined_start (fun i => call_follows (calls i)) w, fun i size hsize => ?_⟩
    cases hsize

def openAndSell : Bool → AccountCall
  | false => .arb (.opening 30000 30000)
  | true => .sell "regime" "signal-1" 30000 none

def thousandth : Env :=
  { Env.trading with
    available := fun _ => 1 / 1000
    reply := .accepted "order-1" (1 / 1000) true }

/-- With as many coins besides, all of them sold while the short is open. -/
def coinsBesides : World := { World.empty with wallet := fun _ => 1 / 1000 }

theorem hedge_unharmed_iff_spare :
    let ls := List.replicate 6 (false, thousandth) ++ List.replicate 5 (true, thousandth)
    let x := begin defaults defaultParams openAndSell coinsBesides
    Along (handler defaults) (Unharmed defaults defaultParams openAndSell) x ls ∧
      (runs (handler defaults) x ls).world.wallet "BTC" = (runs (handler defaults) x ls).world.short "BTCUSDT" :=
  ⟨(hedge_unharmed_iff defaults defaultParams openAndSell coinsBesides _ (by decide +kernel)).2 (by decide +kernel),
    by decide +kernel⟩

/-- The sale takes the coins of the arbitrage, which the client counts as available. -/
theorem whole_wallet_sold :
    let ls := List.replicate 6 (false, thousandth) ++ List.replicate 5 (true, thousandth)
    let x := begin defaults defaultParams openAndSell World.empty
    Along (handler defaults) Filled x ls ∧
      ¬ Along (handler defaults) (Unharmed defaults defaultParams openAndSell) x ls := by
  decide +kernel

end Autr.Services.SharedAccount
