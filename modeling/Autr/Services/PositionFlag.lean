import Autr.Async.Runs
import Autr.Services.Reconcile
import Autr.Services.StrategyConsumer

namespace Autr.Services.PositionFlag

open Autr.Async Autr.Infra Bybit Redis Store TradeTracker Executor Evaluate StrategyConsumer

/-- The executor consumer waits for a message, has popped one (or waited in vain) and may
still reconcile, or has only its call left to make. -/
inductive Stage
  | idle
  | popped (raw : Option Message)
  | checked (raw : Option Message)

/-- The two consumers and the queue between them, oldest message first; a message that is
being pushed has not reached the queue. -/
structure System where
  consumer : Consumer
  publishing : Option Message
  queue : List Message
  stage : Stage
  world : World

inductive Label
  | tick (t : Tick)
  | push
  | pop
  | reconcile (f : Op → Env)
  | execute (f : Op → Env)
  | surroundings (w : World)

def callOf (m : Message) : Call :=
  match m.side with
  | .buy => .buy m.symbol m.strategy m.sigId m.closePrice
  | .sell => .sell m.symbol m.strategy m.sigId m.closePrice none

def executed (S : Setting) (f : Op → Env) (raw : Option Message) (w : World) : World :=
  match raw with
  | some m => (eval (handler S) f (callOf m).prog w).2
  | none => w

/-- The consumers share the queue alone, so a call of the executor takes effect when it
ends. Whatever others do to the stores and to the account, the rows are the executor's. -/
def step (S : Setting) (x : System) : Label → System
  | .tick t =>
      match x.publishing with
      | some _ => x
      | none => { x with consumer := (processTick t x.consumer).1, publishing := (processTick t x.consumer).2 }
  | .push =>
      match x.publishing with
      | some m => { x with queue := queuePush S.backend m x.queue, publishing := none }
      | none => x
  | .pop =>
      match x.stage with
      | .idle => { x with stage := .popped x.queue.head?, queue := x.queue.tail }
      | _ => x
  | .reconcile f =>
      match x.stage with
      | .popped raw =>
          { x with
            stage := .checked raw
            world := (eval (handler S) f (reconcile S.bybit.minOrderSize x.consumer.symbol) x.world).2 }
      | _ => x
  | .execute f =>
      match x.stage with
      | .idle => x
      | .popped raw | .checked raw => { x with stage := .idle, world := executed S f raw x.world }
  | .surroundings w => { x with world := { w with positions := x.world.positions } }

/-- A consumer that has just restored its flag, with nothing on its way. -/
def begin (s : Consumer) (w : World) : System where
  consumer := restoreState (getPositions (some .open) s.symbol defaultLimit w.positions) s
  publishing := none
  queue := []
  stage := .idle
  world := w

/-- Nothing is queued or on its way to the queue, and no call is in progress. -/
def Quiet (x : System) : Prop := x.publishing = none ∧ x.queue = [] ∧ x.stage = .idle

def rowOpen (x : System) : Bool := !(openRows x.consumer.symbol x.world.positions).isEmpty

def Agrees (x : System) : Prop := Quiet x → x.consumer.inPosition = rowOpen x

/-- The calls to the tables and to Redis succeed, and a new row has an id of its own. A
notice may raise. -/
structure Stored (f : Op → Env) (w : World) : Prop where
  stores : Stores f
  fresh : ∀ p, (f (.insertPosition p)).uuid ∉ w.positions.rows.map Position.id

def StoresSucceed (x : System) : Label → Prop
  | .reconcile f | .execute f => Stored f x.world
  | _ => True

def sizeOf (S : Setting) (f : Op → Env) (m : Message) (w : World) : Option ℚ :=
  let c := f (.calculateSafeOrderSize m.symbol m.side)
  safeOrderSize S.bybit m.symbol m.side c.price (readBalance S w c)

def lockedAt (f : Op → Env) (m : Message) (w : World) : ℚ :=
  w.now + (f (.acquireLock (executorLock m.symbol) lockTtl)).elapsed

/-- The call of a message is not refused: the lock is free, the id has no mark, the client
finds a size, and the exchange accepts the order. -/
def Accepted (S : Setting) (f : Op → Env) (m : Message) (w : World) : Prop :=
  (acquireLock S.backend (lockedAt f m w) (executorLock m.symbol) lockTtl w.redis).1 = true ∧
  (Redis.get S.backend (lockedAt f m w + (f (.get (processedKey m.sigId))).elapsed) (processedKey m.sigId)
    w.redis).1 = none ∧
  (sizeOf S f m w).any (fun qty => (spotReply S m.side qty (f (.submitOrder m.symbol m.side qty))).isAccepted) = true

def Raises (f : Op → Env) (notice : Notice) : Prop := (f (.notify notice)).fault ≠ .none

instance (f : Op → Env) (notice : Notice) : Decidable (Raises f notice) :=
  inferInstanceAs (Decidable (_ ≠ _))

/-- The decision `reconcile` takes on the holding it reads keeps a row open, or keeps
having none; the cases are those of `applyDecision`, where a notice that raises ends the
branch: before any row is touched, or, with `adjust_qty`, after the rows were closed. -/
def Keeps (f : Op → Env) (symbol : String) (minOrderSize holding price : ℚ) (rows : List Position) : Prop :=
  |localQty rows - holding| * price < minOrderSize ∨
  match ReconcileDomain.reconcile (localQty rows) holding with
  | .noop => True
  | .openMissingLocal => holding * price < minOrderSize ∨ Raises f (.reconcileMissing symbol)
  | .closeOrphanLocal => Raises f (.reconcileOrphan symbol)
  | .adjustQty =>
      rows.isEmpty =
        decide (holding * price < minOrderSize ∨ Raises f (.reconcileMismatch symbol (localQty rows) holding))

def KeepsRow (S : Setting) (f : Op → Env) (symbol : String) (w : World) : Prop :=
  Keeps f symbol S.bybit.minOrderSize (Reconcile.exchangeQty S (f .getBalance) symbol w)
    (f (.getCurrentPrice symbol)).price (getPositions (some .open) symbol defaultLimit w.positions)

def Stage.raw : Stage → Option Message
  | .idle => none
  | .popped raw | .checked raw => raw

/-- No call is refused, no message falls out of a full queue, and no reconciliation opens
or closes the position by itself. -/
def Smooth (S : Setting) (x : System) : Label → Prop
  | .push => x.queue.length < queueMaxLen
  | .reconcile f => KeepsRow S f x.consumer.symbol x.world
  | .execute f => ∀ m ∈ x.stage.raw, Accepted S f m x.world
  | _ => True

instance (S : Setting) (f : Op → Env) (m : Message) (w : World) : Decidable (Accepted S f m w) :=
  inferInstanceAs (Decidable (_ ∧ _ ∧ _))

variable {S : Setting} {f : Op → Env} {m : Message} {w : World} {symbol strategy sigId : String}
  {closePrice : ℚ}

theorem readBalance_congr {w' : World} (h : w'.wallet = w.wallet) (c : Env) :
    readBalance S w' c = readBalance S w c := by
  rw [readBalance, readBalance]
  unfold balances
  rw [h]

theorem positions_withLock (hs : Stores f) (body : Svc Outcome)
    (hlock : (acquireLock S.backend (w.now + (f (.acquireLock (executorLock symbol) lockTtl)).elapsed)
      (executorLock symbol) lockTtl w.redis).1 = true) :
    ∃ w₁, w₁.now = w.now + (f (.acquireLock (executorLock symbol) lockTtl)).elapsed ∧
      w₁.positions = w.positions ∧ w₁.wallet = w.wallet ∧
      (∀ sigId, w₁.redis (processedKey sigId) = w.redis (processedKey sigId)) ∧
      (eval (handler S) f (withLock symbol body) w).2.positions = (eval (handler S) f body w₁).2.positions := by
  rw [withLock, eval_bind, eval_acquireLock hs]
  dsimp only
  rw [hlock, if_pos rfl, eval_ensure]
  simp only [eval_releaseLock hs]
  refine ⟨_, ?_, ?_, ?_, fun id => ?_, rfl⟩
  · rfl
  · rfl
  · rfl
  · exact acquireLock_of_ne lockTtl (processedKey_ne_executorLock id symbol)

theorem recordBuy_opens (hs : Stores f) (symbol strategy sigId : String) (closePrice filledQty : ℚ) (orderId : String)
    (hfresh : ∀ p, (f (.insertPosition p)).uuid ∉ w.positions.rows.map Position.id) :
    ∃ id openTime, (eval (handler S) f (recordBuy symbol strategy sigId closePrice filledQty orderId) w).2.positions.rows =
      w.positions.rows ++ [(longPosition symbol closePrice filledQty).row id openTime] := by
  rw [recordBuy, eval_bind, eval_insertTrade hs]
  dsimp only
  generalize hw₁ : ({ later _ w with trades := _ } : World) = w₁
  have hrows : w₁.positions = w.positions := by rw [← hw₁, later_positions]
  obtain ⟨w₂, hinsert, hnew⟩ := eval_insertPosition (S := S) (w := w₁) hs (longPosition symbol closePrice filledQty)
    (by rw [hrows]; exact hfresh _)
  obtain ⟨w₃, hmark, hkept⟩ := eval_markProcessed (S := S) (w := w₂) hs sigId processedTtl
  rw [eval_bind, eval_attempt, hinsert]
  dsimp only
  rw [eval_bind, hmark]
  dsimp only
  rw [positions_notify_then, hkept, hnew, hrows]
  exact ⟨_, _, rfl⟩

theorem listed_nil {T : Positions} (h : openRows symbol T = []) (limit : ℕ) :
    getPositions (some .open) symbol limit T = [] := by
  rw [getPositions_open, h]
  exact List.eq_nil_iff_forall_not_mem.2 (fun r hr => List.not_mem_nil (mem_newest Position.openTime hr))

theorem buySection_opens (strategy : String) (closePrice : ℚ) (hs : Stores f) (hnone : openRows symbol w.positions = [])
    (hfresh : ∀ p, (f (.insertPosition p)).uuid ∉ w.positions.rows.map Position.id)
    (hunseen : ¬ Live S.backend (w.now + (f (.get (processedKey sigId))).elapsed) (processedKey sigId) w.redis)
    {qty : ℚ} (hsize : safeOrderSize S.bybit symbol .buy (f (.calculateSafeOrderSize symbol .buy)).price
      (readBalance S w (f (.calculateSafeOrderSize symbol .buy))) = some qty)
    (haccepted : (spotReply S .buy qty (f (.submitOrder symbol .buy qty))).isAccepted = true) :
    ∃ r, openRows symbol (eval (handler S) f (buySection symbol strategy sigId closePrice) w).2.positions = [r] := by
  obtain ⟨w₁, hprocessed, hrows₁, hwallet₁⟩ := eval_isProcessed (S := S) (w := w) hs hunseen
  rw [buySection, eval_bind, hprocessed]
  dsimp only
  rw [if_neg Bool.false_ne_true, eval_bind, eval_openPositionsOf hs, hrows₁, listed_nil hnone]
  simp only [List.isEmpty_nil, Bool.not_true, Bool.false_eq_true, if_false]
  rw [eval_bind, eval_calculateSafeOrderSize]
  dsimp only
  rw [readBalance_congr (by simpa [later] using hwallet₁), hsize]
  dsimp only
  rw [eval_bind, eval_placeOrder]
  dsimp only
  cases hr : spotReply S .buy qty (f (.submitOrder symbol .buy qty)) with
  | rejected error =>
      rw [hr] at haccepted
      cases haccepted
  | accepted orderId executed reported =>
      simp only [Reply.result]
      generalize hw₂ : fillSpot symbol .buy _ _ = w₂
      have hrows₂ : w₂.positions = w.positions := by
        rw [← hw₂]
        simpa [fillSpot] using hrows₁
      obtain ⟨id, openTime, hopened⟩ := recordBuy_opens (S := S) (w := w₂) hs symbol strategy sigId closePrice
        (if filledQty qty executed reported = 0 then qty else filledQty qty executed reported) orderId
        (by rw [hrows₂]; exact hfresh)
      rw [hrows₂] at hopened
      rw [openRows_append symbol hopened rfl, hnone, List.nil_append]
      exact ⟨_, rfl⟩

theorem recordSell_closes (hs : Stores f) (filledQty totalInvested : ℚ) (orderId : String)
    (hlen : (openRows symbol w.positions).length ≤ defaultLimit) :
    openRows symbol (eval (handler S) f
      (recordSell symbol strategy sigId closePrice filledQty totalInvested orderId) w).2.positions = [] := by
  rw [recordSell, eval_bind, eval_insertTrade hs]
  dsimp only
  generalize hw₁ : ({ later _ w with trades := _ } : World) = w₁
  have hrows : w₁.positions = w.positions := by rw [← hw₁, later_positions]
  obtain ⟨w₂, hclose, hclosed⟩ := eval_closeListed (S := S)
    (w := later (f (.selectPositions (some .open) symbol defaultLimit)) w₁) hs symbol closePrice defaultLimit
  obtain ⟨w₃, hmark, hkept⟩ := eval_markProcessed (S := S) (w := w₂) hs sigId processedTtl
  rw [later_positions] at hclose hclosed
  rw [eval_bind, eval_attempt, eval_bind, eval_openPositionsOf hs]
  dsimp only
  rw [hclose]
  dsimp only
  rw [eval_bind, hmark]
  dsimp only
  rw [positions_notify_then, hkept]
  exact hclosed.none_left (by rw [hrows]; exact hlen)

theorem sellSection_closes (strategy : String) (closePrice : ℚ) (hs : Stores f)
    (hlen : (openRows symbol w.positions).length ≤ defaultLimit)
    (hunseen : ¬ Live S.backend (w.now + (f (.get (processedKey sigId))).elapsed) (processedKey sigId) w.redis)
    {qty : ℚ} (hsize : safeOrderSize S.bybit symbol .sell (f (.calculateSafeOrderSize symbol .sell)).price
      (readBalance S w (f (.calculateSafeOrderSize symbol .sell))) = some qty)
    (haccepted : (spotReply S .sell qty (f (.submitOrder symbol .sell qty))).isAccepted = true) :
    openRows symbol (eval (handler S) f (sellSection symbol strategy sigId closePrice none) w).2.positions = [] := by
  obtain ⟨w₁, hprocessed, hrows₁, hwallet₁⟩ := eval_isProcessed (S := S) (w := w) hs hunseen
  rw [sellSection, eval_bind, hprocessed]
  dsimp only
  rw [if_neg Bool.false_ne_true, eval_bind, eval_openPositionsOf hs]
  dsimp only
  rw [eval_bind, Executor.placeOrder, eval_bind, eval_calculateSafeOrderSize]
  dsimp only
  rw [readBalance_congr (by simpa [later] using hwallet₁), hsize]
  dsimp only
  have hplace := eval_placeOrder (S := S) (f := f) (w := later (f (.calculateSafeOrderSize symbol .sell))
    (later (f (.selectPositions (some .open) symbol defaultLimit)) w₁)) symbol .sell qty
  rw [Executor.placeOrder] at hplace
  rw [hplace]
  dsimp only
  cases hr : spotReply S .sell qty (f (.submitOrder symbol .sell qty)) with
  | rejected error =>
      rw [hr] at haccepted
      cases haccepted
  | accepted orderId executed reported =>
      simp only [Reply.result]
      refine recordSell_closes hs _ _ orderId ?_
      simpa [fillSpot, hrows₁] using hlen

theorem callOf_prog (m : Message) : (callOf m).prog = withLock m.symbol (callOf m).body := by
  rw [Call.prog_eq]
  cases hside : m.side <;> simp [callOf, hside, Call.symbol]

theorem executed_turns (hs : Stored f w) (ha : Accepted S f m w)
    (hlen : (openRows m.symbol w.positions).length ≤ 1)
    (hside : m.side = turning (!(openRows m.symbol w.positions).isEmpty)) :
    let T := (executed S f (some m) w).positions
    (openRows m.symbol T).length ≤ 1 ∧ (openRows m.symbol T).isEmpty = !(openRows m.symbol w.positions).isEmpty := by
  obtain ⟨hlocked, hget, hordered⟩ := ha
  obtain ⟨qty, hsize, haccepted⟩ := (Option.any_eq_true _ _).1 hordered
  obtain ⟨w₁, hnow, hrows, hwallet, hredis, heval⟩ :=
    positions_withLock (S := S) (w := w) hs.stores (callOf m).body hlocked
  have hunseen : ¬ Live S.backend (w₁.now + (f (.get (processedKey m.sigId))).elapsed) (processedKey m.sigId)
      w₁.redis := by
    rw [hnow, Live, hredis]
    exact get_fst_eq_none.1 hget
  rw [sizeOf, ← readBalance_congr hwallet] at hsize
  dsimp only
  rw [executed, callOf_prog, heval]
  -- the message turns the flag over, so that an empty table meets a buy and a row a sale
  cases hnone : openRows m.symbol w.positions with
  | nil =>
      have hbuy : m.side = .buy := by simpa [hnone, turning] using hside
      rw [hbuy] at hsize haccepted
      obtain ⟨r, hr⟩ := buySection_opens (S := S) (w := w₁) m.strategy m.closePrice hs.stores
        (by rw [hrows, hnone]) (by rw [hrows]; exact hs.fresh) hunseen hsize haccepted
      have hbody : (callOf m).body = buySection m.symbol m.strategy m.sigId m.closePrice := by
        rw [callOf, hbuy]
        rfl
      rw [hbody, hr]
      exact ⟨le_rfl, rfl⟩
  | cons r rest =>
      have hsell : m.side = .sell := by simpa [hnone, turning] using hside
      rw [hsell] at hsize haccepted
      have hempty := sellSection_closes (S := S) (w := w₁) m.strategy m.closePrice hs.stores
        (by rw [hrows]; exact hlen.trans (by decide)) hunseen hsize haccepted
      have hbody : (callOf m).body = sellSection m.symbol m.strategy m.sigId m.closePrice none := by
        rw [callOf, hsell]
        rfl
      rw [hbody, hempty]
      exact ⟨Nat.zero_le 1, rfl⟩

theorem listed_isEmpty {T : Positions} (h : (openRows symbol T).length ≤ defaultLimit) :
    (getPositions (some .open) symbol defaultLimit T).isEmpty = (openRows symbol T).isEmpty :=
  (getPositions_perm _ h).isEmpty_eq

theorem eval_notify_cases (f : Op → Env) (w : World) (notice : Notice) :
    Raises f notice ∧ (∃ e, eval (handler S) f (notify notice) w = (.error e, later (f (.notify notice)) w)) ∨
    ¬ Raises f notice ∧ eval (handler S) f (notify notice) w = (.ok (), later (f (.notify notice)) w) := by
  rw [notify, eval_perform, Raises]
  cases hf : (f (.notify notice)).fault <;> simp [handler, exec, Fault.apply, hf, later]

theorem adjustQty_keeps (minOrderSize price : ℚ) (hs : Stores f) {e : ℚ}
    (hlen : (openRows symbol w.positions).length ≤ defaultLimit)
    (hfresh : ∀ p, (f (.insertPosition p)).uuid ∉ w.positions.rows.map Position.id)
    (hdec : ReconcileDomain.reconcile (localQty (getPositions (some .open) symbol defaultLimit w.positions)) e =
      .adjustQty) :
    let L := getPositions (some .open) symbol defaultLimit w.positions
    let T := (eval (handler S) f (applyDecision minOrderSize symbol e L price) w).2.positions
    (openRows symbol T).length ≤ 1 ∧
      (openRows symbol T).isEmpty = decide (e * price < minOrderSize ∨
        Raises f (.reconcileMismatch symbol (localQty L) e)) := by
  intro L
  obtain ⟨w₁, hclose, hc⟩ := eval_closeListed (S := S) (w := w) hs symbol price defaultLimit
  have hnone : openRows symbol w₁.positions = [] := hc.none_left hlen
  dsimp only
  rw [applyDecision, hdec]
  dsimp only
  rw [eval_bind, hclose]
  dsimp only
  by_cases hdust : e * price < minOrderSize
  · rw [if_pos hdust, positions_notify_then, hnone]
    simp [hdust]
  rw [if_neg hdust, eval_bind]
  rcases eval_notify_cases (S := S) f w₁ (.reconcileMismatch symbol (localQty L) e) with
    ⟨hraises, error, hnotice⟩ | ⟨hquiet, hnotice⟩
  · rw [hnotice]
    simp [hnone, hraises]
  · rw [hnotice]
    dsimp only
    generalize hw₂ : later (f (.notify (.reconcileMismatch symbol (localQty L) e))) w₁ = w₂
    have hsame : w₂.positions = w₁.positions := by rw [← hw₂, later_positions]
    obtain ⟨w₃, hinsert, hrows⟩ := eval_insertPosition (S := S) (w := w₂) hs (longPosition symbol price e)
      (by rw [hsame, hc.keys]; exact hfresh _)
    rw [eval_bind, hinsert]
    dsimp only
    rw [eval_pure, openRows_append symbol hrows rfl, hsame, hnone]
    simp [hdust, hquiet]

theorem applyDecision_keeps (hs : Stores f) {minOrderSize e price : ℚ}
    (hlen : (openRows symbol w.positions).length ≤ 1)
    (hfresh : ∀ p, (f (.insertPosition p)).uuid ∉ w.positions.rows.map Position.id)
    (hd : ¬ |localQty (getPositions (some .open) symbol defaultLimit w.positions) - e| * price < minOrderSize)
    (hk : Keeps f symbol minOrderSize e price (getPositions (some .open) symbol defaultLimit w.positions)) :
    let T := (eval (handler S) f (applyDecision minOrderSize symbol e
      (getPositions (some .open) symbol defaultLimit w.positions) price) w).2.positions
    (openRows symbol T).length ≤ 1 ∧ (openRows symbol T).isEmpty = (openRows symbol w.positions).isEmpty := by
  have hlen' : (openRows symbol w.positions).length ≤ defaultLimit := hlen.trans (by decide)
  replace hk := hk.resolve_left hd
  cases hdec : ReconcileDomain.reconcile (localQty (getPositions (some .open) symbol defaultLimit w.positions)) e with
  | noop =>
      rw [applyDecision, hdec]
      exact ⟨hlen, rfl⟩
  | openMissingLocal =>
      rw [hdec] at hk
      rw [applyDecision, hdec]
      dsimp only
      by_cases hdust : e * price < minOrderSize
      · rw [if_pos hdust]
        exact ⟨hlen, rfl⟩
      · obtain ⟨-, error, hnotice⟩ | ⟨hquiet, -⟩ := eval_notify_cases (S := S) f w (.reconcileMissing symbol)
        · rw [if_neg hdust, eval_bind, hnotice]
          exact ⟨hlen, rfl⟩
        · exact absurd (hk.resolve_left hdust) hquiet
  | closeOrphanLocal =>
      rw [hdec] at hk
      rw [applyDecision, hdec]
      dsimp only
      obtain ⟨-, error, hnotice⟩ | ⟨hquiet, -⟩ := eval_notify_cases (S := S) f w (.reconcileOrphan symbol)
      · rw [eval_bind, hnotice]
        exact ⟨hlen, rfl⟩
      · exact absurd hk hquiet
  | adjustQty =>
      rw [hdec, listed_isEmpty hlen'] at hk
      obtain ⟨hsingle, hempty⟩ := adjustQty_keeps (S := S) minOrderSize price hs hlen'
        hfresh hdec
      exact ⟨hsingle, hempty.trans hk.symm⟩

theorem reconcile_keeps (hs : Stored f w) (hlen : (openRows symbol w.positions).length ≤ 1)
    (hk : KeepsRow S f symbol w) :
    let T := (eval (handler S) f (reconcile S.bybit.minOrderSize symbol) w).2.positions
    (openRows symbol T).length ≤ 1 ∧ (openRows symbol T).isEmpty = (openRows symbol w.positions).isEmpty := by
  dsimp only
  by_cases hd : Reconcile.diffValue S f symbol w < S.bybit.minOrderSize
  · rw [Reconcile.eval_reconcile_dust hs.stores hd]
    exact ⟨hlen, rfl⟩
  · rw [Reconcile.eval_reconcile_decide hs.stores hd]
    exact applyDecision_keeps (w := Reconcile.afterReads f symbol w) hs.stores hlen hs.fresh hd hk

def pending (x : System) : List Message := x.stage.raw.toList ++ x.queue ++ x.publishing.toList

/-- Taken in turn, the messages lead from the table to the flag. -/
def Leads (isOpen : Bool) : List Message → Bool → Prop
  | [], flag => flag = isOpen
  | m :: ms, flag => m.side = turning isOpen ∧ Leads (!isOpen) ms flag

theorem leads_append {isOpen flag : Bool} {ms : List Message} (h : Leads isOpen ms flag)
    (hm : m.side = turning flag) : Leads isOpen (ms ++ [m]) (!flag) := by
  induction ms generalizing isOpen with
  | nil =>
      obtain rfl : flag = isOpen := h
      exact ⟨hm, rfl⟩
  | cons m' ms ih => exact ⟨h.1, ih h.2⟩

structure FlagInv (x : System) : Prop where
  single : (openRows x.consumer.symbol x.world.positions).length ≤ 1
  symbols : ∀ m ∈ pending x, m.symbol = x.consumer.symbol
  leads : Leads (rowOpen x) (pending x) x.consumer.inPosition

theorem FlagInv.agrees {x : System} (hx : FlagInv x) : Agrees x := by
  rintro ⟨hpublishing, hqueue, hstage⟩
  have hleads := hx.leads
  rw [pending, hpublishing, hqueue, hstage] at hleads
  exact hleads

theorem FlagInv.congr {x y : System} (hx : FlagInv x) (hconsumer : y.consumer = x.consumer)
    (hpending : pending y = pending x) (hrows : y.world.positions = x.world.positions) : FlagInv y where
  single := by
    rw [hconsumer, hrows]
    exact hx.single
  symbols := by
    rw [hconsumer, hpending]
    exact hx.symbols
  leads := by
    rw [rowOpen, hconsumer, hpending, hrows]
    exact hx.leads

theorem flagInv_tick {x : System} (hx : FlagInv x) (t : Tick) : FlagInv (step S x (.tick t)) := by
  cases hpublishing : x.publishing with
  | some m =>
      simp only [step, hpublishing]
      exact hx
  | none =>
      simp only [step, hpublishing]
      have hsymbol := processTick_symbol t x.consumer
      have hpending : pending x = x.stage.raw.toList ++ x.queue := by
        rw [pending, hpublishing, Option.toList_none, List.append_nil]
      rcases processTick_cases t x.consumer with ⟨hnone, hflag⟩ | ⟨m, hsome, hm, hside, hflag⟩
      · refine ⟨?_, ?_, ?_⟩
        · simpa [hsymbol] using hx.single
        · simpa [pending, hnone, hsymbol, hpublishing] using hx.symbols
        · simpa [pending, rowOpen, hnone, hsymbol, hflag, hpublishing] using hx.leads
      · refine ⟨?_, fun m' hm' => ?_, ?_⟩
        · simpa [hsymbol] using hx.single
        · rw [pending, hsome, Option.toList_some, ← hpending, List.mem_append, List.mem_singleton] at hm'
          dsimp only
          rw [hsymbol]
          rcases hm' with hm' | rfl
          · exact hx.symbols m' hm'
          · exact hm
        · rw [pending, hsome, Option.toList_some, ← hpending]
          have hleads := leads_append hx.leads hside
          simpa [rowOpen, hsymbol, hflag] using hleads

theorem flagInv_push {x : System} (hx : FlagInv x) (hroom : x.queue.length < queueMaxLen) :
    FlagInv (step S x .push) := by
  cases hpublishing : x.publishing with
  | none =>
      simp only [step, hpublishing]
      exact hx
  | some m =>
      simp only [step, hpublishing]
      refine hx.congr rfl ?_ rfl
      simp [pending, hpublishing, queuePush_of_lt m hroom]

theorem flagInv_pop {x : System} (hx : FlagInv x) : FlagInv (step S x .pop) := by
  cases hstage : x.stage with
  | idle =>
      simp only [step, hstage]
      refine hx.congr rfl ?_ rfl
      cases hqueue : x.queue <;> simp [pending, hstage, hqueue, Stage.raw]
  | popped | checked =>
      simp only [step, hstage]
      exact hx

theorem flagInv_reconcile {x : System} (hx : FlagInv x) (hs : Stored f x.world)
    (hk : KeepsRow S f x.consumer.symbol x.world) : FlagInv (step S x (.reconcile f)) := by
  cases hstage : x.stage with
  | popped raw =>
      simp only [step, hstage]
      obtain ⟨hsingle, hsame⟩ := reconcile_keeps hs hx.single hk
      have hleads := hx.leads
      rw [rowOpen, ← hsame, pending, hstage] at hleads
      have hsymbols := hx.symbols
      rw [pending, hstage] at hsymbols
      exact ⟨hsingle, hsymbols, hleads⟩
  | idle | checked =>
      simp only [step, hstage]
      exact hx

theorem flagInv_executed {x : System} (hx : FlagInv x) (hs : Stored f x.world)
    (ha : ∀ m ∈ x.stage.raw, Accepted S f m x.world) :
    FlagInv { x with stage := .idle, world := executed S f x.stage.raw x.world } := by
  cases hraw : x.stage.raw with
  | none =>
      refine hx.congr rfl ?_ rfl
      rw [pending, pending, hraw, Stage.raw]
  | some m =>
      have hpending : pending x = m :: (x.queue ++ x.publishing.toList) := by simp [pending, hraw]
      have hleads := hx.leads
      rw [hpending] at hleads
      have hsymbol : m.symbol = x.consumer.symbol := hx.symbols m (by simp [hpending])
      obtain ⟨hsingle, hturned⟩ := executed_turns hs (ha m hraw) (by rw [hsymbol]; exact hx.single)
        (by rw [hsymbol]; exact hleads.1)
      rw [hsymbol] at hsingle hturned
      refine ⟨hsingle, fun m' hm' => hx.symbols m' ?_, ?_⟩
      · rw [hpending]
        exact List.mem_cons_of_mem m hm'
      · have hopen : rowOpen { x with stage := .idle, world := executed S f (some m) x.world } = !rowOpen x := by
          rw [rowOpen, rowOpen]
          exact congrArg Bool.not hturned
        rw [hopen]
        exact hleads.2

theorem flagInv_execute {x : System} (hx : FlagInv x) (hs : Stored f x.world)
    (ha : ∀ m ∈ x.stage.raw, Accepted S f m x.world) : FlagInv (step S x (.execute f)) := by
  have hdone := flagInv_executed hx hs ha
  cases hstage : x.stage with
  | idle =>
      simp only [step, hstage]
      exact hx
  | popped raw | checked raw =>
      rw [hstage, Stage.raw] at hdone
      simpa only [step, hstage] using hdone

theorem flagInv_step {x : System} {l : Label} (hx : FlagInv x) (hs : StoresSucceed x l) (hsmooth : Smooth S x l) :
    FlagInv (step S x l) := by
  cases l with
  | tick t => exact flagInv_tick hx t
  | push => exact flagInv_push hx hsmooth
  | pop => exact flagInv_pop hx
  | reconcile f => exact flagInv_reconcile hx hs hsmooth
  | execute f => exact flagInv_execute hx hs hsmooth
  | surroundings w => exact hx.congr rfl rfl rfl

theorem flagInv_begin (s : Consumer) (hempty : w.positions.rows = []) : FlagInv (begin s w) := by
  have hnone : openRows s.symbol w.positions = [] := by rw [openRows, hempty]; rfl
  refine ⟨?_, fun m hm => absurd hm List.not_mem_nil, ?_⟩
  · change (openRows s.symbol w.positions).length ≤ 1
    rw [hnone]
    exact Nat.zero_le 1
  · change decide (0 < localQty (getPositions (some .open) s.symbol defaultLimit w.positions)) =
      !(openRows s.symbol w.positions).isEmpty
    rw [listed_nil hnone, hnone]
    rfl

/-- Starting with empty tables, the flag of the strategy tells whether a row is open at
every quiet moment, as long as no call is refused, no message is lost and no
reconciliation opens or closes the position by itself. -/
theorem flag_agrees (S : Setting) (s : Consumer) (w : World) (ls : List Label) (hempty : w.positions.rows = [])
    (hstores : AlongRun (step S) StoresSucceed (begin s w) ls)
    (hsmooth : AlongRun (step S) (Smooth S) (begin s w) ls) : AlwaysRun (step S) Agrees (begin s w) ls := by
  have hstep : ∀ x l, FlagInv x → StoresSucceed x l ∧ Smooth S x l → FlagInv (step S x l) :=
    fun x l hx hok => flagInv_step hx hok.1 hok.2
  exact (alwaysRun_of_step hstep (flagInv_begin s hempty) (hstores.and hsmooth)).mono (fun x hx => hx.agrees)

def fresh : Consumer := ⟨"regime_trend", "BTCUSDT", false, none, 0, .hold, "", 0⟩

def buyTick : Tick := ⟨some ⟨.buy, "trend_entry", 30000, some 29000, none⟩, true, none, "20250101000000-00000000"⟩

def buyRun (c : Env) : List Label := [.tick buyTick, .push, .pop, .execute (fun _ => c)]

theorem flag_agrees_buyRun :
    AlwaysRun (step defaults) Agrees (begin fresh World.empty) (buyRun Env.trading) := by
  refine flag_agrees defaults fresh World.empty (buyRun Env.trading) rfl
    ⟨trivial, trivial, trivial, ⟨fun _ _ => rfl, fun _ => List.not_mem_nil⟩, trivial⟩
    ⟨trivial, Nat.succ_pos _, trivial, fun m hm => ?_, trivial⟩
  obtain rfl : message .buy 30000 buyTick.stamp fresh = m := Option.mem_some_iff.1 hm
  decide +kernel

/-- Without a price the client finds no size, the buy is refused, and the flag stays up. -/
theorem refused_buy_keeps_flag :
    AlongRun (step defaults) StoresSucceed (begin fresh World.empty) (buyRun Env.plain) ∧
    ¬ AlwaysRun (step defaults) Agrees (begin fresh World.empty) (buyRun Env.plain) := by
  refine ⟨⟨trivial, trivial, trivial, ⟨fun _ _ => rfl, fun _ => List.not_mem_nil⟩, trivial⟩, fun h => ?_⟩
  have hflag := h.last ⟨rfl, rfl, rfl⟩
  revert hflag
  decide +kernel

end Autr.Services.PositionFlag
