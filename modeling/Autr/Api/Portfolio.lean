import Autr.Infra.CostBasis
import Autr.Infra.PortfolioSnapshots
import Autr.Store.Totals
import Mathlib.Tactic.FieldSimp

namespace Autr.Api.Portfolio

open Store Infra.TradeTracker Infra.CostBasis Infra.PortfolioSnapshots

def supportedSymbols : List (String × String) := [("BTC", "BTCUSDT"), ("XRP", "XRPUSDT"), ("SOL", "SOLUSDT")]

/-- The coins of the account, none of them owed. -/
structure Wallet where
  coins : Table CoinBalance.coin
  nonneg : ∀ r ∈ coins.rows, 0 ≤ r.balance

structure Client where
  authenticated : Bool
  maxTradeAmount : ℚ
  wallet : Wallet
  currentPrice : String → ℚ
  price_pos : ∀ symbol, 0 < currentPrice symbol

def getBalance (client : Client) : List CoinBalance :=
  if client.authenticated then client.wallet.coins.rows.filter (fun r => 0 < r.balance) else []

structure PortfolioData where
  balances : List CoinBalance
  currentBtcPrice : ℚ
  totalValueUsd : ℚ
  timestamp : ℤ
  error : Option String
  liveTrading : Bool
  authenticated : Bool
  maxTradeAmount : Option ℚ
  performance : Option Performance
  btcPosition : Option Pnl

/-- What one entry of the balance adds to the total of `get_portfolio`. -/
def addValue (currentPrice : ℚ) (totalUsd : ℚ) (data : CoinBalance) : ℚ :=
  if data.coin = "BTC" then totalUsd + data.balance * currentPrice
  else if data.coin = "USDT" then totalUsd + data.balance
  else totalUsd

/-- The answer of `get_portfolio`, and the snapshots as it leaves them. -/
def getPortfolio (clock : Clock) (client : Client) (trades : List Trade) (snapshots : List Snapshot) :
    PortfolioData × List Snapshot :=
  let balance := getBalance client
  let currentPrice := client.currentPrice "BTCUSDT"
  if balance = [] then
    ({ balances := [], currentBtcPrice := currentPrice, totalValueUsd := 0, timestamp := clock.now,
       error := some "API 키가 설정되지 않았습니다. 실제 잔고를 조회할 수 없습니다.", liveTrading := true,
       authenticated := client.authenticated, maxTradeAmount := none, performance := none,
       btcPosition := none }, snapshots)
  else
    let totalUsd := balance.foldl (addValue currentPrice) 0
    let stored := addPortfolioSnapshot clock totalUsd currentPrice balance snapshots
    ({ balances := balance, currentBtcPrice := currentPrice, totalValueUsd := totalUsd, timestamp := clock.now,
       error := none, liveTrading := true, authenticated := client.authenticated,
       maxTradeAmount := some client.maxTradeAmount, performance := some (getPortfolioPerformance clock stored),
       btcPosition := some (getPnl "BTCUSDT" currentPrice "spot" trades) }, stored)

def Wallet.row (coin : String) (w : Wallet) : CoinBalance :=
  (lookup CoinBalance.coin coin w.coins.rows).getD ⟨coin, 0, 0⟩

def Wallet.held (coin : String) (w : Wallet) : ℚ := part CoinBalance.coin CoinBalance.balance coin w.coins.rows

/-- A purchase of a supported coin for some of the USDT held, at its market price. -/
structure Purchase (client : Client) where
  coin : String
  symbol : String
  supported : (coin, symbol) ∈ supportedSymbols
  amount : ℚ
  nonneg : 0 ≤ amount
  covered : amount ≤ client.wallet.held "USDT"

theorem row_balance (coin : String) (w : Wallet) : (w.row coin).balance = w.held coin := by
  rw [Wallet.row, Wallet.held, part]
  cases lookup CoinBalance.coin coin w.coins.rows <;> rfl

theorem held_nonneg (coin : String) (w : Wallet) : 0 ≤ w.held coin := by
  rw [← row_balance, Wallet.row]
  cases h : lookup CoinBalance.coin coin w.coins.rows with
  | none => exact le_rfl
  | some r => exact w.nonneg r (mem_of_lookup h).1

def Wallet.reduced (coin : String) (amount : ℚ) (w : Wallet) : CoinBalance :=
  ⟨coin, w.held coin - amount, (w.row coin).available - amount⟩

/-- What is paid may be negative, and then it is received. -/
def Wallet.pay (w : Wallet) (coin : String) (amount : ℚ) (h : amount ≤ w.held coin) : Wallet where
  coins := w.coins.replace (w.reduced coin amount)
  nonneg := by
    intro r hr
    obtain hr | hr := List.mem_append.1 hr
    · exact w.nonneg r (List.mem_of_mem_filter hr)
    · rw [List.mem_singleton.1 hr]
      exact sub_nonneg.2 h

variable {client : Client}

def Purchase.bought (p : Purchase client) : ℚ := p.amount / client.currentPrice p.symbol

theorem Purchase.neg_bought_le (p : Purchase client) (w : Wallet) : -p.bought ≤ w.held p.coin :=
  (neg_nonpos.2 (div_nonneg p.nonneg (client.price_pos p.symbol).le)).trans (held_nonneg p.coin w)

def Purchase.paid (p : Purchase client) : Wallet := client.wallet.pay "USDT" p.amount p.covered

/-- The account after the purchase. -/
def Purchase.after (p : Purchase client) : Client :=
  { client with wallet := p.paid.pay p.coin (-p.bought) (p.neg_bought_le p.paid) }

/-- The purchase shows neither in the total, nor in the snapshots, nor in the performance. -/
structure Neutral (clock : Clock) (trades : List Trade) (snapshots : List Snapshot) (p : Purchase client) : Prop where
  total : (getPortfolio clock p.after trades snapshots).1.totalValueUsd =
    (getPortfolio clock client trades snapshots).1.totalValueUsd
  stored : (getPortfolio clock p.after trades snapshots).2.map Snapshot.valued =
    (getPortfolio clock client trades snapshots).2.map Snapshot.valued
  performance : getPortfolioPerformance clock (getPortfolio clock p.after trades snapshots).2 =
    getPortfolioPerformance clock (getPortfolio clock client trades snapshots).2

/-- The weight of a coin in the total of `get_portfolio`. -/
def weight (currentPrice : ℚ) (coin : String) : ℚ :=
  if coin = "BTC" then currentPrice else if coin = "USDT" then 1 else 0

/-- The worth of a wallet under any weights. -/
def Wallet.worth (weight : String → ℚ) (w : Wallet) : ℚ :=
  Store.total (fun r : CoinBalance => r.balance * weight r.coin) w.coins.rows

theorem foldl_addValue (currentPrice totalUsd : ℚ) (balance : List CoinBalance) :
    balance.foldl (addValue currentPrice) totalUsd =
      totalUsd + Store.total (fun r => r.balance * weight currentPrice r.coin) balance := by
  induction balance generalizing totalUsd with
  | nil => simp [Store.total]
  | cons r balance ih =>
      rw [List.foldl_cons, ih, total_cons, addValue, weight]
      split
      · ring
      · split <;> ring

theorem part_worth (weight : String → ℚ) (w : Wallet) (coin : String) :
    part CoinBalance.coin (fun r => r.balance * weight r.coin) coin w.coins.rows = w.held coin * weight coin := by
  rw [part, Wallet.held, part]
  cases h : lookup CoinBalance.coin coin w.coins.rows with
  | none => simp
  | some r => simp [(mem_of_lookup h).2]

theorem worth_pay (weight : String → ℚ) (w : Wallet) (coin : String) (amount : ℚ) (h : amount ≤ w.held coin) :
    (w.pay coin amount h).worth weight = w.worth weight - amount * weight coin := by
  have hwrite := total_replaceRow (fun r : CoinBalance => r.balance * weight r.coin) w.coins.nodup
    (w.reduced coin amount)
  rw [Wallet.reduced, part_worth] at hwrite
  refine hwrite.trans ?_
  rw [Wallet.worth]
  ring

theorem held_pay (other : String) (w : Wallet) (coin : String) (amount : ℚ) (h : amount ≤ w.held coin) :
    (w.pay coin amount h).held other = if coin = other then w.held coin - amount else w.held other :=
  part_replaceRow CoinBalance.balance other w.coins.rows (w.reduced coin amount)

theorem Purchase.coin_ne (p : Purchase client) : p.coin ≠ "USDT" := by
  have hsupported := p.supported
  simp only [supportedSymbols, List.mem_cons, Prod.mk.injEq, List.not_mem_nil, or_false] at hsupported
  obtain ⟨h, -⟩ | ⟨h, -⟩ | ⟨h, -⟩ := hsupported <;> rw [h] <;> decide

/-- Under any weights a purchase trades the weight of what is paid for that of what is bought. -/
theorem worth_after (weight : String → ℚ) (p : Purchase client) :
    p.after.wallet.worth weight = client.wallet.worth weight - p.amount * weight "USDT" + p.bought * weight p.coin := by
  rw [Purchase.after, worth_pay, Purchase.paid, worth_pay]
  ring

theorem held_after (p : Purchase client) (coin : String) :
    p.after.wallet.held coin =
      if p.coin = coin then client.wallet.held coin + p.bought
      else if "USDT" = coin then client.wallet.held coin - p.amount
      else client.wallet.held coin := by
  rw [Purchase.after, held_pay, Purchase.paid, held_pay, held_pay, if_neg p.coin_ne.symm]
  split
  next hcoin => rw [hcoin, sub_neg_eq_add]
  · split
    next husdt => rw [husdt]
    · rfl

theorem getBalance_eq_nil_iff (client : Client) :
    getBalance client = [] ↔ client.authenticated = false ∨ ∀ coin, client.wallet.held coin = 0 := by
  rw [getBalance]
  cases client.authenticated with
  | false => simp
  | true =>
      rw [if_pos rfl, List.filter_eq_nil_iff]
      simp only [decide_eq_true_eq, Bool.true_eq_false, false_or]
      constructor
      · intro h coin
        refine le_antisymm ?_ (held_nonneg coin client.wallet)
        rw [← row_balance, Wallet.row]
        cases hrow : lookup CoinBalance.coin coin client.wallet.coins.rows with
        | none => exact le_rfl
        | some r => exact not_lt.1 (h r (mem_of_lookup hrow).1)
      · intro h r hr
        have hheld := h r.coin
        rw [Wallet.held, part, lookup_eq_some_of_mem client.wallet.coins.nodup hr] at hheld
        exact not_lt.2 (le_of_eq hheld)

theorem totalValueUsd_eq (clock : Clock) (client : Client) (trades : List Trade) (snapshots : List Snapshot) :
    (getPortfolio clock client trades snapshots).1.totalValueUsd =
      if client.authenticated then client.wallet.worth (weight (client.currentPrice "BTCUSDT")) else 0 := by
  have htotal : (getPortfolio clock client trades snapshots).1.totalValueUsd =
      (getBalance client).foldl (addValue (client.currentPrice "BTCUSDT")) 0 := by
    rw [getPortfolio]
    split
    next hempty => rw [hempty]; rfl
    · rfl
  rw [htotal, foldl_addValue, getBalance, zero_add]
  split
  · refine total_filter _ (fun r hr hzero => ?_)
    have hbalance : r.balance = 0 := le_antisymm (not_lt.1 (of_decide_eq_false hzero)) (client.wallet.nonneg r hr)
    rw [hbalance, zero_mul]
  · rfl

theorem stored_eq (clock : Clock) (client : Client) (trades : List Trade) (snapshots : List Snapshot) :
    (getPortfolio clock client trades snapshots).2.map Snapshot.valued =
      if getBalance client = [] then snapshots.map Snapshot.valued
      else snapshots.map Snapshot.valued ++
        [(clock.now, (getPortfolio clock client trades snapshots).1.totalValueUsd)] := by
  rw [getPortfolio]
  split
  · rfl
  next hbalance =>
    dsimp only
    rw [addPortfolioSnapshot, if_neg hbalance, List.map_append]
    rfl

theorem bought_eq_zero (p : Purchase client) : p.bought = 0 ↔ p.amount = 0 := by
  rw [Purchase.bought, div_eq_zero_iff]
  exact or_iff_left (client.price_pos p.symbol).ne'

/-- What is bought is worth what has been paid for it exactly when its coin is valued. -/
theorem worth_bought_iff (p : Purchase client) :
    p.bought * weight (client.currentPrice "BTCUSDT") p.coin = p.amount ↔ p.amount = 0 ∨ p.coin = "BTC" := by
  by_cases hbtc : p.coin = "BTC"
  · have hsymbol : p.symbol = "BTCUSDT" := by
      have hsupported := p.supported
      rw [hbtc] at hsupported
      simpa [supportedSymbols] using hsupported
    have hprice := (client.price_pos "BTCUSDT").ne'
    rw [weight, if_pos hbtc, Purchase.bought, hsymbol, div_mul_cancel₀ _ hprice]
    exact iff_of_true rfl (.inr hbtc)
  · rw [weight, if_neg hbtc, if_neg p.coin_ne, mul_zero, eq_comm, or_iff_left hbtc]

theorem total_after_iff (clock : Clock) (trades : List Trade) (snapshots : List Snapshot) (p : Purchase client) :
    (getPortfolio clock p.after trades snapshots).1.totalValueUsd =
        (getPortfolio clock client trades snapshots).1.totalValueUsd ↔
      client.authenticated = false ∨ p.amount = 0 ∨ p.coin = "BTC" := by
  have husdt : weight (client.currentPrice "BTCUSDT") "USDT" = 1 := by
    rw [weight, if_neg (by decide), if_pos rfl]
  have hafter := worth_after (weight (client.currentPrice "BTCUSDT")) p
  rw [husdt, mul_one] at hafter
  rw [totalValueUsd_eq, totalValueUsd_eq, ← worth_bought_iff]
  change (if client.authenticated then p.after.wallet.worth (weight (client.currentPrice "BTCUSDT")) else 0) = _ ↔ _
  cases client.authenticated with
  | false => simp
  | true =>
      rw [if_pos rfl, if_pos rfl, hafter]
      simp only [Bool.true_eq_false, false_or]
      constructor <;> intro h <;> linarith

/-- A purchase of something leaves something in the account. -/
theorem getBalance_after (p : Purchase client) : getBalance p.after = [] ↔ getBalance client = [] := by
  rw [getBalance_eq_nil_iff, getBalance_eq_nil_iff]
  refine or_congr Iff.rfl ?_
  by_cases hamount : p.amount = 0
  · have hheld : ∀ coin, p.after.wallet.held coin = client.wallet.held coin := by
      intro coin
      rw [held_after, (bought_eq_zero p).2 hamount, hamount]
      simp
    simp only [hheld]
  · refine iff_of_false (fun h => ?_) (fun h => ?_)
    · have hcoin := h p.coin
      rw [held_after, if_pos rfl] at hcoin
      have hbought : 0 < p.bought := lt_of_le_of_ne
        (div_nonneg p.nonneg (client.price_pos p.symbol).le) (Ne.symm (mt (bought_eq_zero p).1 hamount))
      exact absurd hcoin (add_pos_of_nonneg_of_pos (held_nonneg p.coin client.wallet) hbought).ne'
    · exact hamount (le_antisymm (p.covered.trans_eq (h "USDT")) p.nonneg)

/-- A purchase is neutral exactly when it is of bitcoins, or of nothing, or of an account that is
not read. -/
theorem neutral_iff (clock : Clock) (trades : List Trade) (snapshots : List Snapshot) (p : Purchase client) :
    Neutral clock trades snapshots p ↔ client.authenticated = false ∨ p.amount = 0 ∨ p.coin = "BTC" := by
  constructor
  · intro h
    exact (total_after_iff clock trades snapshots p).1 h.total
  · intro h
    have htotal := (total_after_iff clock trades snapshots p).2 h
    have hstored : (getPortfolio clock p.after trades snapshots).2.map Snapshot.valued =
        (getPortfolio clock client trades snapshots).2.map Snapshot.valued := by
      rw [stored_eq, stored_eq, htotal]
      simp only [getBalance_after p]
    exact ⟨htotal, hstored, performance_congr clock hstored⟩

/-- An account of a hundred USDT on a market where every price is two. -/
def dollars : Client where
  authenticated := true
  maxTradeAmount := 30
  wallet := ⟨⟨[⟨"USDT", 100, 100⟩], List.nodup_singleton _⟩, by decide +kernel⟩
  currentPrice _ := 2
  price_pos _ := by decide +kernel

def purchase (coin symbol : String) (h : (coin, symbol) ∈ supportedSymbols) : Purchase dollars where
  coin
  symbol
  supported := h
  amount := 40
  nonneg := by decide +kernel
  covered := by decide +kernel

/-- The coins bought are missing from the total, and a loss is reported. -/
theorem xrp_purchase_not_neutral :
    let clock : Clock := ⟨1000000, 0⟩
    let snapshots : List Snapshot := [⟨990000, 100, 2, [⟨"USDT", 100, 100⟩]⟩]
    let p := purchase "XRP" "XRPUSDT" (by decide)
    ¬ Neutral clock [] snapshots p ∧
      (getPortfolio clock dollars [] snapshots).1.totalValueUsd = 100 ∧
      (getPortfolio clock p.after [] snapshots).1.totalValueUsd = 60 ∧
      (getPortfolioPerformance clock (getPortfolio clock p.after [] snapshots).2).dailyChange = -40 := by
  refine ⟨fun h => absurd h.total (by decide +kernel), ?_, ?_, ?_⟩ <;> decide +kernel

end Autr.Api.Portfolio
