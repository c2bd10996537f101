import Autr.Infra.TradeTracker
import Mathlib.Algebra.Order.BigOperators.Group.List
import Mathlib.Algebra.Order.Field.Basic
import Mathlib.Tactic.Linarith
import Mathlib.Tactic.Ring

namespace Autr.Infra.CostBasis

open TradeTracker

structure Pnl where
  unrealizedPnl : ℚ
  unrealizedPnlPercent : ℚ
  averagePrice : ℚ
  currentPrice : ℚ
  quantity : ℚ
  investedValue : ℚ
  currentValue : ℚ
  dollarAmount : ℚ
  deriving DecidableEq

def Pnl.none (currentPrice : ℚ) : Pnl := ⟨0, 0, 0, currentPrice, 0, 0, 0, 0⟩

def getPnl (symbol : String) (currentPrice : ℚ) (positionType : String) (trades : List Trade) : Pnl :=
  match getCurrentPositions symbol positionType trades with
  | .none => .none currentPrice
  | some position =>
      if position.totalQuantity ≤ 0 then .none currentPrice
      else
        let quantity := position.totalQuantity
        let investedValue := position.totalInvested
        let currentValue := quantity * currentPrice
        let unrealizedPnl := currentValue - investedValue
        { unrealizedPnl, unrealizedPnlPercent := pnlPercent unrealizedPnl investedValue,
          averagePrice := position.averagePrice, currentPrice, quantity, investedValue, currentValue,
          dollarAmount := position.totalInvested }

def buys (history : List Trade) : List Trade := history.filter (Trade.hasSide "buy")

def sells (history : List Trade) : List Trade := history.filter (Trade.hasSide "sell")

def net (history : List Trade) : ℚ := (history.map (Trade.signed Trade.quantity)).sum

/-- Trades of positive quantities and prices that never sell more than is held and leave some. -/
structure Regular (history : List Trade) : Prop where
  traded : ∀ t ∈ history, 0 < t.quantity ∧ 0 < t.price ∧ t.dollarAmount = t.quantity * t.price
  running : ∀ before ∈ history.inits, 0 ≤ net before
  held : 0 < net history

instance (history : List Trade) : Decidable (Regular history) :=
  decidable_of_iff ((∀ t ∈ history, 0 < t.quantity ∧ 0 < t.price ∧ t.dollarAmount = t.quantity * t.price) ∧
    (∀ before ∈ history.inits, 0 ≤ net before) ∧ 0 < net history)
    ⟨fun h => ⟨h.1, h.2.1, h.2.2⟩, fun h => ⟨h.traded, h.running, h.held⟩⟩

def buyPrices (history : List Trade) : List ℚ := (buys history).map Trade.price

/-- Between the lowest and the highest price of the buys. -/
def WithinBuys (history : List Trade) (averagePrice : ℚ) : Prop :=
  ∃ lo ∈ (buyPrices history).min?, ∃ hi ∈ (buyPrices history).max?, lo ≤ averagePrice ∧ averagePrice ≤ hi

/-- What the trades have cost or brought above a price. -/
def above (price : ℚ) (trades : List Trade) : ℚ := (trades.map (fun t => t.quantity * (t.price - price))).sum

/-- What the trades have cost or brought below a price. -/
def below (price : ℚ) (trades : List Trade) : ℚ := (trades.map (fun t => t.quantity * (price - t.price))).sum

/-- The sells have not brought more above the lowest price of the buys, nor less below the
highest one, than all the buys have cost there. -/
def Covered (history : List Trade) : Prop :=
  ∃ lo ∈ (buyPrices history).min?, ∃ hi ∈ (buyPrices history).max?,
    above lo (sells history) ≤ above lo (buys history) ∧ below hi (sells history) ≤ below hi (buys history)

instance (history : List Trade) : Decidable (Covered history) :=
  inferInstanceAs (Decidable (∃ lo ∈ (buyPrices history).min?, ∃ hi ∈ (buyPrices history).max?, _ ∧ _))

instance (history : List Trade) (averagePrice : ℚ) : Decidable (WithinBuys history averagePrice) :=
  inferInstanceAs (Decidable (∃ lo ∈ (buyPrices history).min?, ∃ hi ∈ (buyPrices history).max?, _ ∧ _))

theorem not_both_sides {t : Trade} (h : t.hasSide "buy") : t.hasSide "sell" = false := by
  simp only [Trade.hasSide, decide_eq_true_eq] at h
  rw [Trade.hasSide, h]
  decide

theorem signed_sum (x : Trade → ℚ) (history : List Trade) :
    (history.map (Trade.signed x)).sum = ((buys history).map x).sum - ((sells history).map x).sum := by
  induction history with
  | nil => simp [buys, sells]
  | cons t history ih =>
      rw [List.map_cons, List.sum_cons, ih, Trade.signed]
      cases hbuy : t.hasSide "buy" with
      | true => simp [buys, sells, hbuy, not_both_sides hbuy, add_sub_assoc]
      | false =>
          cases hsell : t.hasSide "sell" with
          | true => simp [buys, sells, hbuy, hsell]; ring
          | false => simp [buys, sells, hbuy, hsell]

variable {history : List Trade}

theorem sum_dollars (h : ∀ t ∈ history, t.dollarAmount = t.quantity * t.price) (price : ℚ) :
    (history.map Trade.dollarAmount).sum = above price history + price * (history.map Trade.quantity).sum := by
  induction history with
  | nil => simp [above]
  | cons t history ih =>
      have hrest := ih (fun t ht => h t (List.mem_cons_of_mem _ ht))
      rw [above] at hrest ⊢
      simp only [List.map_cons, List.sum_cons]
      rw [hrest, h t List.mem_cons_self]
      ring

theorem below_eq_neg_above (price : ℚ) (trades : List Trade) : below price trades = -above price trades := by
  rw [below, above, List.sum_neg, List.map_map]
  refine congrArg List.sum (List.map_congr_left (fun t _ => ?_))
  dsimp only [Function.comp]
  ring

/-- What is invested, measured from any price. -/
theorem invested_eq (h : Regular history) (price : ℚ) :
    (history.map (Trade.signed Trade.dollarAmount)).sum =
      above price (buys history) - above price (sells history) + price * net history := by
  have hbuys : ∀ t ∈ buys history, t.dollarAmount = t.quantity * t.price :=
    fun t ht => (h.traded t (List.mem_of_mem_filter ht)).2.2
  have hsells : ∀ t ∈ sells history, t.dollarAmount = t.quantity * t.price :=
    fun t ht => (h.traded t (List.mem_of_mem_filter ht)).2.2
  rw [net, signed_sum, signed_sum, sum_dollars hbuys price, sum_dollars hsells price]
  ring

theorem exists_buy (h : Regular history) : buys history ≠ [] := by
  intro hno
  have hheld := h.held
  rw [net, signed_sum, hno] at hheld
  have hsold : 0 ≤ ((sells history).map Trade.quantity).sum := by
    refine List.sum_nonneg (fun q hq => ?_)
    obtain ⟨t, ht, rfl⟩ := List.mem_map.1 hq
    exact (h.traded t (List.mem_of_mem_filter ht)).1.le
  simp only [List.map_nil, List.sum_nil] at hheld
  linarith

theorem withinBuys_summarize_iff (h : Regular history) :
    WithinBuys history (summarize history).averagePrice ↔ Covered history := by
  have hheld := h.held
  have haverage : (summarize history).averagePrice =
      (history.map (Trade.signed Trade.dollarAmount)).sum / net history := if_pos hheld
  have hlo : ∀ lo, lo ≤ (summarize history).averagePrice ↔ above lo (sells history) ≤ above lo (buys history) := by
    intro lo
    rw [haverage, le_div_iff₀ hheld, invested_eq h lo]
    constructor <;> intro hle <;> linarith
  have hhi : ∀ hi, (summarize history).averagePrice ≤ hi ↔ below hi (sells history) ≤ below hi (buys history) := by
    intro hi
    rw [haverage, div_le_iff₀ hheld, invested_eq h hi, below_eq_neg_above, below_eq_neg_above]
    constructor <;> intro hle <;> linarith
  rw [WithinBuys, Covered]
  simp only [hlo, hhi]

theorem getCurrentPositions_listed {symbol positionType : String} {trades : List Trade}
    (h : Regular (listedTrades symbol positionType trades)) :
    getCurrentPositions symbol positionType trades = some (summarize (listedTrades symbol positionType trades)) := by
  have hbuy := exists_buy h
  rw [getCurrentPositions]
  cases hlisted : listedTrades symbol positionType trades with
  | nil =>
      rw [hlisted] at hbuy
      exact absurd rfl hbuy
  | cons t ts => rfl

/-- What `get_pnl` passes on is what `get_current_positions` reports. -/
theorem getPnl_averagePrice {symbol positionType : String} {trades : List Trade}
    (h : Regular (listedTrades symbol positionType trades)) (currentPrice : ℚ) :
    (getPnl symbol currentPrice positionType trades).averagePrice =
      (summarize (listedTrades symbol positionType trades)).averagePrice := by
  rw [getPnl, getCurrentPositions_listed h]
  have hheld : ¬ (summarize (listedTrades symbol positionType trades)).totalQuantity ≤ 0 := not_le.2 h.held
  dsimp only
  rw [if_neg hheld]

/-- The average price reported for what is held lies between the prices of the buys exactly
when they cover the sells. -/
theorem averagePrice_within_iff {symbol : String} {trades : List Trade}
    (h : Regular (listedTrades symbol "spot" trades)) (currentPrice : ℚ) :
    (∃ position ∈ getCurrentPositions symbol "spot" trades,
      WithinBuys (listedTrades symbol "spot" trades) position.averagePrice ∧
        (getPnl symbol currentPrice "spot" trades).averagePrice = position.averagePrice) ↔
      Covered (listedTrades symbol "spot" trades) := by
  rw [← withinBuys_summarize_iff h, getPnl_averagePrice h, getCurrentPositions_listed h]
  constructor
  · rintro ⟨position, hposition, hwithin, -⟩
    cases hposition
    exact hwithin
  · exact fun hwithin => ⟨_, rfl, hwithin, rfl⟩

def filledSpot (side : String) (quantity price : ℚ) : Trade where
  symbol := "BTCUSDT"
  side
  quantity
  price
  signal := ""
  positionType := "spot"
  status := "filled"
  dollarAmount := quantity * price
  fees := 0
  orderId := ""

/-- A purchase of which half is sold. -/
def halfSold (price : ℚ) : List Trade := [filledSpot "Buy" 2 100, filledSpot "Sell" 1 price]

theorem halfSold_covered :
    ∃ position ∈ getCurrentPositions "BTCUSDT" "spot" (halfSold 100),
      WithinBuys (listedTrades "BTCUSDT" "spot" (halfSold 100)) position.averagePrice ∧
        (getPnl "BTCUSDT" 120 "spot" (halfSold 100)).averagePrice = position.averagePrice :=
  (averagePrice_within_iff (by decide +kernel) 120).2 (by decide +kernel)

/-- What has been bought at a hundred is reported at ten after a sell at a gain. -/
theorem halfSold_above : Regular (listedTrades "BTCUSDT" "spot" (halfSold 190)) ∧
    ∃ position ∈ getCurrentPositions "BTCUSDT" "spot" (halfSold 190), position.averagePrice = 10 ∧
      ¬ WithinBuys (listedTrades "BTCUSDT" "spot" (halfSold 190)) position.averagePrice := by
  decide +kernel

end Autr.Infra.CostBasis
