import Autr.Decimal
import Autr.Infra.TradeTracker
import Mathlib.Algebra.BigOperators.Group.List.Basic
import Mathlib.Algebra.Order.Ring.Unbundled.Rat

namespace Autr.Infra.PositionSummary

open Store TradeTracker

structure Statistics where
  totalPositions : ℕ
  winningPositions : ℕ
  losingPositions : ℕ
  winRate : ℚ
  totalRealizedPnl : ℚ
  bestTrade : ℚ
  worstTrade : ℚ
  deriving DecidableEq

structure Summary where
  openPositionsCount : ℕ
  closedPositionsCount : ℕ
  totalUnrealizedPnl : ℚ
  totalInvested : ℚ
  realizedPnl : ℚ
  openPositions : List Position
  symbolFilter : String
  statistics : Statistics
  recentClosedPositions : List Position
  deriving DecidableEq

def winning (positions : List Position) : List Position := positions.filter (fun p => 0 < p.unrealizedPnl)

def losing (positions : List Position) : List Position := positions.filter (fun p => p.unrealizedPnl < 0)

def winRate (closed : List Position) : ℚ :=
  match closed with
  | [] => 0
  | _ :: _ => (winning closed).length / closed.length * 100

def summaryLimit : ℕ := 1000

def getPositionSummary (symbol : String) (T : Positions) : Summary :=
  let openPositions := getPositions (some .open) symbol summaryLimit T
  let closedPositions := getPositions (some .closed) symbol summaryLimit T
  let realizedPnl := (closedPositions.map Position.unrealizedPnl).sum
  { openPositionsCount := openPositions.length
    closedPositionsCount := closedPositions.length
    totalUnrealizedPnl := (openPositions.map Position.unrealizedPnl).sum
    totalInvested := (openPositions.map Position.dollarAmount).sum
    realizedPnl
    openPositions
    symbolFilter := symbol
    statistics :=
      { totalPositions := openPositions.length + closedPositions.length
        winningPositions := (winning closedPositions).length
        losingPositions := (losing closedPositions).length
        winRate := Decimal.roundTo 2 (winRate closedPositions)
        totalRealizedPnl := realizedPnl
        bestTrade := (closedPositions.map Position.unrealizedPnl).max?.getD 0
        worstTrade := (closedPositions.map Position.unrealizedPnl).min?.getD 0 }
    recentClosedPositions := closedPositions.take 10 }

def matching (status : Status) (symbol : String) (T : Positions) : List Position :=
  T.rows.filter (Selected (some status) symbol)

/-- A summary of all the rows that match, with nothing for the best and the worst of none. -/
structure Complete (symbol : String) (T : Positions) (s : Summary) : Prop where
  openCount : s.openPositionsCount = (matching .open symbol T).length
  closedCount : s.closedPositionsCount = (matching .closed symbol T).length
  realized : s.realizedPnl = ((matching .closed symbol T).map Position.unrealizedPnl).sum
  winning : s.statistics.winningPositions = (winning (matching .closed symbol T)).length
  losing : s.statistics.losingPositions = (losing (matching .closed symbol T)).length
  best : s.statistics.bestTrade = ((matching .closed symbol T).map Position.unrealizedPnl).max?.getD 0
  worst : s.statistics.worstTrade = ((matching .closed symbol T).map Position.unrealizedPnl).min?.getD 0

theorem length_newest {α β : Type} [LinearOrder β] (rank : α → β) (limit : ℕ) (rows : List α) :
    (newest rank limit rows).length = min limit rows.length := by
  rw [newest, List.length_take, List.length_insertionSort]

theorem getPositions_matching (status : Status) (symbol : String) (limit : ℕ) (T : Positions) :
    getPositions (some status) symbol limit T = newest Position.openTime limit (matching status symbol T) ∨
      getPositions (some status) symbol limit T = newest Position.closedAt limit (matching status symbol T) := by
  rw [getPositions]
  split
  · exact .inr rfl
  · exact .inl rfl

theorem length_getPositions (status : Status) (symbol : String) (limit : ℕ) (T : Positions) :
    (getPositions (some status) symbol limit T).length = min limit (matching status symbol T).length := by
  obtain h | h := getPositions_matching status symbol limit T <;> rw [h, length_newest]

/-- A listing that its limit does not cut holds the matching rows in another order. -/
theorem getPositions_matching_perm {status : Status} {symbol : String} {limit : ℕ} {T : Positions}
    (h : (matching status symbol T).length ≤ limit) :
    (getPositions (some status) symbol limit T).Perm (matching status symbol T) := by
  obtain hrows | hrows := getPositions_matching status symbol limit T
  · rw [hrows]
    exact newest_perm Position.openTime h
  · rw [hrows]
    exact newest_perm Position.closedAt h

theorem max?_perm {l l' : List ℚ} (h : l.Perm l') : l.max? = l'.max? := by
  refine Option.ext (fun m => ?_)
  rw [List.max?_eq_some_iff, List.max?_eq_some_iff]
  simp only [h.mem_iff]

theorem min?_perm {l l' : List ℚ} (h : l.Perm l') : l.min? = l'.min? := by
  refine Option.ext (fun m => ?_)
  rw [List.min?_eq_some_iff, List.min?_eq_some_iff]
  simp only [h.mem_iff]

/-- A summary is complete exactly when neither listing is cut. -/
theorem summary_complete_iff (symbol : String) (T : Positions) :
    Complete symbol T (getPositionSummary symbol T) ↔
      (matching .open symbol T).length ≤ summaryLimit ∧ (matching .closed symbol T).length ≤ summaryLimit := by
  constructor
  · intro h
    have hopen := h.openCount
    have hclosed := h.closedCount
    simp only [getPositionSummary, length_getPositions] at hopen hclosed
    omega
  · rintro ⟨hopen, hclosed⟩
    have hpopen := getPositions_matching_perm hopen
    have hpclosed := getPositions_matching_perm hclosed
    have hpnl := hpclosed.map Position.unrealizedPnl
    exact
      { openCount := hpopen.length_eq
        closedCount := hpclosed.length_eq
        realized := hpnl.sum_eq
        winning := (hpclosed.filter _).length_eq
        losing := (hpclosed.filter _).length_eq
        best := congrArg (Option.getD · 0) (max?_perm hpnl)
        worst := congrArg (Option.getD · 0) (min?_perm hpnl) }

def closedTrade (i : ℕ) : Position where
  id := String.ofList (List.replicate i 'x')
  symbol := "BTCUSDT"
  positionType := "spot"
  entryPrice := 100
  quantity := 1
  dollarAmount := 100
  currentPrice := 101
  unrealizedPnl := 1
  unrealizedPnlPercent := 1
  openTime := i
  closeTime := some (i + 1)
  status := .closed
  entryTradeId := none
  exitTradeId := none

theorem closedTrade_id_injective : Function.Injective (fun i => (closedTrade i).id) := by
  intro i j h
  have hlength := congrArg List.length (String.ofList_injective h)
  simpa using hlength

theorem closedTrade_selected (i : ℕ) : Selected (some .closed) "BTCUSDT" (closedTrade i) := by
  refine ⟨fun status hstatus => ?_, .inr rfl⟩
  cases hstatus
  rfl

def closedTrades (n : ℕ) : Positions where
  rows := (List.range n).map closedTrade
  nodup := by
    rw [List.map_map]
    exact List.nodup_range.map closedTrade_id_injective

theorem length_matching_closedTrades (n : ℕ) : (matching .closed "BTCUSDT" (closedTrades n)).length = n := by
  have hall : matching .closed "BTCUSDT" (closedTrades n) = (closedTrades n).rows := by
    refine List.filter_eq_self.2 (fun p hp => decide_eq_true ?_)
    obtain ⟨i, -, rfl⟩ := List.mem_map.1 hp
    exact closedTrade_selected i
  rw [hall, closedTrades, List.length_map, List.length_range]

/-- Of one trade more than a listing takes, one is missing from the totals. -/
theorem long_history_incomplete : ¬ Complete "BTCUSDT" (closedTrades (summaryLimit + 1))
    (getPositionSummary "BTCUSDT" (closedTrades (summaryLimit + 1))) := by
  intro h
  have hclosed := h.closedCount
  simp only [getPositionSummary, length_getPositions, length_matching_closedTrades] at hclosed
  omega

end Autr.Infra.PositionSummary
