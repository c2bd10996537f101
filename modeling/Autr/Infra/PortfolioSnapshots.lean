import Autr.Store.Keyed
import Mathlib.Algebra.Order.Ring.Unbundled.Rat

namespace Autr.Infra.PortfolioSnapshots

/-- A coin of an account, or of the dictionary that `get_balance` makes. -/
structure CoinBalance where
  coin : String
  balance : ℚ
  available : ℚ
  deriving DecidableEq

/-- A row of the `portfolio_snapshots` table, its time in seconds. -/
structure Snapshot where
  ts : ℤ
  totalValueUsd : ℚ
  currentBtcPrice : ℚ
  balances : List CoinBalance
  deriving DecidableEq

structure Clock where
  now : ℤ
  yearStart : ℤ

def addPortfolioSnapshot (clock : Clock) (totalValueUsd currentBtcPrice : ℚ) (balances : List CoinBalance)
    (snapshots : List Snapshot) : List Snapshot :=
  if balances = [] then snapshots
  else snapshots ++ [⟨clock.now, totalValueUsd, currentBtcPrice, balances⟩]

/-- The seconds that a period reaches back. -/
def periodMap (period : String) : Option ℤ :=
  if period = "1h" then some 3600
  else if period = "24h" then some 86400
  else if period = "1d" then some 86400
  else if period = "7d" then some 604800
  else if period = "30d" then some 2592000
  else none

def historyStart (clock : Clock) (period : String) : Option ℤ :=
  match periodMap period with
  | some seconds => some (clock.now - seconds)
  | none =>
      if period = "ytd" then some clock.yearStart
      else if period = "all" then none
      else some (clock.now - 604800)

def getPortfolioHistory (clock : Clock) (period : String) (snapshots : List Snapshot) : List Snapshot :=
  (snapshots.filter (fun s => ∀ start ∈ historyStart clock period, start ≤ s.ts)).insertionSort
    (fun s s' => s.ts ≤ s'.ts)

structure Performance where
  dailyChange : ℚ
  weeklyChange : ℚ
  monthlyChange : ℚ
  dailyChangePercent : ℚ
  weeklyChangePercent : ℚ
  monthlyChangePercent : ℚ
  deriving DecidableEq

def changePercent (start current : ℚ) : ℚ := if 0 < start then (current - start) / start * 100 else 0

def totals (clock : Clock) (period : String) (snapshots : List Snapshot) : List ℚ :=
  (getPortfolioHistory clock period snapshots).map Snapshot.totalValueUsd

def getPortfolioPerformance (clock : Clock) (snapshots : List Snapshot) : Performance :=
  let history := totals clock "30d" snapshots
  if history.length < 2 then ⟨0, 0, 0, 0, 0, 0⟩
  else
    let current := history.getLast?.getD 0
    let dailyStart := (totals clock "1d" snapshots).head?.getD current
    let weeklyStart := (totals clock "7d" snapshots).head?.getD current
    let monthlyStart := history.head?.getD current
    { dailyChange := current - dailyStart
      weeklyChange := current - weeklyStart
      monthlyChange := current - monthlyStart
      dailyChangePercent := changePercent dailyStart current
      weeklyChangePercent := changePercent weeklyStart current
      monthlyChangePercent := changePercent monthlyStart current }

/-- What the performance is computed from. -/
def Snapshot.valued (s : Snapshot) : ℤ × ℚ := (s.ts, s.totalValueUsd)

theorem totals_valued (clock : Clock) (period : String) (snapshots : List Snapshot) :
    totals clock period snapshots =
      (((snapshots.map Snapshot.valued).filter
        (fun v => ∀ start ∈ historyStart clock period, start ≤ v.1)).insertionSort
          (fun v v' => v.1 ≤ v'.1)).map Prod.snd := by
  have hsort := List.map_insertionSort (fun s s' : Snapshot => s.ts ≤ s'.ts) (fun v v' : ℤ × ℚ => v.1 ≤ v'.1)
    Snapshot.valued (snapshots.filter (fun s => ∀ start ∈ historyStart clock period, start ≤ s.ts))
    (fun _ _ _ _ => Iff.rfl)
  rw [List.filter_map]
  refine Eq.trans ?_ (congrArg (List.map Prod.snd) hsort)
  rw [List.map_map]
  rfl

theorem performance_congr (clock : Clock) {snapshots snapshots' : List Snapshot}
    (h : snapshots.map Snapshot.valued = snapshots'.map Snapshot.valued) :
    getPortfolioPerformance clock snapshots = getPortfolioPerformance clock snapshots' := by
  have htotals : ∀ period, totals clock period snapshots = totals clock period snapshots' := by
    intro period
    rw [totals_valued, totals_valued, h]
  simp only [getPortfolioPerformance, htotals]

end Autr.Infra.PortfolioSnapshots
