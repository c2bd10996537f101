import Autr.Services.Evaluate
import Mathlib.Algebra.Order.BigOperators.Group.List
import Mathlib.Tactic.Linarith

namespace Autr.Services.Reconcile

open Autr.Async Autr.Infra Bybit Store TradeTracker Executor Evaluate

variable {S : Setting} {f : Op → Env} {symbol : String} {w : World}

def exchangeQty (S : Setting) (c : Env) (symbol : String) (w : World) : ℚ :=
  if c.fault = .none then balanceOf (readBalance S w c) (baseCurrency symbol) else 0

theorem eval_getExchangeQty :
    eval (handler S) f (getExchangeQty symbol) w =
      (.ok (exchangeQty S (f .getBalance) symbol w), later (f .getBalance) w) := by
  rw [getExchangeQty, eval_attempt, eval_bind, eval_perform]
  cases hf : (f .getBalance).fault <;> simp [handler, exec, Fault.apply, hf, exchangeQty, later]
  rfl

def afterReads (f : Op → Env) (symbol : String) (w : World) : World :=
  later (f (.getCurrentPrice symbol))
    (later (f (.selectPositions (some .open) symbol defaultLimit)) (later (f .getBalance) w))

@[simp] theorem afterReads_positions (f : Op → Env) (symbol : String) (w : World) :
    (afterReads f symbol w).positions = w.positions := rfl

/-- The open quantity `reconcile` works with, and the whole of it. -/
def listedQty (symbol : String) (T : Positions) : ℚ :=
  localQty (getPositions (some .open) symbol defaultLimit T)

def openQty (symbol : String) (T : Positions) : ℚ := localQty (openRows symbol T)

theorem eval_currentPriceOf :
    eval (handler S) f (currentPriceOf symbol) w =
      (.ok (f (.getCurrentPrice symbol)).price, later (f (.getCurrentPrice symbol)) w) := by
  rw [currentPriceOf, eval_perform]
  rfl

/-- The value by which the two sides differ, as far as `reconcile` can tell. -/
def diffValue (S : Setting) (f : Op → Env) (symbol : String) (w : World) : ℚ :=
  |listedQty symbol w.positions - exchangeQty S (f .getBalance) symbol w| * (f (.getCurrentPrice symbol)).price

/-- The row an insert writes. -/
def newRow (f : Op → Env) (p : NewPosition) : Position :=
  p.row (f (.insertPosition p)).uuid (f (.insertPosition p)).utc

theorem eval_reconcile_dust (hs : Stores f) {minOrderSize : ℚ} (hd : diffValue S f symbol w < minOrderSize) :
    eval (handler S) f (reconcile minOrderSize symbol) w = (.ok .diffIsDust, afterReads f symbol w) := by
  simp only [reconcile, eval_attempt, eval_bind, eval_getExchangeQty, eval_openPositionsOf hs,
    eval_currentPriceOf, later_positions]
  rw [diffValue, listedQty] at hd
  rw [if_pos hd]
  rfl

theorem eval_reconcile_decide (hs : Stores f) {minOrderSize : ℚ} (hd : ¬ diffValue S f symbol w < minOrderSize) :
    (eval (handler S) f (reconcile minOrderSize symbol) w).2 =
      (eval (handler S) f (applyDecision minOrderSize symbol (exchangeQty S (f .getBalance) symbol w)
        (getPositions (some .open) symbol defaultLimit w.positions) (f (.getCurrentPrice symbol)).price)
        (afterReads f symbol w)).2 := by
  simp only [reconcile, eval_attempt, eval_bind, eval_getExchangeQty, eval_openPositionsOf hs,
    eval_currentPriceOf, later_positions]
  rw [diffValue, listedQty] at hd
  rw [if_neg hd]
  rw [afterReads]
  split
  · next heq => rw [heq]
  · next heq => rw [heq]; rfl

/-- What `applyDecision` does to the table, by what it was given. -/
inductive Applied (f : Op → Env) (symbol : String) (minOrderSize q e price : ℚ) (T T' : Positions) : Prop
  | kept (decision : ReconcileDomain.reconcile q e = .noop ∨
        ReconcileDomain.reconcile q e = .openMissingLocal ∧ e * price < minOrderSize)
      (same : T' = T)
  | opened (decision : ReconcileDomain.reconcile q e = .openMissingLocal) (worth : ¬ e * price < minOrderSize)
      (rows : T'.rows = T.rows ++ [newRow f (longPosition symbol price e)])
  | closed (decision : ReconcileDomain.reconcile q e = .closeOrphanLocal ∨
        ReconcileDomain.reconcile q e = .adjustQty ∧ e * price < minOrderSize)
      (listed : Closed symbol ((getPositions (some .open) symbol defaultLimit T).map Position.id) T T')
  | replaced (decision : ReconcileDomain.reconcile q e = .adjustQty) (worth : ¬ e * price < minOrderSize)
      (between : Positions)
      (listed : Closed symbol ((getPositions (some .open) symbol defaultLimit T).map Position.id) T between)
      (rows : T'.rows = between.rows ++ [newRow f (longPosition symbol price e)])

theorem applyDecision_applied (hs : Sound f) (symbol : String) (minOrderSize e price : ℚ)
    (hfresh : ¬ e * price < minOrderSize → ∀ p, (f (.insertPosition p)).uuid ∉ w.positions.rows.map Position.id) :
    let L := getPositions (some .open) symbol defaultLimit w.positions
    Applied f symbol minOrderSize (localQty L) e price w.positions
      (eval (handler S) f (applyDecision minOrderSize symbol e L price) w).2.positions := by
  intro L
  rw [applyDecision]
  cases hdec : ReconcileDomain.reconcile (localQty L) e with
  | noop => exact .kept (.inl hdec) rfl
  | closeOrphanLocal =>
      obtain ⟨w', hclose, hc⟩ := eval_closeListed (S := S) hs.stores
        (w := later (f (.notify (.reconcileOrphan symbol))) w) symbol price defaultLimit
      rw [later_positions] at hclose hc
      simp only [eval_bind, eval_notify hs, L, hclose, eval_pure]
      exact .closed (.inl hdec) hc
  | openMissingLocal =>
      by_cases hdust : e * price < minOrderSize
      · simp only [if_pos hdust]
        exact .kept (.inr ⟨hdec, hdust⟩) rfl
      · obtain ⟨w', hins, hrows⟩ := eval_insertPosition (S := S) hs.stores (longPosition symbol price e)
          (w := later (f (.notify (.reconcileMissing symbol))) w) (hfresh hdust _)
        simp only [if_neg hdust, eval_bind, eval_notify hs, hins, eval_pure]
        exact .opened hdec hdust hrows
  | adjustQty =>
      obtain ⟨w', hclose, hc⟩ := eval_closeListed (S := S) (w := w) hs.stores symbol price defaultLimit
      by_cases hdust : e * price < minOrderSize
      · simp only [if_pos hdust, eval_bind, L, hclose, eval_notify hs, eval_pure]
        exact .closed (.inr ⟨hdec, hdust⟩) hc
      · obtain ⟨w'', hins, hrows⟩ := eval_insertPosition (S := S) hs.stores (longPosition symbol price e)
          (w := later (f (.notify (.reconcileMismatch symbol (localQty L) e))) w')
          (by rw [later_positions, hc.keys]; exact hfresh hdust _)
        simp only [if_neg hdust, eval_bind, L, hclose, eval_notify hs, eval_pure] at hins ⊢
        rw [hins]
        exact .replaced hdec hdust _ hc hrows

/-- What `reconcile` does to the table once the difference is worth acting on. -/
theorem reconcile_applied (hs : Sound f) {minOrderSize : ℚ} (hd : ¬ diffValue S f symbol w < minOrderSize)
    (hfresh : ¬ exchangeQty S (f .getBalance) symbol w * (f (.getCurrentPrice symbol)).price < minOrderSize →
      ∀ p, (f (.insertPosition p)).uuid ∉ w.positions.rows.map Position.id) :
    Applied f symbol minOrderSize (listedQty symbol w.positions) (exchangeQty S (f .getBalance) symbol w)
      (f (.getCurrentPrice symbol)).price w.positions
      (eval (handler S) f (reconcile minOrderSize symbol) w).2.positions := by
  rw [eval_reconcile_decide hs.stores hd]
  exact applyDecision_applied (w := afterReads f symbol w) hs symbol minOrderSize _ _ hfresh

theorem decision_noop_iff {q e : ℚ} :
    ReconcileDomain.reconcile q e = .noop ↔ |q - e| ≤ ReconcileDomain.tolerance := by
  refine ⟨fun h => ?_, fun h => if_pos h⟩
  by_contra hne
  rw [ReconcileDomain.reconcile, if_neg hne] at h
  split at h
  · cases h
  · split at h <;> cases h

theorem decision_openMissingLocal {q e : ℚ} (h : ReconcileDomain.reconcile q e = .openMissingLocal) :
    q = 0 ∧ 0 < e := by
  rw [ReconcileDomain.reconcile] at h
  split at h
  · cases h
  · split at h
    · assumption
    · split at h <;> cases h

theorem decision_closeOrphanLocal {q e : ℚ} (h : ReconcileDomain.reconcile q e = .closeOrphanLocal) :
    0 < q ∧ e = 0 := by
  rw [ReconcileDomain.reconcile] at h
  split at h
  · cases h
  · split at h
    · cases h
    · split at h
      · assumption
      · cases h

/-- The answers under which reconciliation is promised to work: nothing fails, and the exchange
reports a holding and a price. -/
structure Answers (S : Setting) (f : Op → Env) (symbol : String) (w : World) (holding price : ℚ) : Prop where
  fault : ∀ op, (f op).fault = .none
  answered : keyedAnswer S (f .getBalance) = true
  holding : balanceOf (balances w (f .getBalance)) (baseCurrency symbol) = holding
  price : (f (.getCurrentPrice symbol)).price = price

/-- A new row has an id of its own, and is the newest one should the listing be full. -/
structure NewRows (f : Op → Env) (symbol : String) (T : Positions) : Prop where
  fresh : ∀ p, (f (.insertPosition p)).uuid ∉ T.rows.map Position.id
  newest : (openRows symbol T).length < defaultLimit ∨
    ∀ p, ∀ r ∈ openRows symbol T, r.openTime < (f (.insertPosition p)).utc

/-- The open quantity agrees with the holding, up to the tolerance or to dust. -/
def Settled (symbol : String) (holding price minOrderSize : ℚ) (T : Positions) : Prop :=
  |openQty symbol T - holding| ≤ ReconcileDomain.tolerance ∨ |openQty symbol T - holding| * price < minOrderSize

variable {e p minOrderSize : ℚ}

theorem Answers.sound (h : Answers S f symbol w e p) : Sound f := fun op _ => h.fault op

theorem Answers.exchangeQty (h : Answers S f symbol w e p) : exchangeQty S (f .getBalance) symbol w = e := by
  rw [Reconcile.exchangeQty, if_pos (h.fault _), readBalance, h.answered, if_pos rfl, h.holding]

theorem balanceOf_nonneg (w : World) (c : Env) (coin : String) : 0 ≤ balanceOf (balances w c) coin := by
  have h : ∀ x : ℚ, 0 ≤ ((if 0 < x then some (⟨x, c.available coin⟩ : Coin) else none).map Coin.balance).getD 0 := by
    intro x
    split
    · next hx => exact hx.le
    · exact le_rfl
  exact h _

theorem Answers.nonneg (h : Answers S f symbol w e p) : 0 ≤ e := h.holding ▸ balanceOf_nonneg w _ _

theorem localQty_append (xs ys : List Position) : localQty (xs ++ ys) = localQty xs + localQty ys := by
  simp [localQty]

theorem localQty_eq_zero {L : List Position} (h : ∀ r ∈ L, r.quantity = 0) : localQty L = 0 := by
  rw [localQty, List.map_congr_left h]
  simp

theorem listedQty_eq {T : Positions} (h : (openRows symbol T).length ≤ defaultLimit) :
    listedQty symbol T = openQty symbol T :=
  ((getPositions_perm _ h).map Position.quantity).sum_eq

theorem reconcile_settled (h : Answers S f symbol w e p) (hl : listedQty symbol w.positions = openQty symbol w.positions)
    (hset : Settled symbol e p minOrderSize w.positions) :
    (eval (handler S) f (reconcile minOrderSize symbol) w).2 = afterReads f symbol w := by
  by_cases hd : diffValue S f symbol w < minOrderSize
  · rw [eval_reconcile_dust h.sound.stores hd]
  · rw [eval_reconcile_decide h.sound.stores hd, h.exchangeQty, h.price, applyDecision]
    rw [diffValue, hl, h.exchangeQty, h.price] at hd
    have htol := hset.resolve_right hd
    rw [← hl, listedQty] at htol
    rw [ReconcileDomain.reconcile, if_pos htol]
    rfl

structure Reconciles (symbol : String) (holding price minOrderSize : ℚ) (T T' : Positions) : Prop where
  settled : Settled symbol holding price minOrderSize T'
  others : otherRows symbol T' = otherRows symbol T
  listed : listedQty symbol T' = openQty symbol T'

theorem settled_of_dust (h : e * p < minOrderSize) (he : 0 ≤ e) {T : Positions} (hT : openRows symbol T = []) :
    Settled symbol e p minOrderSize T := by
  refine .inr ?_
  rw [openQty, hT]
  simpa [localQty, abs_of_nonneg he] using h

theorem settled_of_eq {T : Positions} (hT : openQty symbol T = e) : Settled symbol e p minOrderSize T := by
  refine .inl ?_
  rw [hT, sub_self, abs_zero]
  norm_num [ReconcileDomain.tolerance]

theorem reconciles_insert {T T' : Positions} {id : String} {openTime price : ℚ}
    (hrows : T'.rows = T.rows ++ [(longPosition symbol price e).row id openTime])
    (hzero : ∀ r ∈ openRows symbol T, r.quantity = 0)
    (hnew : (openRows symbol T).length < defaultLimit ∨ ∀ r ∈ openRows symbol T, r.openTime < openTime) :
    Reconciles symbol e p minOrderSize T T' := by
  have hopen := openRows_append symbol hrows rfl
  have hqty : openQty symbol T' = e := by
    rw [openQty, hopen, localQty_append, localQty_eq_zero hzero, zero_add]
    simp [localQty, longPosition, NewPosition.row]
  refine ⟨settled_of_eq hqty, otherRows_append symbol hrows rfl, ?_⟩
  rcases hnew with hlt | hlast
  · exact listedQty_eq (by rw [hopen, List.length_append]; exact hlt)
  · have hlimit : defaultLimit = 199 + 1 := rfl
    rw [hqty, listedQty, getPositions_open, hopen, hlimit, newest_append_greatest _ _ _ _ hlast]
    have hrest : localQty (newest Position.openTime 199 (openRows symbol T)) = 0 :=
      localQty_eq_zero (fun r hr => hzero r (mem_newest Position.openTime hr))
    rw [← List.singleton_append, localQty_append, hrest, add_zero]
    simp [localQty, longPosition, NewPosition.row]

theorem quantity_eq_zero {L : List Position} (h : ∀ r ∈ L, 0 ≤ r.quantity) (hsum : localQty L = 0) :
    ∀ r ∈ L, r.quantity = 0 := by
  intro r hr
  refine (List.all_zero_of_le_zero_le_of_sum_eq_zero ?_ hsum) (List.mem_map_of_mem hr)
  intro q hq
  obtain ⟨r', hr', rfl⟩ := List.mem_map.1 hq
  exact h r' hr'

theorem reconcile_reconciles (minOrderSize : ℚ) (h : Answers S f symbol w e p)
    (hlen : (openRows symbol w.positions).length ≤ defaultLimit)
    (hqty : ∀ r ∈ openRows symbol w.positions, 0 ≤ r.quantity) (hnew : NewRows f symbol w.positions) :
    Reconciles symbol e p minOrderSize w.positions
      (eval (handler S) f (reconcile minOrderSize symbol) w).2.positions := by
  have hlisted := listedQty_eq hlen
  by_cases hd : diffValue S f symbol w < minOrderSize
  · rw [eval_reconcile_dust h.sound.stores hd]
    rw [diffValue, hlisted, h.exchangeQty, h.price] at hd
    exact ⟨.inr hd, rfl, hlisted⟩
  have happlied := reconcile_applied h.sound hd (fun _ => hnew.fresh)
  rw [h.exchangeQty, h.price, hlisted] at happlied
  rw [diffValue, hlisted, h.exchangeQty, h.price] at hd
  cases happlied with
  | kept hdec same =>
      rw [same]
      rcases hdec with hdec | ⟨hdec, hdust⟩
      · exact ⟨.inl (decision_noop_iff.1 hdec), rfl, hlisted⟩
      · have hzero : openQty symbol w.positions = 0 := (decision_openMissingLocal hdec).1
        rw [hzero, zero_sub, abs_neg, abs_of_nonneg h.nonneg] at hd
        exact absurd hdust hd
  | opened hdec _ hrows =>
      have hzero : openQty symbol w.positions = 0 := (decision_openMissingLocal hdec).1
      exact reconciles_insert hrows (quantity_eq_zero hqty hzero) (hnew.newest.imp_right (fun hl => hl _))
  | closed hdec hc =>
      have hnone := hc.none_left hlen
      refine ⟨?_, hc.others, listedQty_eq (by simp [hnone])⟩
      rcases hdec with hdec | ⟨_, hdust⟩
      · exact settled_of_eq (by rw [openQty, hnone, (decision_closeOrphanLocal hdec).2]; rfl)
      · exact settled_of_dust hdust h.nonneg hnone
  | replaced _ _ between hc hrows =>
      have hnone := hc.none_left hlen
      have hr : Reconciles symbol e p minOrderSize between _ :=
        reconciles_insert hrows (by simp [hnone]) (.inl (by simp [hnone, defaultLimit]))
      exact ⟨hr.settled, hr.others.trans hc.others, hr.listed⟩

/-- From every table that is listed in full, reconciliation settles the open quantity of
the symbol, leaves the other symbols alone and has nothing left to do. -/
theorem reconcile_converges (S : Setting) (f : Op → Env) (symbol : String) (w : World) (e p : ℚ)
    (hanswers : Answers S f symbol w e p) (hlen : (openRows symbol w.positions).length ≤ defaultLimit)
    (hqty : ∀ r ∈ openRows symbol w.positions, 0 ≤ r.quantity) (hnew : NewRows f symbol w.positions) :
    let w' := (eval (handler S) f (reconcile S.bybit.minOrderSize symbol) w).2
    Settled symbol e p S.bybit.minOrderSize w'.positions ∧
    otherRows symbol w'.positions = otherRows symbol w.positions ∧
    ∀ f', Answers S f' symbol w' e p →
      ∃ t, (eval (handler S) f' (reconcile S.bybit.minOrderSize symbol) w').2 = { w' with now := t } := by
  have hr := reconcile_reconciles S.bybit.minOrderSize hanswers hlen hqty hnew
  refine ⟨hr.settled, hr.others, fun f' h' => ⟨_, (reconcile_settled h' hr.listed hr.settled).trans rfl⟩⟩

def positionOf (id symbol : String) (quantity openTime : ℚ) : Position :=
  (longPosition symbol 30000 quantity).row id openTime

/-- Two open rows and a holding of one coin. -/
def twoRows : World where
  now := 0
  redis _ := none
  trades := []
  positions := ⟨[positionOf "a" "BTCUSDT" (3 / 2) 1, positionOf "b" "BTCUSDT" (1 / 4) 2], by decide⟩
  wallet coin := if coin = "BTC" then 1 else 0
  short _ := 0

theorem reconcile_converges_twoRows :
    let w' := (eval (handler defaults) (fun _ => Env.trading) (reconcile 5 "BTCUSDT") twoRows).2
    Settled "BTCUSDT" 1 30000 5 w'.positions ∧
    otherRows "BTCUSDT" w'.positions = otherRows "BTCUSDT" twoRows.positions ∧
    ∀ f', Answers defaults f' "BTCUSDT" w' 1 30000 →
      ∃ t, (eval (handler defaults) f' (reconcile 5 "BTCUSDT") w').2 = { w' with now := t } :=
  reconcile_converges defaults (fun _ => Env.trading) "BTCUSDT" twoRows 1 30000
    ⟨fun _ => rfl, rfl, by decide +kernel, rfl⟩ (by decide +kernel) (by decide +kernel)
    ⟨fun _ => by decide +kernel, .inl (by decide +kernel)⟩

/-- A read that failed answers with an exception, an empty balance or a price of zero. -/
def ReadFailed (f : Op → Env) (symbol : String) : Prop :=
  (f .getBalance).fault ≠ .none ∨ (f .getBalance).answered = false ∨ (f (.getCurrentPrice symbol)).price = 0

theorem exchangeQty_of_failed (h : (f .getBalance).fault ≠ .none ∨ (f .getBalance).answered = false) :
    exchangeQty S (f .getBalance) symbol w = 0 := by
  rw [exchangeQty]
  split
  · next hf => simp [readBalance, keyedAnswer, h.resolve_left (not_not.2 hf), balanceOf, noBalances]
  · rfl

theorem exists_mem_of_localQty_ne {L : List Position} (h : localQty L ≠ 0) : ∃ q, q ∈ L := by
  cases L with
  | nil => exact absurd rfl h
  | cons q L => exact ⟨q, List.mem_cons_self⟩

/-- After a failed read the table is kept exactly when the listed quantity is dust at the
price read, as it is at a price of zero, or within the tolerance. -/
theorem failed_read_keeps_table_iff (S : Setting) (f : Op → Env) (symbol : String) (w : World)
    (hmin : 0 < S.bybit.minOrderSize) (hs : Sound f) (hfail : ReadFailed f symbol) :
    (eval (handler S) f (reconcile S.bybit.minOrderSize symbol) w).2.positions = w.positions ↔
      |listedQty symbol w.positions| * (f (.getCurrentPrice symbol)).price < S.bybit.minOrderSize ∨
      |listedQty symbol w.positions| ≤ ReconcileDomain.tolerance := by
  by_cases hprice : (f (.getCurrentPrice symbol)).price = 0
  · have hd : diffValue S f symbol w < S.bybit.minOrderSize := by simpa [diffValue, hprice] using hmin
    rw [eval_reconcile_dust hs.stores hd, hprice, mul_zero]
    exact iff_of_true rfl (.inl hmin)
  have he : exchangeQty S (f .getBalance) symbol w = 0 :=
    exchangeQty_of_failed (hfail.imp_right (fun h => h.resolve_right hprice))
  have hdiff : diffValue S f symbol w =
      |listedQty symbol w.positions| * (f (.getCurrentPrice symbol)).price := by rw [diffValue, he, sub_zero]
  rw [← hdiff]
  by_cases hd : diffValue S f symbol w < S.bybit.minOrderSize
  · rw [eval_reconcile_dust hs.stores hd]
    exact iff_of_true rfl (.inl hd)
  -- a holding of zero is never worth a row of its own, so that rows can only be closed
  have hzero : 0 * (f (.getCurrentPrice symbol)).price < S.bybit.minOrderSize := by rwa [zero_mul]
  have happlied := reconcile_applied hs hd (fun h => absurd (he ▸ hzero) h)
  rw [he] at happlied
  cases happlied with
  | kept hdec same =>
      rcases hdec with hdec | ⟨hdec, _⟩
      · have htol : |listedQty symbol w.positions - 0| ≤ ReconcileDomain.tolerance := decision_noop_iff.1 hdec
        rw [sub_zero] at htol
        exact iff_of_true same (.inr htol)
      · exact absurd (decision_openMissingLocal hdec).2 (lt_irrefl 0)
  | opened _ hworth => exact absurd hzero hworth
  | replaced _ hworth => exact absurd hzero hworth
  | closed hdec hc =>
      have htol : ¬ |listedQty symbol w.positions| ≤ ReconcileDomain.tolerance := by
        intro htol
        have hnoop := decision_noop_iff.2 ((sub_zero (listedQty symbol w.positions)).symm ▸ htol)
        rcases hdec with hdec | ⟨hdec, _⟩ <;> cases hdec.symm.trans hnoop
      have hne : listedQty symbol w.positions ≠ 0 := by
        intro h0
        rw [h0, abs_zero] at htol
        exact htol (by norm_num [ReconcileDomain.tolerance])
      obtain ⟨q, hq⟩ := exists_mem_of_localQty_ne hne
      exact iff_of_false (hc.ne hq) (not_or.2 ⟨hd, htol⟩)

/-- A market in which the balance cannot be read and all else can. -/
def noBalance (op : Op) : Env := if op = .getBalance then { Env.trading with answered := false } else Env.trading

theorem failed_read_keeps_table_twoRows :
    (eval (handler defaults) noBalance (reconcile 5 "BTCUSDT") twoRows).2.positions = twoRows.positions ↔
      |listedQty "BTCUSDT" twoRows.positions| * (noBalance (.getCurrentPrice "BTCUSDT")).price < 5 ∨
      |listedQty "BTCUSDT" twoRows.positions| ≤ ReconcileDomain.tolerance :=
  failed_read_keeps_table_iff defaults noBalance "BTCUSDT" twoRows (by decide +kernel)
    (fun op hop => by simp [noBalance, hop, Env.trading]) (.inr (.inl (by simp [noBalance])))

/-- A balance that cannot be read is taken for an empty one, and the rows are closed. -/
theorem failed_balance_closes_rows :
    ReadFailed noBalance "BTCUSDT" ∧ Sound noBalance ∧ 0 < defaults.bybit.minOrderSize ∧
    (eval (handler defaults) noBalance (reconcile 5 "BTCUSDT") twoRows).2.positions ≠ twoRows.positions := by
  refine ⟨.inr (.inl (by simp [noBalance])), fun op hop => by simp [noBalance, hop, Env.trading],
    by decide +kernel, fun h => ?_⟩
  have hstatus := congrArg (fun T : Positions => T.rows.map Position.status) h
  revert hstatus
  decide +kernel

end Autr.Services.Reconcile
