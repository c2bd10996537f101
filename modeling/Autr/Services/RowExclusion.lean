import Autr.Services.Reconcile
import Autr.Services.SymbolLock

namespace Autr.Services.RowExclusion

open Autr.Async Autr.Infra Bybit Redis TradeTracker Executor

inductive Request
  | buy (strategy sigId : String) (closePrice : ℚ)
  | sell (strategy sigId : String) (closePrice : ℚ) (qty : Option ℚ)
  | reconcile

inductive Result
  | executed (outcome : Outcome)
  | reconciled (result : Reconciled)

def Request.prog (S : Setting) (symbol : String) : Request → Svc Result
  | .buy strategy sigId closePrice => Result.executed <$> executeBuy symbol strategy sigId closePrice
  | .sell strategy sigId closePrice qty => Result.executed <$> executeSell symbol strategy sigId closePrice qty
  | .reconcile => Result.reconciled <$> Executor.reconcile S.bybit.minOrderSize symbol

/-- Only a buy and a sell take the lock. -/
def Request.locks : Request → Bool
  | .reconcile => false
  | _ => true

/-- Whether a request holds the lock; the rows it has listed and not seen closed since, if
it has listed any since it took the lock and inserted none; and whether it has met a row or
an order of no quantity. -/
structure Progress where
  held : Bool
  listed : Option (List String)
  tainted : Bool

def Progress.drop (id : String) (q : Progress) : Progress :=
  { q with listed := q.listed.map (fun ids => ids.filter (· ≠ id)) }

def Progress.list (rows : List Position) (q : Progress) : Progress :=
  { q with
    listed := some (rows.map Position.id)
    tainted := q.tainted || (!rows.isEmpty && localQty rows = 0) }

def rowProtocol (symbol : String) (locks : Bool) : Protocol Op Op.Res Exc Progress where
  start := ⟨false, none, false⟩
  next q _ op r := match op, r with
    | .acquireLock key _, .ok true => if key = executorLock symbol then { q with held := true } else q
    | .releaseLock key, _ => if key = executorLock symbol then { q with held := false, listed := none } else q
    | .selectPositions _ _ _, .ok rows => if locks && !q.held then { q with listed := none } else q.list rows
    | .selectPositions _ _ _, .error _ => { q with listed := none }
    | .selectPosition id, .ok none => q.drop id
    | .selectPosition id, .ok (some row) => if row.status = .open then q else q.drop id
    | .updateClosed id _, .ok _ => q.drop id
    | .insertPosition _, _ => { q with listed := none }
    | .submitOrder _ _ _, .ok (.success _ filled) => { q with tainted := q.tainted || filled = 0 }
    | _, _ => q
  allows q op := match op with
    | .selectPositions status s limit => status = some .open ∧ s = symbol ∧ limit = defaultLimit
    | .insertPosition p => (locks = true → q.held = true) ∧
        (q.tainted = true ∨ q.listed = some [] ∧ p.symbol = symbol ∧ p.quantity ≠ 0)
    | _ => True
  final _ := True

/-- The calls a request may make at any time. -/
def Plain (symbol : String) : Op → Prop
  | .selectPositions status s limit => status = some .open ∧ s = symbol ∧ limit = defaultLimit
  | .insertPosition _ => False
  | _ => True

section Follows

variable {symbol : String} {locks : Bool}

theorem wp_of_plain {α : Type} {p : Svc α} (hp : p.Uses (Plain symbol)) (q : Progress) :
    p.wp (rowProtocol symbol locks).spec (fun _ _ => True) q := by
  refine Prog.wp_of_uses (Protocol.spec_mono _) (fun op q hop _ => ⟨?_, fun _ _ => trivial⟩) p hp q trivial
  cases op with
  | insertPosition => exact hop.elim
  | selectPositions => exact hop
  | _ => trivial

theorem plain_of_rows (op : Op) (h : Rows op) : Plain symbol op := by
  cases op <;> first | exact h.elim | trivial

theorem notify_plain {α : Type} (notice : Notice) (a : α) : (do notify notice; return a : Svc α).Uses (Plain symbol) :=
  Prog.uses_bind (Prog.uses_perform trivial) (fun _ => trivial)

theorem closeAll_plain (L : List Position) (closePrice : ℚ) : (closeAll L closePrice).Uses (Plain symbol) :=
  (closeAll_rows closePrice L).mono plain_of_rows

theorem openPositionsOf_plain : (openPositionsOf symbol).Uses (Plain symbol) :=
  Prog.uses_perform ⟨rfl, rfl, rfl⟩

theorem isProcessed_plain (sigId : String) : (isProcessed sigId).Uses (Plain symbol) :=
  Prog.uses_bind (Prog.uses_perform trivial) (fun _ => trivial)

theorem placeOrder_plain (side : Side) (qty : Option ℚ) : (Executor.placeOrder symbol side qty).Uses (Plain symbol) :=
  placeOrder_uses trivial (fun _ => trivial) qty

theorem recordSell_plain (strategy sigId : String) (closePrice filledQty totalInvested : ℚ) (orderId : String) :
    (recordSell symbol strategy sigId closePrice filledQty totalInvested orderId).Uses (Plain symbol) := by
  refine Prog.uses_bind (Prog.uses_perform trivial) (fun _ => ?_)
  refine Prog.uses_bind (Prog.uses_attempt ?_ (fun _ => trivial)) (fun _ => ?_)
  · exact Prog.uses_bind openPositionsOf_plain (fun L => closeAll_plain L closePrice)
  · exact Prog.uses_bind (Prog.uses_perform trivial) (fun _ => notify_plain _ _)

theorem sell_plain (strategy sigId : String) (closePrice : ℚ) (qty : Option ℚ) :
    (executeSell symbol strategy sigId closePrice qty).Uses (Plain symbol) := by
  refine Prog.uses_bind (Prog.uses_perform trivial) (fun acquired => ?_)
  split
  swap
  · trivial
  refine Prog.uses_ensure ?_ (Prog.uses_perform trivial)
  refine Prog.uses_bind (isProcessed_plain sigId) (fun processed => ?_)
  split
  · trivial
  refine Prog.uses_bind openPositionsOf_plain (fun L => ?_)
  refine Prog.uses_bind (placeOrder_plain .sell qty) (fun result => ?_)
  split
  · exact notify_plain _ _
  · exact recordSell_plain strategy sigId closePrice _ _ _

variable {strategy sigId : String} {closePrice : ℚ} {q : Progress}

theorem recordBuy_progress {filled : ℚ} (hheld : q.held = true)
    (hq : q.tainted = true ∨ q.listed = some [] ∧ filled ≠ 0) (orderId : String) :
    (recordBuy symbol strategy sigId closePrice filled orderId).wp (rowProtocol symbol locks).spec
      (fun _ _ => True) q := by
  rw [recordBuy, Prog.wp_bind, Prog.wp_perform]
  refine ⟨trivial, fun t r => ?_⟩
  rcases r with e | u
  · trivial
  rw [Prog.out_ok, Prog.wp_bind, Prog.wp_attempt, Prog.wp_perform]
  refine ⟨⟨fun _ => hheld, hq.imp_right (fun h => ⟨h.1, rfl, h.2⟩)⟩, fun t r => ?_⟩
  have hrest : ∀ q', (do
      markProcessed sigId processedTtl
      notify (.bought symbol strategy filled closePrice)
      return .success filled closePrice orderId none : Svc Outcome).wp (rowProtocol symbol locks).spec
        (fun _ _ => True) q' :=
    wp_of_plain (Prog.uses_bind (Prog.uses_perform trivial) (fun _ => notify_plain _ _))
  rcases r with e | u <;> exact hrest _

theorem buySection_progress (hheld : q.held = true) :
    (buySection symbol strategy sigId closePrice).wp (rowProtocol symbol locks).spec (fun _ _ => True) q := by
  rw [buySection, isProcessed, Prog.wp_bind, Prog.wp_bind, Prog.wp_perform]
  refine ⟨trivial, fun t r => ?_⟩
  rcases r with e | value
  · trivial
  rw [Prog.out_ok, Prog.wp_pure, Prog.out_ok]
  split
  · trivial
  rw [openPositionsOf, Prog.wp_bind, Prog.wp_perform]
  refine ⟨⟨rfl, rfl, rfl⟩, fun t r => ?_⟩
  rcases r with e | L
  · trivial
  have hnext : (rowProtocol symbol locks).next q t (.selectPositions (some .open) symbol defaultLimit) (.ok L) =
      q.list L := by simp [rowProtocol, hheld]
  change Prog.wp _ _ _ ((rowProtocol symbol locks).next q t (.selectPositions (some .open) symbol defaultLimit) (.ok L))
  rw [hnext]
  split
  · trivial
  next hopen =>
  obtain rfl : L = [] := by simpa using hopen
  rw [Prog.wp_bind, Prog.wp_perform]
  refine ⟨trivial, fun t r => ?_⟩
  rcases r with e | (_ | safeQty)
  · trivial
  · exact wp_of_plain (notify_plain _ _) _
  dsimp only [Prog.out_ok]
  rw [Executor.placeOrder, Prog.wp_bind, Prog.wp_perform]
  refine ⟨trivial, fun t r => ?_⟩
  rcases r with e | (⟨orderId, filled⟩ | error)
  · trivial
  · refine recordBuy_progress ?_ ?_ orderId
    · exact hheld
    by_cases hz : filled = 0
    · exact .inl (by simp [rowProtocol, hz])
    · rw [if_neg hz]
      exact .inr ⟨rfl, hz⟩
  · exact wp_of_plain (notify_plain _ _) _

theorem buy_follows : (rowProtocol symbol locks).Follows ⟨false, none, false⟩
    (executeBuy symbol strategy sigId closePrice) := by
  rw [Protocol.Follows, executeBuy, withLock, Prog.wp_bind, Prog.wp_perform]
  refine ⟨trivial, fun t r => ?_⟩
  rcases r with e | _ | _
  · trivial
  · trivial
  rw [Prog.out_ok, if_pos rfl, Prog.wp_ensure]
  refine Prog.wp_mono (Protocol.spec_mono _) _ (fun r q _ => ?_) _ (buySection_progress (by simp [rowProtocol]))
  rw [Prog.wp_perform]
  refine ⟨trivial, fun t r' => ?_⟩
  rcases r' with e | u <;> trivial

theorem drop_drop (id : String) (q : Progress) : (q.drop id).drop id = q.drop id := by
  cases h : q.listed <;> simp [Progress.drop, h, List.filter_filter]

/-- A closing that returns has seen its row closed. -/
theorem closePosition_drops (id : String) (closePrice : ℚ) (q : Progress) :
    (closePosition id closePrice).wp (rowProtocol symbol locks).spec
      (Prog.out (fun _ q' => q' = q.drop id) (fun _ _ => True)) q := by
  rw [closePosition, Prog.wp_bind, Prog.wp_perform]
  refine ⟨trivial, fun t r => ?_⟩
  rcases r with e | (_ | row)
  · trivial
  · rfl
  by_cases hopen : row.status = .open
  swap
  · simp [rowProtocol, hopen]
  dsimp only [Prog.out_ok]
  rw [if_neg (by simp [hopen]), Prog.wp_bind, Prog.wp_perform]
  refine ⟨trivial, fun t r => ?_⟩
  rcases r with e | u
  · trivial
  rw [Prog.out_ok, Prog.wp_perform]
  refine ⟨trivial, fun t r => ?_⟩
  rcases r with e | (_ | row')
  · trivial
  · simp [rowProtocol, hopen, drop_drop]
  · by_cases hopen' : row'.status = .open <;> simp [rowProtocol, hopen, hopen', drop_drop]

theorem closeAll_drops (closePrice : ℚ) (L : List Position) (q : Progress) :
    (closeAll L closePrice).wp (rowProtocol symbol locks).spec
      (Prog.out (fun _ q' => q' = L.foldl (fun q p => q.drop p.id) q) (fun _ _ => True)) q := by
  induction L generalizing q with
  | nil => rfl
  | cons p L ih =>
      change Prog.wp _ ((closePosition p.id closePrice >>= fun _ => pure ()) >>= fun _ => closeAll L closePrice) _ q
      rw [Prog.wp_bind, Prog.wp_bind]
      refine Prog.wp_mono (Protocol.spec_mono _) _ (fun r q' hq' => ?_) _ (closePosition_drops p.id closePrice q)
      rcases r with e | a
      · trivial
      · rw [Prog.out_ok] at hq'
        rw [hq']
        exact ih (q.drop p.id)

theorem foldl_drop (L : List Position) (q : Progress) : (L.foldl (fun q p => q.drop p.id) q).listed =
    q.listed.map (fun ids => ids.filter (· ∉ L.map Position.id)) := by
  induction L generalizing q with
  | nil => cases h : q.listed <;> simp [h]
  | cons p L ih =>
      rw [List.foldl_cons, ih]
      cases h : q.listed with
      | none => simp [Progress.drop, h]
      | some ids =>
          simp only [Progress.drop, h, Option.map_some, List.filter_filter, Option.some.injEq]
          refine List.filter_congr (fun id _ => ?_)
          simp [Bool.and_comm]

/-- Closing all the rows that have been listed leaves none of them. -/
theorem foldl_drop_list (L : List Position) (q : Progress) :
    (L.foldl (fun q p => q.drop p.id) (q.list L)).listed = some [] := by
  simp [foldl_drop, Progress.list]

section Reconcile

variable {minOrderSize exchangeQty : ℚ} {L : List Position}

theorem insert_progress (hq : q.tainted = true ∨ q.listed = some [] ∧ exchangeQty ≠ 0) (price : ℚ)
    (result : Reconciled) :
    (do await (.insertPosition (longPosition symbol price exchangeQty)); return result : Svc Reconciled).wp
      (rowProtocol symbol false).spec (fun _ _ => True) q := by
  rw [Prog.wp_bind, Prog.wp_perform]
  refine ⟨⟨fun h => absurd h Bool.false_ne_true, hq.imp_right (fun h => ⟨h.1, rfl, h.2⟩)⟩, fun t r => ?_⟩
  rcases r with e | u <;> trivial

theorem notify_insert_progress (hq : q.tainted = true ∨ q.listed = some [] ∧ exchangeQty ≠ 0) (notice : Notice)
    (price : ℚ) (result : Reconciled) :
    (do notify notice; await (.insertPosition (longPosition symbol price exchangeQty)); return result :
      Svc Reconciled).wp (rowProtocol symbol false).spec (fun _ _ => True) q := by
  rw [notify, Prog.wp_bind, Prog.wp_perform]
  refine ⟨trivial, fun t r => ?_⟩
  rcases r with e | u
  · trivial
  · exact insert_progress hq price result

/-- A missing row is opened only where no row has been listed, unless a listed row had no quantity. -/
theorem openMissing_listed (hdec : ReconcileDomain.reconcile (localQty L) exchangeQty = .openMissingLocal)
    (he : exchangeQty ≠ 0) : (q.list L).tainted = true ∨ (q.list L).listed = some [] ∧ exchangeQty ≠ 0 := by
  have hzero := (Reconcile.decision_openMissingLocal hdec).1
  cases L with
  | nil => exact .inr ⟨rfl, he⟩
  | cons r L => exact .inl (by simp [Progress.list, hzero])

theorem applyDecision_progress (hmin : 0 < minOrderSize) (price : ℚ) :
    (applyDecision minOrderSize symbol exchangeQty L price).wp (rowProtocol symbol false).spec
      (fun _ _ => True) (q.list L) := by
  have hworth : ¬ exchangeQty * price < minOrderSize → exchangeQty ≠ 0 := by
    rintro h rfl
    rw [zero_mul] at h
    exact h hmin
  rw [applyDecision]
  cases hdec : ReconcileDomain.reconcile (localQty L) exchangeQty with
  | noop => trivial
  | closeOrphanLocal =>
      refine wp_of_plain ?_ _
      exact Prog.uses_bind (Prog.uses_perform trivial) (fun _ =>
        Prog.uses_bind (closeAll_plain L price) (fun _ => trivial))
  | openMissingLocal =>
      dsimp only
      split
      · trivial
      · next hdust => exact notify_insert_progress (openMissing_listed hdec (hworth hdust)) _ price _
  | adjustQty =>
      dsimp only
      rw [Prog.wp_bind]
      refine Prog.wp_mono (Protocol.spec_mono _) _ (fun r q' hq' => ?_) _ (closeAll_drops price L (q.list L))
      rcases r with e | u
      · trivial
      rw [Prog.out_ok] at hq' ⊢
      split
      · exact wp_of_plain (notify_plain _ _) _
      · next hdust =>
          refine notify_insert_progress (.inr ⟨?_, hworth hdust⟩) _ price _
          rw [hq', foldl_drop_list]

theorem reconcile_follows (hmin : 0 < minOrderSize) : (rowProtocol symbol false).Follows ⟨false, none, false⟩
    (Executor.reconcile minOrderSize symbol) := by
  have hmono := (rowProtocol symbol false).spec_mono
  have hbalance : (getExchangeQty symbol).Uses (Plain symbol) :=
    Prog.uses_attempt (Prog.uses_bind (Prog.uses_perform trivial) (fun _ => trivial)) (fun _ => trivial)
  refine Prog.wp_attempt_of hmono (I := fun _ => True) ?_ (fun _ _ _ => trivial)
  refine Prog.wp_bind_of hmono (I := fun _ => True) (wp_of_plain hbalance _) (fun exchangeQty q _ => ?_)
  rw [openPositionsOf, Prog.wp_bind, Prog.wp_perform]
  refine ⟨⟨rfl, rfl, rfl⟩, fun t r => ?_⟩
  rcases r with e | L
  · trivial
  dsimp only [Prog.out_ok]
  rw [currentPriceOf, Prog.wp_bind, Prog.wp_perform]
  refine ⟨trivial, fun t r => ?_⟩
  rcases r with e | price
  · trivial
  dsimp only [Prog.out_ok]
  split
  · trivial
  · exact applyDecision_progress hmin price

end Reconcile

/-- What a row is inserted for: after listing the open rows and seeing all of them closed. -/
theorem prog_follows {S : Setting} (hmin : 0 < S.bybit.minOrderSize) (symbol : String) (request : Request) :
    (rowProtocol symbol request.locks).Follows ⟨false, none, false⟩ (request.prog S symbol) := by
  cases request with
  | buy => exact Prog.wp_map_of (Protocol.spec_mono _) buy_follows
  | sell => exact Prog.wp_map_of (Protocol.spec_mono _) (wp_of_plain (sell_plain _ _ _ _) _)
  | reconcile => exact Prog.wp_map_of (Protocol.spec_mono _) (reconcile_follows hmin)

end Follows

def isListing : Op → Bool
  | .selectPositions _ _ _ => true
  | _ => false

def isInsert : Op → Bool
  | .insertPosition _ => true
  | _ => false

def writesRows : Op → Bool
  | .insertPosition _ | .updateClosed _ _ => true
  | _ => false

section World

variable {S : Setting} {symbol : String} {op : Op} {c : Env} {w : World}

theorem exec_positions (h : writesRows op = false) : (exec S op c w).2.positions = w.positions := by
  cases op with
  | insertPosition | updateClosed => cases h
  | calculateSafeOrderSize | submitOrder | getCurrentPrice | placeLinearOrder | getLinearPositions
  | getWalletBalance | getLinearTicker | setLeverage => rfl
  | _ => exact Fault.apply_world (·.positions = w.positions) rfl rfl

/-- What one call does to the open rows of a symbol. -/
inductive RowChange (symbol : String) (op : Op) (T T' : Positions) : Prop
  | kept (same : openRows symbol T' = openRows symbol T)
  | closed (id : String) (closing : Closing) (call : op = .updateClosed id closing)
      (rows : openRows symbol T' = (openRows symbol T).filter (fun r => r.id ≠ id))
  | inserted (p : NewPosition) (call : op = .insertPosition p) (id : String) (t : ℚ)
      (rows : T'.rows = T.rows ++ [p.row id t])

theorem exec_rowChange (S : Setting) (symbol : String) (op : Op) (c : Env) (w : World) :
    RowChange symbol op w.positions (exec S op c w).2.positions := by
  cases op with
  | insertPosition p =>
      simp only [exec]
      cases hT : createPosition c.uuid c.utc p w.positions with
      | none => exact .kept rfl
      | some T =>
          have hrows := (createPosition_rows hT).2
          cases hf : c.fault with
          | lost => exact .kept rfl
          | none | late => exact .inserted p rfl _ _ hrows
  | updateClosed id closing =>
      cases hf : c.fault with
      | lost => exact .kept (by simp [exec, Fault.apply, hf])
      | none | late =>
          refine .closed id closing rfl ?_
          simp only [exec, hf, Fault.apply]
          exact openRows_updateClosed symbol id closing _ _
  | _ => exact .kept (by rw [exec_positions rfl])

theorem RowChange.subset {T T' : Positions} (h : RowChange symbol op T T') (hop : isInsert op = false)
    {r : Position} (hr : r ∈ openRows symbol T') : r ∈ openRows symbol T := by
  cases h with
  | kept same => rwa [same] at hr
  | closed id closing call rows =>
      rw [rows] at hr
      exact List.mem_of_mem_filter hr
  | inserted p call => rw [call] at hop; cases hop

theorem RowChange.length {T T' : Positions} (h : RowChange symbol op T T') (hop : isInsert op = false) :
    (openRows symbol T').length ≤ (openRows symbol T).length := by
  cases h with
  | kept same => rw [same]
  | closed id closing call rows =>
      rw [rows]
      exact List.length_filter_le _ _
  | inserted p call => rw [call] at hop; cases hop

/-- The open rows are among those that a request has listed and not seen closed. -/
def Covers (symbol : String) (q : Progress) (T : Positions) : Prop :=
  ∀ ids ∈ q.listed, ∀ r ∈ openRows symbol T, r.id ∈ ids

theorem covers_subset {q : Progress} {T T' : Positions} (h : Covers symbol q T)
    (hT : ∀ r ∈ openRows symbol T', r ∈ openRows symbol T) : Covers symbol q T' :=
  fun ids hids r hr => h ids hids r (hT r hr)

theorem covers_drop {q : Progress} {T : Positions} {id : String} (h : Covers symbol q T)
    (hid : ∀ r ∈ openRows symbol T, r.id ≠ id) : Covers symbol (q.drop id) T := by
  intro ids hids r hr
  obtain ⟨ids', hids', rfl⟩ := Option.map_eq_some_iff.1 hids
  simpa using ⟨h ids' hids' r hr, hid r hr⟩

theorem open_of_mem {T : Positions} {r : Position} (h : r ∈ openRows symbol T) : r ∈ T.rows ∧ r.status = .open := by
  obtain ⟨hmem, hsel⟩ := List.mem_filter.1 h
  exact ⟨hmem, ((selected_open symbol).1 (of_decide_eq_true hsel)).1⟩

theorem covers_selectPosition {q : Progress} {id : String} (t : ℚ) {locks : Bool} (h : Covers symbol q w.positions) :
    Covers symbol ((rowProtocol symbol locks).next q t (.selectPosition id) (exec S (.selectPosition id) c w).1)
      w.positions := by
  cases hf : c.fault with
  | lost | late =>
      simp only [exec, hf, Fault.apply]
      exact h
  | none =>
      simp only [exec, hf, Fault.apply]
      cases hlook : getPositionById id w.positions with
      | none =>
          refine covers_drop h (fun r hr he => ?_)
          exact (Store.lookup_eq_none id w.positions.rows).1 hlook r (open_of_mem hr).1 he
      | some row =>
          by_cases hopen : row.status = .open
          · simpa [rowProtocol, hopen] using h
          · simp only [rowProtocol, if_neg hopen]
            refine covers_drop h (fun r hr he => ?_)
            obtain ⟨hmem, hr⟩ := open_of_mem hr
            have hsame : getPositionById r.id w.positions = some r :=
              Store.lookup_eq_some_of_mem w.positions.nodup hmem
            rw [he, hlook, Option.some.injEq] at hsame
            exact hopen (hsame ▸ hr)

theorem covers_updateClosed {q : Progress} {id : String} {closing : Closing} (t : ℚ) {locks : Bool}
    (h : Covers symbol q w.positions) :
    Covers symbol ((rowProtocol symbol locks).next q t (.updateClosed id closing)
      (exec S (.updateClosed id closing) c w).1) (exec S (.updateClosed id closing) c w).2.positions := by
  have hless : ∀ r ∈ openRows symbol (updateClosed id closing c.utc w.positions), r ∈ openRows symbol w.positions ∧
      r.id ≠ id := by
    intro r hr
    rw [openRows_updateClosed] at hr
    simpa using hr
  cases hf : c.fault with
  | lost =>
      simp only [exec, hf, Fault.apply]
      exact h
  | late =>
      simp only [exec, hf, Fault.apply]
      exact covers_subset h (fun r hr => (hless r hr).1)
  | none =>
      simp only [exec, hf, Fault.apply]
      exact covers_drop (covers_subset h (fun r hr => (hless r hr).1)) (fun r hr => (hless r hr).2)

theorem covers_selectPositions {q : Progress} (t : ℚ) {locks : Bool}
    (hsingle : (openRows symbol w.positions).length ≤ 1) :
    Covers symbol ((rowProtocol symbol locks).next q t (.selectPositions (some .open) symbol defaultLimit)
      (exec S (.selectPositions (some .open) symbol defaultLimit) c w).1) w.positions := by
  cases hf : c.fault with
  | lost | late =>
      simp only [exec, hf, Fault.apply]
      intro ids hids
      cases hids
  | none =>
      simp only [exec, hf, Fault.apply, rowProtocol]
      split
      · intro ids hids
        cases hids
      · intro ids hids r hr
        cases hids
        have hperm := getPositions_perm _ (hsingle.trans (by decide : 1 ≤ defaultLimit))
        exact List.mem_map_of_mem (hperm.mem_iff.2 hr)

/-- A call of a request whose listing is up to date leaves it up to date. -/
theorem covers_next {q : Progress} (t : ℚ) {locks : Bool} (hallows : (rowProtocol symbol locks).allows q op)
    (hsingle : (openRows symbol w.positions).length ≤ 1) (h : isListing op = false → Covers symbol q w.positions) :
    Covers symbol ((rowProtocol symbol locks).next q t op (exec S op c w).1) (exec S op c w).2.positions := by
  cases op with
  | selectPositions status s limit =>
      obtain ⟨rfl, rfl, rfl⟩ := hallows
      rw [exec_positions rfl]
      exact covers_selectPositions t hsingle
  | selectPosition id =>
      rw [exec_positions rfl]
      exact covers_selectPosition t (h rfl)
  | updateClosed id closing => exact covers_updateClosed t (h rfl)
  | insertPosition p => exact fun ids hids => nomatch hids
  | acquireLock key ttl =>
      rw [exec_positions rfl]
      rcases (exec S (.acquireLock key ttl) c w).1 with e | _ | _
      · exact h rfl
      · exact h rfl
      · simp only [rowProtocol]
        split <;> exact h rfl
  | releaseLock key =>
      rw [exec_positions rfl]
      simp only [rowProtocol]
      split
      · exact fun ids hids => nomatch hids
      · exact h rfl
  | submitOrder s side qty =>
      rw [exec_positions rfl]
      rcases (exec S (.submitOrder s side qty) c w).1 with e | (⟨orderId, filled⟩ | error) <;> exact h rfl
  | _ =>
      rw [exec_positions rfl]
      exact h rfl

/-- The guard of the client lets no order of no quantity through. -/
theorem success_ne_zero (hmin : 0 < S.bybit.minOrderSize) {side : Side} {qty : ℚ} {orderId : String} {filled : ℚ}
    (h : (spotReply S side qty c).result qty = .success orderId filled) : filled ≠ 0 := by
  have hqty : (spotReply S side qty c).isAccepted = true → qty ≠ 0 := by
    rintro haccepted rfl
    have hguard : orderGuard S.bybit side 0 c.price ≠ none := by
      simp only [orderGuard, zero_mul]
      split
      · simp
      · simp
    rw [spotReply] at haccepted
    split at haccepted
    · cases haccepted
    · split at haccepted
      · cases haccepted
      · next hnone => exact hguard hnone
  obtain ⟨haccepted, hzero⟩ := Reply.result_success h
  exact fun hz => hqty haccepted (hzero hz)

theorem list_tainted {T : Positions} (hsingle : (openRows symbol T).length ≤ 1)
    (hquantity : ∀ r ∈ openRows symbol T, r.quantity ≠ 0) (q : Progress) :
    (q.list (getPositions (some .open) symbol defaultLimit T)).tainted = q.tainted := by
  have hperm := getPositions_perm _ (hsingle.trans (by decide : 1 ≤ defaultLimit))
  have hlen := hperm.length_eq.trans_le hsingle
  rcases hL : getPositions (some .open) symbol defaultLimit T with _ | ⟨r, _ | ⟨r', L⟩⟩
  · simp [Progress.list]
  · have hr : r.quantity ≠ 0 := hquantity r (hperm.mem_iff.1 (by simp [hL]))
    simp [Progress.list, localQty, hr]
  · rw [hL] at hlen
    simp only [List.length_cons] at hlen
    omega

theorem untainted_next (hmin : 0 < S.bybit.minOrderSize) {q : Progress} (t : ℚ) {locks : Bool}
    (hallows : (rowProtocol symbol locks).allows q op) (hsingle : (openRows symbol w.positions).length ≤ 1)
    (hquantity : ∀ r ∈ openRows symbol w.positions, r.quantity ≠ 0) (hq : q.tainted = false) :
    ((rowProtocol symbol locks).next q t op (exec S op c w).1).tainted = false := by
  cases op with
  | selectPositions status s limit =>
      obtain ⟨rfl, rfl, rfl⟩ := hallows
      cases hf : c.fault with
      | lost | late =>
          simp only [exec, hf, Fault.apply]
          exact hq
      | none =>
          simp only [exec, hf, Fault.apply, rowProtocol]
          split
          · exact hq
          · exact (list_tainted hsingle hquantity q).trans hq
  | selectPosition id =>
      rcases (exec S (.selectPosition id) c w).1 with e | _ | row
      · exact hq
      · exact hq
      · simp only [rowProtocol]
        split <;> exact hq
  | updateClosed id closing =>
      rcases (exec S (.updateClosed id closing) c w).1 with e | u <;> exact hq
  | acquireLock key ttl =>
      rcases (exec S (.acquireLock key ttl) c w).1 with e | _ | _
      · exact hq
      · exact hq
      · simp only [rowProtocol]
        split <;> exact hq
  | releaseLock key =>
      simp only [rowProtocol]
      split <;> exact hq
  | submitOrder s side qty =>
      cases hresult : (spotReply S side qty c).result qty with
      | failure error =>
          simp only [exec, hresult]
          exact hq
      | success orderId filled =>
          simp only [exec, hresult, rowProtocol, hq, success_ne_zero hmin hresult, decide_false, Bool.or_self]
  | _ => exact hq

end World

variable {ι : Type} [DecidableEq ι]

abbrev Requests (ι : Type) := Conf ι Op Op.Res Exc World Result

def begin (S : Setting) (symbol : String) (requests : ι → Request) (w : World) : Requests ι :=
  start (fun i => (requests i).prog S symbol) w

/-- The lock does not depend on what a request returns. -/
def outcomeOf : Result → Outcome
  | .executed outcome => outcome
  | .reconciled _ => .refused .lockFailed

/-- No acquire of the lock comes when the time of a holder has run out. -/
def Timely (S : Setting) (symbol : String) (x : Requests ι) (i : ι) (c : Env) : Prop :=
  SymbolLock.Timely S symbol (x.map outcomeOf) i c

def progress (symbol : String) (requests : ι → Request) (x : Requests ι) (i : ι) : Progress :=
  phase (rowProtocol symbol (requests i).locks) i x.trace

/-- Whether, since a request last listed the open rows, another one has inserted a row,
two requests that both hold the lock aside. -/
def crossed (requests : ι → Request) (i : ι) : List (Event ι Op Op.Res Exc Result) → Bool
  | [] => false
  | e :: tr =>
      if e.task = i then !isListing e.op && crossed requests i tr
      else (isInsert e.op && !((requests e.task).locks && (requests i).locks)) || crossed requests i tr

/-- A request that inserts a row has listed the rows after the last insert it has to fear. -/
def Uncrossed (requests : ι → Request) (x : Requests ι) (i : ι) (_ : Env) : Prop :=
  (x.task i).next.any isInsert = true → crossed requests i x.trace = false

instance (requests : ι → Request) (x : Requests ι) (i : ι) (c : Env) : Decidable (Uncrossed requests x i c) :=
  inferInstanceAs (Decidable (_ → _))

instance [Fintype ι] (S : Setting) (symbol : String) (x : Requests ι) (i : ι) (c : Env) :
    Decidable (Timely S symbol x i c) :=
  inferInstanceAs (Decidable (SymbolLock.Timely S symbol (x.map outcomeOf) i c))

structure RowsKept (symbol : String) (requests : ι → Request) (x : Requests ι) : Prop where
  lock : SymbolLock.LockKept symbol (x.map outcomeOf)
  disciplined : Disciplined (fun i => rowProtocol symbol (requests i).locks) x
  single : (openRows symbol x.world.positions).length ≤ 1
  quantity : ∀ r ∈ openRows symbol x.world.positions, r.quantity ≠ 0
  untainted : ∀ i, (progress symbol requests x i).tainted = false
  listed : ∀ i, crossed requests i x.trace = false → Covers symbol (progress symbol requests x i) x.world.positions

section Pool

variable {S : Setting} {symbol : String} {requests : ι → Request} {x : Requests ι}

theorem held_next {q : Progress} {since : Option ℚ} (h : q.held = since.isSome) (locks : Bool) (t : ℚ) (op : Op)
    (r : Except Exc op.Res) : ((rowProtocol symbol locks).next q t op r).held =
      ((SymbolLock.lockProtocol symbol).next since t op r).isSome := by
  cases op with
  | acquireLock key ttl =>
      rcases r with e | _ | _
      · exact h
      · exact h
      · simp only [rowProtocol, SymbolLock.lockProtocol]
        split
        · rfl
        · exact h
  | releaseLock key =>
      simp only [rowProtocol, SymbolLock.lockProtocol]
      split
      · rfl
      · exact h
  | selectPositions status s limit =>
      rcases r with e | rows
      · exact h
      · simp only [rowProtocol]
        split <;> exact h
  | selectPosition id =>
      rcases r with e | _ | row
      · exact h
      · exact h
      · simp only [rowProtocol]
        split <;> exact h
  | updateClosed id closing => rcases r with e | u <;> exact h
  | submitOrder s side qty => rcases r with e | (⟨orderId, filled⟩ | error) <;> exact h
  | _ => exact h

theorem held_eq (symbol : String) (locks : Bool) (i : ι) (tr : List (Event ι Op Op.Res Exc Result)) :
    (phase (rowProtocol symbol locks) i tr).held = (phase (SymbolLock.lockProtocol symbol) i tr).isSome := by
  induction tr with
  | nil => rfl
  | cons e tr ih =>
      simp only [phase]
      split
      · exact held_next ih locks _ _ _
      · exact ih

theorem drop_isSome (id : String) (q : Progress) : (q.drop id).listed.isSome = q.listed.isSome := Option.isSome_map

/-- A request that takes the lock lists rows only while it holds it. -/
theorem listed_next {q : Progress} (h : q.listed.isSome = true → q.held = true) (t : ℚ) (op : Op)
    (r : Except Exc op.Res) : ((rowProtocol symbol true).next q t op r).listed.isSome = true →
      ((rowProtocol symbol true).next q t op r).held = true := by
  cases op with
  | acquireLock key ttl =>
      rcases r with e | _ | _
      · exact h
      · exact h
      · simp only [rowProtocol]
        split
        · exact fun _ => rfl
        · exact h
  | releaseLock key =>
      simp only [rowProtocol]
      split
      · exact fun h => nomatch h
      · exact h
  | selectPositions status s limit =>
      rcases r with e | rows
      · exact fun h => nomatch h
      · simp only [rowProtocol]
        split
        · exact fun h => nomatch h
        · next hheld => exact fun _ => by simpa [Progress.list] using hheld
  | selectPosition id =>
      rcases r with e | _ | row
      · exact h
      · exact fun hid => h (drop_isSome id q ▸ hid)
      · simp only [rowProtocol]
        split
        · exact h
        · exact fun hid => h (drop_isSome id q ▸ hid)
  | updateClosed id closing =>
      rcases r with e | u
      · exact h
      · exact fun hid => h (drop_isSome id q ▸ hid)
  | insertPosition p => exact fun h => nomatch h
  | submitOrder s side qty => rcases r with e | (⟨orderId, filled⟩ | error) <;> exact h
  | _ => exact h

theorem held_of_listed (symbol : String) (i : ι) (tr : List (Event ι Op Op.Res Exc Result)) :
    (phase (rowProtocol symbol true) i tr).listed.isSome = true → (phase (rowProtocol symbol true) i tr).held = true := by
  induction tr with
  | nil => exact fun h => nomatch h
  | cons e tr ih =>
      simp only [phase]
      split
      · exact listed_next ih _ _ _
      · exact ih

theorem prog_follows_lock (S : Setting) (symbol : String) (request : Request) :
    (SymbolLock.lockProtocol symbol).Follows none (request.prog S symbol) := by
  have hmono := (SymbolLock.lockProtocol symbol).spec_mono
  cases request with
  | buy strategy sigId closePrice =>
      exact Prog.wp_map_of hmono (SymbolLock.call_follows symbol (.buy symbol strategy sigId closePrice))
  | sell strategy sigId closePrice qty =>
      exact Prog.wp_map_of hmono (SymbolLock.call_follows symbol (.sell symbol strategy sigId closePrice qty))
  | reconcile =>
      have hreconcile := (reconcile_reconciling S.bybit.minOrderSize symbol).mono (fun op hop =>
        (show SymbolLock.Unlocking op from fun s hk => by cases op <;> first | exact hop.elim | cases hk))
      exact Prog.wp_map_of hmono
        ((SymbolLock.lockProtocol symbol).wp_of_uses (fun op hop => SymbolLock.unlocking_keeps symbol hop none) _ hreconcile)

theorem begin_lock (S : Setting) (symbol : String) (requests : ι → Request) (w : World) :
    SymbolLock.LockKept symbol ((begin S symbol requests w).map outcomeOf) where
  exclusive _ _ h := nomatch h
  backed _ _ h := nomatch h
  disciplined := disciplined_start (P := fun _ => SymbolLock.lockProtocol symbol)
    (fun i => Prog.wp_map_of (Protocol.spec_mono _) (prog_follows_lock S symbol (requests i))) w

/-- Two requests that hold the lock are one. -/
theorem eq_of_held (hl : SymbolLock.LockKept symbol (x.map outcomeOf)) {i j : ι}
    (hi : (progress symbol requests x i).held = true) (hj : (progress symbol requests x j).held = true) : i = j := by
  have hsince : ∀ k, (progress symbol requests x k).held =
      (SymbolLock.heldSince symbol (x.map outcomeOf) k).isSome := fun k =>
    (held_eq symbol _ k x.trace).trans (congrArg Option.isSome (phase_map _ outcomeOf k x.trace).symm)
  exact hl.exclusive i j (by rw [← hsince, hi]) (by rw [← hsince, hj])

theorem crossed_answered_self (i : ι) (t : ℚ) (op : Op) (r : Except Exc op.Res) (w : World) (p : Svc Result) :
    crossed requests i (x.answered i t op r w p).trace = (!isListing op && crossed requests i x.trace) :=
  if_pos rfl

theorem crossed_answered_ne {i j : ι} (hj : j ≠ i) (t : ℚ) (op : Op) (r : Except Exc op.Res) (w : World)
    (p : Svc Result) : crossed requests j (x.answered i t op r w p).trace =
      ((isInsert op && !((requests i).locks && (requests j).locks)) || crossed requests j x.trace) :=
  if_neg (Ne.symm hj)

/-- A request that inserts a row finds none open. -/
theorem no_open_of_insert (hx : RowsKept symbol requests x) {i : ι} {p : NewPosition}
    {k : Except Exc Unit → Svc Result} (htask : x.task i = .call (.insertPosition p) k)
    (hcrossed : crossed requests i x.trace = false) :
    openRows symbol x.world.positions = [] ∧ p.symbol = symbol ∧ p.quantity ≠ 0 := by
  have hallows := hx.disciplined.allows htask
  have hlisted : (progress symbol requests x i).tainted = true ∨ (progress symbol requests x i).listed = some [] ∧
      p.symbol = symbol ∧ p.quantity ≠ 0 := hallows.2
  obtain ⟨hnone, hp⟩ := hlisted.resolve_left (by simp [hx.untainted i])
  refine ⟨List.eq_nil_iff_forall_not_mem.2 (fun r hr => ?_), hp⟩
  exact List.not_mem_nil (hx.listed i hcrossed [] hnone r hr)

/-- The other requests that have listed rows fear an insert, as they cannot hold the lock too. -/
theorem covers_of_insert (hx : RowsKept symbol requests x) {i j : ι} (hj : j ≠ i) {p : NewPosition}
    {k : Except Exc Unit → Svc Result} (htask : x.task i = .call (.insertPosition p) k)
    (hlocks : (!((requests i).locks && (requests j).locks)) = false) (T : Positions) :
    Covers symbol (progress symbol requests x j) T := by
  have hboth : (requests i).locks = true ∧ (requests j).locks = true := by simpa using hlocks
  have hi : (progress symbol requests x i).held = true := (hx.disciplined.allows htask).1 hboth.1
  intro ids hids
  have hheld : (progress symbol requests x j).held = true := by
    rw [progress, hboth.2] at hids ⊢
    exact held_of_listed symbol j x.trace (by rw [hids]; rfl)
  exact absurd (eq_of_held hx.lock hheld hi) hj

section Answered

variable {op : Op} {k : Except Exc op.Res → Svc Result} {i : ι} (c : Env) (t : ℚ) (p : Svc Result)

theorem untainted_answered (hmin : 0 < S.bybit.minOrderSize) (hx : RowsKept symbol requests x)
    (htask : x.task i = .call op k) (j : ι) :
    (progress symbol requests (x.answered i t op (exec S op c x.world).1 (exec S op c x.world).2 p) j).tainted =
      false := by
  by_cases hj : j = i
  · subst hj
    rw [progress, phase_answered]
    exact untainted_next hmin t (hx.disciplined.allows htask) hx.single hx.quantity (hx.untainted j)
  · rw [progress, phase_answered_ne _ x hj]
    exact hx.untainted j

theorem covers_answered (hx : RowsKept symbol requests x) (htask : x.task i = .call op k) (j : ι)
    (hcrossed : crossed requests j
      (x.answered i t op (exec S op c x.world).1 (exec S op c x.world).2 p).trace = false) :
    Covers symbol (progress symbol requests (x.answered i t op (exec S op c x.world).1 (exec S op c x.world).2 p) j)
      (exec S op c x.world).2.positions := by
  by_cases hj : j = i
  · subst hj
    rw [crossed_answered_self] at hcrossed
    rw [progress, phase_answered]
    refine covers_next t (hx.disciplined.allows htask) hx.single (fun hop => hx.listed j ?_)
    simpa [hop] using hcrossed
  · rw [crossed_answered_ne hj, Bool.or_eq_false_iff] at hcrossed
    rw [progress, phase_answered_ne _ x hj]
    by_cases hop : isInsert op = true
    · cases op with
      | insertPosition row => exact covers_of_insert hx hj htask hcrossed.1 _
      | _ => cases hop
    · exact covers_subset (hx.listed j hcrossed.2)
        (fun r => (exec_rowChange S symbol op c x.world).subset (eq_false_of_ne_true hop))

theorem open_answered (hx : RowsKept symbol requests x) (htask : x.task i = .call op k) (hu : Uncrossed requests x i c) :
    (openRows symbol (exec S op c x.world).2.positions).length ≤ 1 ∧
      ∀ r ∈ openRows symbol (exec S op c x.world).2.positions, r.quantity ≠ 0 := by
  have hchange := exec_rowChange S symbol op c x.world
  by_cases hop : isInsert op = true
  swap
  · have hop := eq_false_of_ne_true hop
    exact ⟨(hchange.length hop).trans hx.single, fun r hr => hx.quantity r (hchange.subset hop hr)⟩
  have hcrossed := hu (by rw [htask]; exact hop)
  cases hchange with
  | kept same =>
      rw [same]
      exact ⟨hx.single, hx.quantity⟩
  | closed id closing call => rw [call] at hop; cases hop
  | inserted row call id utc rows =>
      subst call
      obtain ⟨hnone, hsymbol, hquantity⟩ := no_open_of_insert hx htask hcrossed
      rw [openRows_append symbol rows hsymbol, hnone]
      refine ⟨le_rfl, fun r hr => ?_⟩
      obtain rfl : r = row.row id utc := by simpa using hr
      exact hquantity

end Answered

theorem rows_step (hmin : 0 < S.bybit.minOrderSize) (hx : RowsKept symbol requests x) {i : ι} {c : Env}
    (ht : Timely S symbol x i c) (hu : Uncrossed requests x i c) :
    RowsKept symbol requests (step (handler S) x (i, c)) := by
  have hlock := SymbolLock.lockKept_step hx.lock ht
  rw [step_map] at hlock
  have hdisciplined := disciplined_step _ (handler S) hx.disciplined i c
  rcases step_cases (handler S) x i c with ⟨_, hs⟩ | ⟨op, k, htask, hs⟩
  · rw [hs]
    exact hx
  rw [hs] at hlock hdisciplined ⊢
  obtain ⟨hsingle, hquantity⟩ := open_answered c hx htask hu
  exact ⟨hlock, hdisciplined, hsingle, hquantity, untainted_answered c _ _ hmin hx htask,
    covers_answered c _ _ hx htask⟩

theorem begin_rows (hmin : 0 < S.bybit.minOrderSize) (symbol : String) (requests : ι → Request) {w : World}
    (hrows : openRows symbol w.positions = []) : RowsKept symbol requests (begin S symbol requests w) where
  lock := begin_lock S symbol requests w
  disciplined := disciplined_start (P := fun i => rowProtocol symbol (requests i).locks)
    (fun i => prog_follows hmin symbol (requests i)) w
  single := (congrArg List.length hrows).trans_le (Nat.zero_le 1)
  quantity _ hr := absurd (hrows ▸ hr) List.not_mem_nil
  untainted _ := rfl
  listed _ _ _ h := nomatch h

end Pool

/-- There is never more than one open row where no holder of the lock outlives it and no
insert comes between a listing and an insert by another request that the lock does not
keep away. -/
theorem one_open_row (S : Setting) (hmin : 0 < S.bybit.minOrderSize) (symbol : String) (requests : ι → Request)
    (w : World) (hrows : openRows symbol w.positions = []) (ls : List (ι × Env))
    (htimely : Along (handler S) (Timely S symbol) (begin S symbol requests w) ls)
    (hcrossed : Along (handler S) (Uncrossed requests) (begin S symbol requests w) ls) :
    Always (handler S) (fun x => (openRows symbol x.world.positions).length ≤ 1) (begin S symbol requests w) ls := by
  have hstep : ∀ (x : Requests ι) (l : ι × Env), RowsKept symbol requests x →
      Timely S symbol x l.1 l.2 ∧ Uncrossed requests x l.1 l.2 → RowsKept symbol requests (step (handler S) x l) :=
    fun x l hx hok => rows_step hmin hx hok.1 hok.2
  exact (alwaysRun_of_step hstep (begin_rows hmin symbol requests hrows) (htimely.and hcrossed)).mono
    (fun x hx => hx.single)

def buyAndReconcile : Bool → Request
  | false => .buy "ema" "sig-1" 30000
  | true => .reconcile

/-- Each request inserts a row under an id of its own. -/
def turns (is : List Bool) : List (Bool × Env) :=
  is.map (fun i => (i, { Env.trading with uuid := if i then "b" else "a" }))

theorem one_open_row_inTurn : Always (handler defaults) (fun x => (openRows "BTCUSDT" x.world.positions).length ≤ 1)
    (begin defaults "BTCUSDT" buyAndReconcile .empty) (turns (List.replicate 10 false ++ List.replicate 3 true)) :=
  one_open_row defaults (by decide +kernel) "BTCUSDT" buyAndReconcile .empty rfl _ (by decide +kernel) (by decide +kernel)

/-- The reconcile finds the coins of the buy before the buy has inserted its row. -/
theorem reconciled_during_buy : ¬ ∀ (S : Setting) (symbol : String) (requests : Bool → Request) (w : World)
    (ls : List (Bool × Env)), openRows symbol w.positions = [] → w.wallet (baseCurrency symbol) = 0 →
    (∀ l ∈ ls, l.2.fault = .none) →
    Along (handler S) (fun x i c => (x.task i).next.all (fillsOrder c) = true) (begin S symbol requests w) ls →
    Along (handler S) (Timely S symbol) (begin S symbol requests w) ls →
    Always (handler S) (fun x => (openRows symbol x.world.positions).length ≤ 1) (begin S symbol requests w) ls := by
  intro h
  have hlast := (h defaults "BTCUSDT" buyAndReconcile .empty
    (turns [false, false, false, false, false, true, true, true, true, true, false, false]) rfl rfl (by decide +kernel)
    (by decide +kernel) (by decide +kernel)).last
  revert hlast
  decide +kernel

end Autr.Services.RowExclusion
