import Autr.Infra.PositionSummary
import Autr.Positions.TradeLinks

namespace Autr.Positions.RealizedPnl

open Autr.Async Autr.Infra PositionService PositionSummary TradeDb TradeLinks TradeTracker

/-- What a trade brings in. -/
def cash (trade : NewTrade) : ℚ :=
  if trade.side = "Buy" then -(trade.quantity * trade.price) else trade.quantity * trade.price

def tradesOf (trades : List TradeRow) (r : Position) : List TradeRow :=
  trades.filter (fun t => r.entryTradeId = some t.id ∨ r.exitTradeId = some t.id)

/-- What the trades of a row have brought in. -/
def cashOf (trades : List TradeRow) (r : Position) : ℚ := ((tradesOf trades r).map (fun t => cash t.trade)).sum

/-- The types of positions that the routes take. -/
def Directed (positionType : String) : Prop := positionType = "long" ∨ positionType = "short"

/-- The two trades of a position bring in what it has gained. -/
theorem cash_entry_add_exit {r : Position} (h : Directed r.positionType) (price : ℚ)
    (orderId orderId' : Option String) :
    cash (entryTrade (asCreated r).2.1 orderId) + cash (exitTrade r price orderId') =
      calcPnl r.positionType r.entryPrice price r.quantity := by
  obtain h | h := h <;> simp [cash, entryTrade, exitTrade, entrySide, exitSide, calcPnl, asCreated, h] <;> ring

/-- The columns of a row that has an exit trade are those of that trade. -/
def Settled (w : World) : Prop :=
  ∀ r ∈ w.positions.rows, ∀ t ∈ w.trades, r.exitTradeId = some t.id →
    r.currentPrice = t.trade.price ∧ r.unrealizedPnl = calcPnl r.positionType r.entryPrice t.trade.price r.quantity

section Rows

variable {w : World} {r : Position} {t : TradeRow}

theorem trade_unique (h : Linked w) {t' : TradeRow} (ht : t ∈ w.trades) (ht' : t' ∈ w.trades)
    (hid : t.id = t'.id) : t = t' :=
  List.inj_on_of_nodup_map h.tradeIds ht ht' hid

/-- A trade whose id has been given before a call was there before it. -/
theorem mem_trades_of_le {op : Op} {c : Env} (ht : t ∈ (exec op c w).2.trades) (hle : t.id ≤ w.lastTradeId) :
    t ∈ w.trades := by
  rcases exec_trades op c w with ⟨hsame, -⟩ | ⟨trade, -, hnew, -⟩
  · rwa [← hsame]
  · rcases List.mem_append.1 (hnew ▸ ht) with hmem | hmem
    · exact hmem
    · rw [List.mem_singleton.1 hmem] at hle
      exact absurd hle (Nat.not_succ_le_self _)

theorem cashOf_eq (h : Linked w) {e : TradeRow} (he : e ∈ w.trades) (ht : t ∈ w.trades) (hne : e.id ≠ t.id)
    (hentry : r.entryTradeId = some e.id) (hexit : r.exitTradeId = some t.id) :
    cashOf w.trades r = cash e.trade + cash t.trade := by
  have hnodup : w.trades.Nodup := h.tradeIds.of_map
  have hperm : (tradesOf w.trades r).Perm [e, t] := by
    refine (List.perm_ext_iff_of_nodup (hnodup.filter _) ?_).2 (fun s => ?_)
    · simpa using fun heq => hne (congrArg TradeRow.id heq)
    · simp only [List.mem_filter, hentry, hexit, Option.some.injEq, decide_eq_true_eq, List.mem_cons,
        List.not_mem_nil, or_false]
      constructor
      · rintro ⟨hs, hid | hid⟩
        · exact .inl (trade_unique h hs he hid.symm)
        · exact .inr (trade_unique h hs ht hid.symm)
      · rintro (rfl | rfl)
        · exact ⟨he, .inl rfl⟩
        · exact ⟨ht, .inr rfl⟩
  rw [cashOf, (hperm.map _).sum_eq, List.map_cons, List.map_singleton, List.sum_cons, List.sum_singleton]

theorem entrySide_ne_exitSide (positionType : String) : entrySide positionType ≠ exitSide positionType := by
  rw [entrySide, exitSide]
  split <;> decide

/-- Once a row is settled, its realized gain is the cash of its trades. -/
theorem Settled.pnl (h : Settled w) (hlinked : Linked w) (hr : r ∈ w.positions.rows) (hclosed : r.status = .closed)
    (hdirected : Directed r.positionType) : r.unrealizedPnl = cashOf w.trades r := by
  obtain ⟨tradeId, hexit⟩ := Option.isSome_iff_exists.1 ((hlinked.closed r hr).1 hclosed)
  obtain ⟨t, ht, rfl, price, orderId, htrade⟩ := hlinked.exit r hr tradeId hexit
  obtain ⟨e, he, hentry, orderId', hentryTrade⟩ := hlinked.entry r hr
  have hne : e.id ≠ t.id := by
    intro hid
    have hsame := (trade_unique hlinked he ht hid) ▸ hentryTrade
    exact entrySide_ne_exitSide r.positionType (congrArg NewTrade.side (hsame.symm.trans htrade))
  rw [cashOf_eq hlinked he ht hne hentry hexit, hentryTrade, htrade, cash_entry_add_exit hdirected,
    (h r hr t ht hexit).2, htrade]
  rfl

end Rows

section Directed

def DirectedRequest : Request → Prop
  | .open _ _ positionType _ _ _ => Directed positionType
  | _ => True

def DirectedOp : Op → Prop
  | .insertPosition p => Directed p.positionType
  | _ => True

/-- Only positions of the two types are inserted. -/
def directed : Protocol Op Op.Res String Unit where
  start := ()
  next q _ _ _ := q
  allows _ op := DirectedOp op
  final _ := True

theorem recordOpen_directed {p : NewPosition} (h : Directed p.positionType) (orderId : Option String) :
    (recordOpen p orderId).Uses DirectedOp :=
  Prog.uses_bind (Prog.uses_perform trivial)
    (fun _ => Prog.uses_bind (Prog.uses_perform h) (fun _ => trivial))

theorem afterOrder_directed {order : Order} {message : String} {record : Option String → Desk Result}
    (h : ∀ orderId, (record orderId).Uses DirectedOp) : (afterOrder order message record).Uses DirectedOp := by
  refine Prog.uses_bind (Prog.uses_perform trivial) (fun reply => ?_)
  cases reply with
  | accepted orderId => exact h orderId
  | rejected error => trivial

theorem openPosition_directed (t : Trading) (symbol : String) {positionType : String}
    (h : Directed positionType) (entryPrice quantity dollarAmount : ℚ) :
    (openPosition t symbol positionType entryPrice quantity dollarAmount).Uses DirectedOp := by
  refine Prog.uses_attempt ?_ (fun _ => trivial)
  split
  · split
    · trivial
    · exact afterOrder_directed (fun orderId => Prog.uses_bind (Prog.uses_perform trivial)
        (fun price => recordOpen_directed h orderId))
  · exact recordOpen_directed h none

theorem recordClose_directed (id : String) (p : Position) (closePrice : ℚ) (orderId : Option String) :
    (recordClose id p closePrice orderId).Uses DirectedOp := by
  refine Prog.uses_bind (Prog.uses_perform trivial) (fun trade => Prog.uses_bind ?_ (fun _ => trivial))
  refine Prog.uses_bind (Prog.uses_perform trivial) (fun row => ?_)
  cases row with
  | none => trivial
  | some row =>
      dsimp only
      split
      · trivial
      · exact Prog.uses_bind (Prog.uses_perform trivial) (fun _ => Prog.uses_perform trivial)

theorem closePosition_directed (t : Trading) (id : String) (closePrice : Option ℚ) :
    (closePosition t id closePrice).Uses DirectedOp := by
  refine Prog.uses_attempt (Prog.uses_bind (Prog.uses_perform trivial) (fun row => ?_)) (fun _ => trivial)
  cases row with
  | none => trivial
  | some p =>
      dsimp only
      split
      · trivial
      · refine Prog.uses_bind ?_ (fun price => ?_)
        · cases closePrice with
          | some closePrice => trivial
          | none =>
              dsimp only [priceToClose]
              split
              · exact Prog.uses_perform trivial
              · trivial
        · split
          · exact afterOrder_directed (fun orderId => recordClose_directed id p price orderId)
          · exact recordClose_directed id p price none

theorem request_directed {request : Request} (h : DirectedRequest request) : request.prog.Uses DirectedOp := by
  cases request with
  | «open» t symbol positionType entryPrice quantity dollarAmount =>
      exact Prog.uses_bind (openPosition_directed t symbol h entryPrice quantity dollarAmount) (fun _ => trivial)
  | close t id closePrice => exact Prog.uses_bind (closePosition_directed t id closePrice) (fun _ => trivial)
  | updatePrices priceUpdates =>
      have hprices := (updateOpenPositionPrices_prices priceUpdates).mono (Q := DirectedOp)
        (fun op hop => by cases op <;> trivial)
      exact Prog.uses_attempt (Prog.uses_bind hprices (fun _ => trivial)) (fun _ => trivial)

end Directed

variable {ι : Type} [DecidableEq ι]

def pricedRow : Op → Option String
  | .updatePrice id _ => some id
  | _ => none

/-- No price is written to a row that is closed. -/
def Spared (x : Requests ι) (i : ι) (_ : Env) : Prop :=
  ∀ op ∈ (x.task i).next, ∀ id ∈ pricedRow op, ∀ r ∈ x.world.positions.rows, r.id = id → r.status = .open

instance (x : Requests ι) (i : ι) (c : Env) : Decidable (Spared x i c) :=
  inferInstanceAs (Decidable (∀ op ∈ (x.task i).next, ∀ id ∈ pricedRow op, ∀ r ∈ x.world.positions.rows,
    r.id = id → r.status = .open))

/-- The books of a run: rows and trades are linked, closed rows settled, and all rows long or
short. -/
structure Booked (x : Requests ι) : Prop where
  consistent : Consistent x
  settled : Settled x.world
  inserts : Disciplined (fun _ => directed) x
  types : ∀ r ∈ x.world.positions.rows, Directed r.positionType

section Step

variable {x : Requests ι}

theorem settled_step (h : Consistent x) (hsettled : Settled x.world) {i : ι} {c : Env} (hspared : Spared x i c) :
    Settled (step handler x (i, c)).world := by
  rcases step_cases handler x i c with ⟨_, hs⟩ | ⟨op, k, hp, hs⟩
  · rw [hs]
    exact hsettled
  rw [hs]
  have hallows := h.disciplined.allows hp
  intro r' hr' t ht hexit
  -- A trade that is new has an id that no row has yet.
  have hold : ∀ t' ∈ x.world.trades, t'.id = t.id → t ∈ x.world.trades := by
    intro t' ht' hid
    exact mem_trades_of_le ht (hid ▸ h.linked.known t' ht')
  rcases (exec_rows op c x.world).origin hr' with
    ⟨p, -, -, rfl⟩ | ⟨r, hr, -, rfl | ⟨pricing, rfl, rfl⟩ | ⟨closing, rfl, rfl⟩⟩
  · cases hexit
  · obtain ⟨t', ht', hid, -⟩ := h.linked.exit r' hr t.id hexit
    exact hsettled r' hr t (hold t' ht' hid) hexit
  · have hopen := hspared _ (by rw [hp]; rfl) r.id rfl r hr rfl
    have hclosed := (h.linked.closed r hr).2 (Option.isSome_of_eq_some hexit)
    cases hopen.symm.trans hclosed
  · obtain ⟨p, row, price, orderId, tradeId, hheld, rfl⟩ := hallows
    obtain ⟨t₀, ht₀, hid₀, hmade⟩ := h.exit i _ tradeId (congrArg Held.exitTrade hheld)
    obtain ⟨r₀, hr₀, hrid, hterms⟩ := h.read i r.id row (hheld ▸ List.mem_cons_of_mem _ List.mem_cons_self)
    cases row_unique hr₀ hr hrid
    have hid : t₀.id = t.id := hid₀.trans (Option.some.inj hexit)
    have htrade := trade_unique h.linked (hold t₀ ht₀ hid) ht₀ hid.symm
    rw [htrade, hmade, ← closing_congr hterms]
    exact ⟨rfl, rfl⟩

theorem types_step (h : Booked x) (i : ι) (c : Env) :
    ∀ r ∈ (step handler x (i, c)).world.positions.rows, Directed r.positionType := by
  rcases step_cases handler x i c with ⟨_, hs⟩ | ⟨op, k, hp, hs⟩
  · rw [hs]
    exact h.types
  rw [hs]
  have hallows := h.inserts.allows hp
  intro r' hr'
  rcases (exec_rows op c x.world).origin hr' with ⟨p, rfl, -, rfl⟩ | ⟨r, hr, hterms, -⟩
  · exact hallows
  · have htype : r'.positionType = r.positionType := congrArg (fun terms => terms.2.1.positionType) hterms
    rw [htype]
    exact h.types r hr

theorem booked_step (h : Booked x) {i : ι} {c : Env} (hspared : Spared x i c) : Booked (step handler x (i, c)) :=
  ⟨consistent_step h.consistent i c, settled_step h.consistent h.settled hspared,
    disciplined_step (fun _ => directed) handler h.inserts i c, types_step h i c⟩

end Step

/-- What the rows and the summary call realized is what the trades of the closed rows have
brought in. -/
structure Realized (w : World) : Prop where
  row : ∀ r ∈ w.positions.rows, r.status = .closed → r.unrealizedPnl = cashOf w.trades r
  summary : ∀ symbol, (matching .closed symbol w.positions).length ≤ summaryLimit →
    (getPositionSummary symbol w.positions).realizedPnl =
      ((matching .closed symbol w.positions).map (cashOf w.trades)).sum

theorem Booked.realized {x : Requests ι} (h : Booked x) : Realized x.world := by
  have hrow : ∀ r ∈ x.world.positions.rows, r.status = .closed → r.unrealizedPnl = cashOf x.world.trades r :=
    fun r hr hclosed => h.settled.pnl h.consistent.linked hr hclosed (h.types r hr)
  refine ⟨hrow, fun symbol hlimit => ?_⟩
  have hperm := (getPositions_matching_perm hlimit).map Position.unrealizedPnl
  have hcash : (matching .closed symbol x.world.positions).map Position.unrealizedPnl =
      (matching .closed symbol x.world.positions).map (cashOf x.world.trades) := by
    refine List.map_congr_left (fun r hr => ?_)
    obtain ⟨hmem, hselected⟩ := List.mem_filter.1 hr
    exact hrow r hmem ((of_decide_eq_true hselected).1 .closed rfl)
  rw [← hcash]
  exact hperm.sum_eq

/-- However requests for long and short positions interleave and fail: as long as no price is
written to a closed row, the realized gains are the cash of the trades. -/
theorem realized_runs (requests : ι → Request) (hrequests : ∀ i, DirectedRequest (requests i)) {w : World}
    (hlinked : Linked w) (hsettled : Settled w) (htypes : ∀ r ∈ w.positions.rows, Directed r.positionType)
    (ls : List (ι × Env)) (hspared : Along handler Spared (begin requests w) ls) :
    Realized (runs handler (begin requests w) ls).world := by
  have hinserts : Disciplined (fun _ => directed) (begin requests w) := by
    refine disciplined_start (fun i => ?_) w
    exact Prog.wp_mono directed.spec_mono _ (fun _ _ _ => trivial) ()
      (directed.wp_of_uses (fun _ hop => ⟨hop, fun _ _ => rfl⟩) _ (request_directed (hrequests i)))
  have hbegin : Booked (begin requests w) := ⟨consistent_begin requests hlinked, hsettled, hinserts, htypes⟩
  have hrun : Always handler Booked (begin requests w) ls :=
    alwaysRun_of_step (fun _ _ hx hl => booked_step hx hl) hbegin hspared
  exact hrun.last.realized

theorem settled_empty : Settled emptyTables := fun _ h => (nomatch h)

theorem realized_runs_bothClose :
    Realized (runs handler (begin openAndClose emptyTables) bothClose).world ∧
      (runs handler (begin openAndClose emptyTables) bothClose).world.positions.rows.map Position.unrealizedPnl =
        [20] := by
  refine ⟨realized_runs openAndClose ?_ linked_empty settled_empty (fun _ h => (nomatch h)) bothClose ?_,
    by decide +kernel⟩
  · intro i
    match i with
    | 0 => exact .inl rfl
    | 1 | 2 => trivial
  · decide +kernel

end Autr.Positions.RealizedPnl
