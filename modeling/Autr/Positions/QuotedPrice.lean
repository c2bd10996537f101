import Autr.Positions.Sweep

namespace Autr.Positions.QuotedPrice

open Autr.Async Autr.Infra TradeTracker TradeDb PositionService AutoClose PriceUpdates Sweep

structure Request where
  client : Client
  order : SetOrder
  paperTrading : Bool
  now : ℚ
  symbol : String
  criteria : Criteria

def Request.prog (r : Request) : Route (List (Result × CloseReason)) :=
  autoClosePositions r.client r.order r.paperTrading r.now r.symbol r.criteria

def Request.run (tape : ℕ → Env) (r : Request) (w : World) :
    Except String (List (Result × CloseReason)) × State :=
  eval recorder (answer tape) r.prog ((w, []), 0)

def quoteOf (symbol : String) : Entry → Option ℚ
  | ⟨.desk (.getCurrentPrice s), .ok price⟩ => if s = symbol ∧ price ≠ 0 then some price else none
  | _ => none

/-- The prices of a symbol that the exchange has quoted during the request. -/
def Request.quotes (tape : ℕ → Env) (r : Request) (w : World) (symbol : String) : List ℚ :=
  (r.run tape w).2.1.2.reverse.filterMap (quoteOf symbol)

def MeetsAt (r : Request) (p : Position) (price : ℚ) : Prop :=
  r.criteria.Met (p.pricing price).unrealizedPnlPercent (calculateDaysOpen r.now p.openTime)

instance (r : Request) (p : Position) : DecidablePred (MeetsAt r p) := fun price =>
  inferInstanceAs (Decidable
    (r.criteria.Met (p.pricing price).unrealizedPnlPercent (calculateDaysOpen r.now p.openTime)))

/-- A criterion holds at a quoted price or, when none was quoted, at the stored one. -/
def Justified (r : Request) (quotes : List ℚ) (p : Position) : Prop :=
  (∃ price ∈ quotes, MeetsAt r p price) ∨ (quotes = [] ∧ MeetsAt r p p.currentPrice)

instance (r : Request) (quotes : List ℚ) (p : Position) : Decidable (Justified r quotes p) :=
  inferInstanceAs (Decidable ((∃ price ∈ quotes, MeetsAt r p price) ∨ (quotes = [] ∧ MeetsAt r p p.currentPrice)))

def ClosesOnQuotes (tape : ℕ → Env) (r : Request) (w : World) : Prop :=
  ∀ p ∈ w.positions.rows, p.status = .open → IsClosed p.id (r.run tape w).2.1.1.positions →
    Justified r (r.quotes tape w p.symbol) p

section Request

variable (tape : ℕ → Env) (r : Request) (w : World)

def Request.listed : List Position := TradeTracker.getPositions (some .open) r.symbol openLimit w.positions

def Request.symbols : List String := r.order.toList ((r.listed w).map Position.symbol)

def Request.firstPrice (symbol : String) : ℚ := (tape ((r.symbols w).idxOf symbol)).price

/-- The rows that the request tries to close, each with the number of its first price read. -/
def Request.attempted : List (Position × ℕ) :=
  numbered (readsPerClosing r.paperTrading) (r.symbols w).length
    ((r.listed w).filter (fun p => MeetsAt r p (r.firstPrice tape w p.symbol)))

def Request.closingReads : List (String × ℚ) :=
  (r.attempted tape w).flatMap (fun a => Sweep.closingReads r.paperTrading tape a.1 a.2)

def quoted (symbol : String) (reads : List (String × ℚ)) : List ℚ :=
  (reads.filter (fun x => x.1 = symbol ∧ x.2 ≠ 0)).map Prod.snd

/-- A row that is closed although the first read of its price has failed meets a criterion
at a price that a closing has quoted, or at the stored one when none has. -/
def FailedReadsHarmless : Prop :=
  ∀ a ∈ r.attempted tape w, r.firstPrice tape w a.1.symbol = 0 → GoesThrough r.client r.paperTrading tape a.1 a.2 →
    Justified r (quoted a.1.symbol (r.closingReads tape w)) a.1

/-- All reads of the request, oldest first. -/
def Request.reads : List (String × ℚ) := readFrom tape 0 (r.symbols w) ++ r.closingReads tape w

theorem symbols_nodup : (r.symbols w).Nodup :=
  (r.order.perm _).nodup_iff.2 (List.nodup_dedup _)

theorem readFrom_keys (n : ℕ) (symbols : List String) : (readFrom tape n symbols).map Prod.fst = symbols := by
  rw [readFrom, List.map_map]
  exact List.zipIdx_map_fst n symbols

variable {r w}

theorem firstPrice_mem {symbol : String} (h : symbol ∈ r.symbols w) :
    (symbol, r.firstPrice tape w symbol) ∈ readFrom tape 0 (r.symbols w) := by
  refine List.mem_map.2 ⟨(symbol, (r.symbols w).idxOf symbol), ?_, rfl⟩
  rw [List.mem_zipIdx_iff_getElem?]
  exact List.getElem?_idxOf h

variable {tape}

theorem mem_symbols {p : Position} (hp : p ∈ r.listed w) : p.symbol ∈ r.symbols w :=
  (r.order.perm _).mem_iff.2 (List.mem_dedup.2 (List.mem_map_of_mem hp))

theorem judged_listed {p : Position} (hp : p ∈ r.listed w) :
    judged (readFrom tape 0 (r.symbols w)) p = p.reprice (p.pricing (r.firstPrice tape w p.symbol)) := by
  refine judged_of_mem ?_ (mem_getPositions_open r.symbol hp).2 (firstPrice_mem tape (mem_symbols hp))
  rw [readFrom_keys]
  exact symbols_nodup r w

/-- The sweep meets the rows at their first prices. -/
theorem attempts_judged (tape : ℕ → Env) (r : Request) (w : World) :
    attempts r.criteria (readsPerClosing r.paperTrading) (r.symbols w).length
        (((r.listed w).map (judged (readFrom tape 0 (r.symbols w)))).map (withDerivedFields r.now)) =
      (r.attempted tape w).map (fun a => (judged (readFrom tape 0 (r.symbols w)) a.1, a.2)) := by
  have hmet : ∀ p ∈ r.listed w, (decide (r.criteria.Met
      (judged (readFrom tape 0 (r.symbols w)) p).unrealizedPnlPercent
      (withDerivedFields r.now (judged (readFrom tape 0 (r.symbols w)) p)).daysOpen)) =
        decide (MeetsAt r p (r.firstPrice tape w p.symbol)) := by
    intro p hp
    rw [judged_listed hp]
    rfl
  rw [attempts, Request.attempted, List.filter_map, List.filter_map, List.map_map, List.map_map, ← numbered_map,
    ← List.filter_congr hmet]
  rfl

theorem run_swept (tape : ℕ → Env) (r : Request) (w : World) :
    ∃ results w' n', r.run tape w = (.ok results, ((w', ((r.reads tape w).map entry).reverse), n')) ∧
      ∀ id, IsClosed id w'.positions ↔ IsClosed id w.positions ∨
        ∃ a ∈ r.attempted tape w, a.1.id = id ∧ GoesThrough r.client r.paperTrading tape a.1 a.2 := by
  let prices := readFrom tape 0 (r.symbols w)
  let w₁ : World := { w with positions := priceAll prices w.positions }
  let log := (prices.map entry).reverse
  let ps := ((r.listed w).map (judged prices)).map (withDerivedFields r.now)
  have hid := judged_kept (g := Position.id) (fun _ _ => rfl) prices
  have hopen : ∀ p ∈ ps, p.position ∈ w₁.positions.rows ∧ p.position.status = .open := by
    intro p hp
    obtain ⟨q, hq, rfl⟩ := List.mem_map.1 hp
    rw [Request.listed, ← getPositions_priceAll] at hq
    exact mem_getPositions_open r.symbol hq
  have hnodup : (ps.map (fun p => p.position.id)).Nodup := by
    have hids : ps.map (fun p => p.position.id) = (r.listed w).map Position.id := by
      rw [List.map_map, List.map_map]
      exact List.map_congr_left (fun p _ => hid p)
    rw [hids]
    exact getPositions_open_nodup r.symbol openLimit w.positions
  obtain ⟨results, w', log', n', hsweep, hswept⟩ := eval_autoCloseEach r.client tape w₁ log (r.symbols w).length
    r.paperTrading r.criteria hopen hnodup
  obtain ⟨hreads, hclosed⟩ := (attempts_judged tape r w ▸ hswept).of_judged
  refine ⟨results, w', n', ?_, fun id => ?_⟩
  · obtain ⟨updated, hupdated⟩ := eval_updatePositionPrices r.client tape w log (r.symbols w).length prices
    have hsymbols : r.order.toList (((r.listed w).map (withDerivedFields r.now)).map (fun p => p.position.symbol)) =
        r.symbols w := by
      rw [List.map_map]
      rfl
    have hprices := eval_currentPrices tape w [] 0 (r.symbols w)
    rw [List.append_nil, Nat.zero_add] at hprices
    have hps : ps = (TradeTracker.getPositions (some .open) r.symbol openLimit w₁.positions).map
        (withDerivedFields r.now) := by
      rw [getPositions_priceAll]
      rfl
    have hlog : log' = ((r.reads tape w).map entry).reverse := by
      rw [hreads, Request.reads, List.map_append, List.reverse_append]
      rfl
    rw [Request.run, Request.prog, autoClosePositions, eval_bind, eval_getOpenPositions]
    dsimp only
    rw [← Request.listed, hsymbols, eval_bind, hprices]
    dsimp only
    rw [eval_bind, hupdated]
    dsimp only
    rw [autoClosePositionsByCriteria, eval_bind, eval_getOpenPositions]
    dsimp only
    rw [← hps, hsweep, hlog]
  · rw [hclosed, isClosed_priceAll]

theorem filterMap_entry (symbol : String) (reads : List (String × ℚ)) :
    (reads.map entry).filterMap (quoteOf symbol) = quoted symbol reads := by
  rw [List.filterMap_map, quoted]
  induction reads with
  | nil => rfl
  | cons x reads ih => by_cases h : x.1 = symbol ∧ x.2 ≠ 0 <;> simp_all [entry, quoteOf]

theorem quotes_eq (tape : ℕ → Env) (r : Request) (w : World) (symbol : String) :
    r.quotes tape w symbol = quoted symbol (r.reads tape w) := by
  obtain ⟨results, w', n', hrun, _⟩ := run_swept tape r w
  rw [Request.quotes, hrun, List.reverse_reverse, filterMap_entry]

theorem firstPrice_quoted {symbol : String} (h : symbol ∈ r.symbols w) (hfirst : r.firstPrice tape w symbol ≠ 0) :
    r.firstPrice tape w symbol ∈ r.quotes tape w symbol := by
  rw [quotes_eq]
  refine List.mem_map.2 ⟨_, List.mem_filter.2 ⟨List.mem_append_left _ (firstPrice_mem tape h), ?_⟩, rfl⟩
  exact decide_eq_true ⟨rfl, hfirst⟩

/-- Where the first read has failed, only the closings can have quoted a price. -/
theorem quotes_of_failed {symbol : String} (hfirst : r.firstPrice tape w symbol = 0) :
    r.quotes tape w symbol = quoted symbol (r.closingReads tape w) := by
  have hnone : (readFrom tape 0 (r.symbols w)).filter (fun x => x.1 = symbol ∧ x.2 ≠ 0) = [] := by
    refine List.filter_eq_nil_iff.2 (fun x hx hquoted => ?_)
    obtain ⟨rfl, hprice⟩ := of_decide_eq_true hquoted
    have hkeys : ((readFrom tape 0 (r.symbols w)).map Prod.fst).Nodup := by
      rw [readFrom_keys]
      exact symbols_nodup r w
    have hsymbol : x.1 ∈ r.symbols w := by
      rw [← readFrom_keys tape 0 (r.symbols w)]
      exact List.mem_map_of_mem hx
    have hx' := List.inj_on_of_nodup_map hkeys hx (firstPrice_mem tape hsymbol) rfl
    rw [hx'] at hprice
    exact hprice hfirst
  rw [quotes_eq, Request.reads, quoted, List.filter_append, hnone, List.nil_append, quoted]

theorem mem_listed_of_attempted {a : Position × ℕ} (ha : a ∈ r.attempted tape w) :
    a.1 ∈ r.listed w ∧ MeetsAt r a.1 (r.firstPrice tape w a.1.symbol) := by
  have hmem := List.mem_map_of_mem (f := Prod.fst) ha
  rw [Request.attempted, numbered_map_fst] at hmem
  obtain ⟨hlisted, hmeets⟩ := List.mem_filter.1 hmem
  exact ⟨hlisted, of_decide_eq_true hmeets⟩

end Request

/-- A request closes rows on quoted prices, or on stored ones for want of a quote, exactly
when the rows it closes after a failed read of their price are such rows all the same. -/
theorem closesOnQuotes_iff (tape : ℕ → Env) (r : Request) (w : World) :
    ClosesOnQuotes tape r w ↔ FailedReadsHarmless tape r w := by
  obtain ⟨results, w', n', hrun, hclosed⟩ := run_swept tape r w
  rw [ClosesOnQuotes, hrun]
  constructor
  · intro h a ha hfirst hthrough
    obtain ⟨hmem, hopen⟩ := mem_getPositions_open r.symbol (mem_listed_of_attempted ha).1
    rw [← quotes_of_failed hfirst]
    exact h a.1 hmem hopen ((hclosed a.1.id).2 (.inr ⟨a, ha, rfl, hthrough⟩))
  · intro h p hp hopen hpclosed
    rcases (hclosed p.id).1 hpclosed with ⟨q, hq, hid, hqclosed⟩ | ⟨a, ha, hid, hthrough⟩
    · obtain rfl : q = p := row_unique hq hp hid
      rw [hopen] at hqclosed
      cases hqclosed
    · obtain ⟨hlisted, hmeets⟩ := mem_listed_of_attempted ha
      obtain rfl : a.1 = p := row_unique (mem_getPositions_open r.symbol hlisted).1 hp hid
      by_cases hfirst : r.firstPrice tape w a.1.symbol = 0
      · rw [quotes_of_failed hfirst]
        exact h a ha hfirst hthrough
      · exact .inl ⟨_, firstPrice_quoted (mem_symbols hlisted) hfirst, hmeets⟩

def heldRow : Position := (NewPosition.mk "BTCUSDT" "long" 30000 1 30000 none).row "a" 0

def oneRow : World := ⟨[], 0, ⟨[heldRow], by decide⟩, []⟩

def stopLossRequest : Request where
  client := ⟨⟨false, 30, 5, 80⟩, fun _ => ""⟩
  order := ⟨List.dedup, fun _ => .refl _⟩
  paperTrading := true
  now := 86400
  symbol := ""
  criteria := ⟨some 5, none, none⟩

/-- The first read of the price fails, and the next one succeeds. -/
def lateQuote (n : ℕ) : Env := ⟨.none, "", 1, if n = 0 then 0 else 30000, .rejected none⟩

theorem closed_at_zero : ¬ ∀ (tape : ℕ → Env) (r : Request) (w : World), ClosesOnQuotes tape r w := by
  intro h
  have hjustified := h lateQuote stopLossRequest oneRow heldRow (List.mem_singleton_self _) rfl (by decide +kernel)
  revert hjustified
  decide +kernel

end Autr.Positions.QuotedPrice
