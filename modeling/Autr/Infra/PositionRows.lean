import Autr.Async.Protocol
import Autr.Infra.TradeDb

namespace Autr.Infra.PositionRows

open Autr.Async TradeTracker TradeDb

/-- What a call has read last and may still write, under the ids it writes them by. -/
inductive Read
  | nothing
  | single (id : String) (row : Position)
  | listed (rows : List Position)

def Read.rows : Read → List (String × Position)
  | .nothing => []
  | .single id row => if row.status = .open then [(id, row)] else []
  | .listed rows => rows.map (fun r => (r.id, r))

def reads : Protocol Op Op.Res String Read where
  start := .nothing
  next q _ op r := match op, r with
    | .selectPosition id, .ok (some row) => .single id row
    | .selectPosition _, .ok none => .nothing
    | .selectOpen _, .ok rows => .listed rows
    | _, _ => q
  allows q op := match op with
    | .updatePrice id pricing => ∃ row price, (id, row) ∈ q.rows ∧ pricing = row.pricing price
    | .updateClosed id closing => ∃ row price exit, (id, row) ∈ q.rows ∧ closing = row.closing price exit
    | _ => True
  final _ := True

theorem updates_follow (currentPrice : ℚ) {rows written : List Position} (h : ∀ r ∈ written, r ∈ rows)
    {q : Read} (hq : q = .listed rows) :
    (Prog.forEach (fun row => await (.updatePrice row.id (row.pricing currentPrice))) written).wp reads.spec
      (fun _ q => q = .listed rows) q := by
  induction written generalizing q with
  | nil => exact hq
  | cons r written ih =>
      change Prog.wp _ (await (.updatePrice r.id (r.pricing currentPrice)) >>= fun _ => _) _ _
      subst hq
      rw [Prog.wp_bind, Prog.wp_perform]
      refine ⟨⟨r, currentPrice, ?_, rfl⟩, fun t a => ?_⟩
      · exact List.mem_map.2 ⟨r, h r List.mem_cons_self, rfl⟩
      · cases a with
        | ok _ => exact ih (fun r' hr' => h r' (List.mem_cons_of_mem _ hr')) rfl
        | error _ => exact rfl

theorem updateSymbolPrices_follows (symbol : String) (currentPrice : ℚ) (q : Read) :
    reads.Follows q (updateSymbolPrices symbol currentPrice) := by
  rw [Protocol.Follows, updateSymbolPrices, Prog.wp_bind, Prog.wp_perform]
  refine ⟨trivial, fun t a => ?_⟩
  cases a with
  | error _ => trivial
  | ok rows =>
      rw [Prog.out_ok, Prog.wp_bind]
      refine Prog.wp_mono reads.spec_mono _ (fun r q' _ => ?_) _
        (updates_follow currentPrice (fun r hr => hr) rfl)
      cases r <;> trivial

theorem updateOpenPositionPrices_follows (priceUpdates : List (String × ℚ)) (q : Read) :
    reads.Follows q (updateOpenPositionPrices priceUpdates) := by
  induction priceUpdates generalizing q with
  | nil => trivial
  | cons update priceUpdates ih =>
      refine Prog.wp_bind_of reads.spec_mono (updateSymbolPrices_follows update.1 update.2 q) (fun _ q' _ => ?_)
      exact Prog.wp_bind_of reads.spec_mono (ih q') (fun _ _ _ => trivial)

theorem closePosition_follows (id : String) (closePrice : ℚ) (exitTradeId : Option ℕ) (q : Read) :
    reads.Follows q (closePosition id closePrice exitTradeId) := by
  rw [Protocol.Follows, closePosition, closeVia, Prog.wp_bind, TradeDb.getPositionById, Prog.wp_perform]
  refine ⟨trivial, fun t a => ?_⟩
  rcases a with _ | _ | row
  · trivial
  · trivial
  · rw [Prog.out_ok]
    by_cases hs : row.status = .open
    · simp only [hs, ne_eq, not_true_eq_false, if_false, Prog.wp_bind, Prog.wp_perform]
      refine ⟨⟨row, closePrice, exitTradeId, ?_, rfl⟩, fun t' a' => ?_⟩
      · simp [reads, Read.rows, hs]
      · cases a' with
        | error _ => trivial
        | ok _ => exact ⟨trivial, fun _ a => by cases a <;> trivial⟩
    · simp only [hs, ne_eq, not_false_eq_true, if_true]
      trivial

theorem call_follows (call : Call) : reads.Follows .nothing call.prog := by
  cases call with
  | create position =>
      refine Prog.wp_bind_of reads.spec_mono ?_ (fun _ _ _ => trivial)
      exact ⟨trivial, fun _ a => by cases a <;> trivial⟩
  | updatePrices priceUpdates =>
      exact Prog.wp_bind_of reads.spec_mono (updateOpenPositionPrices_follows priceUpdates _) (fun _ _ _ => trivial)
  | close id closePrice exitTradeId =>
      exact Prog.wp_bind_of reads.spec_mono (closePosition_follows id closePrice exitTradeId _) (fun _ _ _ => trivial)

variable {ι : Type} [DecidableEq ι]

abbrev Calls (ι : Type) := Conf ι Op Op.Res String World Unit

def begin (calls : ι → Call) (w : World) : Calls ι := start (fun i => (calls i).prog) w

def rowsRead (x : Calls ι) (i : ι) : List (String × Position) := (phase reads i x.trace).rows

def readsRow (id : String) : (op : Op) → Except String op.Res → Bool
  | .selectPosition _, .ok row => row.any (·.id = id)
  | .selectOpen _, .ok rows => rows.any (·.id = id)
  | _, _ => false

def closesRow (id : String) : Op → Bool
  | .updateClosed id' _ => id' = id
  | _ => false

def writtenRow : Op → Option String
  | .updatePrice id _ | .updateClosed id _ => some id
  | _ => none

/-- A call either reads rows of the table, which it then may write, or learns nothing. -/
theorem read_step (q : Read) (t : ℚ) (op : Op) (c : Env) (w : World) :
    ((exec op c w).2 = w ∧ ∀ id row, (id, row) ∈ (reads.next q t op (exec op c w).1).rows →
      row ∈ w.positions.rows ∧ row.id = id ∧ row.status = .open) ∨
    (reads.next q t op (exec op c w).1 = q ∧ ∀ id, readsRow id op (exec op c w).1 = false) := by
  cases op with
  | selectPosition id =>
      cases hf : c.fault with
      | none =>
          refine .inl ⟨by simp [exec, Fault.apply, hf], fun id' row hrow => ?_⟩
          simp only [exec, Fault.apply, hf] at hrow
          cases hp : TradeTracker.getPositionById id w.positions with
          | none => simp [reads, hp, Read.rows] at hrow
          | some r =>
              simp only [reads, hp, Read.rows] at hrow
              split at hrow
              · next hopen =>
                  obtain ⟨rfl, rfl⟩ := Prod.mk.inj (List.mem_singleton.1 hrow)
                  exact ⟨(Store.mem_of_lookup hp).1, (Store.mem_of_lookup hp).2, hopen⟩
              · simp at hrow
      | lost | late => exact .inr ⟨by simp [exec, Fault.apply, hf, reads],
          fun id => by simp [exec, Fault.apply, hf, readsRow]⟩
  | selectOpen symbol =>
      cases hf : c.fault with
      | none =>
          refine .inl ⟨by simp [exec, Fault.apply, hf], fun id' row hrow => ?_⟩
          simp only [exec, Fault.apply, hf, reads, Read.rows] at hrow
          obtain ⟨r, hr, he⟩ := List.mem_map.1 hrow
          obtain ⟨rfl, rfl⟩ := Prod.mk.inj he
          obtain ⟨hmem, hsel⟩ := List.mem_filter.1 hr
          exact ⟨hmem, rfl, (of_decide_eq_true hsel).1⟩
      | lost | late => exact .inr ⟨by simp [exec, Fault.apply, hf, reads],
          fun id => by simp [exec, Fault.apply, hf, readsRow]⟩
  | _ => exact .inr ⟨rfl, fun _ => rfl⟩

/-- The derived columns of a row agree with its price, and its times with its status. -/
structure Sound (r : Position) : Prop where
  times : r.closeTime = none ↔ r.status = .open
  pnl : r.unrealizedPnl =
    (if r.positionType = "short" then r.entryPrice - r.currentPrice else r.currentPrice - r.entryPrice) * r.quantity
  percent : r.unrealizedPnlPercent = if 0 < r.dollarAmount then r.unrealizedPnl / r.dollarAmount * 100 else 0

theorem calcPnl_eq (positionType : String) (entryPrice currentPrice quantity : ℚ) :
    calcPnl positionType entryPrice currentPrice quantity =
      (if positionType = "short" then entryPrice - currentPrice else currentPrice - entryPrice) * quantity := by
  unfold calcPnl
  split <;> rfl

theorem sound_row (p : NewPosition) (id : String) (t : ℚ) : Sound (p.row id t) :=
  ⟨by simp [NewPosition.row], calcPnl_eq _ _ _ _, rfl⟩

theorem Sound.reprice {r : Position} (h : Sound r) (price : ℚ) : Sound (r.reprice (r.pricing price)) :=
  ⟨h.times, calcPnl_eq _ _ _ _, rfl⟩

theorem sound_close (r : Position) (price : ℚ) (exit : Option ℕ) (t : ℚ) :
    Sound (r.close (r.closing price exit) t) :=
  ⟨by simp [Position.close], calcPnl_eq _ _ _ _, rfl⟩

/-- Every row is sound, and what the calls have read agrees with the table in the columns
that a row keeps. -/
structure Consistent (x : Calls ι) : Prop where
  rows : ∀ r ∈ x.world.positions.rows, Sound r
  agree : ∀ i id row, (id, row) ∈ rowsRead x i →
    ∃ r ∈ x.world.positions.rows, r.id = id ∧ asCreated r = asCreated row
  disciplined : Disciplined (fun _ => reads) x

variable {x : Calls ι}

theorem Consistent.written (h : Consistent x) {i : ι} {r : Position} (hr : r ∈ x.world.positions.rows)
    {row : Position} (hrow : (r.id, row) ∈ rowsRead x i) : asCreated row = asCreated r := by
  obtain ⟨r', hr', hid, hterms⟩ := h.agree i r.id row hrow
  rw [← hterms, row_unique hr' hr hid]

theorem consistent_step (h : Consistent x) (i : ι) (c : Env) : Consistent (step handler x (i, c)) := by
  have hd := disciplined_step (fun _ => reads) handler h.disciplined i c
  rcases step_cases handler x i c with ⟨_, hs⟩ | ⟨op, k, hp, hs⟩
  · rw [hs]; exact h
  rw [hs] at hd ⊢
  have hrows := exec_rows op c x.world
  have hallows := h.disciplined.allows hp
  refine ⟨fun r' hr' => ?_, fun j id row hrow => ?_, hd⟩
  · rcases hrows.origin hr' with ⟨p, _, _, rfl⟩ | ⟨r, hr, _, rfl | ⟨pricing, rfl, rfl⟩ | ⟨closing, rfl, rfl⟩⟩
    · exact sound_row p c.uuid c.utc
    · exact h.rows _ hr
    · obtain ⟨row, price, hread, rfl⟩ := hallows
      rw [pricing_congr (h.written hr hread)]
      exact (h.rows r hr).reprice price
    · obtain ⟨row, price, exit, hread, rfl⟩ := hallows
      rw [closing_congr (h.written hr hread)]
      exact sound_close r price exit c.utc
  · have hold : (id, row) ∈ rowsRead x j → ∃ r ∈ (exec op c x.world).2.positions.rows, r.id = id ∧
        asCreated r = asCreated row := by
      intro hread
      obtain ⟨r, hr, hid, hterms⟩ := h.agree j id row hread
      obtain ⟨r', hr', hterms', _⟩ := hrows.kept hr
      exact ⟨r', hr', (congrArg Prod.fst hterms').trans hid, hterms'.trans hterms⟩
    by_cases hj : j = i
    · subst hj
      rw [rowsRead, phase_answered] at hrow
      rcases read_step (phase reads j x.trace) (handler.clock (exec op c x.world).2) op c x.world with
        ⟨hw, hread⟩ | ⟨hq, _⟩
      · obtain ⟨hmem, hid, _⟩ := hread id row hrow
        exact ⟨row, by rwa [handler_exec, hw], hid, rfl⟩
      · exact hold (by rwa [handler_exec, hq] at hrow)
    · rw [rowsRead, phase_answered_ne _ _ hj] at hrow
      exact hold hrow

/-- The step by which a row has entered the table, under the id and at the time that were
drawn for it. -/
def CreatedBy (x : Calls ι) (i : ι) (c : Env) (r : Position) : Prop :=
  ∃ p, (x.task i).next = some (.insertPosition p) ∧
    (step handler x (i, c)).world.positions.rows = x.world.positions.rows ++ [p.row c.uuid c.utc] ∧
    asCreated r = (c.uuid, p, c.utc)

/-- In every run every row is sound and has the columns it was created with, by a call of
the run or before it. -/
theorem rows_consistent (calls : ι → Call) (w : World) (hw : ∀ r ∈ w.positions.rows, Sound r)
    (ls : List (ι × Env)) (r : Position) (hr : r ∈ (runs handler (begin calls w) ls).world.positions.rows) :
    Sound r ∧ ((∃ r₀ ∈ w.positions.rows, asCreated r = asCreated r₀) ∨
      ∃ before i c after, ls = before ++ (i, c) :: after ∧
        CreatedBy (runs handler (begin calls w) before) i c r) := by
  have hx : Consistent (begin calls w) :=
    ⟨hw, fun _ _ _ h => by simp [rowsRead, begin, start, phase, reads, Read.rows] at h,
      disciplined_start (P := fun _ => reads) (fun i => call_follows (calls i)) w⟩
  have hall := run_invariant (fun x (l : ι × Env) h => consistent_step (x := x) h l.1 l.2) hx ls
  refine ⟨hall.rows r hr, ?_⟩
  clear hall
  induction ls using List.reverseRecOn generalizing r with
  | nil => exact .inl ⟨r, hr, rfl⟩
  | append_singleton ls l ih =>
      obtain ⟨i, c⟩ := l
      rw [runs_concat] at hr
      rcases step_cases handler (runs handler (begin calls w) ls) i c with ⟨_, hs⟩ | ⟨op, k, hp, hs⟩
      · rw [hs] at hr
        rcases ih r hr with hold | ⟨before, j, d, after, rfl, hc⟩
        · exact .inl hold
        · exact .inr ⟨before, j, d, after ++ [(i, c)], by simp, hc⟩
      · rw [hs] at hr
        rcases (exec_rows op c _).origin hr with ⟨p, rfl, hrows, rfl⟩ | ⟨r', hr', hterms, _⟩
        · exact .inr ⟨ls, i, c, [], rfl, p, by rw [hp]; rfl, by rw [hs]; exact hrows, rfl⟩
        · rcases ih r' hr' with ⟨r₀, hr₀, he⟩ | ⟨before, j, d, after, rfl, p', hn, hi, he⟩
          · exact .inl ⟨r₀, hr₀, hterms.trans he⟩
          · exact .inr ⟨before, j, d, after ++ [(i, c)], by simp, p', hn, hi, hterms.trans he⟩

def soldBitcoin : NewPosition := ⟨"BTCUSDT", "short", 30000, 1 / 2, 15000, some 1⟩

def answer (uuid : String) (utc : ℚ) : Env := ⟨.none, uuid, utc, 0, .rejected none⟩

def noRows : World := ⟨[], 0, Store.Table.empty, []⟩

def soldPricedClosed : ℕ → Call
  | 0 => .create soldBitcoin
  | 1 => .updatePrices [("BTCUSDT", 31000)]
  | _ => .close "a" 29000 (some 2)

/-- The row is made, read to be priced and read to be closed, and then priced and closed. -/
def soldRun : List (ℕ × Env) := [0, 1, 2, 1, 2].map (fun i => (i, answer "a" 1))

def soldRow : Position :=
  ((soldBitcoin.row "a" 1).reprice ((soldBitcoin.row "a" 1).pricing 31000)).close
    ((soldBitcoin.row "a" 1).closing 29000 (some 2)) 1

theorem rows_consistent_soldBitcoin :
    Sound soldRow ∧ ((∃ r₀ ∈ noRows.positions.rows, asCreated soldRow = asCreated r₀) ∨
      ∃ before i c after, soldRun = before ++ (i, c) :: after ∧
        CreatedBy (runs handler (begin soldPricedClosed noRows) before) i c soldRow) :=
  rows_consistent soldPricedClosed noRows (by simp [noRows, Store.Table.empty]) soldRun _ (by decide +kernel)

/-- Whether a closing of the row has been run since the call last read it. -/
def closedSinceRead (i : ι) (id : String) : List (Event ι Op Op.Res String Unit) → Bool
  | [] => false
  | e :: trace =>
      if e.task = i ∧ readsRow id e.op e.result = true then false
      else closesRow id e.op || closedSinceRead i id trace

/-- No call writes a row that has been closed since the call read it. -/
def Unstraddled (x : Calls ι) (i : ι) (_ : Env) : Prop :=
  ∀ op ∈ (x.task i).next, ∀ id ∈ writtenRow op, closedSinceRead i id x.trace = false

instance (x : Calls ι) (i : ι) (c : Env) : Decidable (Unstraddled x i c) :=
  inferInstanceAs (Decidable (∀ op ∈ (x.task i).next, ∀ id ∈ writtenRow op, closedSinceRead i id x.trace = false))

/-- A row that a call has read and may write is open until a closing of it is run. -/
structure Fresh (x : Calls ι) : Prop where
  rows : ∀ i id row, (id, row) ∈ rowsRead x i → closedSinceRead i id x.trace = false →
    ∃ r ∈ x.world.positions.rows, r.id = id ∧ r.status = .open
  disciplined : Disciplined (fun _ => reads) x

theorem fresh_step (h : Fresh x) (i : ι) (c : Env) : Fresh (step handler x (i, c)) := by
  have hd := disciplined_step (fun _ => reads) handler h.disciplined i c
  rcases step_cases handler x i c with ⟨_, hs⟩ | ⟨op, k, hp, hs⟩
  · rw [hs]; exact h
  rw [hs] at hd ⊢
  refine ⟨fun j id row hrow hno => ?_, hd⟩
  have hold : (id, row) ∈ rowsRead x j → ¬ (i = j ∧ readsRow id op (exec op c x.world).1 = true) →
      ∃ r ∈ (exec op c x.world).2.positions.rows, r.id = id ∧ r.status = .open := by
    intro hread hnot
    rw [closedSinceRead, handler_exec, if_neg hnot, Bool.or_eq_false_iff] at hno
    obtain ⟨r, hr, hid, hopen⟩ := h.rows j id row hread hno.2
    obtain ⟨r', hr', hterms, hform⟩ := (exec_rows op c x.world).kept hr
    refine ⟨r', hr', (congrArg Prod.fst hterms).trans hid, ?_⟩
    rcases hform with rfl | ⟨pricing, _, rfl⟩ | ⟨closing, hop, _⟩
    · exact hopen
    · exact hopen
    · have hcloses : closesRow id op = false := hno.1
      rw [hop, closesRow, hid] at hcloses
      exact absurd rfl (of_decide_eq_false hcloses)
  by_cases hj : j = i
  · subst hj
    rw [rowsRead, phase_answered] at hrow
    rcases read_step (phase reads j x.trace) (handler.clock (exec op c x.world).2) op c x.world with
      ⟨hw, hread⟩ | ⟨hq, hnone⟩
    · obtain ⟨hmem, hid, hopen⟩ := hread id row hrow
      exact ⟨row, by rwa [handler_exec, hw], hid, hopen⟩
    · refine hold (by rwa [handler_exec, hq] at hrow) (fun hr => ?_)
      rw [hnone id] at hr
      cases hr.2
  · rw [rowsRead, phase_answered_ne _ _ hj] at hrow
    exact hold hrow (fun hr => hj hr.1.symm)

theorem closed_kept (h : Fresh x) {i : ι} {c : Env} (hc : Unstraddled x i c) {r : Position}
    (hr : r ∈ x.world.positions.rows) (hclosed : r.status = .closed) :
    r ∈ (step handler x (i, c)).world.positions.rows := by
  rcases step_cases handler x i c with ⟨_, hs⟩ | ⟨op, k, hp, hs⟩
  · rw [hs]; exact hr
  rw [hs]
  have hallows := h.disciplined.allows hp
  have hopen : ∀ row, (r.id, row) ∈ rowsRead x i → writtenRow op = some r.id → False := by
    intro row hread hwrite
    obtain ⟨r', hr', hid, ho⟩ := h.rows i r.id row hread (hc op (by rw [hp]; rfl) r.id hwrite)
    rw [row_unique hr' hr hid, hclosed] at ho
    cases ho
  obtain ⟨r', hr', _, rfl | ⟨pricing, rfl, _⟩ | ⟨closing, rfl, _⟩⟩ := (exec_rows op c x.world).kept hr
  · exact hr'
  · obtain ⟨row, _, hread, _⟩ := hallows
    exact (hopen row hread rfl).elim
  · obtain ⟨row, _, _, hread, _⟩ := hallows
    exact (hopen row hread rfl).elim

/-- Where no call writes a row that has been closed since the call read it, a closed row
keeps all its columns to the end of the run. -/
theorem closed_rows_final (calls : ι → Call) (w : World) (before after : List (ι × Env))
    (h : Along handler Unstraddled (begin calls w) (before ++ after)) (r : Position)
    (hr : r ∈ (runs handler (begin calls w) before).world.positions.rows) (hclosed : r.status = .closed) :
    r ∈ (runs handler (begin calls w) (before ++ after)).world.positions.rows := by
  have hfresh : Fresh (begin calls w) :=
    ⟨fun _ _ _ h => by simp [rowsRead, begin, start, phase, reads, Read.rows] at h,
      disciplined_start (P := fun _ => reads) (fun i => call_follows (calls i)) w⟩
  have hmid := run_invariant (fun x (l : ι × Env) h => fresh_step (x := x) h l.1 l.2) hfresh before
  have hafter := (alongRun_append.1 h).2
  rw [runs_append]
  change Fresh (runs handler (begin calls w) before) at hmid
  change AlongRun _ _ (runs handler (begin calls w) before) after at hafter
  generalize runs handler (begin calls w) before = x at hr hmid hafter ⊢
  exact (alwaysRun_of_step (P := fun x => Fresh x ∧ r ∈ x.world.positions.rows)
    (fun x l hx hl => ⟨fresh_step hx.1 l.1 l.2, closed_kept hx.1 hl hx.2 hclosed⟩) ⟨hmid, hr⟩ hafter).last.2

def oneRow : World := ⟨[], 1, ⟨[soldBitcoin.row "a" 1], by simp⟩, []⟩

def priceAndClose : Bool → Call
  | false => .updatePrices [("BTCUSDT", 31000)]
  | true => .close "a" 29000 (some 2)

def statements (is : List Bool) : List (Bool × Env) := is.map (fun i => (i, answer "" 5))

theorem closed_rows_final_priceAndClose :
    (soldBitcoin.row "a" 1).close ((soldBitcoin.row "a" 1).closing 29000 (some 2)) 5 ∈
      (runs handler (begin priceAndClose oneRow) (statements [true, true] ++ statements [false])).world.positions.rows :=
  closed_rows_final priceAndClose oneRow (statements [true, true]) (statements [false]) (by decide +kernel) _
    (by decide +kernel) rfl

/-- The prices are read, the row is closed, and then the prices are written. -/
theorem closed_row_repriced : ¬ ∀ (calls : Bool → Call) (w : World) (before after : List (Bool × Env)),
    ∀ r ∈ (runs handler (begin calls w) before).world.positions.rows, r.status = .closed →
      r ∈ (runs handler (begin calls w) (before ++ after)).world.positions.rows := by
  intro h
  have hrow := h priceAndClose oneRow (statements [false, true, true]) (statements [false])
    ((soldBitcoin.row "a" 1).close ((soldBitcoin.row "a" 1).closing 29000 (some 2)) 5) (by decide +kernel) rfl
  revert hrow
  decide +kernel

end Autr.Infra.PositionRows
