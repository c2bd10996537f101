import Autr.Services.NoticeFailure
import Autr.Services.RowExclusion

namespace Autr.Services.SoldQuantity

open Autr.Async Autr.Infra Bybit TradeTracker Executor Evaluate Reconcile

abbrev State := World × List (Σ op : Op, Except Exc op.Res)

abbrev recorder (S : Setting) : Handler Op Op.Res Exc State Env := (handler S).logged Op.isSpotOrder

def Statement : Op → Bool
  | .insertTrade _ | .insertPosition _ | .selectPositions _ _ _ | .selectPosition _ | .updateClosed _ _ => true
  | _ => false

/-- The database does not fail; everything else may. -/
def StatementHolds (op : Op) (c : Env) (_ : State) : Prop := Statement op = true → c.fault = .none

instance (op : Op) (c : Env) (s : State) : Decidable (StatementHolds op c s) :=
  inferInstanceAs (Decidable (Statement op = true → c.fault = .none))

def reported : (Σ op : Op, Except Exc op.Res) → Option ℚ
  | ⟨.submitOrder _ _ _, .ok (.success _ filled)⟩ => some filled
  | _ => none

def succeeds : Except Exc Outcome → Bool
  | .ok (.success _ _ _ _) => true
  | _ => false

structure Sell where
  symbol : String
  strategy : String
  sigId : String
  closePrice : ℚ
  qty : Option ℚ

def Sell.prog (a : Sell) : Svc Outcome := executeSell a.symbol a.strategy a.sigId a.closePrice a.qty

/-- The call from its first await to its last, each await answered in turn. -/
def Sell.run (S : Setting) (f : Op → ℕ → Env) (a : Sell) (w : World) : Except Exc Outcome × State × ℕ :=
  eval ((recorder S).taped (fun _ => true)) f a.prog ((w, []), 0)

def Sell.Stored (S : Setting) (f : Op → ℕ → Env) (a : Sell) (w : World) : Prop :=
  a.prog.Played (recorder S) (fun _ => true) f StatementHolds ((w, []), 0)

instance (S : Setting) (f : Op → ℕ → Env) (a : Sell) (w : World) : Decidable (a.Stored S f w) :=
  inferInstanceAs (Decidable (a.prog.Answered ((recorder S).taped (fun _ => true)) f
    (fun op g s => StatementHolds op (g s.2) s.1) ((w, []), 0)))

/-- A sell that succeeds, of which the exchange reports no more filled than the rows hold. -/
structure Sold (S : Setting) (f : Op → ℕ → Env) (a : Sell) (w : World) (filledQty : ℚ) : Prop where
  stored : a.Stored S f w
  success : succeeds (a.run S f w).1 = true
  reports : (a.run S f w).2.1.2.filterMap reported = [filledQty]
  pos : 0 < filledQty
  within : filledQty ≤ openQty a.symbol w.positions

def FallsBy (S : Setting) (f : Op → ℕ → Env) (a : Sell) (w : World) (filledQty : ℚ) : Prop :=
  openQty a.symbol (a.run S f w).2.1.1.positions = openQty a.symbol w.positions - filledQty

section Closing

variable {symbol : String} {T T' : Positions}

theorem listed_perm (symbol : String) (T : Positions) :
    let L := getPositions (some .open) symbol defaultLimit T
    ((openRows symbol T).filter (fun r => r.id ∈ L.map Position.id)).Perm L := by
  intro L
  have hrows : (openRows symbol T).Nodup := T.nodup.of_map.filter _
  have hlisted := (NoticeFailure.listed_open symbol T).nodup.of_map
  refine (List.perm_ext_iff_of_nodup (hrows.filter _) hlisted).2 (fun r => ?_)
  rw [List.mem_filter, decide_eq_true_iff, List.mem_map]
  constructor
  · rintro ⟨hr, q, hq, hid⟩
    have hqr := List.inj_on_of_nodup_map T.nodup (List.mem_of_mem_filter (mem_openRows_of_listed hq))
      (List.mem_of_mem_filter hr) hid
    exact hqr ▸ hq
  · exact fun hr => ⟨mem_openRows_of_listed hr, r, hr, rfl⟩

theorem openQty_of_closed
    (hc : Closed symbol ((getPositions (some .open) symbol defaultLimit T).map Position.id) T T') :
    openQty symbol T' = openQty symbol T - listedQty symbol T := by
  have hsum := (((listed_perm symbol T).symm.append_right _).trans
    (List.filter_append_perm _ (openRows symbol T))).map Position.quantity
  have hqty := hsum.sum_eq
  rw [List.map_append, List.sum_append] at hqty
  rw [openQty, openQty, listedQty, localQty, localQty, localQty, hc.rows]
  simp only [decide_not] at hqty ⊢
  linarith

end Closing

section Calls

variable {S : Setting} {symbol : String} {s : State}

theorem wp_kept {α : Type} {p : Svc α} (hp : p.Uses (fun op => RowExclusion.writesRows op = false))
    {Q : Except Exc α → State → Prop} (hQ : ∀ r s', s'.1.positions = s.1.positions → Q r s') :
    p.wp ((recorder S).spec StatementHolds) Q s := by
  have hkept : p.wp ((recorder S).spec StatementHolds) (fun _ s' => s'.1.positions = s.1.positions) s :=
    Prog.wp_of_uses (I := fun s' => s'.1.positions = s.1.positions) (Handler.spec_mono _ _)
      (fun op s' hop hs' c _ => (RowExclusion.exec_positions hop).trans hs') p hp s rfl
  exact Prog.wp_mono (Handler.spec_mono _ _) p hQ s hkept

theorem wp_openPositionsOf {Q : Except Exc (List Position) → State → Prop}
    (hQ : ∀ s', s'.1.positions = s.1.positions →
      Q (.ok (getPositions (some .open) symbol defaultLimit s.1.positions)) s') :
    (openPositionsOf symbol).wp ((recorder S).spec StatementHolds) Q s := by
  obtain ⟨w, log⟩ := s
  rw [openPositionsOf, Prog.wp_perform]
  intro c hc
  have hf : c.fault = .none := hc rfl
  simp only [logged_exec, handler_exec, exec, hf, Fault.apply]
  exact hQ _ rfl

theorem wp_selectPosition {id : String} {Q : Except Exc (Option Position) → State → Prop}
    (hQ : ∀ s', s'.1.positions = s.1.positions → Q (.ok (getPositionById id s.1.positions)) s') :
    (await (.selectPosition id)).wp ((recorder S).spec StatementHolds) Q s := by
  obtain ⟨w, log⟩ := s
  rw [Prog.wp_perform]
  intro c hc
  have hf : c.fault = .none := hc rfl
  simp only [logged_exec, handler_exec, exec, hf, Fault.apply]
  exact hQ _ rfl

theorem wp_updateClosed {id : String} {closing : Closing} {Q : Except Exc Unit → State → Prop}
    (hQ : ∀ s' t, s'.1.positions = updateClosed id closing t s.1.positions → Q (.ok ()) s') :
    (await (.updateClosed id closing)).wp ((recorder S).spec StatementHolds) Q s := by
  obtain ⟨w, log⟩ := s
  rw [Prog.wp_perform]
  intro c hc
  have hf : c.fault = .none := hc rfl
  simp only [logged_exec, handler_exec, exec, hf, Fault.apply]
  exact hQ _ c.utc rfl

theorem closePosition_closed {id : String} (closePrice : ℚ)
    (h : ∀ r ∈ s.1.positions.rows, r.id = id → OfSymbol symbol r)
    {Q : Except Exc (Option Position) → State → Prop}
    (hQ : ∀ a s', Closed symbol [id] s.1.positions s'.1.positions → Q (.ok a) s') :
    (closePosition id closePrice).wp ((recorder S).spec StatementHolds) Q s := by
  rw [closePosition, Prog.wp_bind]
  refine wp_selectPosition (fun s₁ h₁ => ?_)
  rw [Prog.out_ok]
  cases hrow : getPositionById id s.1.positions with
  | none =>
      refine hQ _ s₁ ?_
      rw [h₁]
      refine closed_of_lookup (fun p hp => ?_)
      cases hrow.symm.trans hp
  | some p =>
      dsimp only
      split
      next hopen =>
        refine hQ _ s₁ ?_
        rw [h₁]
        refine closed_of_lookup (fun p' hp => ?_)
        cases hrow.symm.trans hp
        exact hopen
      next hopen =>
        rw [Prog.wp_bind]
        refine wp_updateClosed (fun s₂ t h₂ => ?_)
        refine wp_selectPosition (fun s₃ h₃ => ?_)
        refine hQ _ s₃ ?_
        rw [h₃, h₂, h₁]
        exact closed_updateClosed _ _ h

theorem closeAll_closed (closePrice : ℚ) (L : List Position)
    (h : ∀ p ∈ L, ∀ r ∈ s.1.positions.rows, r.id = p.id → OfSymbol symbol r)
    {Q : Except Exc Unit → State → Prop}
    (hQ : ∀ s', Closed symbol (L.map Position.id) s.1.positions s'.1.positions → Q (.ok ()) s') :
    (closeAll L closePrice).wp ((recorder S).spec StatementHolds) Q s := by
  induction L generalizing s with
  | nil => exact hQ s ⟨by simp, rfl, rfl, fun _ h => h⟩
  | cons p L ih =>
      change ((closePosition p.id closePrice >>= fun _ => pure ()) >>= fun _ => closeAll L closePrice).wp _ Q s
      rw [Prog.wp_bind, Prog.wp_bind]
      refine closePosition_closed closePrice (h p List.mem_cons_self) (fun a s₁ h₁ => ?_)
      rw [Prog.out_ok, Prog.wp_pure, Prog.out_ok]
      refine ih (fun q hq => h₁.ofSymbol q.id (h q (List.mem_cons_of_mem _ hq))) (fun s₂ h₂ => ?_)
      exact hQ s₂ (h₁.trans h₂)

/-- A sell that succeeds has closed the listed rows, whatever was filled. -/
def SoldOut (symbol : String) (T : Positions) (r : Except Exc Outcome) (s : State) : Prop :=
  succeeds r = true →
    Closed symbol ((getPositions (some .open) symbol defaultLimit T).map Position.id) T s.1.positions

theorem soldOut_error {T : Positions} (e : Exc) : SoldOut symbol T (.error e) s := fun h => absurd h Bool.false_ne_true

/-- What writes no row may come before. -/
theorem soldOut_after {α : Type} {p : Svc α} {g : α → Svc Outcome}
    (hp : p.Uses (fun op => RowExclusion.writesRows op = false))
    (hg : ∀ a s', (g a).wp ((recorder S).spec StatementHolds) (SoldOut symbol s'.1.positions) s') :
    (p >>= g).wp ((recorder S).spec StatementHolds) (SoldOut symbol s.1.positions) s := by
  rw [Prog.wp_bind]
  refine wp_kept hp (fun r s' hs' => ?_)
  cases r with
  | ok a => exact hs' ▸ hg a s'
  | error e => exact soldOut_error e

theorem refused_soldOut (reason : Refusal) :
    (pure (.refused reason) : Svc Outcome).wp ((recorder S).spec StatementHolds) (SoldOut symbol s.1.positions) s :=
  fun h => absurd h Bool.false_ne_true

variable {strategy sigId : String} {closePrice : ℚ}

theorem recordSell_soldOut (filledQty totalInvested : ℚ) (orderId : String) :
    (recordSell symbol strategy sigId closePrice filledQty totalInvested orderId).wp ((recorder S).spec StatementHolds)
      (SoldOut symbol s.1.positions) s := by
  refine soldOut_after (Prog.uses_perform rfl) (fun _ s₁ => ?_)
  rw [Prog.wp_bind, Prog.wp_attempt, Prog.wp_bind]
  refine wp_openPositionsOf (fun s₂ h₂ => ?_)
  rw [Prog.out_ok, ← h₂]
  refine closeAll_closed closePrice _ (fun q hq => ofSymbol_of_listed hq) (fun s₃ h₃ => ?_)
  rw [h₂] at h₃ ⊢
  rw [Prog.out_ok, Prog.out_ok, Prog.wp_bind]
  refine wp_kept (Prog.uses_perform rfl) (fun r s₄ h₄ => ?_)
  cases r with
  | error e => exact soldOut_error e
  | ok =>
  rw [Prog.out_ok, Prog.wp_bind]
  refine wp_kept (Prog.uses_perform rfl) (fun r s₅ h₅ => ?_)
  cases r with
  | error e => exact soldOut_error e
  | ok =>
  intro _
  rw [h₅, h₄]
  exact h₃

theorem sellSection_soldOut (qty : Option ℚ) :
    (sellSection symbol strategy sigId closePrice qty).wp ((recorder S).spec StatementHolds)
      (SoldOut symbol s.1.positions) s := by
  refine soldOut_after (Prog.uses_bind (Prog.uses_perform rfl) (fun _ => trivial)) (fun processed s₁ => ?_)
  split
  · exact refused_soldOut _
  refine soldOut_after (Prog.uses_perform rfl) (fun openPositions s₂ => ?_)
  have hplace : (placeOrder symbol .sell qty).Uses (fun op => RowExclusion.writesRows op = false) :=
    placeOrder_uses (P := fun op => RowExclusion.writesRows op = false) rfl (fun _ => rfl) qty
  refine soldOut_after hplace (fun result s₃ => ?_)
  cases result with
  | failure error => exact soldOut_after (Prog.uses_perform rfl) (fun _ _ => refused_soldOut _)
  | success orderId filled => exact recordSell_soldOut _ _ _

/-- The lock is taken before the section and released after it. -/
theorem executeSell_soldOut (qty : Option ℚ) :
    (executeSell symbol strategy sigId closePrice qty).wp ((recorder S).spec StatementHolds)
      (SoldOut symbol s.1.positions) s := by
  refine soldOut_after (Prog.uses_perform rfl) (fun acquired s₁ => ?_)
  split
  · rw [Prog.wp_ensure]
    refine Prog.wp_mono (Handler.spec_mono _ _) _ (fun r s₂ hr => ?_) s₁ (sellSection_soldOut qty)
    refine wp_kept (Prog.uses_perform rfl) (fun r' s₃ h₃ => ?_)
    cases r' with
    | error e => exact soldOut_error e
    | ok =>
    intro hsuccess
    rw [h₃]
    exact hr hsuccess
  · exact refused_soldOut _

end Calls

variable {S : Setting} {f : Op → ℕ → Env} {a : Sell} {w : World} {filledQty : ℚ}

/-- The open quantity falls by what the listed rows hold. -/
theorem Sold.openQty_eq (h : Sold S f a w filledQty) :
    openQty a.symbol (a.run S f w).2.1.1.positions =
      openQty a.symbol w.positions - listedQty a.symbol w.positions :=
  openQty_of_closed (taped_of_wp (executeSell_soldOut (s := (w, [])) a.qty) h.stored h.success)

theorem fallsBy_iff (h : Sold S f a w filledQty) :
    FallsBy S f a w filledQty ↔ filledQty = listedQty a.symbol w.positions := by
  rw [FallsBy, h.openQty_eq, sub_right_inj]
  exact eq_comm

/-- The answers to a sell of which the given quantity is filled. -/
def filling (executed : ℚ) (_ : Op) (_ : ℕ) : Env := { Env.trading with reply := .accepted "order-1" executed true }

def sellAll : Sell := ⟨"BTCUSDT", "ema", "s1", 30000, some (7 / 4)⟩

theorem fallsBy_sellAll : FallsBy defaults (filling (7 / 4)) sellAll twoRows (7 / 4) ↔
    7 / 4 = listedQty "BTCUSDT" twoRows.positions :=
  fallsBy_iff (S := defaults) (f := filling (7 / 4)) (a := sellAll) (w := twoRows)
    ⟨by decide +kernel, by decide +kernel, by decide +kernel, by decide +kernel, by decide +kernel⟩

/-- One of seven quarters is filled, and both rows are closed. -/
theorem part_filled : ¬ ∀ (S : Setting) (f : Op → ℕ → Env) (a : Sell) (w : World) (filledQty : ℚ),
    Sold S f a w filledQty → FallsBy S f a w filledQty := by
  intro h
  have hfalls := h defaults (filling 1) sellAll twoRows 1
    ⟨by decide +kernel, by decide +kernel, by decide +kernel, by decide +kernel, by decide +kernel⟩
  revert hfalls
  rw [FallsBy]
  decide +kernel

end Autr.Services.SoldQuantity
