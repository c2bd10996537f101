import Autr.Services.FundingArbExecutor

namespace Autr.Services.Evaluate

open Autr.Async Autr.Infra Bybit Store TradeTracker Executor

variable {S : Setting} {f : Op → Env} {symbol : String} {w : World} {qty : ℚ}

/-- Every call but the read of the balance succeeds. -/
def Sound (f : Op → Env) : Prop := ∀ op, op ≠ .getBalance → (f op).fault = .none

def isStore : Op → Bool
  | .acquireLock _ _ | .releaseLock _ | .get _ | .set _ _ _ => true
  | .insertTrade _ | .insertPosition _ | .selectPositions _ _ _ | .selectPosition _ | .updateClosed _ _ => true
  | _ => false

/-- The calls to the tables and to Redis succeed. -/
def Stores (f : Op → Env) : Prop := ∀ op, isStore op = true → (f op).fault = .none

theorem Sound.stores (hs : Sound f) : Stores f := by
  intro op hop
  refine hs op (fun hbalance => ?_)
  subst hbalance
  cases hop

theorem eval_openPositionsOf (hs : Stores f) :
    eval (handler S) f (openPositionsOf symbol) w =
      (.ok (getPositions (some .open) symbol defaultLimit w.positions),
        later (f (.selectPositions (some .open) symbol defaultLimit)) w) := by
  rw [openPositionsOf, eval_perform]
  simp [handler, exec, Fault.apply, hs (.selectPositions (some .open) symbol defaultLimit) rfl, later]

theorem eval_selectPosition (hs : Stores f) (id : String) :
    eval (handler S) f (await (.selectPosition id)) w =
      (.ok (getPositionById id w.positions), later (f (.selectPosition id)) w) := by
  rw [eval_perform]
  simp [handler, exec, Fault.apply, hs (.selectPosition id) rfl, later]

theorem eval_updateClosed (hs : Stores f) (id : String) (c : Closing) :
    eval (handler S) f (await (.updateClosed id c)) w =
      (.ok (), { later (f (.updateClosed id c)) w with
        positions := updateClosed id c (f (.updateClosed id c)).utc w.positions }) := by
  rw [eval_perform]
  simp [handler, exec, Fault.apply, hs (.updateClosed id c) rfl, later]

theorem eval_notify (hs : Sound f) (notice : Notice) :
    eval (handler S) f (notify notice) w = (.ok (), later (f (.notify notice)) w) := by
  rw [notify, eval_perform]
  simp [handler, exec, Fault.apply, hs (.notify notice) (by simp), later]

/-- A notice touches no row, whether it raises or not, and nothing follows it but an answer. -/
theorem positions_notify_then (notice : Notice) {α : Type} (a : α) :
    (eval (handler S) f (do notify notice; return a) w).2.positions = w.positions := by
  rw [eval_bind, notify, eval_perform]
  cases hf : (f (.notify notice)).fault <;> simp [handler, exec, Fault.apply, hf]

theorem eval_acquireLock (hs : Stores f) (key : String) (ttl : ℚ) :
    eval (handler S) f (await (.acquireLock key ttl)) w =
      let c := f (.acquireLock key ttl)
      let r := Redis.acquireLock S.backend (w.now + c.elapsed) key ttl w.redis
      (.ok r.1, { later c w with redis := r.2 }) := by
  rw [eval_perform]
  simp [handler, exec, Fault.apply, hs (.acquireLock key ttl) rfl, later]

theorem eval_releaseLock (hs : Stores f) (key : String) :
    eval (handler S) f (await (.releaseLock key)) w =
      (.ok (), { later (f (.releaseLock key)) w with redis := Redis.releaseLock key w.redis }) := by
  rw [eval_perform]
  simp [handler, exec, Fault.apply, hs (.releaseLock key) rfl, later]

theorem eval_insertTrade (hs : Stores f) (trade : Trade) :
    eval (handler S) f (await (.insertTrade trade)) w =
      (.ok (), { later (f (.insertTrade trade)) w with trades := w.trades ++ [trade] }) := by
  rw [eval_perform]
  simp [handler, exec, Fault.apply, hs (.insertTrade trade) rfl, later]

theorem eval_markProcessed (hs : Stores f) (sigId : String) (ttl : ℚ) :
    ∃ w', eval (handler S) f (markProcessed sigId ttl) w = (.ok (), w') ∧ w'.positions = w.positions := by
  rw [markProcessed, eval_perform, handler_exec]
  simp only [exec, hs (.set (Redis.processedKey sigId) "1" (some ttl)) rfl, Fault.apply]
  exact ⟨_, rfl, rfl⟩

theorem eval_isProcessed (hs : Stores f) {sigId : String}
    (hfresh : ¬ Redis.Live S.backend (w.now + (f (.get (Redis.processedKey sigId))).elapsed)
      (Redis.processedKey sigId) w.redis) :
    ∃ w', eval (handler S) f (isProcessed sigId) w = (.ok false, w') ∧ w'.positions = w.positions ∧
      w'.wallet = w.wallet := by
  have hget := Redis.get_fst_eq_none.2 hfresh
  rw [isProcessed, eval_bind, eval_perform]
  simp only [handler_exec, exec, hs (.get (Redis.processedKey sigId)) rfl, Fault.apply, hget, eval_pure,
    Option.any_none]
  exact ⟨_, rfl, rfl, rfl⟩

theorem eval_calculateSafeOrderSize (side : Side) :
    eval (handler S) f (await (.calculateSafeOrderSize symbol side)) w =
      let c := f (.calculateSafeOrderSize symbol side)
      (.ok (safeOrderSize S.bybit symbol side c.price (readBalance S w c)), later c w) := by
  rw [eval_perform]
  rfl

theorem eval_insertPosition (hs : Stores f) (p : NewPosition)
    (hfresh : (f (.insertPosition p)).uuid ∉ w.positions.rows.map Position.id) :
    ∃ w', eval (handler S) f (await (.insertPosition p)) w = (.ok (), w') ∧
      w'.positions.rows = w.positions.rows ++ [p.row (f (.insertPosition p)).uuid (f (.insertPosition p)).utc] := by
  obtain ⟨T, hT, hrows⟩ := createPosition_fresh (f (.insertPosition p)).utc p hfresh
  refine ⟨{ later (f (.insertPosition p)) w with positions := T }, ?_, hrows⟩
  rw [eval_perform]
  simp [handler, exec, Fault.apply, hs (.insertPosition p) rfl, hT, later]

/-- What closing the rows with the given ids does to the table, seen from a symbol. -/
structure Closed (symbol : String) (ids : List String) (T T' : Positions) : Prop where
  rows : openRows symbol T' = (openRows symbol T).filter (fun r => r.id ∉ ids)
  others : otherRows symbol T' = otherRows symbol T
  keys : T'.rows.map Position.id = T.rows.map Position.id
  ofSymbol : ∀ id, (∀ r ∈ T.rows, r.id = id → OfSymbol symbol r) → ∀ r ∈ T'.rows, r.id = id → OfSymbol symbol r

theorem closed_of_not_open {id : String} {T : Positions} (h : ∀ r ∈ openRows symbol T, r.id ≠ id) :
    Closed symbol [id] T T where
  rows := by
    rw [List.filter_eq_self.2]
    simpa using h
  others := rfl
  keys := rfl
  ofSymbol _ h := h

/-- Closing a row that is not there, or not open, changes nothing. -/
theorem closed_of_lookup {id : String} {T : Positions} (h : ∀ p, getPositionById id T = some p → p.status ≠ .open) :
    Closed symbol [id] T T := by
  refine closed_of_not_open (fun r hr he => ?_)
  obtain ⟨hmem, hsel⟩ := List.mem_filter.1 hr
  have hrow : getPositionById r.id T = some r := lookup_eq_some_of_mem T.nodup hmem
  exact h r (he ▸ hrow) ((selected_open symbol).1 (of_decide_eq_true hsel)).1

theorem closed_updateClosed {id : String} {T : Positions} (c : Closing) (closeTime : ℚ)
    (h : ∀ r ∈ T.rows, r.id = id → OfSymbol symbol r) : Closed symbol [id] T (updateClosed id c closeTime T) where
  rows := by
    rw [openRows_updateClosed]
    simp
  others := otherRows_updateClosed symbol c closeTime h
  keys := ids_updateClosed id c closeTime T
  ofSymbol _ h := ofSymbol_updateClosed symbol c closeTime h

theorem Closed.trans {ids ids' : List String} {T T' T'' : Positions} (h : Closed symbol ids T T')
    (h' : Closed symbol ids' T' T'') : Closed symbol (ids ++ ids') T T'' where
  rows := by
    rw [h'.rows, h.rows, List.filter_filter]
    refine List.filter_congr (fun r _ => ?_)
    simp [Bool.and_comm]
  others := h'.others.trans h.others
  keys := h'.keys.trans h.keys
  ofSymbol id hT := h'.ofSymbol id (h.ofSymbol id hT)

theorem eval_closePosition (hs : Stores f) {id : String} (closePrice : ℚ)
    (h : ∀ r ∈ w.positions.rows, r.id = id → OfSymbol symbol r) :
    ∃ a w', eval (handler S) f (closePosition id closePrice) w = (.ok a, w') ∧
      Closed symbol [id] w.positions w'.positions := by
  rw [closePosition, eval_bind, eval_selectPosition hs]
  cases hrow : getPositionById id w.positions with
  | none =>
      refine ⟨_, _, rfl, closed_of_lookup (fun p hp => ?_)⟩
      cases hrow.symm.trans hp
  | some p =>
      by_cases hopen : p.status = .open
      · simp only [hopen, ne_eq, not_true_eq_false, if_false, eval_bind, eval_updateClosed hs,
          eval_selectPosition hs]
        exact ⟨_, _, rfl, closed_updateClosed _ _ h⟩
      · simp only [hopen, ne_eq, not_false_eq_true, if_true]
        refine ⟨_, _, rfl, closed_of_lookup (fun p' hp => ?_)⟩
        cases hrow.symm.trans hp
        exact hopen

theorem eval_closeAll (hs : Stores f) (closePrice : ℚ) (L : List Position)
    (h : ∀ p ∈ L, ∀ r ∈ w.positions.rows, r.id = p.id → OfSymbol symbol r) :
    ∃ w', eval (handler S) f (closeAll L closePrice) w = (.ok (), w') ∧
      Closed symbol (L.map Position.id) w.positions w'.positions := by
  induction L generalizing w with
  | nil => exact ⟨w, rfl, by simp, rfl, rfl, fun _ h => h⟩
  | cons p L ih =>
      obtain ⟨a, w₁, h₁, hc₁⟩ := eval_closePosition hs closePrice (h p List.mem_cons_self)
      obtain ⟨w₂, h₂, hc₂⟩ := ih (w := w₁) (fun p' hp' => hc₁.ofSymbol p'.id (h p' (List.mem_cons_of_mem _ hp')))
      refine ⟨w₂, ?_, hc₁.trans hc₂⟩
      rw [closeAll, eval_forEach_cons, eval_bind, h₁]
      exact h₂

theorem mem_openRows_of_listed {T : Positions} {limit : ℕ} {q : Position}
    (hq : q ∈ getPositions (some .open) symbol limit T) : q ∈ openRows symbol T := by
  rw [getPositions_open] at hq
  exact mem_newest Position.openTime hq

theorem ofSymbol_of_listed {T : Positions} {limit : ℕ} {q : Position}
    (hq : q ∈ getPositions (some .open) symbol limit T) : ∀ r ∈ T.rows, r.id = q.id → OfSymbol symbol r := by
  intro r hr hid
  obtain ⟨hmem, hsel⟩ := List.mem_filter.1 (mem_openRows_of_listed hq)
  have hrq : r = q := List.inj_on_of_nodup_map T.nodup hr hmem hid
  exact hrq ▸ ((selected_open symbol).1 (of_decide_eq_true hsel)).2

theorem eval_closeListed (hs : Stores f) (symbol : String) (closePrice : ℚ) (limit : ℕ) :
    ∃ w', eval (handler S) f (closeAll (getPositions (some .open) symbol limit w.positions) closePrice) w =
        (.ok (), w') ∧
      Closed symbol ((getPositions (some .open) symbol limit w.positions).map Position.id) w.positions
        w'.positions :=
  eval_closeAll hs closePrice _ (fun _ hq => ofSymbol_of_listed hq)

theorem Closed.none_left {T T' : Positions}
    (hc : Closed symbol ((getPositions (some .open) symbol defaultLimit T).map Position.id) T T')
    (hlen : (openRows symbol T).length ≤ defaultLimit) : openRows symbol T' = [] := by
  rw [hc.rows, List.filter_eq_nil_iff]
  intro r hr
  have hmem : r ∈ getPositions (some .open) symbol defaultLimit T := (getPositions_perm symbol hlen).mem_iff.2 hr
  simpa using List.mem_map_of_mem hmem

theorem Closed.ne {T T' : Positions} {q : Position}
    (hc : Closed symbol ((getPositions (some .open) symbol defaultLimit T).map Position.id) T T')
    (hq : q ∈ getPositions (some .open) symbol defaultLimit T) : T' ≠ T := by
  rintro rfl
  have hmem := hc.rows ▸ mem_openRows_of_listed hq
  have hid := of_decide_eq_true (List.mem_filter.1 hmem).2
  exact hid (List.mem_map_of_mem hq)

theorem eval_placeLinearOrder (symbol : String) (side : Side) (qty : ℚ) (reduceOnly : Bool) :
    eval (handler S) f (FundingArbExecutor.placeLinearOrder symbol side qty reduceOnly) w =
      let c := f (.placeLinearOrder symbol side qty reduceOnly)
      (.ok ((linearReply S c).result qty),
        fillLinear symbol side reduceOnly (linearReply S c).executed (later c w)) := by
  rw [FundingArbExecutor.placeLinearOrder, eval_perform]
  rfl

theorem eval_placeOrder (symbol : String) (side : Side) (qty : ℚ) :
    eval (handler S) f (Executor.placeOrder symbol side (some qty)) w =
      let c := f (.submitOrder symbol side qty)
      (.ok ((spotReply S side qty c).result qty),
        fillSpot symbol side (spotReply S side qty c).executed (later c w)) := by
  rw [Executor.placeOrder, eval_perform]
  rfl

end Autr.Services.Evaluate
