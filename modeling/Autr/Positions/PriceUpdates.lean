import Autr.Infra.TradeTracker

namespace Autr.Positions.PriceUpdates

open Autr.Infra TradeTracker

def IsClosed (id : String) (T : Positions) : Prop := ∃ p ∈ T.rows, p.id = id ∧ p.status = .closed

instance (id : String) (T : Positions) : Decidable (IsClosed id T) :=
  inferInstanceAs (Decidable (∃ p ∈ T.rows, p.id = id ∧ p.status = .closed))

variable {T : Positions}

def priceRows (price : ℚ) (rows : List Position) (T : Positions) : Positions :=
  rows.foldl (fun T r => updatePrice r.id (r.pricing price) T) T

def priceSymbol (T : Positions) (x : String × ℚ) : Positions :=
  priceRows x.2 (T.rows.filter (fun r => r.status = .open ∧ r.symbol = x.1)) T

def repriced (x : String × ℚ) (r : Position) : Position :=
  if r.status = .open ∧ r.symbol = x.1 then r.reprice (r.pricing x.2) else r

/-- Each row of a list is given its price. -/
def applied (steps : List (Position × ℚ)) (T : Positions) : Positions :=
  steps.foldl (fun T x => updatePrice x.1.id (x.1.pricing x.2) T) T

theorem applied_rows {steps : List (Position × ℚ)} (h : (steps.map (fun x => x.1.id)).Nodup) :
    (applied steps T).rows = T.rows.map (fun r =>
      match Store.lookup (fun x => x.1.id) r.id steps with
      | some x => r.reprice (x.1.pricing x.2)
      | none => r) := by
  induction steps generalizing T with
  | nil => simp [applied, Store.lookup]
  | cons x steps ih =>
      obtain ⟨hx, hsteps⟩ := List.nodup_cons.1 h
      rw [applied, List.foldl_cons, ← applied, ih hsteps]
      change (T.rows.map _).map _ = _
      rw [List.map_map]
      refine List.map_congr_left (fun r _ => ?_)
      have hnone : Store.lookup (fun x : Position × ℚ => x.1.id) x.1.id steps = none :=
        (Store.lookup_eq_none x.1.id steps).2 (fun y hy he => hx (List.mem_map.2 ⟨y, hy, he⟩))
      by_cases hid : r.id = x.1.id
      · simp [hid, hnone, Store.lookup_cons]
      · simp [hid, Store.lookup_cons, Ne.symm hid]

theorem priceRows_eq_applied (price : ℚ) (rows : List Position) (T : Positions) :
    priceRows price rows T = applied (rows.map (fun r => (r, price))) T := by
  rw [priceRows, applied, List.foldl_map]

theorem priceRows_rows (price : ℚ) {rows : List Position} (h : (rows.map Position.id).Nodup) :
    (priceRows price rows T).rows = T.rows.map (fun r =>
      match Store.lookup Position.id r.id rows with
      | some q => r.reprice (q.pricing price)
      | none => r) := by
  rw [priceRows_eq_applied, applied_rows (by rwa [List.map_map])]
  refine List.map_congr_left (fun r _ => ?_)
  rw [Store.lookup, List.find?_map, Store.lookup]
  change (match (rows.find? (fun q => q.id = r.id)).map (fun q => (q, price)) with | some x => _ | none => _) = _
  cases rows.find? (fun q => q.id = r.id) <;> rfl

theorem priceSymbol_rows (x : String × ℚ) : (priceSymbol T x).rows = T.rows.map (repriced x) := by
  rw [priceSymbol, priceRows_rows x.2 ((List.Sublist.map Position.id List.filter_sublist).nodup T.nodup)]
  refine List.map_congr_left (fun r hr => ?_)
  rw [Store.lookup_filter_of_mem T.nodup hr, repriced]
  by_cases h : r.status = .open ∧ r.symbol = x.1 <;> simp [h]

def priceAll (prices : List (String × ℚ)) (T : Positions) : Positions := prices.foldl priceSymbol T

def judged (prices : List (String × ℚ)) (r : Position) : Position := prices.foldl (fun r x => repriced x r) r

theorem priceAll_rows (prices : List (String × ℚ)) (T : Positions) :
    (priceAll prices T).rows = T.rows.map (judged prices) := by
  induction prices generalizing T with
  | nil => exact (List.map_id' _).symm
  | cons x prices ih =>
      rw [priceAll, List.foldl_cons, ← priceAll, ih, priceSymbol_rows, List.map_map]
      rfl

/-- Pricing leaves a row open or closed, and as it was created. -/
theorem judged_kept {β : Type} {g : Position → β} (hg : ∀ (r : Position) c, g (r.reprice c) = g r)
    (prices : List (String × ℚ)) (r : Position) : g (judged prices r) = g r := by
  induction prices generalizing r with
  | nil => rfl
  | cons x prices ih =>
      refine (ih (repriced x r)).trans ?_
      rw [repriced]
      split
      · exact hg _ _
      · rfl

theorem judged_of_not_mem {prices : List (String × ℚ)} {r : Position} (h : r.symbol ∉ prices.map Prod.fst) :
    judged prices r = r := by
  induction prices with
  | nil => rfl
  | cons x prices ih =>
      obtain ⟨hx, hprices⟩ := not_or.1 (mt List.mem_cons.2 h)
      rw [judged, List.foldl_cons, repriced, if_neg (fun hr => hx hr.2)]
      exact ih hprices

theorem judged_of_mem {prices : List (String × ℚ)} (hnodup : (prices.map Prod.fst).Nodup) {r : Position}
    (hopen : r.status = .open) {price : ℚ} (h : (r.symbol, price) ∈ prices) :
    judged prices r = r.reprice (r.pricing price) := by
  induction prices with
  | nil => cases h
  | cons x prices ih =>
      obtain ⟨hx, hprices⟩ := List.nodup_cons.1 hnodup
      rw [judged, List.foldl_cons, repriced]
      rcases List.mem_cons.1 h with rfl | h
      · rw [if_pos ⟨hopen, rfl⟩]
        exact judged_of_not_mem (r := r.reprice (r.pricing price)) hx
      · have hne : r.symbol ≠ x.1 := fun hr => hx (List.mem_map.2 ⟨_, h, hr⟩)
        rw [if_neg (fun hr => hne hr.2)]
        exact ih hprices h

theorem getPositions_priceAll (prices : List (String × ℚ)) (symbol : String) (limit : ℕ) (T : Positions) :
    getPositions (some .open) symbol limit (priceAll prices T) =
      (getPositions (some .open) symbol limit T).map (judged prices) :=
  getPositions_map symbol (priceAll_rows prices T) (judged_kept (g := Position.status) (fun _ _ => rfl) prices)
    (judged_kept (g := Position.symbol) (fun _ _ => rfl) prices)
    (judged_kept (g := Position.openTime) (fun _ _ => rfl) prices) limit

theorem isClosed_priceAll (prices : List (String × ℚ)) (id : String) (T : Positions) :
    IsClosed id (priceAll prices T) ↔ IsClosed id T := by
  have hstatus := judged_kept (g := Position.status) (fun _ _ => rfl) prices
  have hid := judged_kept (g := Position.id) (fun _ _ => rfl) prices
  rw [IsClosed, priceAll_rows]
  simp [IsClosed, hstatus, hid]

theorem isClosed_updateClosed {p : Position} (hp : p ∈ T.rows) (closing : Closing) (t : ℚ) (id : String) :
    IsClosed id (updateClosed p.id closing t T) ↔ IsClosed id T ∨ p.id = id := by
  constructor
  · rintro ⟨q, hq, hid, hclosed⟩
    obtain ⟨r, hr, rfl⟩ := List.mem_map.1 hq
    by_cases he : r.id = p.id
    · rw [if_pos he] at hid
      exact .inr (he.symm.trans hid)
    · rw [if_neg he] at hid hclosed
      exact .inl ⟨r, hr, hid, hclosed⟩
  · rintro (⟨q, hq, hid, hclosed⟩ | rfl)
    · by_cases he : q.id = p.id
      · exact ⟨q.close closing t, List.mem_map.2 ⟨q, hq, if_pos he⟩, hid, rfl⟩
      · exact ⟨q, mem_updateClosed_of_ne hq he closing t, hid, hclosed⟩
    · exact ⟨p.close closing t, List.mem_map.2 ⟨p, hp, if_pos rfl⟩, rfl, rfl⟩

end Autr.Positions.PriceUpdates
