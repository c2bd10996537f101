import Autr.Async.Session
import Autr.Infra.TradeDb
import Autr.Positions.PriceUpdates

namespace Autr.Positions.PriceAtomicity

open Store Async Infra TradeTracker TradeDb PriceUpdates

inductive Backend
  | tradeTrackerDb
  | postgresDb
  deriving DecidableEq

/-- `update_open_position_prices`, which one class commits at its end and the other statement
by statement. -/
def updateOpenPositionPrices (backend : Backend) (priceUpdates : List (String × ℚ)) :
    Prog (Stmt Op) (Stmt.Answer Op.Res) String ℕ :=
  if priceUpdates = [] then return 0
  else
    match backend with
    | .tradeTrackerDb => (TradeDb.updateOpenPositionPrices priceUpdates).committed
    | .postgresDb => (TradeDb.updateOpenPositionPrices priceUpdates).statements

/-- Only the statement that comes after so many others fails. -/
def failing (text : String) (n i : ℕ) : Env where
  fault := if i = n then .lost text else .none
  uuid := ""
  utc := 0
  price := 0
  reply := .rejected none

def broken (c : Env) : Option String :=
  match c.fault with
  | .none => none
  | .lost text | .late text => some text

def session (backend : Backend) : Handler (Stmt Op) (Stmt.Answer Op.Res) String (Session World) Env :=
  handler.session (backend = .postgresDb) broken

/-- The outcome of the call, and the tables as they are stored after it. -/
def outcome (backend : Backend) (priceUpdates : List (String × ℚ)) (text : String) (n : ℕ) (w : World) :
    Except String ℕ × World :=
  let r := eval ((session backend).taped (fun _ => true)) (fun _ => failing text n)
    (updateOpenPositionPrices backend priceUpdates) (⟨w, w⟩, 0)
  (r.1, r.2.1.stored)

/-- A call that raises leaves the positions as they were. -/
def Atomic (backend : Backend) (priceUpdates : List (String × ℚ)) (text : String) (n : ℕ) (w : World) : Prop :=
  ∀ e, (outcome backend priceUpdates text n w).1 = .error e →
    (outcome backend priceUpdates text n w).2.positions = w.positions

def openOf (symbol : String) (T : Positions) : List Position :=
  T.rows.filter (fun r => r.status = .open ∧ r.symbol = symbol)

/-- The statements in their order: a query for each symbol, and then an update for each row. -/
def statementsOf (priceUpdates : List (String × ℚ)) (T : Positions) : List (Option (Position × ℚ)) :=
  priceUpdates.flatMap (fun x => none :: (openOf x.1 T).map (fun r => some (r, x.2)))

def writes (steps : List (Option (Position × ℚ))) : List (Position × ℚ) := steps.filterMap id

/-- The updates before the statement that fails give each row what it has. -/
def Spared (backend : Backend) (priceUpdates : List (String × ℚ)) (n : ℕ) (T : Positions) : Prop :=
  backend = .postgresDb → n < (statementsOf priceUpdates T).length →
    ∀ x ∈ writes ((statementsOf priceUpdates T).take n), x.1.reprice (x.1.pricing x.2) = x.1

/-- How far a run comes. -/
inductive Ran {α : Type} (text : String) (n : ℕ) (Q : α → Prop) (steps : List (Option (Position × ℚ))) (i : ℕ)
    (w : World) : Except String α × World × ℕ → Prop
  | done (a) (ha : Q a) (hn : n < i ∨ i + steps.length ≤ n) :
      Ran text n Q steps i w
        (.ok a, { w with positions := applied (writes steps) w.positions }, i + steps.length)
  | failed (w' j) (hi : i ≤ n) (hn : n < i + steps.length)
      (hw : w'.positions = applied (writes (steps.take (n - i))) w.positions) :
      Ran text n Q steps i w (.error text, w', j)

abbrev run {α : Type} (text : String) (n : ℕ) (p : Desk α) (s : World × ℕ) : Except String α × World × ℕ :=
  eval (handler.taped (fun _ => true)) (fun _ => failing text n) p s

section Runs

variable {α β : Type} {text : String} {n i : ℕ} {w : World}

theorem writes_append (steps steps' : List (Option (Position × ℚ))) :
    writes (steps ++ steps') = writes steps ++ writes steps' := List.filterMap_append

theorem applied_append (xs ys : List (Position × ℚ)) (T : Positions) :
    applied (xs ++ ys) T = applied ys (applied xs T) := List.foldl_append

theorem Ran.bind {p : Desk α} {q : α → Desk β} {P : α → Prop} {Q : β → Prop}
    {steps steps' : List (Option (Position × ℚ))} (hp : Ran text n P steps i w (run text n p (w, i)))
    (hq : ∀ a, P a → Ran text n Q steps' (i + steps.length)
      { w with positions := applied (writes steps) w.positions }
      (run text n (q a) ({ w with positions := applied (writes steps) w.positions }, i + steps.length))) :
    Ran text n Q (steps ++ steps') i w (run text n (p >>= q) (w, i)) := by
  rw [run, eval_bind]
  generalize hr : eval (handler.taped (fun _ => true)) (fun _ => failing text n) p (w, i) = r
  rw [run, hr] at hp
  cases hp with
  | failed w' j hi hn hw =>
      refine .failed w' j hi (by rw [List.length_append]; omega) ?_
      rw [hw, List.take_append_of_le_length (by omega)]
  | done a ha hn =>
      have hnext := hq a ha
      change Ran text n Q _ i w (run text n (q a) ({ w with positions := applied (writes steps) w.positions }, _))
      generalize run text n (q a) ({ w with positions := applied (writes steps) w.positions }, i + steps.length) = r'
        at hnext ⊢
      cases hnext with
      | failed w' j hi hn' hw =>
          refine .failed w' j (by omega) (by rw [List.length_append]; omega) ?_
          rw [hw, List.take_append, List.take_of_length_le (i := n - i) (by omega), writes_append, applied_append,
            Nat.sub_add_eq]
      | done b hb hn' =>
          have hrun : Ran text n Q (steps ++ steps') i w (.ok b, _, _) :=
            .done b hb (by rw [List.length_append]; omega)
          rw [writes_append, applied_append, List.length_append, ← add_assoc] at hrun
          exact hrun

theorem ran_return (a : α) : Ran text n (· = a) [] i w (run text n (pure a) (w, i)) :=
  .done a rfl (by simp only [List.length_nil]; omega)

theorem Ran.mono {P Q : α → Prop} {steps : List (Option (Position × ℚ))} {r : Except String α × World × ℕ}
    (h : Ran text n P steps i w r) (hPQ : ∀ a, P a → Q a) : Ran text n Q steps i w r := by
  cases h with
  | done a ha hn => exact .done a (hPQ a ha) hn
  | failed w' j hi hn hw => exact .failed w' j hi hn hw

theorem ran_select (symbol : String) :
    Ran text n (· = openOf symbol w.positions) [none] i w (run text n (await (.selectOpen symbol)) (w, i)) := by
  rw [run, await, eval_perform, taped_exec]
  by_cases hi : i = n
  · have hfault : (failing text n i).fault = .lost text := if_pos hi
    rw [handler_exec, exec, hfault]
    exact .failed w (i + 1) hi.le (by rw [List.length_singleton]; omega) (by rw [hi, Nat.sub_self]; rfl)
  · have hfault : (failing text n i).fault = .none := if_neg hi
    rw [handler_exec, exec, hfault]
    exact .done (openOf symbol w.positions) rfl (by simp only [List.length_singleton]; omega)

theorem ran_update (r : Position) (price : ℚ) :
    Ran text n (fun _ => True) [some (r, price)] i w
      (run text n (await (.updatePrice r.id (r.pricing price))) (w, i)) := by
  rw [run, await, eval_perform, taped_exec]
  by_cases hi : i = n
  · have hfault : (failing text n i).fault = .lost text := if_pos hi
    rw [handler_exec, exec, hfault]
    exact .failed w (i + 1) hi.le (by rw [List.length_singleton]; omega) (by rw [hi, Nat.sub_self]; rfl)
  · have hfault : (failing text n i).fault = .none := if_neg hi
    rw [handler_exec, exec, hfault]
    exact .done () trivial (by simp only [List.length_singleton]; omega)

theorem ran_rows (rows : List Position) (price : ℚ) :
    Ran text n (fun _ => True) (rows.map (fun r => some (r, price))) i w
      (run text n (Prog.forEach (fun r => await (.updatePrice r.id (r.pricing price))) rows) (w, i)) := by
  induction rows generalizing i w with
  | nil => exact (ran_return ()).mono (fun _ _ => trivial)
  | cons r rows ih => exact (ran_update r price).bind (fun _ _ => ih)

theorem Ran.bind_pure {p : Desk α} {P : α → Prop} {steps : List (Option (Position × ℚ))}
    (hp : Ran text n P steps i w (run text n p (w, i))) (b : α → β) :
    Ran text n (fun _ => True) steps i w (run text n (p >>= fun a => pure (b a)) (w, i)) := by
  have hrun := hp.bind (fun a _ => (ran_return (b a)).mono (fun _ _ => trivial))
  rwa [List.append_nil] at hrun

theorem ran_symbol (symbol : String) (price : ℚ) :
    Ran text n (fun _ => True) (none :: (openOf symbol w.positions).map (fun r => some (r, price))) i w
      (run text n (updateSymbolPrices symbol price) (w, i)) := by
  refine (ran_select symbol).bind (fun rows hrows => ?_)
  subst hrows
  exact (ran_rows (openOf symbol w.positions) price).bind_pure (fun _ => (openOf symbol w.positions).length)

theorem openOf_priceSymbol {symbol : String} {x : String × ℚ} (h : symbol ≠ x.1) (T : Positions) :
    openOf symbol (priceSymbol T x) = openOf symbol T := by
  have hkept : ∀ r : Position, r.symbol = symbol → repriced x r = r :=
    fun r hr => if_neg (fun hx => h (hr.symm.trans hx.2))
  have hfilter : ((fun r => decide (r.status = .open ∧ r.symbol = symbol)) ∘ repriced x) =
      fun r : Position => decide (r.status = .open ∧ r.symbol = symbol) := by
    funext r
    dsimp only [Function.comp, repriced]
    split <;> rfl
  rw [openOf, priceSymbol_rows, List.filter_map, hfilter, openOf]
  refine (List.map_congr_left (fun r hr => hkept r ?_)).trans (List.map_id _)
  exact (of_decide_eq_true (List.mem_filter.1 hr).2).2

theorem writes_symbol (rows : List Position) (price : ℚ) :
    writes (none :: rows.map (fun r => some (r, price))) = rows.map (fun r => (r, price)) := by
  rw [writes, List.filterMap_cons_none rfl, List.filterMap_map]
  exact congrFun List.filterMap_eq_map' rows

theorem statementsOf_congr {priceUpdates : List (String × ℚ)} {T T' : Positions}
    (h : ∀ x ∈ priceUpdates, openOf x.1 T' = openOf x.1 T) :
    statementsOf priceUpdates T' = statementsOf priceUpdates T := by
  rw [statementsOf, statementsOf, List.flatMap_def, List.flatMap_def]
  refine congrArg List.flatten (List.map_congr_left (fun x hx => ?_))
  rw [h x hx]

/-- A run of the loops makes the statements in their order. -/
theorem ran_updates {priceUpdates : List (String × ℚ)} (hkeys : (priceUpdates.map Prod.fst).Nodup) :
    Ran text n (fun _ => True) (statementsOf priceUpdates w.positions) i w
      (run text n (TradeDb.updateOpenPositionPrices priceUpdates) (w, i)) := by
  induction priceUpdates generalizing i w with
  | nil => exact (ran_return 0).mono (fun _ _ => trivial)
  | cons x priceUpdates ih =>
      obtain ⟨symbol, price⟩ := x
      obtain ⟨hsymbol, hkeys⟩ := List.nodup_cons.1 hkeys
      change Ran text n _ ((none :: (openOf symbol w.positions).map (fun r => some (r, price))) ++
        statementsOf priceUpdates w.positions) i w _
      refine (ran_symbol symbol price).bind (fun updated _ => ?_)
      -- the rows of the other symbols are still the ones that were there
      have hrest : statementsOf priceUpdates
          (applied (writes (none :: (openOf symbol w.positions).map (fun r => some (r, price)))) w.positions) =
            statementsOf priceUpdates w.positions := by
        rw [writes_symbol, openOf, ← priceRows_eq_applied]
        refine statementsOf_congr (fun x hx => openOf_priceSymbol (x := (symbol, price)) ?_ w.positions)
        exact fun he => hsymbol (he ▸ List.mem_map_of_mem hx)
      rw [← hrest]
      generalize i + (none :: (openOf symbol w.positions).map (fun r => some (r, price))).length = j
      generalize applied (writes (none :: (openOf symbol w.positions).map (fun r => some (r, price)))) w.positions = T
      exact (ih (w := { w with positions := T }) hkeys).bind_pure (fun rest => updated + rest)

end Runs

section Steps

variable {T : Positions} {priceUpdates : List (String × ℚ)}

theorem mem_writes {x : Position × ℚ} (h : x ∈ writes (statementsOf priceUpdates T)) :
    x.1 ∈ openOf x.1.symbol T ∧ x.1.symbol ∈ priceUpdates.map Prod.fst := by
  obtain ⟨step, hstep, hx⟩ := List.mem_filterMap.1 h
  obtain ⟨y, hy, hstep⟩ := List.mem_flatMap.1 hstep
  obtain rfl | hstep := List.mem_cons.1 hstep
  · cases hx
  · obtain ⟨r, hr, rfl⟩ := List.mem_map.1 hstep
    cases hx
    have hsymbol : r.symbol = y.1 := (of_decide_eq_true (List.mem_filter.1 hr).2).2
    rw [hsymbol]
    exact ⟨hr, List.mem_map_of_mem hy⟩

theorem writes_nodup (hkeys : (priceUpdates.map Prod.fst).Nodup) :
    ((writes (statementsOf priceUpdates T)).map (fun x => x.1.id)).Nodup := by
  induction priceUpdates with
  | nil => exact List.nodup_nil
  | cons x priceUpdates ih =>
      obtain ⟨hx, hkeys⟩ := List.nodup_cons.1 hkeys
      change ((writes ((none :: (openOf x.1 T).map (fun r => some (r, x.2))) ++
        statementsOf priceUpdates T)).map _).Nodup
      rw [writes_append, writes_symbol, List.map_append, List.map_map, List.nodup_append]
      refine ⟨(List.filter_sublist.map Position.id).nodup T.nodup, ih hkeys, ?_⟩
      rintro id hid id' hid' rfl
      obtain ⟨r, hr, rfl⟩ := List.mem_map.1 hid
      obtain ⟨y, hy, hid⟩ := List.mem_map.1 hid'
      obtain ⟨hopen, hsymbol⟩ := mem_writes hy
      have hrow : y.1 = r := row_unique (List.mem_of_mem_filter hopen) (List.mem_of_mem_filter hr) hid
      rw [hrow, (of_decide_eq_true (List.mem_filter.1 hr).2).2] at hsymbol
      exact hx hsymbol

theorem applied_eq_self_iff {steps : List (Position × ℚ)} (hrows : ∀ x ∈ steps, x.1 ∈ T.rows)
    (hnodup : (steps.map (fun x => x.1.id)).Nodup) :
    applied steps T = T ↔ ∀ x ∈ steps, x.1.reprice (x.1.pricing x.2) = x.1 := by
  have hself : applied steps T = T ↔ (applied steps T).rows = T.rows :=
    ⟨congrArg Table.rows, fun h => by cases hT : applied steps T; cases T; rw [hT] at h; cases h; rfl⟩
  rw [hself, applied_rows hnodup]
  constructor
  · intro h x hx
    have hrow := List.map_inj_left.1 (h.trans (List.map_id _).symm) x.1 (hrows x hx)
    rwa [lookup_eq_some_of_mem hnodup hx] at hrow
  · intro h
    refine (List.map_congr_left (fun r hr => ?_)).trans (List.map_id _)
    cases hlookup : lookup (fun x : Position × ℚ => x.1.id) r.id steps with
    | none => rfl
    | some x =>
        obtain ⟨hx, hid⟩ := mem_of_lookup hlookup
        rw [row_unique hr (hrows x hx) hid.symm]
        exact h x hx

theorem applied_take_eq_self_iff (hkeys : (priceUpdates.map Prod.fst).Nodup) (n : ℕ) :
    applied (writes ((statementsOf priceUpdates T).take n)) T = T ↔
      ∀ x ∈ writes ((statementsOf priceUpdates T).take n), x.1.reprice (x.1.pricing x.2) = x.1 := by
  have hsub : (writes ((statementsOf priceUpdates T).take n)).Sublist (writes (statementsOf priceUpdates T)) :=
    (List.take_sublist n _).filterMap id
  refine applied_eq_self_iff (fun x hx => ?_) ((hsub.map _).nodup (writes_nodup hkeys))
  exact List.mem_of_mem_filter (mem_writes (hsub.subset hx)).1

end Steps

section Outcomes

variable (priceUpdates : List (String × ℚ)) (text : String) (n : ℕ) (w : World)

/-- What one transaction has not committed is gone. -/
theorem tradeTrackerDb_atomic : Atomic .tradeTrackerDb priceUpdates text n w := by
  intro e he
  rw [outcome, updateOpenPositionPrices] at he ⊢
  split at he
  next hempty => cases he
  next hne =>
    rw [if_neg hne]
    exact congrArg World.positions
      (committed_of_raised handler broken (failing text n) (TradeDb.updateOpenPositionPrices priceUpdates) w he)

theorem postgresDb_outcome : outcome .postgresDb priceUpdates text n w =
    ((run text n (TradeDb.updateOpenPositionPrices priceUpdates) (w, 0)).1,
      (run text n (TradeDb.updateOpenPositionPrices priceUpdates) (w, 0)).2.1) := by
  rw [outcome, updateOpenPositionPrices]
  split
  next hempty => rw [hempty]; rfl
  · have hrun := statements_autocommit handler broken (failing text n)
      (TradeDb.updateOpenPositionPrices priceUpdates) w 0
    exact congrArg (fun r => (r.1, r.2.1.stored)) hrun

end Outcomes

/-- A call that raises has changed no row exactly when its updates are committed together, or
those before the failure change nothing. -/
theorem atomic_iff (backend : Backend) (priceUpdates : Table (Prod.fst (α := String) (β := ℚ))) (text : String)
    (n : ℕ) (w : World) :
    Atomic backend priceUpdates.rows text n w ↔ Spared backend priceUpdates.rows n w.positions := by
  cases backend with
  | tradeTrackerDb =>
      exact iff_of_true (tradeTrackerDb_atomic priceUpdates.rows text n w) (fun h => by cases h)
  | postgresDb =>
      have hran : Ran text n _ _ 0 w (run text n (TradeDb.updateOpenPositionPrices priceUpdates.rows) (w, 0)) :=
        ran_updates priceUpdates.nodup
      rw [Atomic, postgresDb_outcome]
      generalize run text n (TradeDb.updateOpenPositionPrices priceUpdates.rows) (w, 0) = r at hran
      cases hran with
      | done a ha hn =>
          refine iff_of_true (fun e he => by cases he) (fun _ hlt => ?_)
          omega
      | failed w' j hi hn hw =>
          rw [zero_add] at hn
          rw [Nat.sub_zero] at hw
          dsimp only
          rw [hw, applied_take_eq_self_iff priceUpdates.nodup]
          exact ⟨fun h _ _ => h text rfl, fun h _ _ => h rfl hn⟩

def bought (id : String) : Position :=
  NewPosition.row ⟨"BTCUSDT", "spot", 100, 1, 100, none⟩ id 0

def twoBought : World := ⟨[], 0, ⟨[bought "a", bought "b"], by decide⟩, []⟩

/-- The second update fails, and the first one stays. -/
theorem half_priced : ¬ Atomic .postgresDb [("BTCUSDT", 110)] "connection lost" 2 twoBought :=
  fun h => absurd (congrArg Table.rows (h "connection lost" rfl)) (by decide +kernel)

end Autr.Positions.PriceAtomicity
