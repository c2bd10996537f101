import Autr.Services.NoticeFailure

namespace Autr.Services.ReconcileError

open Autr.Async Autr.Infra Bybit TradeTracker Executor NoticeFailure

def Kept (symbol : String) (T T' : Positions) : Prop := ∀ p, p ∈ openRows symbol T' ↔ p ∈ openRows symbol T

/-- A result that tells of an error comes with the open rows as they were. -/
def Honest (symbol : String) (T : Positions) (x : Except Exc Reconciled × State) : Prop :=
  ∀ e, x.1 = .ok (.error e) → Kept symbol T x.2.1.1.positions

def ErrorKeepsOpen (S : Setting) (answers notices : ℕ → Env) (faults : ℕ → Fault) (symbol : String) (w : World) :
    Prop :=
  Honest symbol w.positions
    (eval (recorder S) (reply answers notices faults) (Executor.reconcile S.bybit.minOrderSize symbol) (startOf w))

/-- The first row to be closed cannot be read, or its update has no effect. -/
def FirstKept (answers : ℕ → Env) (n : ℕ) : Prop := (answers n).fault ≠ .none ∨ (answers (n + 1)).fault = .lost

/-- The writes of a decision have no effect from the first on, or none of them fails. The
decision comes after three calls, and each row that is closed takes three. -/
def AllOrNothing (answers : ℕ → Env) (faults : ℕ → Fault) (minOrderSize e price : ℚ) (L : List Position)
    (T : Positions) : Prop :=
  let dust := e * price < minOrderSize
  let closes := ∀ i < 3 * L.length, (answers (3 + i)).fault = .none
  let insertsAlone := dust ∨ faults 3 ≠ .none ∨ (Inserts (answers 3) T → (answers 3).fault = .none)
  match ReconcileDomain.reconcile (localQty L) e with
  | .noop => True
  | .closeOrphanLocal => faults 3 ≠ .none ∨ FirstKept answers 3 ∨ closes
  | .openMissingLocal => insertsAlone
  | .adjustQty =>
      if L = [] then insertsAlone
      else
        FirstKept answers 3 ∨
          (closes ∧ faults (3 + 3 * L.length) = .none ∧
            (dust ∨ (Inserts (answers (3 + 3 * L.length)) T ∧ (answers (3 + 3 * L.length)).fault = .none)))

section Steps

variable {S : Setting} {answers notices : ℕ → Env} {faults : ℕ → Fault} {symbol : String}

theorem kept_refl (symbol : String) (T : Positions) : Kept symbol T T := fun _ => Iff.rfl

theorem kept_of_view {s s' : State} (h : view s' = view s) : Kept symbol s.1.1.positions s'.1.1.positions := by
  have hpos : s'.1.1.positions = s.1.1.positions := congrArg View.positions h
  rw [hpos]
  exact kept_refl symbol _

theorem not_kept_of_closed {p : Position} {T T' : Positions} (hp : p ∈ openRows symbol T)
    (hclosed : ClosedRow p.id T') : ¬ Kept symbol T T' := by
  intro hkept
  obtain ⟨hmem, hselected⟩ := List.mem_filter.1 ((hkept p).2 hp)
  have hopen := ((selected_open symbol).1 (of_decide_eq_true hselected)).1
  rw [hclosed p hmem rfl] at hopen
  cases hopen

/-- A notice is sent or raises, and touches no row. -/
inductive NoticeRun (faults : ℕ → Fault) (s : State) (x : Except Exc Unit × State) : Prop
  | sent (fault : faults s.2 = .none) (ok : x.1 = .ok ()) (count : x.2.2 = s.2)
      (same : x.2.1.1.positions = s.1.1.positions)
  | raised (fault : faults s.2 ≠ .none) (error : ∃ e, x.1 = .error e)
      (same : x.2.1.1.positions = s.1.1.positions)

theorem notify_run (S : Setting) (answers notices : ℕ → Env) (faults : ℕ → Fault) (notice : Notice) (s : State) :
    NoticeRun faults s (eval (recorder S) (reply answers notices faults) (notify notice) s) := by
  obtain ⟨⟨w, log⟩, n⟩ := s
  rw [notify, eval_perform]
  cases hf : faults n with
  | none =>
      refine .sent hf ?_ ?_ ?_ <;> simp [exec, reply, Fault.apply, Op.isSpotOrder, Silent, hf]
  | lost | late =>
      refine .raised (fun h => Fault.noConfusion (hf.symm.trans h)) ?_ ?_ <;>
        simp [exec, reply, Fault.apply, Op.isSpotOrder, hf]

/-- An insert without effect raises; one with effect adds its row, and may raise all the same. -/
inductive InsertRun (answers : ℕ → Env) (p : NewPosition) (s : State) (x : Except Exc Unit × State) : Prop
  | kept (fault : ¬ Inserts (answers s.2) s.1.1.positions) (error : ∃ e, x.1 = .error e)
      (same : x.2.1.1.positions = s.1.1.positions)
  | done (inserts : Inserts (answers s.2) s.1.1.positions) (fault : (answers s.2).fault = .none) (ok : x.1 = .ok ())
  | late (inserts : Inserts (answers s.2) s.1.1.positions) (fault : (answers s.2).fault ≠ .none)
      (error : ∃ e, x.1 = .error e)
      (rows : x.2.1.1.positions.rows = s.1.1.positions.rows ++ [p.row (answers s.2).uuid (answers s.2).utc])

theorem insert_run (S : Setting) (answers notices : ℕ → Env) (faults : ℕ → Fault) (p : NewPosition) (s : State) :
    InsertRun answers p s (eval (recorder S) (reply answers notices faults) (await (.insertPosition p)) s) := by
  obtain ⟨⟨w, log⟩, n⟩ := s
  rw [eval_perform]
  cases hT : createPosition (answers n).uuid (answers n).utc p w.positions with
  | none =>
      refine .kept (fun h => ?_) ?_ ?_
      · obtain ⟨T, hT', _⟩ := createPosition_fresh (answers n).utc p h.2
        cases hT.symm.trans hT'
      · simp [exec, reply, hT, Op.isSpotOrder]
      · simp [exec, reply, hT, Op.isSpotOrder]
  | some T =>
      obtain ⟨hfresh, hrows⟩ := createPosition_rows hT
      cases hf : (answers n).fault with
      | none =>
          refine .done ⟨fun h => Fault.noConfusion (hf.symm.trans h), hfresh⟩ hf ?_
          simp [exec, reply, Fault.apply, hT, hf, Op.isSpotOrder]
      | late =>
          refine .late ⟨fun h => Fault.noConfusion (hf.symm.trans h), hfresh⟩
            (fun h => Fault.noConfusion (hf.symm.trans h)) ?_ ?_ <;>
            simp [exec, reply, Fault.apply, hT, hf, Op.isSpotOrder, hrows]
      | lost =>
          refine .kept (fun h => h.1 hf) ?_ ?_ <;> simp [exec, reply, Fault.apply, hT, hf, Op.isSpotOrder]

/-- A new row is open, and was not there before. -/
theorem not_kept_of_inserted {price qty utc : ℚ} {id : String} {T T' : Positions}
    (hid : id ∉ T.rows.map Position.id) (hrows : T'.rows = T.rows ++ [(longPosition symbol price qty).row id utc]) :
    ¬ Kept symbol T T' := by
  intro hkept
  have hmem : (longPosition symbol price qty).row id utc ∈ openRows symbol T' := by
    refine List.mem_filter.2 ⟨by rw [hrows]; simp, decide_eq_true ((selected_open symbol).2 ⟨rfl, .inr rfl⟩)⟩
  exact hid (List.mem_map.2 ⟨_, List.mem_of_mem_filter ((hkept _).1 hmem), rfl⟩)

theorem closedRow_inserted {p : Position} {q : NewPosition} {id : String} {utc : ℚ} {T T' : Positions}
    (hp : p.id ∈ T.rows.map Position.id) (hid : id ∉ T.rows.map Position.id) (hclosed : ClosedRow p.id T)
    (hrows : T'.rows = T.rows ++ [q.row id utc]) : ClosedRow p.id T' := by
  intro r hr hrid
  rw [hrows, List.mem_append, List.mem_singleton] at hr
  obtain hr | rfl := hr
  · exact hclosed r hr hrid
  · exact absurd (by rw [show id = p.id from hrid]; exact hp) hid

/-- An error is honest when the rows were kept, and a lie when they were not. -/
theorem honest_error {T : Positions} {x : Except Exc Reconciled × State} (h : ∃ e, x.1 = .error e) :
    Honest symbol T (caught x) ↔ Kept symbol T x.2.1.1.positions := by
  obtain ⟨_ | _, s⟩ := x
  · exact ⟨fun hhonest => hhonest _ rfl, fun hkept _ _ => hkept⟩
  · obtain ⟨e, he⟩ := h
    cases he

theorem honest_ok {T : Positions} {x : Except Exc Reconciled × State} {r : Reconciled} (h : x.1 = .ok r)
    (hr : ∀ e, r ≠ .error e) : Honest symbol T (caught x) := by
  obtain ⟨_ | _, s⟩ := x
  · cases h
  · cases h
    intro e he
    exact absurd (Except.ok.inj he) (hr e)

/-- How the closing of rows, of which there is one, ends for the first of them. -/
inductive FirstClosed (answers : ℕ → Env) (L : List Position) (p : Position) (s : State)
    (x : Except Exc Unit × State) : Prop
  | done (closes : ∀ i < 3 * L.length, (answers (s.2 + i)).fault = .none) (first : ¬ FirstKept answers s.2)
      (ok : x.1 = .ok ()) (count : x.2.2 = s.2 + 3 * L.length)
      (keys : x.2.1.1.positions.rows.map Position.id = s.1.1.positions.rows.map Position.id)
      (closed : ClosedRow p.id x.2.1.1.positions)
  | cut (fails : ¬ ∀ i < 3 * L.length, (answers (s.2 + i)).fault = .none) (first : ¬ FirstKept answers s.2)
      (error : ∃ e, x.1 = .error e) (closed : ClosedRow p.id x.2.1.1.positions)
  | kept (first : FirstKept answers s.2) (error : ∃ e, x.1 = .error e) (same : view x.2 = view s)

theorem closeAll_firstClosed (S : Setting) (answers notices : ℕ → Env) (faults : ℕ → Fault) {p : Position}
    {L : List Position} {s : State} (hL : Listed (p :: L) s.1.1.positions) (closePrice : ℚ) :
    FirstClosed answers (p :: L) p s
      (eval (recorder S) (reply answers notices faults) (closeAll (p :: L) closePrice) s) := by
  have hp := hL.mem p List.mem_cons_self
  obtain ⟨hkept, hclosed⟩ := closeAll_first S answers notices faults (L := L) hp.1 hp.2 closePrice
  have hrun := closeAll_run S answers notices faults hL closePrice
  generalize eval (recorder S) (reply answers notices faults) (closeAll (p :: L) closePrice) s = x
    at hkept hclosed hrun ⊢
  have hlen : 2 ≤ 3 * (p :: L).length := by
    rw [List.length_cons]
    omega
  cases hrun with
  | done fault ok count keys =>
      have hfirst : ¬ FirstKept answers s.2 := by
        rintro (hread | hwrite)
        · exact hread (fault 0 (by omega))
        · exact Fault.noConfusion ((fault 1 (by omega)).symm.trans hwrite)
      exact .done fault hfirst ok count keys (hclosed hfirst)
  | failed fault error =>
      by_cases hfirst : FirstKept answers s.2
      · exact .kept hfirst error (hkept hfirst)
      · refine .cut (fun hcloses => ?_) hfirst error (hclosed hfirst)
        obtain ⟨i, hi, hfault⟩ := fault
        exact hfault (hcloses i hi)

theorem closeAll_nil (closePrice : ℚ) (f : Op → ℕ → Env) (s : State) :
    eval (recorder S) f (closeAll [] closePrice) s = (.ok (), s) := rfl

/-- What follows a notice decides, unless the notice raises: that error is honest when no row
was touched before. -/
theorem honest_notice_then (S : Setting) (answers notices : ℕ → Env) (faults : ℕ → Fault) (s : State)
    (notice : Notice) (q : Svc Reconciled) {T : Positions} {P : Prop}
    (hsent : ∀ s' : State, s'.2 = s.2 → s'.1.1.positions = s.1.1.positions →
      (Honest symbol T (caught (eval (recorder S) (reply answers notices faults) q s')) ↔ P)) :
    Honest symbol T (caught (eval (recorder S) (reply answers notices faults) (do notify notice; q) s)) ↔
      (faults s.2 = .none → P) ∧ (faults s.2 ≠ .none → Kept symbol T s.1.1.positions) := by
  have hnotice := notify_run S answers notices faults notice s
  rw [eval_bind]
  generalize eval (recorder S) (reply answers notices faults) (notify notice) s = x at hnotice ⊢
  obtain ⟨r, s'⟩ := x
  cases hnotice with
  | raised fault error same =>
      obtain ⟨e, rfl⟩ := error
      refine (honest_error ⟨e, rfl⟩).trans ?_
      dsimp only at same ⊢
      rw [same]
      exact ⟨fun hkept => ⟨fun h => absurd h fault, fun _ => hkept⟩, fun h => h.2 fault⟩
  | sent fault ok count same =>
      dsimp only at ok count same
      subst ok
      exact (hsent s' count same).trans ⟨fun hP => ⟨fun _ => hP, fun h => absurd fault h⟩, fun h => h.1 fault⟩

/-- As long as every row is kept, an error of the notice is honest. -/
theorem honest_notice_first (S : Setting) (answers notices : ℕ → Env) (faults : ℕ → Fault) (s : State)
    (notice : Notice) (q : Svc Reconciled) {P : Prop}
    (hsent : ∀ s' : State, s'.2 = s.2 → s'.1.1.positions = s.1.1.positions →
      (Honest symbol s.1.1.positions (caught (eval (recorder S) (reply answers notices faults) q s')) ↔ P)) :
    Honest symbol s.1.1.positions
        (caught (eval (recorder S) (reply answers notices faults) (do notify notice; q) s)) ↔
      faults s.2 ≠ .none ∨ P := by
  refine (honest_notice_then S answers notices faults s notice q hsent).trans ?_
  rw [and_iff_left fun _ => kept_refl symbol _]
  exact Decidable.imp_iff_not_or

/-- Once a row has been closed, an error of the notice is a lie. -/
theorem honest_notice_closed (S : Setting) (answers notices : ℕ → Env) (faults : ℕ → Fault) {p : Position}
    {T : Positions} {s : State} (hp : p ∈ openRows symbol T) (hclosed : ClosedRow p.id s.1.1.positions)
    (notice : Notice) (q : Svc Reconciled) {P : Prop}
    (hsent : ∀ s' : State, s'.2 = s.2 → s'.1.1.positions = s.1.1.positions →
      (Honest symbol T (caught (eval (recorder S) (reply answers notices faults) q s')) ↔ P)) :
    Honest symbol T (caught (eval (recorder S) (reply answers notices faults) (do notify notice; q) s)) ↔
      faults s.2 = .none ∧ P := by
  refine (honest_notice_then S answers notices faults s notice q hsent).trans ?_
  have hnot := not_kept_of_closed hp hclosed
  constructor
  · rintro ⟨hP, hkept⟩
    have hfault : faults s.2 = .none := by_contra fun h => hnot (hkept h)
    exact ⟨hfault, hP hfault⟩
  · rintro ⟨hfault, hP⟩
    exact ⟨fun _ => hP, fun h => absurd hfault h⟩

theorem honest_orphan (S : Setting) (answers notices : ℕ → Env) (faults : ℕ → Fault) {p : Position}
    {L : List Position} {s : State} (hs : s.2 = 3) (hL : Listed (p :: L) s.1.1.positions)
    (hp : p ∈ openRows symbol s.1.1.positions) (notice : Notice) {result : Reconciled}
    (hresult : ∀ e, result ≠ .error e) (closePrice : ℚ) :
    Honest symbol s.1.1.positions (caught (eval (recorder S) (reply answers notices faults)
        (do notify notice; closeAll (p :: L) closePrice; return result) s)) ↔
      faults 3 ≠ .none ∨ FirstKept answers 3 ∨ ∀ i < 3 * (p :: L).length, (answers (3 + i)).fault = .none := by
  rw [show faults 3 = faults s.2 by rw [hs]]
  refine honest_notice_first S answers notices faults s notice _ fun s' count same => ?_
  rw [hs] at count
  have hclosing := closeAll_firstClosed S answers notices faults (same ▸ hL) closePrice
  rw [eval_bind]
  generalize eval (recorder S) (reply answers notices faults) (closeAll (p :: L) closePrice) s' = x at hclosing ⊢
  obtain ⟨r, s''⟩ := x
  rw [← same]
  cases hclosing with
  | done closes first ok count' keys closed =>
      dsimp only at ok
      subst ok
      rw [count] at closes
      exact iff_of_true (honest_ok rfl hresult) (.inr closes)
  | cut fails first error closed =>
      obtain ⟨e, rfl⟩ := error
      rw [count] at first fails
      refine iff_of_false (fun hhonest => ?_) (not_or.2 ⟨first, fails⟩)
      exact not_kept_of_closed (same ▸ hp) closed ((honest_error ⟨e, rfl⟩).1 hhonest)
  | kept first error hview =>
      obtain ⟨e, rfl⟩ := error
      exact iff_of_true ((honest_error ⟨e, rfl⟩).2 (kept_of_view hview)) (.inl (count ▸ first))

theorem honest_missing (S : Setting) (answers notices : ℕ → Env) (faults : ℕ → Fault) (s : State)
    (notice : Notice) {result : Reconciled} (hresult : ∀ e, result ≠ .error e) (price qty : ℚ) :
    Honest symbol s.1.1.positions (caught (eval (recorder S) (reply answers notices faults)
        (do notify notice; await (.insertPosition (longPosition symbol price qty)); return result) s)) ↔
      faults s.2 ≠ .none ∨ (Inserts (answers s.2) s.1.1.positions → (answers s.2).fault = .none) := by
  refine honest_notice_first S answers notices faults s notice _ fun s' count same => ?_
  have hinsert := insert_run S answers notices faults (longPosition symbol price qty) s'
  rw [eval_bind]
  generalize eval (recorder S) (reply answers notices faults)
    (await (.insertPosition (longPosition symbol price qty))) s' = x at hinsert ⊢
  obtain ⟨r, s''⟩ := x
  rw [← count, ← same]
  cases hinsert with
  | kept hno error hsame =>
      obtain ⟨e, rfl⟩ := error
      refine iff_of_true ((honest_error ⟨e, rfl⟩).2 ?_) (fun h => absurd h hno)
      dsimp only at hsame ⊢
      rw [hsame]
      exact kept_refl symbol _
  | done inserts fault ok =>
      dsimp only at ok
      subst ok
      exact iff_of_true (honest_ok rfl hresult) (fun _ => fault)
  | late inserts fault error rows =>
      obtain ⟨e, rfl⟩ := error
      refine iff_of_false (fun hhonest => ?_) (fun h => fault (h inserts))
      exact not_kept_of_inserted inserts.2 rows ((honest_error ⟨e, rfl⟩).1 hhonest)

theorem honest_notice (S : Setting) (answers notices : ℕ → Env) (faults : ℕ → Fault) (s : State) (notice : Notice)
    {result : Reconciled} (hresult : ∀ e, result ≠ .error e) :
    Honest symbol s.1.1.positions
      (caught (eval (recorder S) (reply answers notices faults) (do notify notice; return result) s)) :=
  (honest_notice_first S answers notices faults s notice _
    fun _ _ _ => iff_of_true (honest_ok rfl hresult) trivial).2 (.inr trivial)

theorem honest_notice_after_close (S : Setting) (answers notices : ℕ → Env) (faults : ℕ → Fault) {p : Position}
    {T : Positions} {s : State} (hp : p ∈ openRows symbol T) (hclosed : ClosedRow p.id s.1.1.positions)
    (notice : Notice) {result : Reconciled} (hresult : ∀ e, result ≠ .error e) :
    Honest symbol T (caught (eval (recorder S) (reply answers notices faults)
        (do notify notice; return result) s)) ↔ faults s.2 = .none :=
  (honest_notice_closed S answers notices faults hp hclosed notice _
    fun _ _ _ => iff_of_true (honest_ok rfl hresult) trivial).trans (and_iff_left trivial)

theorem honest_insert_after_close (S : Setting) (answers notices : ℕ → Env) (faults : ℕ → Fault) {p : Position}
    {T : Positions} {s : State} (hp : p ∈ openRows symbol T) (hclosed : ClosedRow p.id s.1.1.positions)
    (hkey : p.id ∈ s.1.1.positions.rows.map Position.id) (notice : Notice) {result : Reconciled}
    (hresult : ∀ e, result ≠ .error e) (q : NewPosition) :
    Honest symbol T (caught (eval (recorder S) (reply answers notices faults)
        (do notify notice; await (.insertPosition q); return result) s)) ↔
      faults s.2 = .none ∧ Inserts (answers s.2) s.1.1.positions ∧ (answers s.2).fault = .none := by
  refine honest_notice_closed S answers notices faults hp hclosed notice _ fun s' count same => ?_
  have hinsert := insert_run S answers notices faults q s'
  rw [eval_bind]
  generalize eval (recorder S) (reply answers notices faults) (await (.insertPosition q)) s' = x at hinsert ⊢
  obtain ⟨r, s''⟩ := x
  rw [← count, ← same]
  cases hinsert with
  | kept hno error hsame =>
      obtain ⟨e, rfl⟩ := error
      refine iff_of_false (fun hhonest => ?_) (fun h => hno h.1)
      dsimp only at hsame
      exact not_kept_of_closed hp (hsame.trans same ▸ hclosed) ((honest_error ⟨e, rfl⟩).1 hhonest)
  | done inserts fault ok =>
      dsimp only at ok
      subst ok
      exact iff_of_true (honest_ok rfl hresult) ⟨inserts, fault⟩
  | late inserts fault error rows =>
      obtain ⟨e, rfl⟩ := error
      refine iff_of_false (fun hhonest => ?_) (fun h => fault h.2)
      have hgone := closedRow_inserted (same ▸ hkey) inserts.2 (same ▸ hclosed) rows
      exact not_kept_of_closed hp hgone ((honest_error ⟨e, rfl⟩).1 hhonest)

theorem honest_adjust (S : Setting) (answers notices : ℕ → Env) (faults : ℕ → Fault) {p : Position}
    {L : List Position} {s : State} (hs : s.2 = 3) (hL : Listed (p :: L) s.1.1.positions)
    (hp : p ∈ openRows symbol s.1.1.positions) (minOrderSize e price : ℚ) (dustNotice notice : Notice)
    {dustResult result : Reconciled} (hdustResult : ∀ e, dustResult ≠ .error e) (hresult : ∀ e, result ≠ .error e)
    (q : NewPosition) :
    Honest symbol s.1.1.positions (caught (eval (recorder S) (reply answers notices faults)
        (do
          closeAll (p :: L) price
          if e * price < minOrderSize then
            notify dustNotice
            return dustResult
          else
            notify notice
            await (.insertPosition q)
            return result) s)) ↔
      FirstKept answers 3 ∨
        ((∀ i < 3 * (p :: L).length, (answers (3 + i)).fault = .none) ∧
          faults (3 + 3 * (p :: L).length) = .none ∧
          (e * price < minOrderSize ∨ (Inserts (answers (3 + 3 * (p :: L).length)) s.1.1.positions ∧
            (answers (3 + 3 * (p :: L).length)).fault = .none))) := by
  have hclosing := closeAll_firstClosed S answers notices faults hL price
  have hkey : p.id ∈ s.1.1.positions.rows.map Position.id := List.mem_map_of_mem (List.mem_of_mem_filter hp)
  rw [eval_bind]
  generalize eval (recorder S) (reply answers notices faults) (closeAll (p :: L) price) s = x at hclosing ⊢
  obtain ⟨r, s'⟩ := x
  cases hclosing with
  | kept first error hview =>
      obtain ⟨e, rfl⟩ := error
      exact iff_of_true ((honest_error ⟨e, rfl⟩).2 (kept_of_view hview)) (.inl (hs ▸ first))
  | cut fails first error closed =>
      obtain ⟨e, rfl⟩ := error
      rw [hs] at fails first
      refine iff_of_false (fun hhonest => ?_) (not_or.2 ⟨first, fun h => fails h.1⟩)
      exact not_kept_of_closed hp closed ((honest_error ⟨e, rfl⟩).1 hhonest)
  | done closes first ok count keys closed =>
      dsimp only at ok count keys closed
      subst ok
      rw [hs] at closes first count
      rw [or_iff_right first, and_iff_right closes, ← count]
      dsimp only
      have hinserts : Inserts (answers s'.2) s.1.1.positions ↔ Inserts (answers s'.2) s'.1.1.positions := by
        rw [Inserts, Inserts, keys]
      split
      next hdust =>
        rw [honest_notice_after_close S answers notices faults hp closed _ hdustResult]
        exact ⟨fun h => ⟨h, .inl hdust⟩, fun h => h.1⟩
      next hdust =>
        rw [honest_insert_after_close S answers notices faults hp closed (keys ▸ hkey) _ hresult, or_iff_right hdust,
          hinserts]

theorem honest_decision_iff (S : Setting) (answers notices : ℕ → Env) (faults : ℕ → Fault) (minOrderSize e price : ℚ)
    (symbol : String) {s : State} (hs : s.2 = 3) :
    let L := getPositions (some .open) symbol defaultLimit s.1.1.positions
    Honest symbol s.1.1.positions (caught (eval (recorder S) (reply answers notices faults)
        (applyDecision minOrderSize symbol e L price) s)) ↔
      AllOrNothing answers faults minOrderSize e price L s.1.1.positions := by
  intro L
  have hlisted : Listed L s.1.1.positions := listed_open symbol s.1.1.positions
  have hopen : ∀ p ∈ L, p ∈ openRows symbol s.1.1.positions := fun p hp => Evaluate.mem_openRows_of_listed hp
  rw [applyDecision, AllOrNothing]
  generalize L = L at hlisted hopen
  cases hdec : ReconcileDomain.reconcile (localQty L) e with
  | noop =>
      dsimp only
      exact iff_of_true (honest_ok (r := .noop) rfl (by simp)) trivial
  | closeOrphanLocal =>
      dsimp only
      cases L with
      | nil => exact absurd (Reconcile.decision_closeOrphanLocal hdec).1 (lt_irrefl 0)
      | cons p rest =>
          refine honest_orphan S answers notices faults hs hlisted (hopen p List.mem_cons_self) _ (fun _ h => ?_) price
          cases h
  | openMissingLocal =>
      dsimp only
      rw [← hs]
      split
      next hdust =>
        exact iff_of_true (honest_ok (r := .dustIgnored) rfl (by simp)) (.inl hdust)
      next hdust =>
        rw [or_iff_right hdust]
        refine honest_missing S answers notices faults s _ (fun _ h => ?_) price e
        cases h
  | adjustQty =>
      dsimp only
      cases L with
      | nil =>
          rw [if_pos rfl, ← hs, eval_bind, closeAll_nil]
          dsimp only
          split
          next hdust =>
            refine iff_of_true (honest_notice S answers notices faults s _ (fun _ h => ?_)) (.inl hdust)
            cases h
          next hdust =>
            rw [or_iff_right hdust]
            refine honest_missing S answers notices faults s _ (fun _ h => ?_) price e
            cases h
      | cons p rest =>
          rw [if_neg (List.cons_ne_nil _ _)]
          refine honest_adjust S answers notices faults hs hlisted (hopen p List.mem_cons_self) minOrderSize e price _ _
            (fun _ h => ?_) (fun _ h => ?_) _ <;> cases h

end Steps

/-- A reconciliation that reports an error has left the open rows as they were exactly when
its writes have no effect from the first on or none of them fails. -/
theorem error_keeps_open_iff (S : Setting) (answers notices : ℕ → Env) (faults : ℕ → Fault) (symbol : String)
    (w : World) :
    ErrorKeepsOpen S answers notices faults symbol w ↔
      (Decides S answers S.bybit.minOrderSize symbol w →
        AllOrNothing answers faults S.bybit.minOrderSize (Reconcile.exchangeQty S (answers 0) symbol w)
          (answers 2).price (getPositions (some .open) symbol defaultLimit w.positions) w.positions) := by
  obtain ⟨hdecided, hundecided⟩ := reconcile_run S answers notices faults S.bybit.minOrderSize symbol w
  unfold ErrorKeepsOpen
  by_cases h : Decides S answers S.bybit.minOrderSize symbol w
  · rw [hdecided h]
    exact (honest_decision_iff S answers notices faults S.bybit.minOrderSize _ _ symbol
      (s := decisionState answers w) rfl).trans ⟨fun hall _ => hall, fun hall => hall h⟩
  · exact iff_of_true (fun _ _ => kept_of_view (hundecided h)) (fun hdecides => absurd hdecides h)

/-- Every call is answered but the insert of the replacement. -/
def lostReplacement (n : ℕ) : Env := if n = 9 then { Env.trading with fault := .lost } else Env.trading

theorem adjusted_rows_lost : ¬ ∀ (S : Setting) (answers notices : ℕ → Env) (faults : ℕ → Fault) (symbol : String)
    (w : World), ErrorKeepsOpen S answers notices faults symbol w := by
  intro h
  have hkept := h defaults lostReplacement (fun _ => Env.plain) (fun _ => .none) "BTCUSDT" Reconcile.twoRows .connection
    (by decide +kernel) (Reconcile.positionOf "a" "BTCUSDT" (3 / 2) 1)
  revert hkept
  decide +kernel

end Autr.Services.ReconcileError
