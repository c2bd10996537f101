import Mathlib.Data.Finset.Sort

namespace Autr.Store

variable {α κ β : Type} [DecidableEq κ] (key : α → κ)

def lookup (k : κ) (rows : List α) : Option α := rows.find? (fun r => key r = k)

def replaceRow (rows : List α) (r : α) : List α := rows.filter (fun x => key x ≠ key r) ++ [r]

/-- Write a row only if its key is new. -/
def keepRow (rows : List α) (r : α) : List α :=
  if rows.any (fun x => key x = key r) then rows else rows ++ [r]

/-- The row a history of writes has under a key in the end, when later writes win. -/
def lastOf (k : κ) (history : List α) : Option α := lookup key k history.reverse

structure Table where
  rows : List α
  nodup : (rows.map key).Nodup

variable {key}

def Table.empty : Table key := ⟨[], List.nodup_nil⟩

theorem replaceRow_nodup {rows : List α} (h : (rows.map key).Nodup) (r : α) :
    ((replaceRow key rows r).map key).Nodup := by
  rw [replaceRow, List.map_append, List.nodup_append]
  refine ⟨(List.Sublist.map key List.filter_sublist).nodup h, by simp, ?_⟩
  intro k hk k' hk'
  obtain ⟨x, hx, rfl⟩ := List.mem_map.1 hk
  simp only [List.map_cons, List.map_nil, List.mem_singleton] at hk'
  subst hk'
  simpa using (List.mem_filter.1 hx).2

theorem keepRow_nodup {rows : List α} (h : (rows.map key).Nodup) (r : α) :
    ((keepRow key rows r).map key).Nodup := by
  unfold keepRow
  split
  · exact h
  · next hn =>
      rw [List.map_append, List.nodup_append]
      refine ⟨h, by simp, ?_⟩
      intro k hk k' hk'
      obtain ⟨x, hx, rfl⟩ := List.mem_map.1 hk
      simp only [List.map_cons, List.map_nil, List.mem_singleton] at hk'
      subst hk'
      intro he
      exact hn (List.any_eq_true.2 ⟨x, hx, by simpa using he⟩)

def Table.replace (T : Table key) (r : α) : Table key := ⟨replaceRow key T.rows r, replaceRow_nodup T.nodup r⟩

def Table.keep (T : Table key) (r : α) : Table key := ⟨keepRow key T.rows r, keepRow_nodup T.nodup r⟩

def Table.insert (T : Table key) (r : α) : Option (Table key) :=
  if T.rows.any (fun x => key x = key r) then none else some (T.keep r)

theorem insert_eq_some {T : Table key} {r : α} (h : ∀ x ∈ T.rows, key x ≠ key r) :
    ∃ T', T.insert r = some T' ∧ T'.rows = T.rows ++ [r] := by
  have hn : T.rows.any (fun x => key x = key r) = false := by simpa using h
  exact ⟨T.keep r, by simp [Table.insert, hn], by simp [Table.keep, keepRow, hn]⟩

def Table.modify (T : Table key) (k : κ) (f : α → α) (hf : ∀ r, key (f r) = key r) : Table key where
  rows := T.rows.map (fun r => if key r = k then f r else r)
  nodup := by
    have hk : ∀ r, key (if key r = k then f r else r) = key r := fun r => by split <;> simp [hf]
    simpa [Function.comp_def, hk] using T.nodup

theorem lookup_append (k : κ) (xs ys : List α) :
    lookup key k (xs ++ ys) = (lookup key k xs).or (lookup key k ys) := by
  simp [lookup, List.find?_append]

theorem lookup_cons (k : κ) (r : α) (rows : List α) :
    lookup key k (r :: rows) = if key r = k then some r else lookup key k rows := by
  by_cases h : key r = k <;> simp [lookup, h]

theorem lookup_singleton (k : κ) (r : α) : lookup key k [r] = if key r = k then some r else none := by
  by_cases h : key r = k <;> simp [lookup, h]

theorem lookup_filter_ne (k k' : κ) (rows : List α) :
    lookup key k (rows.filter (fun x => key x ≠ k')) = if k' = k then none else lookup key k rows := by
  induction rows with
  | nil => simp [lookup]
  | cons x xs ih =>
      simp only [lookup] at ih ⊢
      by_cases hx : key x = k' <;> by_cases hk : k' = k <;> simp_all [List.find?_cons]

theorem lookup_replaceRow (k : κ) (rows : List α) (r : α) :
    lookup key k (replaceRow key rows r) = if key r = k then some r else lookup key k rows := by
  rw [replaceRow, lookup_append, lookup_singleton, lookup_filter_ne]
  by_cases h : key r = k <;> simp [h]

theorem lookup_keepRow (k : κ) (rows : List α) (r : α) :
    lookup key k (keepRow key rows r) = (lookup key k rows).or (if key r = k then some r else none) := by
  unfold keepRow
  split
  · next h =>
      by_cases hk : key r = k
      · obtain ⟨x, hx, hxr⟩ := List.any_eq_true.1 h
        have hs : (lookup key k rows).isSome := by
          rw [lookup, List.find?_isSome]
          exact ⟨x, hx, by simpa [← hk] using hxr⟩
        obtain ⟨y, hy⟩ := Option.isSome_iff_exists.1 hs
        simp [hy]
      · simp [hk]
  · rw [lookup_append, lookup_singleton]

theorem lookup_foldl_replaceRow (k : κ) (history rows : List α) :
    lookup key k (history.foldl (replaceRow key) rows) = (lastOf key k history).or (lookup key k rows) := by
  induction history generalizing rows with
  | nil => simp [lastOf, lookup]
  | cons r history ih =>
      rw [List.foldl_cons, ih, lookup_replaceRow, lastOf, lastOf, List.reverse_cons, lookup_append,
        lookup_singleton, Option.or_assoc]
      congr 1
      split <;> simp

theorem lookup_foldl_keepRow (k : κ) (history rows : List α) :
    lookup key k (history.foldl (keepRow key) rows) = (lookup key k rows).or (lookup key k history) := by
  induction history generalizing rows with
  | nil => simp [lookup]
  | cons r history ih =>
      rw [List.foldl_cons, ih, lookup_keepRow, Option.or_assoc, ← lookup_singleton, ← lookup_append]
      rfl

theorem lookup_eq_none (k : κ) (rows : List α) : lookup key k rows = none ↔ ∀ r ∈ rows, key r ≠ k := by
  simp [lookup]

theorem lookup_eq_some_of_mem {rows : List α} (h : (rows.map key).Nodup) {r : α} (hr : r ∈ rows) :
    lookup key (key r) rows = some r := by
  induction rows with
  | nil => simp at hr
  | cons x xs ih =>
      obtain ⟨hx, hn⟩ := List.nodup_cons.1 (by simpa only [List.map_cons] using h)
      rcases List.mem_cons.1 hr with rfl | hr
      · simp [lookup]
      · have hne : key x ≠ key r := fun he => hx (he ▸ List.mem_map_of_mem hr)
        simpa [lookup, hne] using ih hn hr

theorem lookup_filter_of_mem {rows : List α} (h : (rows.map key).Nodup) {r : α} (hr : r ∈ rows) (p : α → Bool) :
    lookup key (key r) (rows.filter p) = if p r then some r else none := by
  have hnodup : ((rows.filter p).map key).Nodup := (List.Sublist.map key List.filter_sublist).nodup h
  split
  · next hp => exact lookup_eq_some_of_mem hnodup (List.mem_filter.2 ⟨hr, hp⟩)
  · next hp =>
      refine (lookup_eq_none _ _).2 (fun q hq he => hp ?_)
      have hqr : q = r := List.inj_on_of_nodup_map h (List.mem_of_mem_filter hq) hr he
      exact hqr ▸ (List.mem_filter.1 hq).2

theorem mem_of_lookup {k : κ} {rows : List α} {r : α} (h : lookup key k rows = some r) : r ∈ rows ∧ key r = k :=
  ⟨List.mem_of_find?_eq_some h, by simpa using List.find?_some h⟩

theorem lastOf_eq_none (k : κ) (history : List α) : lastOf key k history = none ↔ lookup key k history = none := by
  simp [lastOf, lookup]

section Newest

variable [LinearOrder β] (rank : α → β)

/-- A query ordered by a column, the greatest value first, with a limit. -/
def newest (limit : ℕ) (rows : List α) : List α :=
  (rows.insertionSort (fun a b => rank b ≤ rank a)).take limit

theorem newest_perm {limit : ℕ} {rows : List α} (h : rows.length ≤ limit) : (newest rank limit rows).Perm rows := by
  rw [newest, List.take_of_length_le (by rwa [List.length_insertionSort])]
  exact List.perm_insertionSort _ rows

theorem mem_newest {limit : ℕ} {rows : List α} {r : α} (h : r ∈ newest rank limit rows) : r ∈ rows :=
  (List.mem_insertionSort _).1 (List.mem_of_mem_take h)

theorem newest_eq_nil {limit : ℕ} {rows : List α} (hlimit : limit ≠ 0) :
    newest rank limit rows = [] ↔ rows = [] := by
  rw [newest, List.take_eq_nil_iff, or_iff_right hlimit, ← List.length_eq_zero_iff, List.length_insertionSort,
    List.length_eq_zero_iff]

/-- What heads the listing is greatest. -/
theorem rank_le_of_newest {limit : ℕ} {rows newer : List α} {r : α} (h : newest rank limit rows = r :: newer)
    {x : α} (hx : x ∈ rows) : rank x ≤ rank r := by
  have hsorted := List.pairwise_insertionSort (fun a b => rank b ≤ rank a) rows
  have hmem : x ∈ rows.insertionSort (fun a b => rank b ≤ rank a) := (List.mem_insertionSort _).2 hx
  unfold newest at h
  cases hsort : rows.insertionSort (fun a b => rank b ≤ rank a) with
  | nil => simp [hsort] at hmem
  | cons y ys =>
      rw [hsort] at h hsorted hmem
      cases limit with
      | zero => cases h
      | succ limit =>
          obtain ⟨rfl, -⟩ := List.cons_eq_cons.1 h
          rcases List.mem_cons.1 hmem with rfl | hmem
          · exact le_rfl
          · exact List.rel_of_pairwise_cons hsorted hmem

theorem newest_map (f : α → α) (hf : ∀ r, rank (f r) = rank r) (limit : ℕ) (rows : List α) :
    newest rank limit (rows.map f) = (newest rank limit rows).map f := by
  rw [newest, newest, List.map_take, List.map_insertionSort _ (fun a b => rank b ≤ rank a) f rows]
  intro a _ b _
  rw [hf, hf]

/-- A row added last with the greatest rank heads the listing. -/
theorem newest_append_greatest (limit : ℕ) (rows : List α) (r : α) (h : ∀ x ∈ rows, rank x < rank r) :
    newest rank (limit + 1) (rows ++ [r]) = r :: newest rank limit rows := by
  have hs : (rows ++ [r]).insertionSort (fun a b => rank b ≤ rank a) =
      r :: rows.insertionSort (fun a b => rank b ≤ rank a) := by
    induction rows with
    | nil => rfl
    | cons x xs ih =>
        rw [List.cons_append, List.insertionSort_cons, ih (fun y hy => h y (List.mem_cons_of_mem _ hy)),
          List.orderedInsert_cons, if_neg (not_le.2 (h x List.mem_cons_self)), List.insertionSort_cons]
  rw [newest, hs, List.take_succ_cons, newest]

theorem map_rank_insertionSort (rows : List α) (h : (rows.map rank).Nodup) :
    (rows.insertionSort (fun a b => rank b ≤ rank a)).map rank = (rows.map rank).toFinset.sort (· ≥ ·) := by
  have hp : ((rows.insertionSort (fun a b => rank b ≤ rank a)).map rank).Perm
      ((rows.map rank).toFinset.sort (· ≥ ·)) := by
    refine ((List.perm_insertionSort _ rows).map rank).trans ?_
    refine (List.perm_ext_iff_of_nodup h (Finset.sort_nodup _ _)).2 (fun b => ?_)
    simp
  refine hp.eq_of_pairwise' ?_ (Finset.pairwise_sort _ _)
  rw [List.pairwise_map]
  have : IsTrans α (fun a b => rank b ≤ rank a) := ⟨fun _ _ _ hab hbc => le_trans hbc hab⟩
  have : Std.Total (fun a b : α => rank b ≤ rank a) := ⟨fun a b => le_total (rank b) (rank a)⟩
  exact List.pairwise_insertionSort _ rows

/-- A listing by a unique rank depends on which ranks occur and on the row under each. -/
theorem newest_eq_filterMap (limit : ℕ) (rows : List α) (h : (rows.map rank).Nodup)
    (look : β → Option α) (hl : ∀ r ∈ rows, look (rank r) = some r) :
    newest rank limit rows = (((rows.map rank).toFinset.sort (· ≥ ·)).take limit).filterMap look := by
  rw [newest, ← map_rank_insertionSort rank rows h, ← List.map_take, List.filterMap_map]
  symm
  refine (List.filterMap_congr (fun r hr => ?_)).trans List.filterMap_some
  exact hl r ((List.mem_insertionSort _).1 (List.mem_of_mem_take hr))

end Newest

end Autr.Store
