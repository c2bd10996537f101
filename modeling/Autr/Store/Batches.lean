import Autr.Store.Keyed

namespace Autr.Store

variable {α κ : Type} {key : α → κ}

/-- A batch of writes brings its own rows and no others, and no key is lost. -/
structure Batch (written : List α) (T T' : Table key) : Prop where
  origin : ∀ r ∈ T'.rows, r ∈ T.rows ∨ r ∈ written
  keys : ∀ r ∈ T.rows, ∃ r' ∈ T'.rows, key r' = key r

theorem Batch.refl (written : List α) (T : Table key) : Batch written T T :=
  ⟨fun _ hr => .inl hr, fun r hr => ⟨r, hr, rfl⟩⟩

theorem Batch.cons {r : α} {written : List α} {T T₁ T' : Table key} (h : Batch [r] T T₁)
    (h' : Batch written T₁ T') : Batch (r :: written) T T' := by
  refine ⟨fun x hx => ?_, fun x hx => ?_⟩
  · rcases h'.origin x hx with hx | hx
    · rcases h.origin x hx with hx | hx
      · exact .inl hx
      · rw [List.mem_singleton.1 hx]
        exact .inr List.mem_cons_self
    · exact .inr (List.mem_cons_of_mem r hx)
  · obtain ⟨y, hy, hkey⟩ := h.keys x hx
    obtain ⟨z, hz, hkey'⟩ := h'.keys y hy
    exact ⟨z, hz, hkey'.trans hkey⟩

theorem batch_foldl {write : Table key → α → Table key} (hwrite : ∀ T r, Batch [r] T (write T r))
    (written : List α) (T : Table key) : Batch written T (written.foldl write T) := by
  induction written generalizing T with
  | nil => exact Batch.refl [] T
  | cons r written ih => exact (hwrite T r).cons (ih (write T r))

variable [DecidableEq κ]

theorem batch_replace (T : Table key) (r : α) : Batch [r] T (T.replace r) := by
  refine ⟨fun x hx => ?_, fun x hx => ?_⟩
  · rcases List.mem_append.1 hx with hx | hx
    · exact .inl (List.mem_of_mem_filter hx)
    · exact .inr hx
  · by_cases hkey : key x = key r
    · exact ⟨r, List.mem_append_right _ (List.mem_singleton_self r), hkey.symm⟩
    · exact ⟨x, List.mem_append_left _ (List.mem_filter.2 ⟨hx, by simpa using hkey⟩), rfl⟩

/-- A write that leaves taken keys alone keeps every row. -/
theorem mem_keep_of_mem {T : Table key} {x : α} (hx : x ∈ T.rows) (r : α) : x ∈ (T.keep r).rows := by
  change x ∈ keepRow key T.rows r
  unfold keepRow
  split
  · exact hx
  · exact List.mem_append_left _ hx

theorem batch_keep (T : Table key) (r : α) : Batch [r] T (T.keep r) := by
  refine ⟨fun x hx => ?_, fun x hx => ⟨x, mem_keep_of_mem hx r, rfl⟩⟩
  change x ∈ keepRow key T.rows r at hx
  unfold keepRow at hx
  split at hx
  · exact .inl hx
  · exact List.mem_append.1 hx

theorem mem_foldl_keep {T : Table key} {x : α} (hx : x ∈ T.rows) (written : List α) :
    x ∈ (written.foldl Table.keep T).rows := by
  induction written generalizing T with
  | nil => exact hx
  | cons r written ih => exact ih (mem_keep_of_mem hx r)

end Autr.Store
