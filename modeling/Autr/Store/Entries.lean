import Mathlib.Data.List.Nodup

namespace Autr.Store

variable {κ β : Type} [BEq κ] [LawfulBEq κ] {entries entries' : List (κ × β)} {key other : κ}

theorem lookup_cons_of_ne (h : other ≠ key) (value : β) (entries : List (κ × β)) :
    List.lookup other ((key, value) :: entries) = entries.lookup other := by
  rw [List.lookup_cons, beq_false_of_ne h]

theorem lookup_isSome_iff_mem (entries : List (κ × β)) (key : κ) :
    (entries.lookup key).isSome ↔ key ∈ entries.map Prod.fst := by
  induction entries with
  | nil => simp
  | cons entry entries ih =>
      obtain ⟨name, value⟩ := entry
      by_cases hkey : key = name
      · simp [hkey]
      · rw [lookup_cons_of_ne hkey, ih]
        simp [hkey]

theorem lookup_eq_none_of_notMem (h : key ∉ entries.map Prod.fst) : entries.lookup key = none :=
  Option.not_isSome_iff_eq_none.1 (fun hsome => h ((lookup_isSome_iff_mem entries key).1 hsome))

theorem mem_of_lookup_eq_some {value : β} (h : entries.lookup key = some value) : (key, value) ∈ entries := by
  obtain ⟨before, after, rfl, -⟩ := List.lookup_eq_some_iff.1 h
  exact List.mem_append_right before List.mem_cons_self

/-- Where no key is there twice, an entry is found under its key. -/
theorem lookup_eq_some_of_mem_nodup (hkeys : (entries.map Prod.fst).Nodup) {entry : κ × β}
    (h : entry ∈ entries) : entries.lookup entry.1 = some entry.2 := by
  induction entries with
  | nil => cases h
  | cons first entries ih =>
      obtain ⟨name, value⟩ := first
      obtain ⟨hfirst, hrest⟩ := List.nodup_cons.1 hkeys
      obtain rfl | hmem := List.mem_cons.1 h
      · rw [List.lookup_cons_self]
      · have hne : entry.1 ≠ name := fun he => hfirst (List.mem_map.2 ⟨entry, hmem, he⟩)
        rw [lookup_cons_of_ne hne, ih hrest hmem]

/-- Entries in one order of keys are known by what is found. -/
theorem eq_of_lookup (hnames : entries.map Prod.fst = entries'.map Prod.fst) (hnodup : (entries.map Prod.fst).Nodup)
    (h : ∀ key, entries.lookup key = entries'.lookup key) : entries = entries' := by
  induction entries generalizing entries' with
  | nil => exact (List.map_eq_nil_iff.1 hnames.symm).symm
  | cons entry entries ih =>
      cases entries' with
      | nil => cases hnames
      | cons entry' entries' =>
          obtain ⟨hname, hnames⟩ := List.cons.inj hnames
          obtain ⟨hentry, hnodup⟩ := List.nodup_cons.1 hnodup
          have hvalue := h entry.1
          rw [List.lookup_cons, List.lookup_cons, hname] at hvalue
          simp only [beq_self_eq_true, Option.some.injEq] at hvalue
          refine List.cons_eq_cons.2 ⟨Prod.ext hname hvalue, ih hnames hnodup (fun key => ?_)⟩
          by_cases hkey : key = entry.1
          · rw [hkey, lookup_eq_none_of_notMem hentry, lookup_eq_none_of_notMem (hnames ▸ hentry)]
          · have hrest := h key
            rwa [lookup_cons_of_ne hkey, lookup_cons_of_ne (hname ▸ hkey)] at hrest

end Autr.Store
