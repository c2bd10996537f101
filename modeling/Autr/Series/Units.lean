import Autr.Series.Column

namespace Autr.Series

variable {K : Type} [Field K] [LinearOrder K] [IsStrictOrderedRing K] {c : K}

namespace Average

/-- The state of the loop over values in another unit. -/
def scale (c : K) (t : Average K) : Average K := { t with weighted := t.weighted.map (c * ·) }

omit [IsStrictOrderedRing K] in
theorem next_scale (a : Weight K) (t : Average K) (value : Option K) :
    (t.scale c).next a (value.map (c * ·)) = (t.next a value).scale c := by
  obtain ⟨weighted, oldWeight, observed⟩ := t
  cases weighted with
  | none => cases value <;> rfl
  | some y =>
      cases value with
      | none => rfl
      | some v =>
          have hmul : oldWeight * (1 - a.val) * (c * y) + a.val * (c * v) =
              c * (oldWeight * (1 - a.val) * y + a.val * v) := by ring
          simp only [scale, next, Option.map_some, hmul, mul_div_assoc]

end Average

namespace Column

omit [IsStrictOrderedRing K] in
theorem average_map_mul (a : Weight K) (x : Column K) (i : ℕ) :
    (x.map (c * ·)).average a i = (x.average a i).scale c := by
  induction i with
  | zero => rfl
  | succ i ih => rw [average_succ, average_succ, ih, ← Average.next_scale]; rfl

omit [IsStrictOrderedRing K] in
theorem ewm_map_mul (a : Weight K) (minPeriods : ℕ) (x : Column K) :
    (x.map (c * ·)).ewm a minPeriods = (x.ewm a minPeriods).map (c * ·) := by
  funext i
  simp only [ewm, average_map_mul, Average.scale, Column.map]
  split <;> rfl

omit [IsStrictOrderedRing K] in
theorem quotient_map_mul (hc : c ≠ 0) (x y : Column K) :
    quotient (x.map (c * ·)) (y.map (c * ·)) = quotient x y := by
  funext i
  simp only [quotient, Column.map]
  cases x i <;> cases y i <;> simp [hc, mul_div_mul_left]

omit [LinearOrder K] [IsStrictOrderedRing K] in
theorem map₂_sub_mul (x y : Column K) :
    map₂ (· - ·) (x.map (c * ·)) (y.map (c * ·)) = (map₂ (· - ·) x y).map (c * ·) := by
  funext i
  simp only [map₂, Column.map]
  cases x i <;> cases y i <;> simp [mul_sub]

theorem map₂_distance_mul (hc : 0 < c) (x y : Column K) :
    map₂ (fun h p => |h - p|) (x.map (c * ·)) (y.map (c * ·)) = (map₂ (fun h p => |h - p|) x y).map (c * ·) := by
  funext i
  simp only [map₂, Column.map]
  cases x i <;> cases y i <;> simp [← mul_sub, abs_mul, abs_of_pos hc]

theorem max?_map_mul (hc : 0 < c) (xs : List K) : (xs.map (c * ·)).max? = xs.max?.map (c * ·) := by
  cases hxs : xs.max? with
  | none => rw [List.max?_eq_none_iff.1 hxs]; rfl
  | some m =>
      obtain ⟨hmem, hmax⟩ := List.max?_eq_some_iff.1 hxs
      refine List.max?_eq_some_iff.2 ⟨List.mem_map_of_mem hmem, fun y hy => ?_⟩
      obtain ⟨x, hx, rfl⟩ := List.mem_map.1 hy
      exact mul_le_mul_of_nonneg_left (hmax x hx) hc.le

theorem rowMax_map_mul (hc : 0 < c) (xs : List (Column K)) :
    rowMax (xs.map (Column.map (c * ·))) = (rowMax xs).map (c * ·) := by
  funext i
  simp only [rowMax, Column.map]
  rw [← max?_map_mul hc, List.filterMap_map, List.map_filterMap]
  rfl

end Column

end Autr.Series
