import Autr.Series.Smoothing
import Mathlib.Data.Option.NAry

namespace Autr.Series

/-- A column of a table, in which a row can have no value. -/
abbrev Column (K : Type) := ℕ → Option K

namespace Column

variable {K L M : Type}

def map (f : K → L) (x : Column K) : Column L := fun i => (x i).map f

def map₂ (f : K → L → M) (x : Column K) (y : Column L) : Column M := fun i => Option.map₂ f (x i) (y i)

def shift (x : Column K) : Column K
  | 0 => none
  | i + 1 => x i

/-- The last `w` values up to a row, if there are so many and none is missing. -/
def window (w : ℕ) (x : Column K) (i : ℕ) : Option (List K) :=
  if w ≤ i + 1 then (List.range w).mapM (fun k => x (i + 1 - w + k)) else none

def rolling (w : ℕ) (f : List K → Option L) (x : Column K) : Column L := fun i => (window w x i).bind f

/-- The largest of the values that a row has in the columns. -/
def rowMax [Max K] (xs : List (Column K)) : Column K := fun i => (xs.filterMap (fun x => x i)).max?

/-- The rows without a missing value. -/
def dropna (n : ℕ) (x : Column K) : List K := (List.range n).filterMap x

/-- The quotient of two columns; one by zero is missing. -/
def quotient [Div K] [Zero K] [DecidableEq K] (x y : Column K) : Column K := fun i => do
  let a ← x i
  let b ← y i
  if b = 0 then none else return a / b

/-- A row that has a value is not followed by one without. -/
def Settled (n : ℕ) (x : Column K) : Prop := ∀ i, i + 1 < n → (x i).isSome → (x (i + 1)).isSome

end Column

section Average

variable {K : Type} [Field K] [LinearOrder K]

/-- What the loop of an exponential average carries from row to row: the average, the
weight it has left since its last value, and the count of values. -/
structure Average (K : Type) where
  weighted : Option K
  oldWeight : K
  observed : ℕ

def Average.start : Average K := ⟨none, 1, 0⟩

def Average.next (a : Weight K) (s : Average K) (value : Option K) : Average K :=
  match s.weighted, value with
  | some y, some v =>
      let oldWeight := s.oldWeight * (1 - a.val)
      ⟨some ((oldWeight * y + a.val * v) / (oldWeight + a.val)), 1, s.observed + 1⟩
  | some y, none => ⟨some y, s.oldWeight * (1 - a.val), s.observed⟩
  | none, some v => ⟨some v, s.oldWeight, s.observed + 1⟩
  | none, none => s

/-- The average after the first `i` rows. -/
def Column.average (a : Weight K) (x : Column K) : ℕ → Average K
  | 0 => .start
  | i + 1 => (average a x i).next a (x i)

/-- The exponential average of the rows so far, missing until enough of them have a value. -/
def Column.ewm (a : Weight K) (minPeriods : ℕ) (x : Column K) : Column K := fun i =>
  let s := x.average a (i + 1)
  if minPeriods ≤ s.observed then s.weighted else none

/-- The weight of a span, which is at least one. -/
def Weight.ofSpan [IsStrictOrderedRing K] (span : K) : Option (Weight K) :=
  if h : 1 ≤ span then
    some ⟨2 / (span + 1), by positivity, by rw [div_le_one (by positivity)]; linarith⟩
  else none

/-- The weight that is the inverse of a period, which is at least one. -/
def Weight.ofPeriod [IsStrictOrderedRing K] (period : K) : Option (Weight K) :=
  if h : 1 ≤ period then some ⟨1 / period, by positivity, by rw [div_le_one (by positivity)]; exact h⟩
  else none

theorem Weight.ofSpan_eq_some [IsStrictOrderedRing K] {span : K} {a : Weight K} (h : ofSpan span = some a) :
    1 ≤ span ∧ a.val = 2 / (span + 1) := by
  unfold ofSpan at h
  split_ifs at h with hspan
  exact ⟨hspan, congrArg Weight.val (Option.some.inj h).symm⟩

theorem Weight.ofSpan_isSome [IsStrictOrderedRing K] {span : K} (h : 1 ≤ span) : ∃ a, ofSpan span = some a :=
  ⟨_, dif_pos h⟩

/-- A longer span gives each new value less weight. -/
theorem Weight.ofSpan_anti [IsStrictOrderedRing K] {fast slow : K} {a b : Weight K} (ha : ofSpan fast = some a)
    (hb : ofSpan slow = some b) (h : fast ≤ slow) : b.val ≤ a.val := by
  obtain ⟨hfast, ha⟩ := ofSpan_eq_some ha
  rw [ha, (ofSpan_eq_some hb).2]
  exact div_le_div_of_nonneg_left two_pos.le (by positivity) (by linarith)

end Average

namespace Column

theorem mapM_some {α β : Type} {f : α → Option β} {g : α → β} {as : List α} (h : ∀ a ∈ as, f a = some (g a)) :
    as.mapM f = some (as.map g) := by
  induction as with
  | nil => rfl
  | cons a as ih =>
      rw [List.mapM_cons, h a List.mem_cons_self, ih (fun b hb => h b (List.mem_cons_of_mem a hb))]
      rfl

theorem mapM_of_present {α β : Type} {f : α → Option β} {as : List α} (h : ∀ a ∈ as, (f a).isSome) :
    ∃ bs, as.mapM f = some bs := by
  induction as with
  | nil => exact ⟨[], rfl⟩
  | cons a as ih =>
      obtain ⟨b, hb⟩ := Option.isSome_iff_exists.1 (h a List.mem_cons_self)
      obtain ⟨bs, hbs⟩ := ih (fun c hc => h c (List.mem_cons_of_mem a hc))
      exact ⟨b :: bs, by simp [hb, hbs]⟩

theorem mapM_eq_some {α β : Type} {f : α → Option β} {as : List α} {bs : List β} (h : as.mapM f = some bs) :
    bs.length = as.length ∧ ∀ a ∈ as, (f a).isSome := by
  induction as generalizing bs with
  | nil =>
      cases h
      exact ⟨rfl, fun a ha => nomatch ha⟩
  | cons a as ih =>
      rw [List.mapM_cons] at h
      obtain ⟨b, hb, h⟩ := Option.bind_eq_some_iff.1 h
      obtain ⟨bs, hbs, h⟩ := Option.bind_eq_some_iff.1 h
      cases h
      obtain ⟨hlength, hsome⟩ := ih hbs
      refine ⟨congrArg Nat.succ hlength, fun c hc => ?_⟩
      rcases List.mem_cons.1 hc with rfl | hc
      · simp [hb]
      · exact hsome c hc

theorem mem_mapM {α β : Type} {f : α → Option β} {as : List α} {bs : List β} (h : as.mapM f = some bs) {b : β} :
    b ∈ bs ↔ ∃ a ∈ as, f a = some b := by
  induction as generalizing bs with
  | nil =>
      cases h
      simp
  | cons a as ih =>
      rw [List.mapM_cons] at h
      obtain ⟨c, hc, h⟩ := Option.bind_eq_some_iff.1 h
      obtain ⟨cs, hcs, h⟩ := Option.bind_eq_some_iff.1 h
      cases h
      rw [List.mem_cons, ih hcs, List.exists_mem_cons_iff, hc, Option.some_inj, eq_comm]

section Map

variable {K L M : Type}

theorem shift_map (g : K → L) (x : Column K) : (x.map g).shift = x.shift.map g := by
  funext i
  cases i <;> rfl

theorem mapM_map {α : Type} (g : K → L) (f : α → Option K) (as : List α) :
    as.mapM (fun a => (f a).map g) = (as.mapM f).map (List.map g) := by
  induction as with
  | nil => rfl
  | cons a as ih =>
      rw [List.mapM_cons, List.mapM_cons, ih]
      cases f a <;> cases as.mapM f <;> rfl

theorem window_map (g : K → L) (w : ℕ) (x : Column K) (i : ℕ) :
    window w (x.map g) i = (window w x i).map (List.map g) := by
  rw [window, window]
  split_ifs
  · exact mapM_map g _ _
  · rfl

/-- What a function of a window makes of scaled values it makes of them in every row. -/
theorem rolling_map {f : List K → Option M} {f' : List L → Option M} {g : K → L} {h : M → M}
    (hf : ∀ xs, f' (xs.map g) = (f xs).map h) (w : ℕ) (x : Column K) :
    rolling w f' (x.map g) = (rolling w f x).map h := by
  funext i
  rw [rolling, window_map, Column.map, rolling]
  cases window w x i with
  | none => rfl
  | some xs => exact hf xs

end Map

section Settled

variable {K L M : Type} {n : ℕ} {x : Column K} {y : Column L}

theorem settled_of_present (h : ∀ i < n, (x i).isSome) : Settled n x := fun i hi _ => h (i + 1) hi

theorem Settled.map (f : K → L) (hx : Settled n x) : Settled n (x.map f) := by
  intro i hi hsome
  rw [Column.map, Option.isSome_map] at hsome ⊢
  exact hx i hi hsome

theorem Settled.shift (hx : Settled n x) : Settled n x.shift := by
  intro i hi hsome
  cases i with
  | zero => cases hsome
  | succ i => exact hx i (i.succ.lt_succ_self.trans hi) hsome

theorem Settled.map₂ (f : K → L → M) (hx : Settled n x) (hy : Settled n y) : Settled n (map₂ f x y) := by
  intro i hi hsome
  have hboth : ∀ j, (Column.map₂ f x y j).isSome ↔ (x j).isSome ∧ (y j).isSome := by
    intro j
    cases hxj : x j <;> cases hyj : y j <;> simp [Column.map₂, hxj, hyj]
  rw [hboth] at hsome ⊢
  exact ⟨hx i hi hsome.1, hy i hi hsome.2⟩

theorem window_eq_some {w i : ℕ} {xs : List K} (h : window w x i = some xs) :
    w ≤ i + 1 ∧ xs.length = w ∧ ∀ k < w, (x (i + 1 - w + k)).isSome := by
  unfold window at h
  split_ifs at h with hfits
  obtain ⟨hlength, hsome⟩ := mapM_eq_some h
  exact ⟨hfits, hlength.trans List.length_range, fun k hk => hsome k (List.mem_range.2 hk)⟩

theorem mem_window {w i : ℕ} {xs : List K} (h : window w x i = some xs) {v : K} :
    v ∈ xs ↔ ∃ j ≤ i, i < j + w ∧ x j = some v := by
  unfold window at h
  split_ifs at h with hfits
  rw [mem_mapM h]
  constructor
  · rintro ⟨k, hk, hv⟩
    have hk := List.mem_range.1 hk
    exact ⟨i + 1 - w + k, by omega, by omega, hv⟩
  · rintro ⟨j, hj, hw, hv⟩
    refine ⟨j - (i + 1 - w), List.mem_range.2 (by omega), ?_⟩
    rwa [show i + 1 - w + (j - (i + 1 - w)) = j by omega]

theorem window_of_present {w i : ℕ} (hfits : w ≤ i + 1) (h : ∀ k < w, (x (i + 1 - w + k)).isSome) :
    ∃ xs, window w x i = some xs := by
  obtain ⟨xs, hxs⟩ := mapM_of_present (fun k hk => h k (List.mem_range.1 hk))
  exact ⟨xs, (if_pos hfits).trans hxs⟩

/-- A window that has moved one row on is still without a gap. -/
theorem Settled.rolling {f : List K → Option L} (hx : Settled n x)
    (hf : ∀ xs ys : List K, xs.length = ys.length → (f xs).isSome → (f ys).isSome) (w : ℕ) :
    Settled n (rolling w f x) := by
  intro i hi hsome
  rw [Column.rolling] at hsome ⊢
  obtain ⟨b, hb⟩ := Option.isSome_iff_exists.1 hsome
  obtain ⟨xs, hxs, hb⟩ := Option.bind_eq_some_iff.1 hb
  obtain ⟨hfits, hlength, hpresent⟩ := window_eq_some hxs
  obtain ⟨ys, hys⟩ : ∃ ys, window w x (i + 1) = some ys := by
    refine window_of_present (by omega) (fun k hk => ?_)
    by_cases hlast : k + 1 = w
    · have hold := hpresent k hk
      rw [show i + 1 - w + k = i by omega] at hold
      rw [show i + 1 + 1 - w + k = i + 1 by omega]
      exact hx i hi hold
    · have hold := hpresent (k + 1) (by omega)
      rwa [show i + 1 - w + (k + 1) = i + 1 + 1 - w + k by omega] at hold
  rw [hys]
  exact hf xs ys (hlength.trans (window_eq_some hys).2.1.symm) (by simp [hb])

theorem quotient_isSome [Div K] [Zero K] [DecidableEq K] {x y : Column K} {i : ℕ} :
    (quotient x y i).isSome ↔ (x i).isSome ∧ ∃ b, y i = some b ∧ b ≠ 0 := by
  cases hx : x i <;> cases hy : y i <;> simp [quotient, hx, hy]

theorem Settled.quotient [Div K] [Zero K] [DecidableEq K] {x y : Column K} (hx : Settled n x) (hy : Settled n y)
    (hne : ∀ i a b, i + 1 < n → y i = some a → a ≠ 0 → y (i + 1) = some b → b ≠ 0) : Settled n (quotient x y) := by
  intro i hi hsome
  obtain ⟨hxi, a, ha, ha0⟩ := quotient_isSome.1 hsome
  obtain ⟨b, hb⟩ := Option.isSome_iff_exists.1 (hy i hi (by simp [ha]))
  exact quotient_isSome.2 ⟨hx i hi hxi, b, hb, hne i a b hi ha ha0 hb⟩

/-- Of a settled column the last row is left, if any is. -/
theorem Settled.getLast?_dropna (hx : Settled n x) (hne : dropna n x ≠ []) :
    (dropna n x).getLast? = x (n - 1) := by
  obtain ⟨a, ha⟩ := List.exists_mem_of_ne_nil _ hne
  obtain ⟨i, hi, hxi⟩ := List.mem_filterMap.1 ha
  have hi := List.mem_range.1 hi
  have hreach : ∀ k, i + k < n → (x (i + k)).isSome := by
    intro k
    induction k with
    | zero => exact fun _ => by simp [hxi]
    | succ k ih => exact fun hk => hx (i + k) hk (ih (by omega))
  obtain ⟨m, rfl⟩ : ∃ m, n = m + 1 := ⟨n - 1, by omega⟩
  obtain ⟨b, hb⟩ := Option.isSome_iff_exists.1 (hreach (m - i) (by omega))
  rw [show i + (m - i) = m by omega] at hb
  simp [dropna, List.range_succ, hb]

end Settled

section Ewm

variable {K : Type} [Field K] [LinearOrder K] {a : Weight K} {n : ℕ} {v : ℕ → K} {x : Column K}

@[simp]
theorem average_succ (i : ℕ) : x.average a (i + 1) = (x.average a i).next a (x i) := rfl

theorem weighted_next {t : Average K} (h : t.weighted.isSome) (value : Option K) :
    (t.next a value).weighted.isSome := by
  obtain ⟨y, hy⟩ := Option.isSome_iff_exists.1 h
  cases value <;> simp [Average.next, hy]

theorem observed_next (t : Average K) (value : Option K) : t.observed ≤ (t.next a value).observed := by
  cases hy : t.weighted <;> cases value <;> simp [Average.next, hy]

theorem ewm_succ (a : Weight K) (minPeriods : ℕ) (x : Column K) (i : ℕ) :
    ewm a minPeriods x (i + 1) =
      let t := (x.average a (i + 1)).next a (x (i + 1))
      if minPeriods ≤ t.observed then t.weighted else none := rfl

theorem ewm_eq_some {minPeriods i : ℕ} {y : K} (h : ewm a minPeriods x i = some y) :
    minPeriods ≤ (x.average a (i + 1)).observed ∧ (x.average a (i + 1)).weighted = some y := by
  unfold ewm at h
  dsimp only at h
  split_ifs at h with hobserved
  exact ⟨hobserved, h⟩

/-- An average is never lost, whatever is missing. -/
theorem settled_ewm (a : Weight K) (minPeriods n : ℕ) (x : Column K) : Settled n (ewm a minPeriods x) := by
  intro i hi hsome
  obtain ⟨y, hy⟩ := Option.isSome_iff_exists.1 hsome
  obtain ⟨hobserved, hweighted⟩ := ewm_eq_some hy
  rw [ewm_succ, if_pos (hobserved.trans (observed_next _ _))]
  exact weighted_next (Option.isSome_of_eq_some hweighted) _

/-- Over rows without a gap the loop computes the average of their values. -/
theorem average_eq (hx : ∀ i < n, x i = some (v i)) {i : ℕ} (hi : i < n) :
    x.average a (i + 1) = ⟨some (ema a v i), 1, i + 1⟩ := by
  induction i with
  | zero =>
      rw [average_succ, hx 0 hi]
      rfl
  | succ i ih =>
      rw [average_succ, ih (by omega), hx (i + 1) hi]
      simp only [Average.next, one_mul, sub_add_cancel, div_one, ema]

theorem ewm_eq (hx : ∀ i < n, x i = some (v i)) {minPeriods i : ℕ} (hi : i < n) (hmin : minPeriods ≤ i + 1) :
    ewm a minPeriods x i = some (ema a v i) := by
  rw [ewm, average_eq hx hi]
  exact if_pos hmin

section Nonneg

variable [IsStrictOrderedRing K]

/-- The loop over values that are not negative. -/
structure Nonneg (t : Average K) : Prop where
  weight : 0 < t.oldWeight
  weighted : ∀ y, t.weighted = some y → 0 ≤ y

variable (ha : a.val < 1)

include ha

theorem Nonneg.next {t : Average K} (ht : Nonneg t) {value : Option K} (hvalue : ∀ v, value = some v → 0 ≤ v) :
    Nonneg (t.next a value) := by
  have hkeep : 0 < t.oldWeight * (1 - a.val) := mul_pos ht.weight (sub_pos.2 ha)
  cases hy : t.weighted with
  | none =>
      cases value with
      | none => simpa [Average.next, hy] using ht
      | some v => exact ⟨by simpa [Average.next, hy] using ht.weight, by simpa [Average.next, hy] using hvalue v rfl⟩
  | some y =>
      cases value with
      | none => exact ⟨by simpa [Average.next, hy] using hkeep, by simpa [Average.next, hy] using ht.weighted y hy⟩
      | some v =>
          have hnew : 0 ≤ t.oldWeight * (1 - a.val) * y + a.val * v :=
            add_nonneg (mul_nonneg hkeep.le (ht.weighted y hy)) (mul_nonneg a.pos.le (hvalue v rfl))
          refine ⟨by simp [Average.next, hy], ?_⟩
          simpa [Average.next, hy] using div_nonneg hnew (add_pos hkeep a.pos).le

/-- A positive average stays positive, since each new value leaves some of it. -/
theorem Nonneg.next_pos {t : Average K} (ht : Nonneg t) {value : Option K} (hvalue : ∀ v, value = some v → 0 ≤ v)
    {y : K} (hy : t.weighted = some y) (hpos : 0 < y) : ∀ z, (t.next a value).weighted = some z → 0 < z := by
  have hkeep : 0 < t.oldWeight * (1 - a.val) := mul_pos ht.weight (sub_pos.2 ha)
  cases value with
  | none => simpa [Average.next, hy] using hpos
  | some v =>
      have hnew : 0 < t.oldWeight * (1 - a.val) * y + a.val * v :=
        add_pos_of_pos_of_nonneg (mul_pos hkeep hpos) (mul_nonneg a.pos.le (hvalue v rfl))
      simpa [Average.next, hy] using div_pos hnew (add_pos hkeep a.pos)

variable (hx : ∀ i v, x i = some v → 0 ≤ v)

include hx

theorem nonneg_average (i : ℕ) : Nonneg (x.average a i) := by
  induction i with
  | zero => exact ⟨one_pos, fun y hy => nomatch hy⟩
  | succ i ih => exact ih.next ha (hx i)

theorem ewm_ne_zero {minPeriods i : ℕ} {y z : K} (hy : ewm a minPeriods x i = some y) (hne : y ≠ 0)
    (hz : ewm a minPeriods x (i + 1) = some z) : z ≠ 0 := by
  have ht := nonneg_average ha hx (i + 1)
  have hweighted := (ewm_eq_some hy).2
  have hpos : 0 < y := lt_of_le_of_ne (ht.weighted y hweighted) (Ne.symm hne)
  exact (ht.next_pos ha (hx (i + 1)) hweighted hpos z (ewm_eq_some hz).2).ne'

end Nonneg

end Ewm

end Column

end Autr.Series
