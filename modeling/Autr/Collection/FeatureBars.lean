import Autr.Domain.Regime
import Autr.Infra.QuantTables
import Autr.Series.Deviation

namespace Autr.Collection.FeatureBars

open Domain.CandleFrame Domain.Regime Infra.QuantStore Infra.QuantTables Series

variable (log : ℚ → ℚ) (df : DataFrame)

abbrev closes : Column ℚ := column Ohlcv.close df

def ret1 : Column ℚ := pctChange (closes df)

/-- The logarithm is not taken of what is missing or not positive. -/
def retLog1 : Column ℚ := fun i => do
  let x ← Column.quotient (closes df) (closes df).shift i
  if x ≤ 0 then none else return log x

def vol20 : Column Surd := Column.rolling 20 std (ret1 df)

/-- The largest of the three ranges of a row. -/
def tr : Column ℚ :=
  Column.rowMax [Column.map₂ (· - ·) (column Ohlcv.high df) (column Ohlcv.low df),
    Column.map₂ (fun h c => |h - c|) (column Ohlcv.high df) (closes df).shift,
    Column.map₂ (fun l c => |l - c|) (column Ohlcv.low df) (closes df).shift]

def atr14 : Column ℚ := (tr df).rolling 14 mean

def ema (span : ℕ) : Column ℚ := fun i => do
  let weight ← Weight.ofSpan (span : ℚ)
  (closes df).ewm weight 0 i

def trendGapPct : Column ℚ :=
  Column.quotient (Column.map₂ (· - ·) (ema df 50) (ema df 200)) (ema df 200)

/-- A window without any deviation has no score. -/
def zscore50 : Column Surd := fun i => do
  let close ← closes df i
  let rollMean ← Column.rolling 50 mean (closes df) i
  let rollStd ← Column.rolling 50 std (closes df) i
  if rollStd.signedSq = 0 then none else return Surd.ratio (close - rollMean) rollStd

def featureRow (i : ℕ) : Option (ℤ × Features) := do
  let candle ← df[i]?
  return (candle.1,
    { close := candle.2.close
      ret1 := ← ret1 df i
      retLog1 := ← retLog1 log df i
      vol20 := ← vol20 df i
      atr14 := ← atr14 df i
      emaFast50 := ← ema df 50 i
      emaSlow200 := ← ema df 200 i
      trendGapPct := ← trendGapPct df i
      zscore50 := ← zscore50 df i })

/-- The rows that `_compute_features` makes of the candles it has fetched and sorted. -/
def computeFeatures : List (ℤ × Features) :=
  if df.length < 220 then [] else Column.dropna df.length (featureRow log df)

/-- What the columns of a row say of each other, whatever the candles are. -/
structure Consistent (f : Features) : Prop where
  retLog1 : f.retLog1 = log (1 + f.ret1)
  vol20 : 0 ≤ f.vol20.signedSq
  atr14 : 0 ≤ f.atr14
  trendGapPct : f.trendGapPct * f.emaSlow200 = f.emaFast50 - f.emaSlow200
  zscore50 : |f.zscore50.signedSq| ≤ 49 ^ 2 / 50

section Row

variable {log df}

theorem featureRow_eq_some {i : ℕ} {r : ℤ × Features} (h : featureRow log df i = some r) :
    (∃ candle, df[i]? = some candle ∧ r.1 = candle.1 ∧ r.2.close = candle.2.close) ∧
      ret1 df i = some r.2.ret1 ∧ retLog1 log df i = some r.2.retLog1 ∧ vol20 df i = some r.2.vol20 ∧
      atr14 df i = some r.2.atr14 ∧ ema df 50 i = some r.2.emaFast50 ∧ ema df 200 i = some r.2.emaSlow200 ∧
      trendGapPct df i = some r.2.trendGapPct ∧ zscore50 df i = some r.2.zscore50 := by
  unfold featureRow at h
  obtain ⟨candle, hcandle, h⟩ := Option.bind_eq_some_iff.1 h
  obtain ⟨ret, hret, h⟩ := Option.bind_eq_some_iff.1 h
  obtain ⟨retLog, hretLog, h⟩ := Option.bind_eq_some_iff.1 h
  obtain ⟨vol, hvol, h⟩ := Option.bind_eq_some_iff.1 h
  obtain ⟨atr, hatr, h⟩ := Option.bind_eq_some_iff.1 h
  obtain ⟨fast, hfast, h⟩ := Option.bind_eq_some_iff.1 h
  obtain ⟨slow, hslow, h⟩ := Option.bind_eq_some_iff.1 h
  obtain ⟨gap, hgap, h⟩ := Option.bind_eq_some_iff.1 h
  obtain ⟨score, hscore, h⟩ := Option.bind_eq_some_iff.1 h
  cases h
  exact ⟨⟨candle, hcandle, rfl, rfl⟩, hret, hretLog, hvol, hatr, hfast, hslow, hgap, hscore⟩

theorem quotient_eq_some {x y : Column ℚ} {i : ℕ} {q : ℚ} (h : Column.quotient x y i = some q) :
    ∃ a b, x i = some a ∧ y i = some b ∧ b ≠ 0 ∧ q = a / b := by
  obtain ⟨a, ha, h⟩ := Option.bind_eq_some_iff.1 h
  obtain ⟨b, hb, h⟩ := Option.bind_eq_some_iff.1 h
  split_ifs at h with hne
  exact ⟨a, b, ha, hb, hne, (Option.some.inj h).symm⟩

theorem retLog1_eq_log {i : ℕ} {ret retLog : ℚ} (hret : ret1 df i = some ret)
    (hretLog : retLog1 log df i = some retLog) : retLog = log (1 + ret) := by
  obtain ⟨x, hx, h⟩ := Option.bind_eq_some_iff.1 hretLog
  split_ifs at h
  obtain ⟨close, before, hclose, hbefore, hne, rfl⟩ := quotient_eq_some hx
  have hratio : ret = close / before - 1 := by
    simpa [ret1, pctChange, Column.map₂, hclose, hbefore] using hret.symm
  rw [← Option.some.inj h, hratio, add_sub_cancel]

theorem std_nonneg {xs : List ℚ} {s : Surd} (h : std xs = some s) : 0 ≤ s.signedSq := by
  obtain ⟨v, -, rfl⟩ := Option.map_eq_some_iff.1 h
  exact le_max_right v 0

/-- After the first row the true range has a distance among its values. -/
theorem tr_nonneg {i : ℕ} {v : ℚ} (hi : 0 < i) (h : tr df i = some v) : 0 ≤ v := by
  obtain ⟨k, rfl⟩ : ∃ k, i = k + 1 := ⟨i - 1, by omega⟩
  obtain ⟨hmem, hmax⟩ := List.max?_eq_some_iff.1 h
  obtain ⟨x, hx, hv⟩ := List.mem_filterMap.1 hmem
  have hlength : k + 1 < df.length := by
    by_contra hlong
    have hnone : df[k + 1]? = none := List.getElem?_eq_none (not_lt.1 hlong)
    simp only [List.mem_cons, List.not_mem_nil, or_false] at hx
    rcases hx with rfl | rfl | rfl <;> simp [Column.map₂, column, hnone] at hv
  have hdistance := hmax |values Ohlcv.high df (k + 1) - values Ohlcv.close df k| (List.mem_filterMap.2
    ⟨_, List.mem_cons_of_mem _ List.mem_cons_self, by
      rw [Column.map₂, column_eq Ohlcv.high hlength]
      simp only [closes, Column.shift, column_eq Ohlcv.close (Nat.lt_of_succ_lt hlength), Option.map₂_some_some]⟩)
  exact (abs_nonneg _).trans hdistance

theorem mean_nonneg {xs : List ℚ} {m : ℚ} (h : mean xs = some m) (hxs : ∀ x ∈ xs, 0 ≤ x) : 0 ≤ m := by
  unfold mean at h
  split_ifs at h
  rw [← Option.some.inj h]
  exact div_nonneg (List.sum_nonneg hxs) (Nat.cast_nonneg _)

theorem atr14_nonneg {i : ℕ} {v : ℚ} (hi : 14 ≤ i) (h : atr14 df i = some v) : 0 ≤ v := by
  obtain ⟨xs, hxs, hmean⟩ := Option.bind_eq_some_iff.1 h
  refine mean_nonneg hmean (fun x hx => ?_)
  obtain ⟨j, -, hj, hv⟩ := (Column.mem_window hxs).1 hx
  exact tr_nonneg (by omega) hv

theorem trendGapPct_mul {i : ℕ} {fast slow gap : ℚ} (hfast : ema df 50 i = some fast) (hslow : ema df 200 i = some slow)
    (hgap : trendGapPct df i = some gap) : gap * slow = fast - slow := by
  obtain ⟨a, b, ha, hb, hne, rfl⟩ := quotient_eq_some hgap
  rw [Column.map₂, hfast, hslow] at ha
  rw [hslow] at hb
  cases ha
  cases hb
  exact div_mul_cancel₀ _ hne

theorem variance_eq_spread {xs : List ℚ} {v : ℚ} (h : variance xs = some v) :
    v = spread (xs.sum / xs.length) xs / (xs.length - 1) := by
  unfold variance at h
  split_ifs at h
  exact (Option.some.inj h).symm

/-- No value of a sample has a greater score than a single one that stands apart. -/
theorem ratio_bound {xs : List ℚ} {x m : ℚ} {s : Surd} (hx : x ∈ xs) (hm : mean xs = some m) (hs : std xs = some s)
    (hne : s.signedSq ≠ 0) : |(Surd.ratio (x - m) s).signedSq| ≤ (xs.length - 1) ^ 2 / xs.length := by
  obtain ⟨v, hv, rfl⟩ := Option.map_eq_some_iff.1 hs
  have hmean : m = xs.sum / xs.length := by
    unfold mean at hm
    split_ifs at hm
    exact (Option.some.inj hm).symm
  have hpos : 0 < v := by
    by_contra hv0
    exact hne (max_eq_right (not_lt.1 hv0))
  have hlong : (0 : ℚ) < xs.length - 1 := by
    unfold variance at hv
    split_ifs at hv with hlength
    rw [sub_pos, Nat.one_lt_cast]
    omega
  have hv := variance_eq_spread hv
  have hle := sq_sub_mean_le hx
  have hspread : spread (xs.sum / xs.length) xs = v * (xs.length - 1) := by rw [hv, div_mul_cancel₀ _ hlong.ne']
  rw [hspread, ← hmean] at hle
  have hsquare : |(x - m) * |x - m| / max v 0| = (x - m) ^ 2 / v := by
    rw [max_eq_left hpos.le, abs_div, abs_mul, abs_abs, abs_mul_abs_self, abs_of_pos hpos, sq]
  change |(x - m) * |x - m| / max v 0| ≤ _
  rw [hsquare, div_le_div_iff₀ hpos (by linarith)]
  linarith

theorem zscore50_bound {i : ℕ} {z : Surd} (h : zscore50 df i = some z) :
    49 ≤ i ∧ |z.signedSq| ≤ 49 ^ 2 / 50 := by
  obtain ⟨close, hclose, h⟩ := Option.bind_eq_some_iff.1 h
  obtain ⟨rollMean, hmean, h⟩ := Option.bind_eq_some_iff.1 h
  obtain ⟨rollStd, hstd, h⟩ := Option.bind_eq_some_iff.1 h
  split_ifs at h with hne
  cases h
  obtain ⟨xs, hxs, hmean⟩ := Option.bind_eq_some_iff.1 hmean
  obtain ⟨ys, hys, hstd⟩ := Option.bind_eq_some_iff.1 hstd
  rw [hxs] at hys
  cases hys
  obtain ⟨hfits, hlength, -⟩ := Column.window_eq_some hxs
  have hmem : close ∈ xs := (Column.mem_window hxs).2 ⟨i, le_rfl, by omega, hclose⟩
  have hbound := ratio_bound hmem hmean hstd hne
  rw [hlength] at hbound
  exact ⟨by omega, by norm_num at hbound ⊢; exact hbound⟩

theorem consistent_of_featureRow {i : ℕ} {r : ℤ × Features} (h : featureRow log df i = some r) :
    Consistent log r.2 := by
  obtain ⟨-, hret, hretLog, hvol, hatr, hfast, hslow, hgap, hscore⟩ := featureRow_eq_some h
  obtain ⟨hi, hbound⟩ := zscore50_bound hscore
  obtain ⟨xs, -, hstd⟩ := Option.bind_eq_some_iff.1 hvol
  exact ⟨retLog1_eq_log hret hretLog, std_nonneg hstd, atr14_nonneg (by omega) hatr,
    trendGapPct_mul hfast hslow hgap, hbound⟩

/-- Every row is that of one of the candles, and its columns agree. -/
theorem mem_computeFeatures {r : ℤ × Features} (h : r ∈ computeFeatures log df) :
    (∃ candle ∈ df, r.1 = candle.1 ∧ r.2.close = candle.2.close) ∧ Consistent log r.2 := by
  unfold computeFeatures at h
  split_ifs at h
  · cases h
  · obtain ⟨i, -, hi⟩ := List.mem_filterMap.1 h
    obtain ⟨candle, hcandle, hts, hclose⟩ := (featureRow_eq_some hi).1
    exact ⟨⟨candle, List.mem_of_getElem? hcandle, hts, hclose⟩, consistent_of_featureRow hi⟩

end Row

theorem std_isSome {xs : List ℚ} (h : 1 < xs.length) : ∃ s, std xs = some s := by
  rw [std, variance, if_neg (not_le.2 h)]
  exact ⟨_, rfl⟩

/-- A sample has no deviation just when its values are all the same. -/
theorem std_eq_zero_iff {xs : List ℚ} {s : Surd} (h : std xs = some s) :
    s.signedSq = 0 ↔ ∀ x ∈ xs, ∀ y ∈ xs, x = y := by
  obtain ⟨v, hv, rfl⟩ := Option.map_eq_some_iff.1 h
  have hlong : (0 : ℚ) < xs.length - 1 := by
    unfold variance at hv
    split_ifs at hv with hlength
    rw [sub_pos, Nat.one_lt_cast]
    omega
  have hv := variance_eq_spread hv
  have hnonneg : 0 ≤ v := hv ▸ div_nonneg (spread_nonneg _ xs) hlong.le
  change max v 0 = 0 ↔ _
  rw [max_eq_left hnonneg, hv, div_eq_zero_iff, or_iff_left hlong.ne', spread_eq_zero_iff]
  constructor
  · intro hmean x hx y hy
    rw [hmean x hx, hmean y hy]
  · intro hall x hx
    have hsum : xs.sum = xs.length * x := by
      rw [List.eq_replicate_iff.2 ⟨rfl, fun y hy => hall y hy x hx⟩]
      simp
    rw [hsum, mul_div_cancel_left₀ x (by linarith)]

section Present

variable {log df} (hpos : ∀ c ∈ df, 0 < c.2.close) {i : ℕ} (hi : i < df.length)

/-- The closes of the fifty candles up to a row are all the same. -/
def Flat (df : DataFrame) (i : ℕ) : Prop :=
  ∀ j ≤ i, i < j + 50 → values Ohlcv.close df j = values Ohlcv.close df i

instance Flat.decidable (df : DataFrame) (i : ℕ) : Decidable (Flat df i) :=
  inferInstanceAs (Decidable (∀ j ≤ i, i < j + 50 → values Ohlcv.close df j = values Ohlcv.close df i))

include hi

theorem window_closes {w : ℕ} (hw : w ≤ i + 1) : ∃ xs, Column.window w (closes df) i = some xs ∧ xs.length = w := by
  obtain ⟨xs, hxs⟩ := Column.window_of_present (x := closes df) hw
    (fun k hk => Option.isSome_of_eq_some (column_eq Ohlcv.close (by omega)))
  exact ⟨xs, hxs, (Column.window_eq_some hxs).2.1⟩

theorem ret1_isSome (h : 0 < i) : (ret1 df i).isSome := by
  obtain ⟨k, rfl⟩ : ∃ k, i = k + 1 := ⟨i - 1, by omega⟩
  simp only [ret1, pctChange, Column.map₂, Column.shift, column_eq Ohlcv.close hi,
    column_eq Ohlcv.close (Nat.lt_of_succ_lt hi), Option.map₂_some_some, Option.isSome_some]

theorem vol20_isSome (h : 20 ≤ i) : ∃ s, vol20 df i = some s := by
  obtain ⟨xs, hxs⟩ := Column.window_of_present (x := ret1 df) (w := 20) (i := i) (by omega)
    (fun k hk => ret1_isSome (by omega) (by omega))
  have hlength := (Column.window_eq_some hxs).2.1
  obtain ⟨s, hs⟩ := std_isSome (show 1 < xs.length by omega)
  exact ⟨s, Option.bind_eq_some_iff.2 ⟨xs, hxs, hs⟩⟩

theorem tr_isSome : (tr df i).isSome := by
  obtain ⟨span, hspan⟩ : ∃ span, Column.map₂ (· - ·) (column Ohlcv.high df) (column Ohlcv.low df) i = some span := by
    rw [Column.map₂, column_eq Ohlcv.high hi, column_eq Ohlcv.low hi]
    exact ⟨_, rfl⟩
  simp [tr, Column.rowMax, hspan]

theorem atr14_isSome (h : 13 ≤ i) : ∃ v, atr14 df i = some v := by
  obtain ⟨xs, hxs⟩ := Column.window_of_present (x := tr df) (w := 14) (i := i) (by omega)
    (fun k hk => tr_isSome (by omega))
  have hne : xs ≠ [] := List.ne_nil_of_length_pos (by have := (Column.window_eq_some hxs).2.1; omega)
  exact ⟨_, Option.bind_eq_some_iff.2 ⟨xs, hxs, if_neg hne⟩⟩

theorem ema_isSome {span : ℕ} (h : 1 ≤ span) :
    ∃ a, Weight.ofSpan (span : ℚ) = some a ∧ ema df span i = some (Series.ema a (values Ohlcv.close df) i) := by
  obtain ⟨a, ha⟩ := Weight.ofSpan_isSome (show 1 ≤ (span : ℚ) by exact_mod_cast h)
  refine ⟨a, ha, Option.bind_eq_some_iff.2 ⟨a, ha, ?_⟩⟩
  exact Column.ewm_eq (fun j hj => column_eq Ohlcv.close hj) hi (Nat.zero_le _)

theorem zscore50_isSome_iff : (∃ z, zscore50 df i = some z) ↔ 49 ≤ i ∧ ¬ Flat df i := by
  constructor
  · rintro ⟨z, hz⟩
    refine ⟨(zscore50_bound hz).1, fun hflat => ?_⟩
    obtain ⟨close, -, h⟩ := Option.bind_eq_some_iff.1 hz
    obtain ⟨rollMean, -, h⟩ := Option.bind_eq_some_iff.1 h
    obtain ⟨rollStd, hstd, h⟩ := Option.bind_eq_some_iff.1 h
    split_ifs at h with hne
    obtain ⟨xs, hxs, hstd⟩ := Option.bind_eq_some_iff.1 hstd
    have hsame : ∀ x ∈ xs, x = values Ohlcv.close df i := by
      intro x hx
      obtain ⟨j, hj, hw, hv⟩ := (Column.mem_window hxs).1 hx
      rw [closes, column_eq Ohlcv.close (hj.trans_lt hi)] at hv
      exact (Option.some.inj hv).symm.trans (hflat j hj hw)
    exact hne ((std_eq_zero_iff hstd).2 (fun x hx y hy => (hsame x hx).trans (hsame y hy).symm))
  · rintro ⟨hfirst, hflat⟩
    obtain ⟨xs, hxs, hlength⟩ := window_closes hi (w := 50) (by omega)
    obtain ⟨s, hs⟩ := std_isSome (show 1 < xs.length by omega)
    have hmem : ∀ j ≤ i, i < j + 50 → values Ohlcv.close df j ∈ xs := fun j hj hw =>
      (Column.mem_window hxs).2 ⟨j, hj, hw, column_eq Ohlcv.close (hj.trans_lt hi)⟩
    have hne : s.signedSq ≠ 0 := fun hs0 =>
      hflat (fun j hj hw => (std_eq_zero_iff hs).1 hs0 _ (hmem j hj hw) _ (hmem i le_rfl (by omega)))
    have hmean : mean xs = some (xs.sum / xs.length) := if_neg (List.ne_nil_of_length_pos (by omega))
    refine ⟨Surd.ratio (values Ohlcv.close df i - xs.sum / xs.length) s, ?_⟩
    simp only [zscore50, Column.rolling, column_eq Ohlcv.close hi, hxs, hs, hmean, Option.bind_eq_bind,
      Option.bind_some, if_neg hne, Option.pure_def]

include hpos

variable (log) in
theorem retLog1_isSome (h : 0 < i) : ∃ v, retLog1 log df i = some v := by
  obtain ⟨k, rfl⟩ : ∃ k, i = k + 1 := ⟨i - 1, by omega⟩
  have hvalue := values_of_forall hpos hi
  have hbefore := values_of_forall hpos (Nat.lt_of_succ_lt hi)
  refine ⟨log (values Ohlcv.close df (k + 1) / values Ohlcv.close df k), ?_⟩
  simp only [retLog1, Column.quotient, Column.shift, column_eq Ohlcv.close hi,
    column_eq Ohlcv.close (Nat.lt_of_succ_lt hi), Option.bind_eq_bind, Option.bind_some, if_neg hbefore.ne',
    if_neg (not_le.2 (div_pos hvalue hbefore)), Option.pure_def]

theorem trendGapPct_isSome : ∃ v, trendGapPct df i = some v := by
  obtain ⟨a, -, hfast⟩ := ema_isSome hi (show 1 ≤ 50 by omega)
  obtain ⟨b, -, hslow⟩ := ema_isSome hi (show 1 ≤ 200 by omega)
  have hne : Series.ema b (values Ohlcv.close df) i ≠ 0 :=
    (ema_pos (fun j hj => values_of_forall hpos (hj.trans_lt hi))).ne'
  refine Option.isSome_iff_exists.1 (Column.quotient_isSome.2 ⟨?_, _, hslow, hne⟩)
  rw [Column.map₂, hfast, hslow]
  rfl

variable (log) in
theorem featureRow_isSome_iff : (∃ r, featureRow log df i = some r) ↔ 49 ≤ i ∧ ¬ Flat df i := by
  rw [← zscore50_isSome_iff hi]
  constructor
  · rintro ⟨r, hr⟩
    exact ⟨r.2.zscore50, (featureRow_eq_some hr).2.2.2.2.2.2.2.2⟩
  · rintro ⟨z, hz⟩
    have hfirst := (zscore50_bound hz).1
    obtain ⟨ret, hret⟩ := Option.isSome_iff_exists.1 (ret1_isSome hi (by omega))
    obtain ⟨retLog, hretLog⟩ := retLog1_isSome log hpos hi (by omega)
    obtain ⟨vol, hvol⟩ := vol20_isSome hi (by omega)
    obtain ⟨atr, hatr⟩ := atr14_isSome hi (by omega)
    obtain ⟨a, -, hfast⟩ := ema_isSome hi (show 1 ≤ 50 by omega)
    obtain ⟨b, -, hslow⟩ := ema_isSome hi (show 1 ≤ 200 by omega)
    obtain ⟨gap, hgap⟩ := trendGapPct_isSome hpos hi
    refine Option.isSome_iff_exists.1 ?_
    simp only [featureRow, List.getElem?_eq_getElem hi, hret, hretLog, hvol, hatr, hfast, hslow, hgap, hz,
      Option.bind_eq_bind, Option.bind_some, Option.pure_def, Option.isSome_some]

end Present

/-- Of candles with positive closes just those get a row that have forty-nine before them,
unless the market has stood still for all fifty. -/
theorem computeFeatures_ts (hpos : ∀ c ∈ df, 0 < c.2.close) (hlength : 220 ≤ df.length) :
    (computeFeatures log df).map Prod.fst =
      (((List.range df.length).filter (fun i => 49 ≤ i ∧ ¬ Flat df i)).filterMap (df[·]?)).map Prod.fst := by
  rw [computeFeatures, if_neg (not_lt.2 hlength), Column.dropna, List.filterMap_filter, List.map_filterMap,
    List.map_filterMap]
  refine List.filterMap_congr (fun i hi => ?_)
  have hi := List.mem_range.1 hi
  by_cases h : 49 ≤ i ∧ ¬ Flat df i
  · obtain ⟨r, hr⟩ := (featureRow_isSome_iff log hpos hi).2 h
    obtain ⟨candle, hcandle, hts, -⟩ := (featureRow_eq_some hr).1
    rw [hr, if_pos (decide_eq_true h), hcandle, Option.map_some, Option.map_some, hts]
  · have hnone : featureRow log df i = none := by
      refine Option.eq_none_iff_forall_ne_some.2 (fun r hr => h ?_)
      exact (featureRow_isSome_iff log hpos hi).1 ⟨r, hr⟩
    rw [hnone, if_neg (by simpa using h)]
    rfl

def rising : DataFrame := (List.range 220).map (fun i : ℕ => (i, ⟨i + 1, i + 1, i + 1, i + 1, 1⟩))

theorem rising_get {i : ℕ} (hi : i < 220) : rising[i]? = some ((i : ℤ), ⟨i + 1, i + 1, i + 1, i + 1, 1⟩) := by
  rw [rising, List.getElem?_map, List.getElem?_range hi]
  rfl

theorem computeFeatures_ts_rising : 219 ∈ (computeFeatures (fun x => x - 1) rising).map Prod.fst := by
  have hlength : rising.length = 220 := by rw [rising, List.length_map, List.length_range]
  have hpos : ∀ c ∈ rising, 0 < c.2.close := by
    intro c hc
    obtain ⟨i, -, rfl⟩ := List.mem_map.1 hc
    exact Nat.cast_add_one_pos i
  have hlast : ¬ Flat rising 219 := by
    intro hflat
    have hsame := hflat 218 (by omega) (by omega)
    rw [values, values, column, column, rising_get (by omega), rising_get (by omega)] at hsame
    norm_num at hsame
  rw [computeFeatures_ts _ _ hpos hlength.ge, List.mem_map]
  refine ⟨_, List.mem_filterMap.2 ⟨219, List.mem_filter.2 ⟨?_, ?_⟩, rising_get (by omega)⟩, rfl⟩
  · rw [hlength, List.mem_range]
    omega
  · exact decide_eq_true ⟨by omega, hlast⟩

end Autr.Collection.FeatureBars
