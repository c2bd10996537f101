import Autr.Strategies.Frames

namespace Autr.Strategies.NewestRow

open Domain.CandleFrame Engines Frames Infra.QuantStore Series StrategyParams

section Columns

variable {candles : DataFrame}

theorem column_isSome (field : Ohlcv → ℚ) : ∀ i < candles.length, (column field candles i).isSome :=
  fun _ hi => Option.isSome_of_eq_some (column_eq field hi)

theorem settled_column (field : Ohlcv → ℚ) : Column.Settled candles.length (column field candles) :=
  Column.settled_of_present (column_isSome field)

theorem mean_isSome (xs ys : List ℚ) (h : xs.length = ys.length) (hx : (mean xs).isSome) : (mean ys).isSome := by
  cases xs <;> cases ys <;> simp_all [mean]

theorem variance_isSome (xs ys : List ℚ) (h : xs.length = ys.length) (hx : (variance xs).isSome) :
    (variance ys).isSome := by
  unfold variance at hx ⊢
  rw [h] at hx
  by_cases hlong : ys.length ≤ 1
  · simp [hlong] at hx
  · simp [hlong]

theorem max?_isSome (xs ys : List ℚ) (h : xs.length = ys.length) (hx : xs.max?.isSome) : ys.max?.isSome := by
  cases xs <;> cases ys <;> simp_all

/-- The true range of the first row lacks a previous close, but not its span. -/
theorem settled_atr (period : ℕ) : Column.Settled candles.length (computeAtr candles period) := by
  refine Column.Settled.rolling (Column.settled_of_present (fun i hi => ?_)) mean_isSome period
  have hspan : (Column.map₂ (· - ·) (column Ohlcv.high candles) (column Ohlcv.low candles) i).isSome := by
    rw [Column.map₂, column_eq Ohlcv.high hi, column_eq Ohlcv.low hi]
    rfl
  obtain ⟨span, hspan⟩ := Option.isSome_iff_exists.1 hspan
  simp [Column.rowMax, hspan]

theorem weight_lt_one {period : ℚ} {a : Weight ℚ} (ha : Weight.ofPeriod period = some a) (hperiod : 2 ≤ period) :
    a.val < 1 := by
  unfold Weight.ofPeriod at ha
  split_ifs at ha with hone
  cases ha
  exact (div_lt_one (by linarith)).2 (by linarith)

/-- The average loss does not become zero again, so that an RSI is not lost. -/
theorem settled_rsi {period : ℚ} {a : Weight ℚ} (ha : Weight.ofPeriod period = some a) (hperiod : 2 ≤ period)
    (field : Ohlcv → ℚ) : Column.Settled candles.length (computeRsi period a (column field candles)) := by
  refine ((Column.settled_ewm a _ _ _).quotient (Column.settled_ewm a _ _ _) (fun i y z _ hy hne hz => ?_)).map _
  refine Column.ewm_ne_zero (weight_lt_one ha hperiod) (fun j v hv => ?_) hy hne hz
  obtain ⟨delta, hdelta, rfl⟩ := Option.map_eq_some_iff.1 hv
  exact neg_nonneg.2 (min_le_right _ _)

/-- The slower average of positive prices divides the gap in every row. -/
theorem settled_trendGap (hpos : ∀ c ∈ candles, 0 < c.2.close) (fast slow : Weight ℚ) :
    let emaFast := computeEma fast (column Ohlcv.close candles)
    let emaSlow := computeEma slow (column Ohlcv.close candles)
    Column.Settled candles.length (Column.quotient (Column.map₂ (· - ·) emaFast emaSlow) emaSlow) := by
  refine Column.Settled.quotient ((Column.settled_ewm _ _ _ _).map₂ _ (Column.settled_ewm _ _ _ _))
    (Column.settled_ewm _ _ _ _) (fun i _ y hi _ _ hy => ?_)
  rw [computeEma, Column.ewm_eq (fun j hj => column_eq Ohlcv.close hj) hi (Nat.zero_le _)] at hy
  cases hy
  exact (ema_pos (fun j hj => values_of_forall hpos (by omega))).ne'

end Columns

/-- A frame under construction over the candles: no row is missing after one that is
there, and each row is that of its candle. -/
structure Current (candles : DataFrame) (df : Column FrameRow) : Prop where
  settled : Column.Settled candles.length df
  row : ∀ i r, df i = some r → candles[i]? = some (r.ts, r.candle) ∧ r.indicators.close = r.candle.close

variable {candles : DataFrame} {df : Column FrameRow}

theorem current_copy (candles : DataFrame) : Current candles (copy candles) where
  settled := Column.settled_of_present (fun i hi => by simp [copy, List.getElem?_eq_getElem hi])
  row i r hr := by
    obtain ⟨c, hc, rfl⟩ := Option.map_eq_some_iff.1 hr
    exact ⟨hc, rfl⟩

theorem Current.assign (h : Current candles df) {x : Column ℚ} (hx : Column.Settled candles.length x)
    {set : Row → ℚ → Row} (hset : ∀ row x, (set row x).close = row.close := by exact fun _ _ => rfl) :
    Current candles (assign df set x) where
  settled := h.settled.map₂ _ hx
  row i r hr := by
    obtain ⟨row, value, hrow, -, rfl⟩ := Option.map₂_eq_some_iff.1 hr
    obtain ⟨hcandle, hclose⟩ := h.row i row hrow
    exact ⟨hcandle, (hset _ _).trans hclose⟩

/-- The last row of a frame is that of the last candle. -/
theorem Current.newest (h : Current candles df) (hne : frame candles df ≠ []) :
    ∃ row, (frame candles df).getLast? = some row ∧ candles.getLast? = some (row.ts, row.candle) ∧
      row.indicators.close = row.candle.close := by
  have hlast : (frame candles df).getLast? = df (candles.length - 1) := h.settled.getLast?_dropna hne
  obtain ⟨row, hrow⟩ := Option.isSome_iff_exists.1 (List.getLast?_isSome.2 hne)
  obtain ⟨hcandle, hclose⟩ := h.row _ row (hlast.symm.trans hrow)
  exact ⟨row, hrow, by rwa [List.getLast?_eq_getElem?], hclose⟩

section Builders

variable {params : ParamsObject} {f : List FrameRow}

theorem regimeTrendFrame_current (hpos : ∀ c ∈ candles, 0 < c.2.close)
    (h : regimeTrendFrame params candles = some f) :
    ∃ df, f = frame candles df ∧ Current candles df := by
  obtain ⟨fast, -, h⟩ := Option.bind_eq_some_iff.1 h
  obtain ⟨slow, -, h⟩ := Option.bind_eq_some_iff.1 h
  obtain ⟨atrPeriod, -, h⟩ := Option.bind_eq_some_iff.1 h
  cases h
  refine ⟨_, rfl, Current.assign ?_ (settled_trendGap hpos fast slow)⟩
  refine Current.assign ?_ (settled_atr atrPeriod)
  refine Current.assign ?_ (Column.settled_ewm _ _ _ _)
  exact Current.assign (current_copy candles) (Column.settled_ewm _ _ _ _)

theorem breakoutVolumeFrame_current (h : breakoutVolumeFrame params candles = some f) :
    ∃ df, f = frame candles df ∧ Current candles df := by
  obtain ⟨atrPeriod, -, h⟩ := Option.bind_eq_some_iff.1 h
  obtain ⟨breakoutPeriod, -, h⟩ := Option.bind_eq_some_iff.1 h
  obtain ⟨volumeMaPeriod, -, h⟩ := Option.bind_eq_some_iff.1 h
  cases h
  refine ⟨_, rfl, Current.assign ?_ ((settled_column _).rolling mean_isSome volumeMaPeriod)⟩
  refine Current.assign ?_ ((settled_column _).shift.rolling max?_isSome breakoutPeriod)
  exact Current.assign (current_copy candles) (settled_atr atrPeriod)

theorem meanReversionFrame_current {sqrt : ℚ → ℚ}
    (hrsi : ∀ period, params.number "rsi_period" = some period → 2 ≤ period)
    (h : meanReversionFrame sqrt params candles = some f) : ∃ df, f = frame candles df ∧ Current candles df := by
  obtain ⟨bbPeriod, -, h⟩ := Option.bind_eq_some_iff.1 h
  obtain ⟨bbStd, -, h⟩ := Option.bind_eq_some_iff.1 h
  obtain ⟨rsiPeriod, hrsiPeriod, h⟩ := Option.bind_eq_some_iff.1 h
  obtain ⟨a, ha, h⟩ := Option.bind_eq_some_iff.1 h
  obtain ⟨atrPeriod, -, h⟩ := Option.bind_eq_some_iff.1 h
  cases h
  have hmid : Column.Settled candles.length ((column Ohlcv.close candles).rolling bbPeriod mean) :=
    (settled_column _).rolling mean_isSome _
  have hstd : Column.Settled candles.length (((column Ohlcv.close candles).rolling bbPeriod variance).map sqrt) :=
    ((settled_column _).rolling variance_isSome _).map sqrt
  refine ⟨_, rfl, Current.assign ?_ (settled_atr atrPeriod)⟩
  refine Current.assign ?_ (settled_rsi ha (hrsi _ hrsiPeriod) _)
  refine Current.assign ?_ (hmid.map₂ _ hstd)
  refine Current.assign ?_ (hmid.map₂ _ hstd)
  exact Current.assign (current_copy candles) hmid

theorem dualTimeframeFrame_current (hrsi : ∀ period, params.number "ltf_rsi_period" = some period → 2 ≤ period)
    (h : dualTimeframeFrame params candles = some f) : ∃ df, f = frame candles df ∧ Current candles df := by
  obtain ⟨span, -, h⟩ := Option.bind_eq_some_iff.1 h
  obtain ⟨rsiPeriod, hrsiPeriod, h⟩ := Option.bind_eq_some_iff.1 h
  obtain ⟨a, ha, h⟩ := Option.bind_eq_some_iff.1 h
  obtain ⟨atrPeriod, -, h⟩ := Option.bind_eq_some_iff.1 h
  cases h
  refine ⟨_, rfl, Current.assign ?_ (settled_atr atrPeriod)⟩
  refine Current.assign ?_ (settled_rsi ha (hrsi _ hrsiPeriod) _)
  exact Current.assign (current_copy candles) (Column.settled_ewm _ _ _ _)

end Builders

/-- The parameter of an engine that is the period of its RSI. -/
def rsiKey : EngineKind → Option String
  | .meanReversion => some "rsi_period"
  | .dualTimeframe => some "ltf_rsi_period"
  | .regimeTrend | .breakoutVolume => none

theorem buildFrame_current {sqrt : ℚ → ℚ} {e : Engine} {f : List FrameRow} (hpos : ∀ c ∈ candles, 0 < c.2.close)
    (hrsi : ∀ key ∈ rsiKey e.kind, ∀ period, e.params.number key = some period → 2 ≤ period)
    (h : buildFrame sqrt e candles = some f) : ∃ df, f = frame candles df ∧ Current candles df := by
  unfold buildFrame at h
  cases hkind : e.kind with
  | regimeTrend =>
      rw [hkind] at h
      exact regimeTrendFrame_current hpos h
  | breakoutVolume =>
      rw [hkind] at h
      exact breakoutVolumeFrame_current h
  | meanReversion =>
      rw [hkind] at h hrsi
      exact meanReversionFrame_current (hrsi _ rfl) h
  | dualTimeframe =>
      rw [hkind] at h hrsi
      exact dualTimeframeFrame_current (hrsi _ rfl) h

/-- The last row of a frame of indicators, the one that is decided on, is that of the
newest candle. -/
theorem frame_ends_newest {sqrt : ℚ → ℚ} {e : Engine} {f : List FrameRow}
    (hsorted : (candles.map Prod.fst).Pairwise (· ≤ ·)) (hpos : ∀ c ∈ candles, 0 < c.2.close)
    (hrsi : ∀ key ∈ rsiKey e.kind, ∀ period, e.params.number key = some period → 2 ≤ period)
    (hf : buildFrame sqrt e candles = some f) (hne : f ≠ []) :
    ∃ row, f.getLast? = some row ∧ candles.getLast? = some (row.ts, row.candle) ∧ (∀ c ∈ candles, c.1 ≤ row.ts) ∧
      row.indicators.close = row.candle.close := by
  obtain ⟨df, rfl, hcurrent⟩ := buildFrame_current hpos hrsi hf
  obtain ⟨row, hrow, hlast, hclose⟩ := hcurrent.newest hne
  refine ⟨row, hrow, hlast, fun c hc => ?_, hclose⟩
  obtain ⟨before, rfl⟩ := List.getLast?_eq_some_iff.1 hlast
  rw [List.map_append, List.pairwise_append] at hsorted
  rcases List.mem_append.1 hc with hc | hc
  · exact hsorted.2.2 c.1 (List.mem_map_of_mem hc) _ (by simp)
  · rw [List.mem_singleton.1 hc]

/-- Two timeframes with short windows. -/
def shortWindows : Engine :=
  ⟨.dualTimeframe, ⟨.dualTimeframe,
    [("ltf_ema_period", .int 2), ("ltf_rsi_period", .int 2), ("atr_period", .int 1)]⟩⟩

/-- Closes that rise and then fall: the average loss is positive from the third row on. -/
def dip : DataFrame := [(0, ⟨10, 10, 10, 10, 1⟩), (1, ⟨12, 12, 12, 12, 1⟩), (2, ⟨11, 11, 11, 11, 1⟩),
  (3, ⟨13, 13, 13, 13, 1⟩)]

theorem frame_ends_newest_dip :
    ∃ f row, buildFrame id shortWindows dip = some f ∧ f.getLast? = some row ∧
      dip.getLast? = some (row.ts, row.candle) ∧ (∀ c ∈ dip, c.1 ≤ row.ts) ∧
      row.indicators.close = row.candle.close := by
  have hframe : (buildFrame id shortWindows dip).map List.isEmpty = some false := by decide +kernel
  obtain ⟨f, hf, hempty⟩ := Option.map_eq_some_iff.1 hframe
  have hperiod : shortWindows.params.number "ltf_rsi_period" = some 2 := by decide +kernel
  obtain ⟨row, hrow⟩ := frame_ends_newest (e := shortWindows) (by decide) (by decide +kernel)
    (fun key hkey period hnumber => by
      cases hkey
      rw [hperiod] at hnumber
      exact (Option.some.inj hnumber).le) hf (by simpa using hempty)
  exact ⟨f, row, hf, hrow⟩

/-- Until the closes fall there is no average loss, so that a frame can have one row. -/
example : (buildFrame id shortWindows (dip.take 3)).map List.length = some 1 := by decide +kernel

end Autr.Strategies.NewestRow
