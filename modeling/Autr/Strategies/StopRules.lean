import Autr.Strategies.Engines

namespace Autr.Strategies.Engines

open StrategyParams Services StrategyConsumer

@[simp]
theorem decidedStop_signalDecision (kind : EngineKind) (signal : Signal) (reason : String) (stop : Option ℚ)
    (closePrice : ℚ) : decidedStop kind (signalDecision kind signal reason stop closePrice) = stop := by
  cases kind <;> rfl

theorem positiveOrElse_of_pos {stop : ℚ} (h : 0 < stop) (candidate : ℚ) :
    positiveOrElse (some stop) candidate = max stop candidate := if_pos h

theorem orElse_of_pos {stop : ℚ} (h : 0 < stop) (candidate : ℚ) : orElse (some stop) candidate = stop :=
  if_neg h.ne'

/-- What an engine that trails its stop decides with a position and a positive stop. -/
inductive TrailingDecision (e : Engine) (frame : List Row) (stop : ℚ) : Decision → Prop
  | short (reason) (hshort : frame.length < neededRows e.kind) :
      TrailingDecision e frame stop (signalDecision e.kind .hold reason (some stop) 0)
  | trail (signal) (reason) (last : Row) (mult : ℚ) (hrows : neededRows e.kind ≤ frame.length)
      (hlast : frame.getLast? = some last) (hmult : e.params.number "trailing_stop_atr_mult" = some mult)
      (hsignal : signal ≠ .buy)
      (hsell : last.close ≤ max stop (last.close - last.atr * mult) → signal = .sell) :
      TrailingDecision e frame stop
        (signalDecision e.kind signal reason (some (max stop (last.close - last.atr * mult))) last.close)

section Trailing

variable {params : ParamsObject} {frame : List Row} {stop : ℚ} {barsSinceTrade : ℕ} {d : Decision}

theorem regimeTrendDecide_trailing (hpos : 0 < stop)
    (h : regimeTrendDecide params frame true (some stop) barsSinceTrade = some d) :
    TrailingDecision ⟨.regimeTrend, params⟩ frame stop d := by
  unfold regimeTrendDecide at h
  split at h
  next hlast =>
    cases h
    exact .short _ (by rw [List.getLast?_eq_none_iff.1 hlast]; exact Nat.zero_lt_one)
  next last hlast =>
    obtain ⟨minTrendGap, -, h⟩ := Option.bind_eq_some_iff.1 h
    obtain ⟨mult, hmult, h⟩ := Option.bind_eq_some_iff.1 h
    have hrows := length_of_getLast? hlast
    rw [positiveOrElse_of_pos hpos] at h
    dsimp only at h
    split at h
    · cases h
      exact .trail .sell _ last mult hrows hlast hmult (by decide) (fun _ => rfl)
    next hstop =>
      split at h
      · cases h
        exact .trail .sell _ last mult hrows hlast hmult (by decide) (fun _ => rfl)
      · cases h
        exact .trail .hold _ last mult hrows hlast hmult (by decide) (fun hle => absurd hle hstop)

theorem breakoutVolumeDecide_trailing (hpos : 0 < stop)
    (h : breakoutVolumeDecide params frame true (some stop) barsSinceTrade = some d) :
    TrailingDecision ⟨.breakoutVolume, params⟩ frame stop d := by
  unfold breakoutVolumeDecide at h
  split at h
  next hlast =>
    cases h
    exact .short _ (by rw [List.getLast?_eq_none_iff.1 hlast]; exact Nat.zero_lt_one)
  next last hlast =>
    obtain ⟨multiplier, -, h⟩ := Option.bind_eq_some_iff.1 h
    obtain ⟨mult, hmult, h⟩ := Option.bind_eq_some_iff.1 h
    have hrows := length_of_getLast? hlast
    dsimp only at h
    rw [orElse_of_pos hpos] at h
    split at h
    · cases h
      exact .trail .sell _ last mult hrows hlast hmult (by decide) (fun _ => rfl)
    next hstop =>
      cases h
      exact .trail .hold _ last mult hrows hlast hmult (by decide) (fun hle => absurd hle hstop)

theorem dualTimeframeDecide_trailing {htfBullish htfDataSufficient : Bool} (hpos : 0 < stop)
    (h : dualTimeframeDecide params frame htfBullish htfDataSufficient true (some stop) barsSinceTrade = some d) :
    TrailingDecision ⟨.dualTimeframe, params⟩ frame stop d := by
  have hlength := frame.length_reverse
  unfold dualTimeframeDecide at h
  split at h
  next hframe =>
    cases h
    rw [hframe] at hlength
    exact .short _ (hlength ▸ Nat.zero_lt_two)
  next row hframe =>
    cases h
    rw [hframe] at hlength
    exact .short _ (hlength ▸ Nat.one_lt_two)
  next last prev rest hframe =>
    rw [hframe] at hlength
    have hrows : 2 ≤ frame.length := hlength ▸ Nat.le_add_left 2 rest.length
    have hlast := getLast?_of_reverse hframe
    obtain ⟨mult, hmult, h⟩ := Option.bind_eq_some_iff.1 h
    dsimp only at h
    rw [orElse_of_pos hpos] at h
    split at h
    · cases h
      exact .trail .sell _ last mult hrows hlast hmult (by decide) (fun _ => rfl)
    next hstop =>
      split at h
      · cases h
        exact .trail .sell _ last mult hrows hlast hmult (by decide) (fun _ => rfl)
      · cases h
        exact .trail .hold _ last mult hrows hlast hmult (by decide) (fun hle => absurd hle hstop)

theorem Engine.decide_trailing {e : Engine} {htfBullish htfDataSufficient : Bool}
    (hkind : e.kind ≠ .meanReversion) (hpos : 0 < stop)
    (h : e.decide frame htfBullish htfDataSufficient true (some stop) barsSinceTrade = some d) :
    TrailingDecision e frame stop d := by
  cases e with
  | mk kind params =>
      cases kind with
      | regimeTrend => exact regimeTrendDecide_trailing hpos h
      | dualTimeframe => exact dualTimeframeDecide_trailing hpos h
      | breakoutVolume => exact breakoutVolumeDecide_trailing hpos h
      | meanReversion => exact absurd rfl hkind

end Trailing

/-- A multiplier that a field holds. -/
def Multiplies (params : ParamsObject) (key : String) : Prop := ∃ mult, params.number key = some mult ∧ 0 < mult

/-- Stops lie below the price, and the oversold level below the overbought one. -/
def Sound (e : Engine) : Prop :=
  match e.kind with
  | .meanReversion => Multiplies e.params "stop_atr_mult" ∧ ∃ oversold overbought,
      e.params.number "rsi_oversold" = some oversold ∧ e.params.number "rsi_overbought" = some overbought ∧
        oversold < overbought
  | .regimeTrend | .dualTimeframe | .breakoutVolume =>
      Multiplies e.params "initial_stop_atr_mult" ∧ Multiplies e.params "trailing_stop_atr_mult"

/-- The last row has a positive ATR, and for mean reversion a lower band below the middle one. -/
def Proper (kind : EngineKind) (frame : List Row) : Prop :=
  ∀ last ∈ frame.getLast?, 0 < last.atr ∧ (kind = .meanReversion → last.bbLower < last.bbMid)

theorem positiveOrElse_lt {stop : Option ℚ} {candidate close : ℚ} (hstop : ∀ x ∈ stop, x < close)
    (hcandidate : candidate < close) : positiveOrElse stop candidate < close := by
  unfold positiveOrElse
  split
  next x =>
    split
    · exact max_lt (hstop x rfl) hcandidate
    · exact hcandidate
  · exact hcandidate

theorem orElse_lt {stop : Option ℚ} {candidate close : ℚ} (hstop : ∀ x ∈ stop, x < close)
    (hcandidate : candidate < close) : orElse stop candidate < close := by
  unfold orElse
  split
  next x =>
    split
    · exact hcandidate
    · exact hstop x rfl
  · exact hcandidate

theorem max_orElse_lt {stop : Option ℚ} {candidate close : ℚ} (hstop : ∀ x ∈ stop, x < close)
    (hcandidate : candidate < close) : max (orElse stop candidate) candidate < close :=
  max_lt (orElse_lt hstop hcandidate) hcandidate

theorem stopOf_signalDecision (kind : EngineKind) (signal : Signal) (reason : String) (stop close : ℚ) :
    ∀ x ∈ stopOf (signalDecision kind signal reason (some stop) close), x = stop := by
  intro x hx
  by_cases hzero : stop = 0 <;> cases kind <;> simp [signalDecision, stopOf, hzero] at hx ⊢ <;> exact hx.symm

/-- The decision has a stop below its price, and asked again with a position and a stop
below that price, the engine holds and leaves the stop below it. -/
def StaysBought (e : Engine) (frame : List Row) (htfBullish htfDataSufficient : Bool) (d : Decision) : Prop :=
  (∃ x < d.closePrice, decidedStop e.kind d = some x) ∧
    ∀ stop, (∀ x ∈ stop, x < d.closePrice) → ∀ barsSinceTrade,
      ∃ d', e.decide frame htfBullish htfDataSufficient true stop barsSinceTrade = some d' ∧ d'.signal = .hold ∧
        ∀ x ∈ stopOf d', x < d.closePrice

section Bought

variable {params : ParamsObject} {frame : List Row} {htfBullish htfDataSufficient : Bool} {stop : Option ℚ}
  {bars : ℕ} {d : Decision}

theorem regimeTrendDecide_bought (hproper : Proper .regimeTrend frame) (hsound : Sound ⟨.regimeTrend, params⟩)
    (h : regimeTrendDecide params frame false stop bars = some d) (hbuy : d.signal = .buy) :
    StaysBought ⟨.regimeTrend, params⟩ frame htfBullish htfDataSufficient d := by
  unfold regimeTrendDecide at h
  split at h
  · cases h
    cases hbuy
  next last hlast =>
    obtain ⟨hatr, -⟩ := hproper last hlast
    obtain ⟨⟨initial, hinitial, hinitial₀⟩, trailing, htrailing, htrailing₀⟩ := hsound
    obtain ⟨minTrendGap, hgap, h⟩ := Option.bind_eq_some_iff.1 h
    obtain ⟨cooldownBars, -, h⟩ := Option.bind_eq_some_iff.1 h
    split at h
    · cases h
      cases hbuy
    · split at h
      next hentry =>
        rw [hinitial] at h
        cases h
        obtain ⟨hbullish, -⟩ := Bool.and_eq_true_iff.1 hentry
        refine ⟨⟨_, sub_lt_self _ (mul_pos hatr hinitial₀), rfl⟩, fun stop' hstop' bars' => ?_⟩
        have hnext : positiveOrElse stop' (last.close - last.atr * trailing) < last.close :=
          positiveOrElse_lt hstop' (sub_lt_self last.close (mul_pos hatr htrailing₀))
        change ∃ d', regimeTrendDecide params frame true stop' bars' = some d' ∧ _
        unfold regimeTrendDecide
        rw [hlast, hgap, htrailing]
        simp only [Option.bind_eq_bind, Option.bind_some, if_true]
        rw [if_neg hnext.not_ge, hbullish]
        exact ⟨_, rfl, rfl, fun x hx => (stopOf_signalDecision _ _ _ _ _ x hx).trans_lt hnext⟩
      · cases h
        cases hbuy

theorem breakoutVolumeDecide_bought (hproper : Proper .breakoutVolume frame)
    (hsound : Sound ⟨.breakoutVolume, params⟩)
    (h : breakoutVolumeDecide params frame false stop bars = some d) (hbuy : d.signal = .buy) :
    StaysBought ⟨.breakoutVolume, params⟩ frame htfBullish htfDataSufficient d := by
  unfold breakoutVolumeDecide at h
  split at h
  · cases h
    cases hbuy
  next last hlast =>
    obtain ⟨hatr, -⟩ := hproper last hlast
    obtain ⟨⟨initial, hinitial, hinitial₀⟩, trailing, htrailing, htrailing₀⟩ := hsound
    obtain ⟨multiplier, hmultiplier, h⟩ := Option.bind_eq_some_iff.1 h
    obtain ⟨cooldownBars, -, h⟩ := Option.bind_eq_some_iff.1 h
    split at h
    · cases h
      cases hbuy
    · split at h
      · rw [hinitial] at h
        cases h
        refine ⟨⟨_, sub_lt_self _ (mul_pos hatr hinitial₀), rfl⟩, fun stop' hstop' bars' => ?_⟩
        have hnext : max (orElse stop' (last.close - last.atr * trailing)) (last.close - last.atr * trailing) <
            last.close := max_orElse_lt hstop' (sub_lt_self last.close (mul_pos hatr htrailing₀))
        change ∃ d', breakoutVolumeDecide params frame true stop' bars' = some d' ∧ _
        unfold breakoutVolumeDecide
        rw [hlast, hmultiplier, htrailing]
        simp only [Option.bind_eq_bind, Option.bind_some, if_true]
        rw [if_neg hnext.not_ge]
        exact ⟨_, rfl, rfl, fun x hx => (stopOf_signalDecision _ _ _ _ _ x hx).trans_lt hnext⟩
      · split at h <;> cases h <;> cases hbuy

theorem meanReversionDecide_bought (hproper : Proper .meanReversion frame)
    (hsound : Sound ⟨.meanReversion, params⟩)
    (h : meanReversionDecide params frame false stop bars = some d) (hbuy : d.signal = .buy) :
    StaysBought ⟨.meanReversion, params⟩ frame htfBullish htfDataSufficient d := by
  unfold meanReversionDecide at h
  split at h
  · cases h
    cases hbuy
  next last hlast =>
    obtain ⟨hatr, hbands⟩ := hproper last hlast
    obtain ⟨⟨initial, hinitial, hinitial₀⟩, oversold, overbought, hoversold, hoverbought, hlevels⟩ := hsound
    obtain ⟨cooldownBars, -, h⟩ := Option.bind_eq_some_iff.1 h
    split at h
    · cases h
      cases hbuy
    · rw [hoversold] at h
      simp only [Option.bind_eq_bind, Option.bind_some] at h
      split at h
      next hentry =>
        obtain ⟨hrsi, hband⟩ := hentry
        rw [hinitial] at h
        cases h
        refine ⟨⟨_, sub_lt_self _ (mul_pos hatr hinitial₀), rfl⟩, fun stop' hstop' bars' => ?_⟩
        have hstopped : ¬ stop'.any (fun x => decide (x ≠ 0 ∧ last.close ≤ x)) = true := by
          rw [Option.any_eq_true]
          rintro ⟨x, hx, hle⟩
          exact (hstop' x hx).not_ge (of_decide_eq_true hle).2
        change ∃ d', meanReversionDecide params frame true stop' bars' = some d' ∧ _
        unfold meanReversionDecide
        rw [hlast]
        dsimp only
        rw [if_pos rfl, if_neg hstopped, hoverbought]
        simp only [Option.bind_eq_bind, Option.bind_some]
        rw [if_neg (hrsi.trans_lt hlevels).not_ge, if_neg (hband.trans_lt (hbands rfl)).not_ge]
        exact ⟨_, rfl, rfl, hstop'⟩
      · cases h
        cases hbuy

theorem dualTimeframeDecide_bought (hproper : Proper .dualTimeframe frame) (hsound : Sound ⟨.dualTimeframe, params⟩)
    (h : dualTimeframeDecide params frame htfBullish htfDataSufficient false stop bars = some d)
    (hbuy : d.signal = .buy) : StaysBought ⟨.dualTimeframe, params⟩ frame htfBullish htfDataSufficient d := by
  unfold dualTimeframeDecide at h
  split at h
  · cases h
    cases hbuy
  · cases h
    cases hbuy
  next last prev rest hframe =>
    obtain ⟨hatr, -⟩ := hproper last (getLast?_of_reverse hframe)
    obtain ⟨⟨initial, hinitial, hinitial₀⟩, trailing, htrailing, htrailing₀⟩ := hsound
    obtain ⟨cooldownBars, -, h⟩ := Option.bind_eq_some_iff.1 h
    split at h
    · cases h
      cases hbuy
    · split at h
      · cases h
        cases hbuy
      next hbullish =>
        obtain ⟨oversold, -, h⟩ := Option.bind_eq_some_iff.1 h
        split at h
        · rw [hinitial] at h
          cases h
          refine ⟨⟨_, sub_lt_self _ (mul_pos hatr hinitial₀), rfl⟩, fun stop' hstop' bars' => ?_⟩
          have hnext : max (orElse stop' (last.close - last.atr * trailing)) (last.close - last.atr * trailing) <
              last.close := max_orElse_lt hstop' (sub_lt_self last.close (mul_pos hatr htrailing₀))
          change ∃ d', dualTimeframeDecide params frame htfBullish htfDataSufficient true stop' bars' = some d' ∧ _
          unfold dualTimeframeDecide
          rw [hframe, htrailing]
          simp only [Option.bind_eq_bind, Option.bind_some, if_true]
          rw [if_neg hnext.not_ge, if_neg hbullish]
          exact ⟨_, rfl, rfl, fun x hx => (stopOf_signalDecision _ _ _ _ _ x hx).trans_lt hnext⟩
        · cases h
          cases hbuy

theorem Engine.decide_bought {e : Engine} (hproper : Proper e.kind frame) (hsound : Sound e)
    (h : e.decide frame htfBullish htfDataSufficient false stop bars = some d) (hbuy : d.signal = .buy) :
    StaysBought e frame htfBullish htfDataSufficient d := by
  cases e with
  | mk kind params =>
      cases kind with
      | regimeTrend => exact regimeTrendDecide_bought hproper hsound h hbuy
      | dualTimeframe => exact dualTimeframeDecide_bought hproper hsound h hbuy
      | breakoutVolume => exact breakoutVolumeDecide_bought hproper hsound h hbuy
      | meanReversion => exact meanReversionDecide_bought hproper hsound h hbuy

end Bought

end Autr.Strategies.Engines
