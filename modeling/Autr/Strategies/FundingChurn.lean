import Autr.Strategies.FundingArb
import Mathlib.Logic.Function.Iterate

namespace Autr.Strategies.FundingArb

/-- What the engine is asked about, in every cycle of an unchanged market. -/
structure Market where
  fundingRates : List ℚ
  spotPrice : ℚ
  perpPrice : ℚ
  marginRatio : Option ℚ

variable (p : Params) (m : Market)

def Market.answer (inPosition : Bool) : Signal :=
  (decide p m.fundingRates m.spotPrice m.perpPrice inPosition m.marginRatio).signal

/-- The position after a cycle whose orders go through. -/
def Market.cycle (inPosition : Bool) : Bool :=
  match m.answer p inPosition with
  | .open => true
  | .close | .emergencyClose => false
  | .hold => inPosition

def averageFunding (fundingRates : List ℚ) : ℚ :=
  let lookback := min p.fundingRateLookback fundingRates.length
  (recent lookback fundingRates).sum / lookback

/-- A position that is opened is not closed again, neither in the next cycle nor in a later one. -/
structure Steady : Prop where
  answer : m.answer p false = .open → m.answer p true ≠ .close ∧ m.answer p true ≠ .emergencyClose
  cycles : ∀ inPosition n, m.answer p ((m.cycle p)^[n] inPosition) = .open →
    ∀ k, m.answer p ((m.cycle p)^[n + 1 + k] inPosition) = .hold

/-- None of the three exit rules that the entry does not check applies. -/
structure Safe : Prop where
  basis : |basisOf m.spotPrice m.perpPrice| ≤ p.maxBasisDivergencePct
  margin : ∀ marginRatio ∈ m.marginRatio, p.marginSafetyRatio ≤ marginRatio
  funding : 0 ≤ averageFunding p m.fundingRates

instance : Decidable (Safe p m) :=
  decidable_of_iff (|basisOf m.spotPrice m.perpPrice| ≤ p.maxBasisDivergencePct ∧
    (∀ marginRatio ∈ m.marginRatio, p.marginSafetyRatio ≤ marginRatio) ∧ 0 ≤ averageFunding p m.fundingRates)
    ⟨fun h => ⟨h.1, h.2.1, h.2.2⟩, fun h => ⟨h.basis, h.margin, h.funding⟩⟩

/-- The average of the rates that are looked back on reaches the entry threshold. -/
def Enters : Prop :=
  p.fundingRateLookback ≠ 0 ∧ p.fundingRateEntryThreshold ≤ averageFunding p m.fundingRates

instance : Decidable (Enters p m) := inferInstanceAs (Decidable (_ ∧ _))

variable {p m}

theorem answer_eq (hrates : m.fundingRates ≠ []) (inPosition : Bool) :
    m.answer p inPosition =
      if p.fundingRateLookback = 0 then .hold
      else
        (judge p (averageFunding p m.fundingRates) (basisOf m.spotPrice m.perpPrice) inPosition m.marginRatio).1 := by
  have hlength : 0 < m.fundingRates.length := List.length_pos_iff.2 hrates
  have hlookback : min p.fundingRateLookback m.fundingRates.length = 0 ↔ p.fundingRateLookback = 0 := by omega
  unfold Market.answer decide
  dsimp only
  rw [apply_ite Decision.signal]
  exact if_congr hlookback rfl rfl

theorem judge_held (p : Params) (avgFunding basisPct : ℚ) (marginRatio : Option ℚ) :
    ((judge p avgFunding basisPct true marginRatio).1 ≠ .close ∧
        (judge p avgFunding basisPct true marginRatio).1 ≠ .emergencyClose ↔
      |basisPct| ≤ p.maxBasisDivergencePct ∧ (∀ x ∈ marginRatio, p.marginSafetyRatio ≤ x) ∧
        p.fundingRateExitThreshold ≤ avgFunding ∧ 0 ≤ avgFunding) ∧
      (judge p avgFunding basisPct true marginRatio).1 ≠ .open := by
  have hmargin : marginRatio.any (fun x => Decidable.decide (x < p.marginSafetyRatio)) = true ↔
      ¬ ∀ x ∈ marginRatio, p.marginSafetyRatio ≤ x := by
    rw [Option.any_eq_true]
    simp
  unfold judge
  rw [if_pos rfl]
  split
  next hbasis => exact ⟨iff_of_false (fun h => h.2 rfl) (fun h => h.1.not_gt hbasis), Signal.noConfusion⟩
  next hbasis =>
    split
    next hlow => exact ⟨iff_of_false (fun h => h.2 rfl) (fun h => hmargin.1 hlow h.2.1), Signal.noConfusion⟩
    next hlow =>
      split
      next hexit => exact ⟨iff_of_false (fun h => h.1 rfl) (fun h => h.2.2.1.not_gt hexit), Signal.noConfusion⟩
      next hexit =>
        split
        next hnegative =>
          exact ⟨iff_of_false (fun h => h.1 rfl) (fun h => h.2.2.2.not_gt hnegative), Signal.noConfusion⟩
        next hnegative =>
          have hsafe := not_not.1 (mt hmargin.2 hlow)
          exact ⟨iff_of_true ⟨Signal.noConfusion, Signal.noConfusion⟩
            ⟨not_lt.1 hbasis, hsafe, not_lt.1 hexit, not_lt.1 hnegative⟩, Signal.noConfusion⟩

theorem enters_iff (hrates : m.fundingRates ≠ []) : m.answer p false = .open ↔ Enters p m := by
  rw [answer_eq hrates, Enters]
  split
  next hzero => simp [hzero]
  next hzero => simp [judge_open_iff, hzero]

/-- With a position, the engine holds exactly when the three exit rules do not apply. -/
theorem holds_iff_safe (hthresholds : p.fundingRateExitThreshold ≤ p.fundingRateEntryThreshold)
    (hrates : m.fundingRates ≠ []) (henters : Enters p m) :
    (m.answer p true ≠ .close ∧ m.answer p true ≠ .emergencyClose ↔ Safe p m) ∧ m.answer p true ≠ .open := by
  obtain ⟨hlookback, hentry⟩ := henters
  rw [answer_eq hrates, if_neg hlookback]
  obtain ⟨hcloses, hopen⟩ := judge_held p (averageFunding p m.fundingRates) (basisOf m.spotPrice m.perpPrice)
    m.marginRatio
  refine ⟨hcloses.trans ⟨fun h => ⟨h.1, h.2.1, h.2.2.2⟩, fun h => ?_⟩, hopen⟩
  exact ⟨h.basis, h.margin, hthresholds.trans hentry, h.funding⟩

/-- While the engine holds, the position is kept. -/
theorem cycles_hold (hhold : m.answer p true = .hold) (k : ℕ) : (m.cycle p)^[k] true = true := by
  induction k with
  | zero => rfl
  | succ k ih =>
      rw [Function.iterate_succ_apply', ih, Market.cycle, hhold]

theorem steady_of_answer
    (hanswer : m.answer p false = .open → m.answer p true ≠ .close ∧ m.answer p true ≠ .emergencyClose)
    (hopen : m.answer p true ≠ .open) : Steady p m where
  answer := hanswer
  cycles := by
    intro inPosition n hn k
    cases hposition : (m.cycle p)^[n] inPosition with
    | true =>
        rw [hposition] at hn
        exact absurd hn hopen
    | false =>
        rw [hposition] at hn
        have hhold : m.answer p true = .hold := by
          obtain ⟨hclose, hemergency⟩ := hanswer hn
          cases hheld : m.answer p true with
          | «open» => exact absurd hheld hopen
          | close => exact absurd hheld hclose
          | emergencyClose => exact absurd hheld hemergency
          | hold => rfl
        have hopened : (m.cycle p)^[n + 1] inPosition = true := by
          rw [Function.iterate_succ_apply', hposition, Market.cycle, hn]
        rw [Nat.add_comm, Function.iterate_add_apply, hopened, cycles_hold hhold]
        exact hhold

/-- In an unchanged market a position that is opened stays open exactly when the market is
safe, or is none to enter. -/
theorem steady_iff (hthresholds : p.fundingRateExitThreshold ≤ p.fundingRateEntryThreshold)
    (hrates : m.fundingRates ≠ []) : Steady p m ↔ (Enters p m → Safe p m) := by
  constructor
  · intro hsteady henters
    exact (holds_iff_safe hthresholds hrates henters).1.1 (hsteady.answer ((enters_iff hrates).2 henters))
  · intro hsafe
    by_cases henters : Enters p m
    · obtain ⟨hholds, hopen⟩ := holds_iff_safe hthresholds hrates henters
      exact steady_of_answer (fun _ => hholds.2 (hsafe henters)) hopen
    · refine steady_of_answer (fun hopens => absurd ((enters_iff hrates).1 hopens) henters) ?_
      rw [answer_eq hrates]
      split
      · exact Signal.noConfusion
      · exact (judge_held p _ _ _).2

/-- Funding above the entry threshold, and a perpetual two percent above the spot price. -/
def divergedMarket : Market := ⟨[1 / 1000], 100, 102, none⟩

theorem diverged_churns : ¬ Steady defaultParams divergedMarket := by
  intro h
  exact (h.answer (by decide +kernel)).2 (by decide +kernel)

def calmMarket : Market := ⟨[1 / 1000], 100, 100, some 1⟩

theorem calm_steady : Steady defaultParams calmMarket :=
  (steady_iff (by decide +kernel) (by decide +kernel)).2 (by decide +kernel)

end Autr.Strategies.FundingArb
