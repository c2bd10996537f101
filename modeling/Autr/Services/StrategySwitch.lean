import Autr.Services.ConsumerLoop

namespace Autr.Services.StrategySwitch

open StrategyConsumer ConsumerLoop Strategies StrategyParams Engines

/-- The engine is the one that is built for the name and the params. -/
def Coherent (s : Live) : Prop := buildEngine s.strategyName s.params = some s.engine

instance (s : Live) : Decidable (Coherent s) := inferInstanceAs (Decidable (_ = _))

def engineNames : List String := ["regime_trend", "dual_timeframe", "breakout_volume", "mean_reversion"]

theorem buildEngine_isSome_iff (strategyName : String) (params : ParamsObject) :
    (buildEngine strategyName params).isSome ↔ strategyName ∈ engineNames := by
  unfold buildEngine engineNames
  split_ifs <;> simp_all

theorem engine_of_params {strategyName : String} {cls : ParamsClass}
    (hcls : strategyParamsMap strategyName = some cls) :
    strategyName ∈ engineNames ↔ strategyName ≠ "funding_arb" := by
  unfold strategyParamsMap at hcls
  unfold engineNames
  split_ifs at hcls <;> simp_all

theorem coherent_known {s : Live} (hs : Coherent s) : s.strategyName ∈ engineNames :=
  (buildEngine_isSome_iff s.strategyName s.params).1 (by rw [hs]; rfl)

theorem trim_known {name : String} (h : name ∈ engineNames) : Text.trim name = name := by
  simp only [engineNames, List.mem_cons, List.not_mem_nil, or_false] at h
  obtain rfl | rfl | rfl | rfl := h <;> decide +kernel

variable (py : Python)

theorem checkStrategyChange_coherent {requested : Option String} {s : Live} (hs : Coherent s)
    (h : ∀ name ∈ requested, Text.trim name ≠ "funding_arb") :
    Coherent (checkStrategyChange py requested s).1 := by
  obtain hsame | ⟨name, cls, params, rfl, hcls, -, ⟨hengine, -⟩ | ⟨engine, hengine, hfull⟩⟩ :=
    checkStrategyChange_cases py requested s
  · rw [hsame]
    exact hs
  · have hbuilt := (buildEngine_isSome_iff _ params).2 ((engine_of_params hcls).2 (h name rfl))
    rw [hengine] at hbuilt
    exact Bool.noConfusion hbuilt
  · rw [hfull]
    exact hengine

/-- The name and the params of the funding arbitrage are taken on, the engine is not. -/
theorem checkStrategyChange_half {name : String} {s : Live} (hs : Coherent s)
    (h : Text.trim name = "funding_arb") : ¬ Coherent (checkStrategyChange py (some name) s).1 := by
  have hnonempty : name ≠ "" := by
    rintro rfl
    exact absurd h (by decide +kernel)
  have hother : name ≠ s.strategyName := by
    intro hname
    rw [hname, trim_known (coherent_known hs)] at h
    exact (engine_of_params (congrArg strategyParamsMap h)).1 (coherent_known hs) h
  have hcls : strategyParamsMap (Text.trim name) = some .fundingArb := congrArg strategyParamsMap h
  obtain ⟨params, -, ⟨hengine, hhalf⟩ | ⟨engine, hengine, -⟩⟩ := checkStrategyChange_known py hnonempty hother hcls
  · rw [hhalf]
    exact fun hcoherent => Option.some_ne_none _ (hcoherent.symm.trans hengine)
  · rw [h] at hengine
    cases hengine

/-- After a request has been read the engine, the params and the name agree again, unless it
asks for the funding arbitrage. -/
theorem checkStrategyChange_coherent_iff (requested : Option String) (s : Live) (hs : Coherent s) :
    Coherent (checkStrategyChange py requested s).1 ↔ requested.map Text.trim ≠ some "funding_arb" := by
  constructor
  · intro hcoherent hrequested
    obtain ⟨name, rfl, hname⟩ := Option.map_eq_some_iff.1 hrequested
    exact checkStrategyChange_half py hs hname hcoherent
  · intro hrequested
    refine checkStrategyChange_coherent py hs (fun name hname htrim => hrequested ?_)
    rw [Option.mem_def.1 hname, Option.map_some, htrim]

theorem switched_to_breakout : ∃ s ∈ main wordless none "BTCUSDT",
    Coherent (checkStrategyChange wordless (some " breakout_volume ") s).1 :=
  ⟨_, rfl, (checkStrategyChange_coherent_iff wordless (some " breakout_volume ") _ (by decide +kernel)).2
    (by decide +kernel)⟩

theorem half_switched_to_funding_arb : ∃ s ∈ main wordless none "BTCUSDT",
    Coherent s ∧ ¬ Coherent (checkStrategyChange wordless (some "funding_arb") s).1 := by
  refine ⟨_, rfl, ?_, ?_⟩ <;> decide +kernel

end Autr.Services.StrategySwitch
