import Autr.Services.ConsumerLoop
import Autr.Strategies.PresetAttributes

namespace Autr.Services.StrategyPresets

open Store ConsumerLoop Strategies StrategyParams
open PresetAttributes (Attribute Instance Language applied_before applied_deciding applied_new beforeDict
  constructAttribute convert_plain deciding getattr getattr_ofParams new_plain ofParams overriddenAttr plain raises
  special stored stored_plain unraised Usual)

/-- The content of a row of the table of presets, as its text is read back. -/
inductive Saved
  | unreadable
  | other
  | object (entries : Table (Prod.fst (α := String) (β := Value)))

def availableStrategies : List String := ["regime_trend", "breakout_volume", "mean_reversion", "dual_timeframe"]

/-- What `build_strategy` hands to a params class when the environment sets nothing. -/
def constructorArguments (cls : ParamsClass) : List (String × Value) :=
  match cls with
  | .regimeTrend =>
      [("interval", .str "15"), ("lookback_bars", .int 260), ("ema_fast_period", .int 50), ("ema_slow_period", .int 200),
        ("min_trend_gap_pct", .float (1 / 1000)), ("atr_period", .int 14), ("initial_stop_atr_mult", .float (5 / 2)),
        ("trailing_stop_atr_mult", .float 3), ("loop_seconds", .int 60), ("cooldown_bars", .int 2)]
  | _ => [("loop_seconds", .int 60)]

def constructParams (cls : ParamsClass) (symbol : String) : ParamsObject :=
  (constructorArguments cls).foldl (fun o argument => o.set argument.1 argument.2) (cls.new symbol)

def builtClass (strategyName : String) : ParamsClass :=
  if strategyName = "breakout_volume" then .breakoutVolume
  else if strategyName = "mean_reversion" then .meanReversion
  else if strategyName = "dual_timeframe" then .dualTimeframe
  else .regimeTrend

/-- `overrides.setdefault("symbol", symbol)`. -/
def setDefaultSymbol (symbol : String) (overrides : List (String × Value)) : List (String × Value) :=
  if "symbol" ∈ overrides.map Prod.fst then overrides else overrides ++ [("symbol", .str symbol)]

/-- The fields of the params that `build_strategy` makes, as far as overrides of fields go. -/
def buildStrategy (py : Python) (strategyName symbol : String) (presetOverrides : List (String × Value)) :
    Option ParamsObject :=
  applyPresetOverrides py (setDefaultSymbol symbol presetOverrides) (constructParams (builtClass strategyName) symbol)

/-- `params.to_dict()` runs: the method is in its place, and the fields that `asdict` goes
through are those of the class, or none. -/
def toDictRuns (L : Language) (cls : ParamsClass) (attr : String → Option Attribute) : Bool :=
  attr "to_dict" = some (.method "to_dict") ∧
    (attr "__dataclass_fields__" = L.inherited cls "__dataclass_fields__" ∨
      attr "__dataclass_fields__" = some (.dictionary []) ∨
      attr "__dataclass_fields__" = some (.value (.container "{}")))

/-- The params of the strategy that `build_strategy` returns, unless an override raises, or
the constructor of the strategy, which logs `params.to_dict()`. -/
def buildStrategyObject (L : Language) (strategyName symbol : String) (presetOverrides : List (String × Value)) :
    Option Instance :=
  match PresetAttributes.applyPresetOverrides L (setDefaultSymbol symbol presetOverrides)
      (ofParams (constructParams (builtClass strategyName) symbol)) with
  | (none, o) => if toDictRuns L o.cls (getattr L o) then some o else none
  | (some _, _) => none

/-- The saved preset of a strategy and symbol, if it is an object. -/
def getStrategyPreset (presets : String → String → Option Saved) (strategyName symbol : String) :
    Option (Table (Prod.fst (α := String) (β := Value))) :=
  match presets strategyName symbol with
  | some (.object entries) => some entries
  | _ => none

def loadPresetOverrides (presets : String → String → Option Saved) (strategyName symbol : String) :
    List (String × Value) :=
  match getStrategyPreset presets strategyName symbol with
  | some entries => entries.rows
  | none => builtinPresets strategyName symbol

/-- The ways in which a consumer comes to trade a strategy. -/
inductive Acquired (py : Python) (strategy symbol : String) : Live → Prop
  | started (stored) (s) (hmain : main py stored symbol = some s) (hstrategy : s.strategyName = strategy) :
      Acquired py strategy symbol s
  | requested (name) (s) (hsymbol : s.symbol = symbol) (hname : name ≠ "") (hnew : name ≠ s.strategyName)
      (hstrategy : Text.trim name = strategy) :
      Acquired py strategy symbol (checkStrategyChange py (some name) s).1
  | switched (feed) (s) (hsymbol : s.symbol = symbol) (hswitching : Switching feed s)
      (hstrategy : (autoSwitch py feed s).1.strategyName = strategy) :
      Acquired py strategy symbol (autoSwitch py feed s).1

def numeric : Value → Option ℚ
  | .bool b => some (if b then 1 else 0)
  | .int n => some n
  | .float x => some x
  | _ => none

/-- `==` on two values, neither of which is the other one itself. -/
def equal (v v' : Value) : Bool :=
  match numeric v, numeric v' with
  | some x, some y => x = y
  | none, none => v = v' ∧ v ≠ .nan
  | _, _ => false

def holds (attr : Option Attribute) (expected : Option Value) : Bool :=
  match attr, expected with
  | some (.value v), some v' => equal v v'
  | _, _ => false

/-- Params of one class with equal fields, which is what `==` compares. -/
structure SameParams (L : Language) (p : ParamsObject) (o : Instance) : Prop where
  cls : o.cls = p.cls
  fields : ∀ key ∈ p.names, holds (getattr L o key) (p.get key) = true

/-- What the built-in preset over the defaults gives a field. -/
def builtinValue (strategy symbol key : String) : Option Value :=
  ((builtinPresets strategy symbol).lookup key).or (((builtClass strategy).new symbol).get key)

/-- A saved preset raises nothing, leaves `to_dict` in working order, and gives each field
what the built-in preset gives it. -/
def Agrees (L : Language) (strategy symbol : String) (saved : List (String × Value)) : Prop :=
  let cls := builtClass strategy
  ∃ r ∈ deciding L (ofParams (cls.new symbol)) (setDefaultSymbol symbol saved),
    toDictRuns L cls (overriddenAttr L r.1 r.2) = true ∧
      ∀ key ∈ (cls.new symbol).names, holds (overriddenAttr L r.1 r.2 key) (builtinValue strategy symbol key) = true

instance (L : Language) (strategy symbol : String) (saved : List (String × Value)) :
    Decidable (Agrees L strategy symbol saved) :=
  inferInstanceAs (Decidable (∃ r ∈ deciding L _ _, _ ∧ ∀ key ∈ ((builtClass strategy).new symbol).names, _ = true))

theorem constructParams_eq (cls : ParamsClass) (symbol : String) : constructParams cls symbol = cls.new symbol := by
  cases cls <;> rfl

theorem new_names (cls : ParamsClass) (symbol : String) : (cls.new symbol).names.Nodup := by
  rw [ParamsClass.new, names_set]
  cases cls <;> decide +kernel

theorem new_symbol (cls : ParamsClass) (symbol : String) : (cls.new symbol).get "symbol" = some (.str symbol) := by
  cases cls <;> rfl

theorem builtinPresets_keys (strategy symbol : String) : ((builtinPresets strategy symbol).map Prod.fst).Nodup := by
  unfold builtinPresets
  split
  · decide +kernel
  · split
    · decide +kernel
    · exact List.nodup_nil

theorem setDefaultSymbol_keys {overrides : List (String × Value)} (symbol : String)
    (h : (overrides.map Prod.fst).Nodup) : ((setDefaultSymbol symbol overrides).map Prod.fst).Nodup := by
  unfold setDefaultSymbol
  split
  · exact h
  next hno =>
    rw [List.map_append, List.nodup_append]
    refine ⟨h, List.nodup_singleton _, ?_⟩
    rintro key hkey key' hkey' rfl
    rw [List.mem_singleton.1 hkey'] at hkey
    exact hno hkey

/-- The default symbol is the one that the object has. -/
theorem overriddenBy_setDefaultSymbol (py : Python) (cls : ParamsClass) (symbol : String)
    (overrides : List (String × Value)) {key : String} {current : Value}
    (hcurrent : (cls.new symbol).get key = some current) :
    overriddenBy py (setDefaultSymbol symbol overrides) key current = overriddenBy py overrides key current := by
  unfold setDefaultSymbol
  split
  · rfl
  next hno =>
    by_cases hkey : key = "symbol"
    · subst hkey
      rw [new_symbol] at hcurrent
      cases hcurrent
      rw [overriddenBy_of_notMem py _ hno, overriddenBy, List.lookup_append, lookup_eq_none_of_notMem hno]
      rfl
    · unfold overriddenBy
      rw [List.lookup_append, lookup_cons_of_ne hkey, List.lookup_nil, Option.or_none]

variable {py : Python} {strategy symbol : String}

theorem strategyParamsMap_available (hstrategy : strategy ∈ availableStrategies) :
    strategyParamsMap strategy = some (builtClass strategy) := by
  simp only [availableStrategies, List.mem_cons, List.not_mem_nil, or_false] at hstrategy
  obtain rfl | rfl | rfl | rfl := hstrategy <;> rfl

theorem params_of_replaced {s : Live} {params : ParamsObject} {engine : Engines.Engine} {cls : ParamsClass}
    (h : Replaced py strategy s params engine) (hcls : strategyParamsMap strategy = some cls) :
    withBuiltinPreset py strategy s.symbol cls = some params := by
  obtain ⟨cls', hclass, hparams⟩ := h.known
  rw [hcls] at hclass
  cases hclass
  exact hparams

/-- Whichever way it came to its strategy, a consumer trades on the built-in preset. -/
theorem params_of_acquired {s : Live} (h : Acquired py strategy symbol s) (hstrategy : strategy ∈ availableStrategies) :
    withBuiltinPreset py strategy symbol (builtClass strategy) = some s.params := by
  have hcls := strategyParamsMap_available hstrategy
  cases h with
  | started stored s hmain hname =>
      obtain ⟨hsymbol, hreplaced⟩ := main_eq_some hmain
      subst hname hsymbol
      exact params_of_replaced hreplaced hcls
  | requested name s hsymbol hname hnew htrim =>
      subst hsymbol htrim
      obtain ⟨params, hparams, ⟨-, hcheck⟩ | ⟨engine, -, hcheck⟩⟩ := checkStrategyChange_known py hname hnew hcls
      · rw [hcheck]
        exact hparams
      · rw [hcheck]
        exact hparams
  | switched feed s hsymbol hswitching hname =>
      subst hsymbol
      obtain ⟨hno, -⟩ | ⟨-, regime, suggested, params, engine, -, -, -, hreplaced, heq⟩ := autoSwitch_cases py feed s
      · exact absurd hswitching hno
      · rw [heq] at hname ⊢
        subst hname
        exact params_of_replaced hreplaced hcls

/-- The built-in presets name fields of their class and give each a value of its type. -/
theorem builtinPresets_fields (py : Python) : ∀ e ∈ builtinPresets strategy symbol,
    strategy = "dual_timeframe" ∧ e.1 ≠ "symbol" ∧ plain e.2 = true ∧
      ∃ current, (ParamsClass.dualTimeframe.new symbol).get e.1 = some current ∧
        construct py current e.2 = .done e.2 := by
  unfold builtinPresets
  split_ifs with hxrp hsol
  · obtain ⟨rfl, rfl⟩ := Prod.mk.inj hxrp
    refine List.forall_mem_cons.2 ⟨?_, List.forall_mem_cons.2 ⟨?_, List.forall_mem_cons.2 ⟨?_,
      List.forall_mem_cons.2 ⟨?_, nofun⟩⟩⟩⟩ <;> exact ⟨rfl, by decide, rfl, _, rfl, rfl⟩
  · obtain ⟨rfl, rfl⟩ := Prod.mk.inj hsol
    refine List.forall_mem_cons.2 ⟨?_, List.forall_mem_cons.2 ⟨?_, List.forall_mem_cons.2 ⟨?_, nofun⟩⟩⟩ <;>
      exact ⟨rfl, by decide, rfl, _, rfl, rfl⟩
  · intro e he
    cases he

theorem builtinPresets_entry (py : Python) {e : String × Value} (he : e ∈ builtinPresets strategy symbol) :
    plain e.2 = true ∧ ∃ current, ((builtClass strategy).new symbol).get e.1 = some current ∧
      construct py current e.2 = .done e.2 := by
  obtain ⟨rfl, -, hfield⟩ := builtinPresets_fields py e he
  exact hfield

theorem get_of_builtin {p : ParamsObject} {key : String}
    (h : withBuiltinPreset py strategy symbol (builtClass strategy) = some p)
    (hkey : key ∈ ((builtClass strategy).new symbol).names) : p.get key = builtinValue strategy symbol key := by
  obtain ⟨current, hcurrent⟩ := Option.isSome_iff_exists.1 ((get_isSome_iff _ key).2 hkey)
  rw [applyPresetOverrides_get (builtinPresets_keys strategy symbol) h, hcurrent, Option.bind_some, overriddenBy,
    builtinValue]
  cases hlookup : (builtinPresets strategy symbol).lookup key with
  | none => exact hcurrent.symm
  | some value =>
      obtain ⟨-, current', hcurrent', hconstruct⟩ := builtinPresets_entry py (mem_of_lookup_eq_some hlookup)
      obtain rfl := Option.some.inj (hcurrent.symm.trans hcurrent')
      simp only [overridden, hconstruct, Option.some_or]

theorem equal_self {v : Value} (h : plain v = true) : equal v v = true := by
  cases v with
  | int | float | str => simp [equal, numeric]
  | null | bool | infinite | nan | container => cases h

section Names

variable {L : Language} {overrides : List (String × Value)} {cls : ParamsClass} {p : ParamsObject}

theorem toDictRuns_new (L : Language) (cls : ParamsClass) (symbol : String) :
    toDictRuns L cls (getattr L (ofParams (cls.new symbol))) = true := by
  have hmethod : getattr L (ofParams (cls.new symbol)) "to_dict" = some (.method "to_dict") := by cases cls <;> rfl
  have hfields : getattr L (ofParams (cls.new symbol)) "__dataclass_fields__" =
      L.inherited cls "__dataclass_fields__" := by cases cls <;> rfl
  rw [toDictRuns, hmethod, hfields]
  exact decide_eq_true ⟨rfl, .inl rfl⟩

/-- Overrides without a special name raise nothing as long as `buildStrategy` has params. -/
theorem raises_of_names (husual : Usual L) (hkeys : (overrides.map Prod.fst).Nodup)
    (hnames : ∀ e ∈ overrides, special e.1 = false)
    (hp : applyPresetOverrides L.toPython overrides (cls.new symbol) = some p) {e : String × Value}
    (he : e ∈ overrides) : raises L (ofParams (cls.new symbol)) e = false := by
  obtain ⟨⟨hclass, hweakref, hdict⟩, -⟩ := PresetAttributes.ordinary_of_special (hnames e he)
  simp only [raises, hclass, hweakref, hdict, decide_false, Bool.false_and, Bool.or_self, Bool.false_or]
  cases hcurrent : (cls.new symbol).get e.1 with
  | none => rw [PresetAttributes.getattr_new_eq_none husual (hnames e he) hcurrent, Option.any_none]
  | some current =>
      obtain ⟨hplain, hordinary⟩ := new_plain hcurrent
      have hvalue : (overridden L.toPython current e.2).isSome := by
        have hget := applyPresetOverrides_get hkeys hp e.1
        have hsome : (p.get e.1).isSome := by
          rw [get_isSome_iff, (applyPresetOverrides_names hp).2, ← get_isSome_iff, hcurrent]
          rfl
        rwa [hget, hcurrent, Option.bind_some, overriddenBy, lookup_eq_some_of_mem_nodup hkeys he] at hsome
      rw [getattr_ofParams hordinary hcurrent, Option.any_some, constructAttribute, convert_plain L hplain]
      rw [overridden] at hvalue
      cases hconstruct : construct L.toPython current e.2 with
      | done converted => rfl
      | refused => rfl
      | overflow =>
          rw [hconstruct] at hvalue
          cases hvalue

/-- Overrides without a special name go through, and leave the special attributes as they are. -/
theorem applied_of_names (husual : Usual L) (hkeys : (overrides.map Prod.fst).Nodup)
    (hnames : ∀ e ∈ overrides, special e.1 = false)
    (hp : applyPresetOverrides L.toPython overrides (cls.new symbol) = some p) :
    ∃ o, PresetAttributes.applyPresetOverrides L overrides (ofParams (cls.new symbol)) = (none, o) ∧ o.cls = cls ∧
      (∀ key ∈ (cls.new symbol).names, getattr L o key = (p.get key).map .value) ∧
      ∀ key, special key = true → getattr L o key = getattr L (ofParams (cls.new symbol)) key := by
  have hraises := fun e (he : e ∈ overrides) => raises_of_names husual hkeys hnames hp he
  have hspecial : ∀ key, special key = true → key ∉ overrides.map Prod.fst := by
    intro key hkey hmem
    obtain ⟨e, he, rfl⟩ := List.mem_map.1 hmem
    exact absurd hkey (by rw [hnames e he]; exact Bool.false_ne_true)
  have hdict := hspecial "__dict__" (by decide +kernel)
  obtain ⟨q, hq, hget⟩ := applied_new hkeys hdict hraises
  obtain rfl := Option.some.inj (hp.symm.trans hq)
  have happlied := applied_before (L := L) overrides [] (ofParams (cls.new symbol))
    (by rw [List.append_nil]; exact hkeys) hdict
  have hunraised : unraised L (ofParams (cls.new symbol)) overrides = true :=
    List.all_eq_true.2 (fun e he => by rw [hraises e he]; rfl)
  rw [List.append_nil, if_pos hunraised] at happlied
  obtain ⟨o, ho, hcls, -, hattr⟩ := happlied
  rw [ho] at hget
  refine ⟨o, ho, hcls, hget, fun key hkey => ?_⟩
  rw [hattr, overriddenAttr, lookup_eq_none_of_notMem (hspecial key hkey)]

theorem setDefaultSymbol_names (hnames : ∀ e ∈ overrides, special e.1 = false) :
    ∀ e ∈ setDefaultSymbol symbol overrides, special e.1 = false := by
  have hsymbol : special "symbol" = false := by decide +kernel
  unfold setDefaultSymbol
  split
  · exact hnames
  · exact List.forall_mem_append.2 ⟨hnames, List.forall_mem_singleton.2 hsymbol⟩

/-- Overrides without a special name build an object with the fields that `buildStrategy` says. -/
theorem buildStrategyObject_of_names (husual : Usual L) (hkeys : (overrides.map Prod.fst).Nodup)
    (hnames : ∀ e ∈ overrides, special e.1 = false)
    (hp : buildStrategy L.toPython strategy symbol overrides = some p) :
    ∃ o ∈ buildStrategyObject L strategy symbol overrides,
      ∀ key ∈ ((builtClass strategy).new symbol).names, getattr L o key = (p.get key).map .value := by
  rw [buildStrategy, constructParams_eq] at hp
  obtain ⟨o, ho, hcls, hget, hkept⟩ :=
    applied_of_names husual (setDefaultSymbol_keys symbol hkeys) (setDefaultSymbol_names hnames) hp
  have hruns : toDictRuns L o.cls (getattr L o) = true := by
    have hnew := toDictRuns_new L (builtClass strategy) symbol
    rw [hcls]
    unfold toDictRuns at hnew ⊢
    rw [hkept _ (by decide +kernel), hkept _ (by decide +kernel)]
    exact hnew
  refine ⟨o, ?_, hget⟩
  rw [buildStrategyObject, constructParams_eq, ho]
  exact if_pos hruns

end Names

/-- Overrides build params like the given ones exactly when they give each field its value. -/
theorem builds_iff {L : Language} {overrides : List (String × Value)} {p : ParamsObject}
    (hkeys : (overrides.map Prod.fst).Nodup)
    (hbuiltin : withBuiltinPreset py strategy symbol (builtClass strategy) = some p) :
    (∃ o ∈ buildStrategyObject L strategy symbol overrides, SameParams L p o) ↔ Agrees L strategy symbol overrides := by
  obtain ⟨hcls, hnames⟩ := applyPresetOverrides_names hbuiltin
  rw [buildStrategyObject, constructParams_eq, Agrees]
  have hdefault := setDefaultSymbol_keys symbol hkeys
  rcases applied_deciding (L := L) (ofParams ((builtClass strategy).new symbol)) hdefault with
    ⟨r, o, hdeciding, happlied, hocls, hget⟩ | ⟨hdeciding, hraised⟩
  · have hattribute : getattr L o = overriddenAttr L r.1 r.2 := funext hget
    have hclass : o.cls = builtClass strategy := hocls
    simp only [happlied, hdeciding, hattribute, hclass, Option.mem_some_iff, exists_eq_left']
    constructor
    · rintro ⟨o', ho', hsame⟩
      split at ho'
      · next hruns =>
          cases ho'
          refine ⟨hruns, fun key hkey => ?_⟩
          rw [← get_of_builtin hbuiltin hkey, ← hattribute]
          exact hsame.fields key (hnames ▸ hkey)
      · cases ho'
    · rintro ⟨hruns, hfields⟩
      refine ⟨o, by rw [if_pos hruns]; rfl, hclass.trans hcls.symm, fun key hkey => ?_⟩
      rw [hnames] at hkey
      rw [get_of_builtin hbuiltin hkey, hattribute]
      exact hfields key hkey
  · rw [hdeciding]
    refine iff_of_false ?_ (fun ⟨r, hr, _⟩ => nomatch hr)
    rintro ⟨o, ho, -⟩
    split at ho
    · next happlied => exact hraised (by rw [happlied])
    · cases ho

theorem lookup_setDefaultSymbol (strategy symbol key : String) :
    ((setDefaultSymbol symbol (builtinPresets strategy symbol)).lookup key).or
      (((builtClass strategy).new symbol).get key) = builtinValue strategy symbol key := by
  rw [builtinValue, setDefaultSymbol]
  split
  · rfl
  rw [List.lookup_append, Option.or_assoc]
  congr 1
  by_cases hkey : key = "symbol"
  · subst hkey
    rw [new_symbol]
    rfl
  · rw [lookup_cons_of_ne hkey]
    rfl

theorem builtin_override (L : Language) {e : String × Value}
    (he : e ∈ setDefaultSymbol symbol (builtinPresets strategy symbol)) :
    plain e.2 = true ∧ PresetAttributes.Ordinary e.1 ∧ ∃ current,
      ((builtClass strategy).new symbol).get e.1 = some current ∧
      getattr L (ofParams ((builtClass strategy).new symbol)) e.1 = some (.value current) ∧
      constructAttribute L (.value current) e.2 = .built (.value e.2) := by
  have hentry : plain e.2 = true ∧ ∃ current, ((builtClass strategy).new symbol).get e.1 = some current ∧
      construct L.toPython current e.2 = .done e.2 := by
    unfold setDefaultSymbol at he
    split at he
    · exact builtinPresets_entry L.toPython he
    · rcases List.mem_append.1 he with he | he
      · exact builtinPresets_entry L.toPython he
      · obtain rfl := List.mem_singleton.1 he
        exact ⟨rfl, _, new_symbol _ symbol, rfl⟩
  obtain ⟨hvalue, current, hcurrent, hconstruct⟩ := hentry
  obtain ⟨hplain, hordinary⟩ := new_plain hcurrent
  refine ⟨hvalue, hordinary, current, hcurrent, getattr_ofParams hordinary hcurrent, ?_⟩
  rw [constructAttribute, convert_plain L hplain, hconstruct]

/-- No override of the built-in preset raises, and each gives its field its own value. -/
theorem agrees_builtin (L : Language) (strategy symbol : String) :
    Agrees L strategy symbol (builtinPresets strategy symbol) := by
  have hvalue := lookup_setDefaultSymbol strategy symbol
  have hentry := fun e (he : e ∈ setDefaultSymbol symbol (builtinPresets strategy symbol)) => builtin_override L he
  rw [Agrees]
  generalize setDefaultSymbol symbol (builtinPresets strategy symbol) = overrides at hvalue hentry ⊢
  have hdict : ∀ e ∈ overrides, decide (e.1 ≠ "__dict__") = true := fun e he =>
    decide_eq_true (hentry e he).2.1.notDict
  have hunraised : unraised L (ofParams ((builtClass strategy).new symbol)) overrides = true := by
    refine List.all_eq_true.2 (fun e he => ?_)
    obtain ⟨-, hordinary, current, -, hget, hbuilt⟩ := hentry e he
    simp [raises, hordinary.notClass, hordinary.notWeakref, hordinary.notDict, hget, hbuilt]
  have hdeciding : deciding L (ofParams ((builtClass strategy).new symbol)) overrides =
      some (ofParams ((builtClass strategy).new symbol), overrides) := by
    rw [deciding, beforeDict, List.takeWhile_eq_self_iff.2 hdict, if_pos hunraised, List.dropWhile_eq_nil_iff.2 hdict]
  have hother : ∀ key, ((builtClass strategy).new symbol).get key = none → overrides.lookup key = none := by
    intro key hkey
    refine lookup_eq_none_of_notMem (fun hmem => ?_)
    obtain ⟨e, he, rfl⟩ := List.mem_map.1 hmem
    obtain ⟨-, -, current, hcurrent, -⟩ := hentry e he
    exact Option.some_ne_none current (hcurrent.symm.trans hkey)
  refine ⟨_, hdeciding, ?_, fun key hkey => ?_⟩
  · have htoDict : ∀ cls : ParamsClass, (cls.new symbol).get "to_dict" = none ∧
        (cls.new symbol).get "__dataclass_fields__" = none ∧
        getattr L (ofParams (cls.new symbol)) "to_dict" = some (.method "to_dict") ∧
        getattr L (ofParams (cls.new symbol)) "__dataclass_fields__" = L.inherited cls "__dataclass_fields__" := by
      intro cls
      cases cls <;> exact ⟨rfl, rfl, rfl, rfl⟩
    obtain ⟨hmethod, hfields, hgetMethod, hgetFields⟩ := htoDict (builtClass strategy)
    refine decide_eq_true ⟨?_, .inl ?_⟩
    · rw [overriddenAttr, hother _ hmethod, hgetMethod]
    · rw [overriddenAttr, hother _ hfields, hgetFields]
  · obtain ⟨current, hcurrent⟩ := Option.isSome_iff_exists.1 ((get_isSome_iff _ key).2 hkey)
    obtain ⟨hplain, hordinary⟩ := new_plain hcurrent
    rw [← hvalue key, overriddenAttr]
    cases hlookup : overrides.lookup key with
    | none =>
        dsimp only
        rw [getattr_ofParams hordinary hcurrent, Option.none_or, hcurrent]
        exact equal_self hplain
    | some value =>
        obtain ⟨hplain, -, current, -, hget, hbuilt⟩ := hentry (key, value) (mem_of_lookup_eq_some hlookup)
        dsimp only at hget hbuilt ⊢
        rw [hget, Option.map_some, stored, hbuilt]
        exact equal_self hplain

/-- A consumer has the params that `build_strategy` makes exactly when no preset has been
saved as an object, or the saved one agrees with the built-in one. -/
theorem params_eq_buildStrategy_iff (L : Language) (presets : String → String → Option Saved) {s : Live}
    (hacquired : Acquired L.toPython strategy symbol s) (hstrategy : strategy ∈ availableStrategies) :
    (∃ o ∈ buildStrategyObject L strategy symbol (loadPresetOverrides presets strategy symbol),
        SameParams L s.params o) ↔
      ∀ entries ∈ getStrategyPreset presets strategy symbol, Agrees L strategy symbol entries.rows := by
  have hparams := params_of_acquired hacquired hstrategy
  unfold loadPresetOverrides
  cases hsaved : getStrategyPreset presets strategy symbol with
  | none =>
      rw [builds_iff (builtinPresets_keys strategy symbol) hparams]
      exact ⟨fun _ entries hentries => absurd hentries.symm (Option.some_ne_none entries),
        fun _ => agrees_builtin L strategy symbol⟩
  | some entries =>
      rw [builds_iff entries.nodup hparams]
      constructor
      · rintro h _ hentries
        cases hentries
        exact h
      · intro h
        exact h entries rfl

/-- One saved preset, which sets the cooldown of the default strategy. -/
def savedCooldown (bars : ℤ) (strategyName symbol : String) : Option Saved :=
  if strategyName = "regime_trend" ∧ symbol = "BTCUSDT" then some (.object ⟨[("cooldown_bars", .int bars)], List.nodup_singleton _⟩)
  else none

theorem params_eq_buildStrategy_default : ∃ s ∈ main PresetAttributes.bare.toPython none "BTCUSDT",
    ∃ o ∈ buildStrategyObject PresetAttributes.bare "regime_trend" "BTCUSDT"
        (loadPresetOverrides (savedCooldown 2) "regime_trend" "BTCUSDT"),
      SameParams PresetAttributes.bare s.params o :=
  ⟨_, rfl, (params_eq_buildStrategy_iff PresetAttributes.bare (savedCooldown 2) (.started none _ rfl rfl)
    (by decide)).2 (by decide +kernel)⟩

theorem saved_preset_not_traded : ∃ s, Acquired PresetAttributes.bare.toPython "regime_trend" "BTCUSDT" s ∧
    ¬ ∃ o ∈ buildStrategyObject PresetAttributes.bare "regime_trend" "BTCUSDT"
        (loadPresetOverrides (savedCooldown 5) "regime_trend" "BTCUSDT"),
      SameParams PresetAttributes.bare s.params o := by
  refine ⟨_, .started none _ rfl rfl, ?_⟩
  rintro ⟨o, ho, hsame⟩
  have hcooldown := hsame.fields "cooldown_bars" (by decide +kernel)
  cases ho
  revert hcooldown
  decide +kernel

end Autr.Services.StrategyPresets
