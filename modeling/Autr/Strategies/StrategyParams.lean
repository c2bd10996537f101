import Autr.Store.Entries
import Autr.Store.Keyed
import Mathlib.Data.Rat.Defs

namespace Autr.Strategies.StrategyParams

open Store

/-- A value of a parameter or of a saved preset. Of a list or an object only the text matters. -/
inductive Value
  | null
  | bool (b : Bool)
  | int (n : ℤ)
  | float (x : ℚ)
  | infinite (negative : Bool)
  | nan
  | str (s : String)
  | container (text : String)
  deriving DecidableEq

inductive ParamsClass
  | regimeTrend
  | breakoutVolume
  | meanReversion
  | dualTimeframe
  | fundingArb
  deriving DecidableEq

/-- The fields of a dataclass with their defaults. -/
def ParamsClass.fields : ParamsClass → List (String × Value)
  | .regimeTrend =>
      [("symbol", .str "BTCUSDT"), ("interval", .str "15"), ("lookback_bars", .int 260),
        ("ema_fast_period", .int 50), ("ema_slow_period", .int 200), ("min_trend_gap_pct", .float (1 / 1000)),
        ("atr_period", .int 14), ("initial_stop_atr_mult", .float (5 / 2)), ("trailing_stop_atr_mult", .float 3),
        ("loop_seconds", .int 60), ("cooldown_bars", .int 2)]
  | .breakoutVolume =>
      [("symbol", .str "BTCUSDT"), ("interval", .str "15"), ("lookback_bars", .int 260),
        ("breakout_period", .int 20), ("volume_ma_period", .int 20), ("volume_multiplier", .float (3 / 2)),
        ("atr_period", .int 14), ("initial_stop_atr_mult", .float 2), ("trailing_stop_atr_mult", .float (5 / 2)),
        ("loop_seconds", .int 60), ("cooldown_bars", .int 3)]
  | .meanReversion =>
      [("symbol", .str "BTCUSDT"), ("interval", .str "15"), ("lookback_bars", .int 260), ("bb_period", .int 20),
        ("bb_std", .float 2), ("rsi_period", .int 14), ("rsi_oversold", .float 30), ("rsi_overbought", .float 65),
        ("atr_period", .int 14), ("stop_atr_mult", .float (3 / 2)), ("loop_seconds", .int 60),
        ("cooldown_bars", .int 2)]
  | .dualTimeframe =>
      [("symbol", .str "BTCUSDT"), ("htf_interval", .str "60"), ("htf_ema_fast", .int 20), ("htf_ema_slow", .int 50),
        ("ltf_interval", .str "15"), ("ltf_lookback_bars", .int 260), ("ltf_rsi_period", .int 14),
        ("ltf_rsi_oversold", .float 40), ("ltf_ema_period", .int 20), ("atr_period", .int 14),
        ("initial_stop_atr_mult", .float 2), ("trailing_stop_atr_mult", .float (5 / 2)), ("loop_seconds", .int 60),
        ("cooldown_bars", .int 2)]
  | .fundingArb =>
      [("symbol", .str "BTCUSDT"), ("funding_rate_entry_threshold", .float (1 / 10000)),
        ("funding_rate_exit_threshold", .float (3 / 100000)), ("funding_rate_lookback", .int 3),
        ("max_notional_usd", .float 30), ("leverage", .int 1), ("max_basis_divergence_pct", .float 1),
        ("margin_safety_ratio", .float (3 / 10)), ("loop_seconds", .int 60), ("cooldown_bars", .int 0)]

structure ParamsObject where
  cls : ParamsClass
  attrs : List (String × Value)
  deriving DecidableEq

def ParamsObject.get (o : ParamsObject) (key : String) : Option Value := o.attrs.lookup key

def ParamsObject.set (key : String) (value : Value) (o : ParamsObject) : ParamsObject :=
  { o with attrs := o.attrs.map (fun a => if a.1 = key then (a.1, value) else a) }

/-- A field as arithmetic takes it. -/
def ParamsObject.number (o : ParamsObject) (key : String) : Option ℚ :=
  match o.get key with
  | some (.bool b) => some (if b then 1 else 0)
  | some (.int n) => some n
  | some (.float x) => some x
  | _ => none

def ParamsClass.new (cls : ParamsClass) (symbol : String) : ParamsObject :=
  ParamsObject.set "symbol" (.str symbol) ⟨cls, cls.fields⟩

def builtinPresets (strategy symbol : String) : List (String × Value) :=
  if (strategy, symbol) = ("dual_timeframe", "XRPUSDT") then
    [("htf_ema_fast", .int 10), ("htf_ema_slow", .int 30), ("ltf_rsi_oversold", .float 35),
      ("htf_interval", .str "30")]
  else if (strategy, symbol) = ("dual_timeframe", "SOLUSDT") then
    [("htf_ema_fast", .int 12), ("htf_ema_slow", .int 35), ("ltf_rsi_oversold", .float 38)]
  else []

def strategyParamsMap (strategy : String) : Option ParamsClass :=
  if strategy = "regime_trend" then some .regimeTrend
  else if strategy = "breakout_volume" then some .breakoutVolume
  else if strategy = "mean_reversion" then some .meanReversion
  else if strategy = "dual_timeframe" then some .dualTimeframe
  else if strategy = "funding_arb" then some .fundingArb
  else none

/-- The conversions of the language to and from text, and of an integer to a float, which
fails on one that is too large. -/
structure Python where
  int : String → Option ℤ
  float : String → Option Value
  ofInt : ℤ → Option Value
  str : Value → String

/-- A language in which no text is a number. -/
def wordless : Python where
  int _ := none
  float _ := none
  ofInt n := some (.float n)
  str _ := ""

inductive Conversion
  | done (value : Value)
  | refused
  | overflow
  deriving DecidableEq

def truncate (x : ℚ) : ℤ := if 0 ≤ x then x.floor else x.ceil

/-- `type(current)(value)`. A field starts as a text, an integer or a float, and is
overridden once. -/
def construct (py : Python) (current value : Value) : Conversion :=
  match current, value with
  | .int _, .bool b => .done (.int (if b then 1 else 0))
  | .int _, .int n => .done (.int n)
  | .int _, .float x => .done (.int (truncate x))
  | .int _, .infinite _ => .overflow
  | .int _, .str s => ((py.int s).map (fun n => .done (.int n))).getD .refused
  | .float _, .bool b => .done (.float (if b then 1 else 0))
  | .float _, .int n => ((py.ofInt n).map .done).getD .overflow
  | .float _, .float x => .done (.float x)
  | .float _, .infinite negative => .done (.infinite negative)
  | .float _, .nan => .done .nan
  | .float _, .str s => ((py.float s).map .done).getD .refused
  | .str _, .str s => .done (.str s)
  | .str _, value => .done (.str (py.str value))
  | _, _ => .refused

/-- What a field becomes: a value that cannot be converted is stored as it is, but an
overflow is raised. -/
def overridden (py : Python) (current value : Value) : Option Value :=
  match construct py current value with
  | .done converted => some converted
  | .refused => some value
  | .overflow => none

/-- What overrides make of the fields. A key that is no field is passed over, as it is by the
source unless it is the name of another attribute. -/
def applyPresetOverrides (py : Python) : List (String × Value) → ParamsObject → Option ParamsObject
  | [], o => some o
  | (key, value) :: overrides, o =>
      match o.get key with
      | none => applyPresetOverrides py overrides o
      | some current => do
          let value ← overridden py current value
          applyPresetOverrides py overrides (o.set key value)

/-- The params of a strategy over its built-in preset, as each path of the strategy consumer
makes them. -/
def withBuiltinPreset (py : Python) (strategy symbol : String) (cls : ParamsClass) : Option ParamsObject :=
  applyPresetOverrides py (builtinPresets strategy symbol) (cls.new symbol)

/-- The built-in presets name fields of their class and give each a value of its type. -/
theorem withBuiltinPreset_isSome (py : Python) {strategy : String} {cls : ParamsClass}
    (hcls : strategyParamsMap strategy = some cls) (symbol : String) :
    (withBuiltinPreset py strategy symbol cls).isSome := by
  unfold withBuiltinPreset builtinPresets
  split
  next h =>
    obtain ⟨rfl, rfl⟩ := Prod.mk.inj h
    cases hcls
    rfl
  · split
    next h =>
      obtain ⟨rfl, rfl⟩ := Prod.mk.inj h
      cases hcls
      rfl
    · rfl

def ParamsObject.names (o : ParamsObject) : List String := o.attrs.map Prod.fst

/-- What becomes of a field under overrides that name no field twice. -/
def overriddenBy (py : Python) (overrides : List (String × Value)) (key : String) (current : Value) : Option Value :=
  match overrides.lookup key with
  | none => some current
  | some value => overridden py current value

@[simp]
theorem names_set (o : ParamsObject) (key : String) (value : Value) : (o.set key value).names = o.names := by
  unfold ParamsObject.set ParamsObject.names
  rw [List.map_map]
  refine List.map_congr_left (fun a _ => ?_)
  dsimp only [Function.comp]
  split <;> rfl

theorem get_set (o : ParamsObject) (key other : String) (value : Value) :
    (o.set key value).get other = if other = key then (o.get other).map (fun _ => value) else o.get other := by
  unfold ParamsObject.set ParamsObject.get
  dsimp only
  induction o.attrs with
  | nil => simp
  | cons a attrs ih =>
      obtain ⟨name, current⟩ := a
      rw [List.map_cons]
      by_cases hname : other = name
      · subst hname
        by_cases hkey : other = key <;> simp [hkey]
      · have hskip : ∀ v, List.lookup other ((if name = key then (name, value) else (name, v)) ::
            attrs.map (fun a => if a.1 = key then (a.1, value) else a)) =
              (attrs.map (fun a => if a.1 = key then (a.1, value) else a)).lookup other := by
          intro v
          split <;> exact lookup_cons_of_ne hname _ _
        rw [hskip, ih, lookup_cons_of_ne hname]

theorem get_isSome_iff (o : ParamsObject) (key : String) : (o.get key).isSome ↔ key ∈ o.names :=
  lookup_isSome_iff_mem o.attrs key

theorem overriddenBy_cons_self (py : Python) (overrides : List (String × Value)) (key : String)
    (current value : Value) : overriddenBy py ((key, value) :: overrides) key current = overridden py current value := by
  simp [overriddenBy]

theorem overriddenBy_cons_of_ne (py : Python) (overrides : List (String × Value)) {key other : String} (current value : Value)
    (h : other ≠ key) : overriddenBy py ((key, value) :: overrides) other current = overriddenBy py overrides other current := by
  unfold overriddenBy
  rw [lookup_cons_of_ne h]

theorem overriddenBy_of_notMem (py : Python) {overrides : List (String × Value)} {key : String} (current : Value)
    (h : key ∉ overrides.map Prod.fst) : overriddenBy py overrides key current = some current := by
  rw [overriddenBy, lookup_eq_none_of_notMem h]

theorem applyPresetOverrides_names {py : Python} {overrides : List (String × Value)} {o p : ParamsObject}
    (h : applyPresetOverrides py overrides o = some p) : p.cls = o.cls ∧ p.names = o.names := by
  induction overrides generalizing o with
  | nil =>
      cases h
      exact ⟨rfl, rfl⟩
  | cons entry overrides ih =>
      obtain ⟨key, value⟩ := entry
      rw [applyPresetOverrides] at h
      split at h
      · exact ih h
      · obtain ⟨converted, -, h⟩ := Option.bind_eq_some_iff.1 h
        obtain ⟨hcls, hnames⟩ := ih h
        exact ⟨hcls, hnames.trans (names_set o key converted)⟩

theorem applyPresetOverrides_get {py : Python} {overrides : List (String × Value)} {o p : ParamsObject}
    (hkeys : (overrides.map Prod.fst).Nodup) (h : applyPresetOverrides py overrides o = some p) (key : String) :
    p.get key = (o.get key).bind (overriddenBy py overrides key) := by
  induction overrides generalizing o with
  | nil =>
      cases h
      cases p.get key <;> rfl
  | cons entry overrides ih =>
      obtain ⟨name, value⟩ := entry
      obtain ⟨hname, hkeys⟩ := List.nodup_cons.1 hkeys
      rw [applyPresetOverrides] at h
      split at h
      next hnone =>
        rw [ih hkeys h]
        by_cases hkey : key = name
        · rw [hkey, hnone]
          rfl
        · exact Option.bind_congr (fun current _ => (overriddenBy_cons_of_ne py overrides current value hkey).symm)
      next current hcurrent =>
        obtain ⟨converted, hconverted, h⟩ := Option.bind_eq_some_iff.1 h
        rw [ih hkeys h, get_set]
        by_cases hkey : key = name
        · rw [if_pos hkey, hkey, hcurrent, Option.map_some, Option.bind_some, Option.bind_some,
            overriddenBy_of_notMem py converted hname, overriddenBy_cons_self, hconverted]
        · rw [if_neg hkey]
          exact Option.bind_congr (fun current _ => (overriddenBy_cons_of_ne py overrides current value hkey).symm)

theorem applyPresetOverrides_isSome {py : Python} {overrides : List (String × Value)} {o : ParamsObject}
    (hkeys : (overrides.map Prod.fst).Nodup)
    (h : ∀ key current, o.get key = some current → (overriddenBy py overrides key current).isSome) :
    (applyPresetOverrides py overrides o).isSome := by
  induction overrides generalizing o with
  | nil => rfl
  | cons entry overrides ih =>
      obtain ⟨name, value⟩ := entry
      obtain ⟨hname, hkeys⟩ := List.nodup_cons.1 hkeys
      rw [applyPresetOverrides]
      split
      next hnone =>
        refine ih hkeys (fun key current hcurrent => ?_)
        have hkey : key ≠ name := by
          rintro rfl
          exact Option.some_ne_none _ (hcurrent.symm.trans hnone)
        rw [← overriddenBy_cons_of_ne py overrides current value hkey]
        exact h key current hcurrent
      next current hcurrent =>
        have hconverted := h name current hcurrent
        rw [overriddenBy_cons_self] at hconverted
        obtain ⟨converted, hconverted⟩ := Option.isSome_iff_exists.1 hconverted
        rw [hconverted]
        refine ih hkeys (fun key stored hstored => ?_)
        by_cases hkey : key = name
        · rw [hkey, overriddenBy_of_notMem py stored hname]
          rfl
        · rw [get_set, if_neg hkey] at hstored
          rw [← overriddenBy_cons_of_ne py overrides stored value hkey]
          exact h key stored hstored

theorem ext_get {o p : ParamsObject} (hcls : o.cls = p.cls) (hnames : o.names = p.names) (hnodup : o.names.Nodup)
    (hget : ∀ key, o.get key = p.get key) : o = p := by
  obtain ⟨cls, attrs⟩ := o
  obtain ⟨cls', attrs'⟩ := p
  cases hcls
  exact congrArg (ParamsObject.mk cls) (eq_of_lookup hnames hnodup hget)

/-- The overrides make an object exactly when they give each field its value. -/
theorem applyPresetOverrides_eq_some_iff {py : Python} {overrides : List (String × Value)} {o p : ParamsObject}
    (hkeys : (overrides.map Prod.fst).Nodup) (hnodup : o.names.Nodup) (hcls : p.cls = o.cls)
    (hnames : p.names = o.names) :
    applyPresetOverrides py overrides o = some p ↔
      ∀ key current, o.get key = some current → overriddenBy py overrides key current = p.get key := by
  constructor
  · intro h key current hcurrent
    rw [applyPresetOverrides_get hkeys h, hcurrent, Option.bind_some]
  · intro h
    have hsome : (applyPresetOverrides py overrides o).isSome := by
      refine applyPresetOverrides_isSome hkeys (fun key current hcurrent => ?_)
      rw [h key current hcurrent]
      rw [get_isSome_iff, hnames, ← get_isSome_iff, hcurrent]
      rfl
    obtain ⟨q, hq⟩ := Option.isSome_iff_exists.1 hsome
    obtain ⟨hqcls, hqnames⟩ := applyPresetOverrides_names hq
    rw [hq, ext_get (hqcls.trans hcls.symm) (hqnames.trans hnames.symm) (hqnames ▸ hnodup) (fun key => ?_)]
    rw [applyPresetOverrides_get hkeys hq]
    cases hcurrent : o.get key with
    | none =>
        refine (Option.not_isSome_iff_eq_none.1 ?_).symm
        rw [get_isSome_iff, hnames, ← get_isSome_iff, hcurrent]
        exact Bool.false_ne_true
    | some current => exact h key current hcurrent

end Autr.Strategies.StrategyParams
