import Autr.Api.TradingControl
import Autr.Async.Runs

namespace Autr.Api.SavedParams

open Infra Services Store StrategyPresets Strategies StrategyParams TradingControl

/-- A JSON object of parameters. -/
abbrev Payload := Table (Prod.fst (α := String) (β := Value))

/-- The rows of the table of presets. -/
abbrev Presets := String → String → Option Saved

/-- `type(value)`; the types that no parameter starts with are not told apart. -/
inductive Kind
  | bool
  | int
  | float
  | str
  | other
  deriving DecidableEq

def kindOf : Value → Kind
  | .bool _ => .bool
  | .int _ => .int
  | .float _ | .infinite _ | .nan => .float
  | .str _ => .str
  | .null | .container _ => .other

/-- `bool(value)`. -/
def truthy : Value → Bool
  | .null => false
  | .bool b => b
  | .int n => n ≠ 0
  | .float x => x ≠ 0
  | .infinite _ | .nan => true
  | .str s => s ≠ ""
  | .container text => text ≠ "[]" && text ≠ "{}"

def parseBool : Value → Bool
  | .str s =>
      let lowered := lower (Text.trim s)
      if lowered ∈ ["true", "1", "yes", "y", "on"] then true
      else if lowered ∈ ["false", "0", "no", "n", "off"] then false
      else truthy (.str s)
  | value => truthy value

/-- `str(value)`. -/
def text (py : Python) : Value → String
  | .str s => s
  | value => py.str value

/-- `type(current)(value)` of a field that may have been overridden before. -/
def cast (py : Python) (current value : Value) : Conversion :=
  match kindOf current with
  | .bool => .done (.bool (truthy value))
  | .int => construct py (.int 0) value
  | .float => construct py (.float 0) value
  | .str => construct py (.str "") value
  | .other => .refused

def normalizeValue (py : Python) (current value : Value) : Conversion :=
  match kindOf current with
  | .bool => .done (.bool (parseBool value))
  | .other => .done value
  | _ => cast py current value

def normalizeParamValues (py : Python) (params : ParamsObject) :
    List (String × Value) → Except Failure (List (String × Value))
  | [] => .ok []
  | (key, value) :: updates =>
      match normalizeValue py ((params.get key).getD .null) value with
      | .done normalized => do
          let rest ← normalizeParamValues py params updates
          return (key, normalized) :: rest
      | .refused => .error (.http 422 ("Invalid value for '" ++ key ++ "': " ++ text py value))
      | .overflow => .error .overflowError

/-- `apply_preset_overrides` on the params of a running strategy, which keep what was set
before an exception; the second component is whether there was none. -/
def applyInPlace (py : Python) : List (String × Value) → ParamsObject → ParamsObject × Bool
  | [], o => (o, true)
  | (key, value) :: overrides, o =>
      match o.get key with
      | none => applyInPlace py overrides o
      | some current =>
          match cast py current value with
          | .done converted => applyInPlace py overrides (o.set key converted)
          | .refused => applyInPlace py overrides (o.set key value)
          | .overflow => (o, false)

/-- The object that `to_dict` makes of the params, as it is read back from its text. -/
def asdict (o : ParamsObject) : Payload := o.attrs.foldl Table.replace Table.empty

def saveStrategyPreset (strategy symbol : String) (params : Payload) (presets : Presets) : Presets :=
  fun strategy' symbol' =>
    if strategy' = strategy ∧ symbol' = symbol then some (.object params) else presets strategy' symbol'

inductive Reply
  | parameters (params : ParamsObject)
  | saved (strategy symbol : String) (params : Payload)
  | failed (failure : Failure)
  | databaseError
  | started

/-- The updates of a request as they are applied. -/
def normalizedUpdates (py : Python) (payload : Payload) (params : ParamsObject) :
    Except Failure (List (String × Value)) :=
  let unknownKeys := (payload.rows.map Prod.fst).filter (fun key => key ∉ params.names)
  if payload.rows = [] then .error (.http 422 "params is required")
  else if unknownKeys ≠ [] then .error (.http 422 ("Unknown params: " ++ ", ".intercalate unknownKeys))
  else normalizeParamValues py params payload.rows

/-- The params are changed first and saved after that, which can fail. -/
def updateTradingParams (py : Python) (payload : Payload) (saves : Bool) (s : State) (presets : Presets) :
    Reply × State × Presets :=
  match s.tradingStrategy with
  | none => (.failed (.http 500 "Trading strategy not initialized"), s, presets)
  | some strategy =>
      match normalizedUpdates py payload strategy.params with
      | .error failure => (.failed failure, s, presets)
      | .ok normalized =>
          let (params, applied) := applyInPlace py normalized strategy.params
          let s := { s with tradingStrategy := some { strategy with params } }
          let symbol := upper (text py ((params.get "symbol").getD (.str "")))
          if !applied then (.failed .overflowError, s, presets)
          else if strategy.name = "" ∨ symbol = "" then (.parameters params, s, presets)
          else if saves then (.parameters params, s, saveStrategyPreset strategy.name symbol (asdict params) presets)
          else (.databaseError, s, presets)

theorem setItem_nodup {overrides : List (String × Value)} (h : (overrides.map Prod.fst).Nodup) (key : String)
    (value : Value) : ((setItem key value overrides).map Prod.fst).Nodup := by
  unfold setItem
  split_ifs with hkey
  · have hsame : Prod.fst ∘ (fun e : String × Value => if e.1 = key then (key, value) else e) = Prod.fst := by
      funext e
      dsimp only [Function.comp]
      split_ifs with he
      · exact he.symm
      · rfl
    rw [List.map_map, hsame]
    exact h
  · rw [List.map_append, List.nodup_append]
    refine ⟨h, List.nodup_singleton _, ?_⟩
    rintro name hname name' hname' rfl
    rw [List.mem_singleton.1 hname'] at hname
    exact hkey hname

/-- `params["symbol"] = symbol`. -/
def setSymbol (symbol : String) (payload : Payload) : Payload :=
  ⟨setItem "symbol" (.str symbol) payload.rows, setItem_nodup payload.nodup _ _⟩

def saveTradingPreset (strategy symbol : String) (payload : Payload) (saves : Bool) (presets : Presets) :
    Reply × Presets :=
  match validateStrategyName strategy, validateSymbol symbol with
  | .error failure, _ | .ok _, .error failure => (.failed failure, presets)
  | .ok strategyName, .ok normalizedSymbol =>
      let params := setSymbol normalizedSymbol payload
      if saves then
        (.saved strategyName normalizedSymbol params,
          saveStrategyPreset strategyName normalizedSymbol params presets)
      else (.databaseError, presets)

/-- The keys of `BUILTIN_PRESETS`. -/
def builtinKeys : List (String × String) := [("dual_timeframe", "XRPUSDT"), ("dual_timeframe", "SOLUSDT")]

def seedBuiltinPreset (presets : Presets) (key : String × String) : Presets :=
  match presets key.1 key.2 with
  | none | some .unreadable =>
      saveStrategyPreset key.1 key.2 ⟨builtinPresets key.1 key.2, builtinPresets_keys key.1 key.2⟩ presets
  | some _ => presets

def seedBuiltinPresets (presets : Presets) : Presets := builtinKeys.foldl seedBuiltinPreset presets

/-- The environment that a process is started with, which sets no other variable of a strategy. -/
structure Deployment where
  tradingStrategy : String
  strategySymbol : String

def Deployment.strategy (d : Deployment) : String := lower d.tradingStrategy

def Deployment.symbol (d : Deployment) : String := upper d.strategySymbol

variable (py : Python) (backend : Redis.Backend)

def Deployment.app (d : Deployment) (presets : Presets) : App where
  py := py
  backend := backend
  strategySymbol := d.strategySymbol
  tradingStrategy := d.tradingStrategy
  presets := presets

/-- The start of a process over the presets that there are. -/
def startup (d : Deployment) (redis : Redis.Store) (presets : Presets) : Except Failure State :=
  onStartup (d.app py backend (seedBuiltinPresets presets)) redis

structure World where
  presets : Presets
  server : Option (Deployment × State)

/-- What can happen to the server; a write to the table of presets may fail. -/
inductive Event
  | start (d : Deployment) (redis : Redis.Store)
  | control (now : ℚ) (request : Request)
  | updateParams (payload : Payload) (saves : Bool)
  | savePreset (strategy symbol : String) (payload : Payload) (saves : Bool)

def World.step (w : World) : Event → World
  | .start d redis =>
      ⟨seedBuiltinPresets w.presets, (startup py backend d redis w.presets).toOption.map (fun s => (d, s))⟩
  | .control now request =>
      { w with server := w.server.map (fun x => (x.1, (handle (x.1.app py backend w.presets) now x.2 request).2)) }
  | .updateParams payload saves =>
      match w.server with
      | none => w
      | some (d, s) =>
          let (_, s, presets) := updateTradingParams py payload saves s w.presets
          ⟨presets, some (d, s)⟩
  | .savePreset strategy symbol payload saves =>
      if w.server.isSome then { w with presets := (saveTradingPreset strategy symbol payload saves w.presets).2 } else w

/-- The conversions to a float answer with one. -/
structure Lawful : Prop where
  float : ∀ s v, py.float s = some v → kindOf v = .float
  ofInt : ∀ n v, py.ofInt n = some v → kindOf v = .float

section Conversions

variable {py} {current value v : Value}

/-- A field of a dataclass starts as a text, an integer or a float. -/
def Field : Value → Prop
  | .int _ | .float _ | .str _ => True
  | _ => False

theorem field_new {cls : ParamsClass} {symbol key : String} (h : (cls.new symbol).get key = some current) :
    Field current := by
  rw [ParamsClass.new, get_set] at h
  split_ifs at h with hkey
  · obtain ⟨_, -, rfl⟩ := Option.map_eq_some_iff.1 h
    trivial
  · have hfields : ∀ e ∈ cls.fields, Field e.2 := by
      cases cls <;> simp [ParamsClass.fields, Field]
    exact hfields _ (mem_of_lookup_eq_some h)

theorem kindOf_field (h : Field current) : kindOf current ≠ .other := by
  cases current with
  | int _ | float _ | str _ => simp [kindOf]
  | _ => exact h.elim

theorem cast_field (h : Field current) : cast py current value = construct py current value := by
  cases current with
  | int _ | float _ | str _ => cases value <;> rfl
  | _ => exact h.elim

theorem construct_int (h : construct py (.int 0) value = .done v) : kindOf v = .int := by
  cases value with
  | bool _ | int _ | float _ =>
      cases h
      rfl
  | str s =>
      cases hs : py.int s <;> simp only [construct, hs, Option.map_none, Option.map_some, Option.getD_none,
        Option.getD_some] at h <;> cases h
      rfl
  | null | infinite _ | nan | container _ => cases h

theorem construct_float (hpy : Lawful py) (h : construct py (.float 0) value = .done v) : kindOf v = .float := by
  cases value with
  | bool _ | float _ | infinite _ | nan =>
      cases h
      rfl
  | int n =>
      cases hn : py.ofInt n <;> simp only [construct, hn, Option.map_none, Option.map_some, Option.getD_none,
        Option.getD_some] at h <;> cases h
      exact hpy.ofInt n v hn
  | str s =>
      cases hs : py.float s <;> simp only [construct, hs, Option.map_none, Option.map_some, Option.getD_none,
        Option.getD_some] at h <;> cases h
      exact hpy.float s v hs
  | null | container _ => cases h

theorem construct_str (s : String) : construct py (.str s) value = .done (.str (text py value)) := by
  cases value <;> rfl

theorem cast_done (hpy : Lawful py) (h : cast py current value = .done v) : kindOf v = kindOf current := by
  rw [cast] at h
  cases hkind : kindOf current <;> rw [hkind] at h
  · cases h
    rfl
  · exact construct_int h
  · exact construct_float hpy h
  · cases (construct_str "").symm.trans h
    rfl
  · cases h

/-- A value of the type of its field is kept. -/
theorem cast_of_kind (h : kindOf value = kindOf current) (hother : kindOf current ≠ .other) :
    cast py current value = .done value := by
  rw [cast, ← h]
  rw [← h] at hother
  cases value <;> first | rfl | exact absurd rfl hother

theorem normalizeValue_done (hpy : Lawful py) (hother : kindOf current ≠ .other)
    (h : normalizeValue py current value = .done v) : kindOf v = kindOf current := by
  rw [normalizeValue] at h
  cases hkind : kindOf current <;> rw [hkind] at h
  · cases h
    rfl
  · exact hkind ▸ cast_done hpy h
  · exact hkind ▸ cast_done hpy h
  · exact hkind ▸ cast_done hpy h
  · exact absurd hkind hother

end Conversions

section Updates

variable {py} {o params : ParamsObject} {overrides updates normalized : List (String × Value)}

/-- Values of the types of their fields are all set, and nothing else. -/
theorem applyInPlace_of_kinds (hkeys : (overrides.map Prod.fst).Nodup)
    (h : ∀ e ∈ overrides, ∀ current, o.get e.1 = some current → kindOf e.2 = kindOf current ∧ kindOf current ≠ .other) :
    ∃ p, applyInPlace py overrides o = (p, true) ∧ p.cls = o.cls ∧ p.names = o.names ∧
      ∀ key, p.get key = (o.get key).map (fun current => (overrides.lookup key).getD current) := by
  induction overrides generalizing o with
  | nil => exact ⟨o, rfl, rfl, rfl, fun key => by simp⟩
  | cons e overrides ih =>
      obtain ⟨name, value⟩ := e
      obtain ⟨hname, hkeys⟩ := List.nodup_cons.1 hkeys
      obtain ⟨hfirst, hrest⟩ := List.forall_mem_cons.1 h
      rw [applyInPlace]
      cases hcurrent : o.get name with
      | none =>
          obtain ⟨p, hp, hcls, hnames, hget⟩ := ih hkeys hrest
          refine ⟨p, hp, hcls, hnames, fun key => (hget key).trans ?_⟩
          by_cases hkey : key = name
          · rw [hkey, hcurrent]
            rfl
          · rw [lookup_cons_of_ne hkey]
      | some current =>
          obtain ⟨hkind, hother⟩ := hfirst current hcurrent
          simp only [cast_of_kind hkind hother]
          have hothers : ∀ e ∈ overrides, (o.set name value).get e.1 = o.get e.1 := by
            intro e he
            rw [get_set, if_neg]
            rintro rfl
            exact hname (List.mem_map.2 ⟨e, he, rfl⟩)
          obtain ⟨p, hp, hcls, hnames, hget⟩ := ih (o := o.set name value) hkeys
            (fun e he current hc => hrest e he current ((hothers e he).symm.trans hc))
          refine ⟨p, hp, hcls, hnames.trans (names_set o name value), fun key => (hget key).trans ?_⟩
          rw [get_set]
          by_cases hkey : key = name
          · rw [if_pos hkey, hkey, hcurrent, lookup_eq_none_of_notMem hname, List.lookup_cons_self]
            rfl
          · rw [if_neg hkey, lookup_cons_of_ne hkey]

theorem normalizeParamValues_ok (h : normalizeParamValues py params updates = .ok normalized) :
    List.Forall₂ (fun e update => e.1 = update.1 ∧
      normalizeValue py ((params.get update.1).getD .null) update.2 = .done e.2) normalized updates := by
  induction updates generalizing normalized with
  | nil =>
      cases h
      exact .nil
  | cons update updates ih =>
      obtain ⟨key, value⟩ := update
      rw [normalizeParamValues] at h
      split at h
      · next v hv =>
          cases hrest : normalizeParamValues py params updates with
          | error failure =>
              rw [hrest] at h
              cases h
          | ok rest =>
              rw [hrest] at h
              cases h
              exact .cons ⟨rfl, hv⟩ (ih hrest)
      · cases h
      · cases h

theorem normalized_keys (h : normalizeParamValues py params updates = .ok normalized) :
    normalized.map Prod.fst = updates.map Prod.fst := by
  have hall := normalizeParamValues_ok h
  clear h
  induction hall with
  | nil => rfl
  | cons hfirst _ ih => exact List.cons_eq_cons.2 ⟨hfirst.1, ih⟩

theorem normalized_mem (h : normalizeParamValues py params updates = .ok normalized) {key : String} {v : Value}
    (hv : (key, v) ∈ normalized) :
    ∃ value, (key, value) ∈ updates ∧ normalizeValue py ((params.get key).getD .null) value = .done v := by
  have hall := normalizeParamValues_ok h
  clear h
  induction hall with
  | nil => cases hv
  | @cons e update _ _ hfirst _ ih =>
      obtain ⟨hkey, hvalue⟩ := hfirst
      obtain rfl | hv := List.mem_cons.1 hv
      · refine ⟨update.2, ?_, ?_⟩
        · rw [show (key, update.2) = update from Prod.ext hkey rfl]
          exact List.mem_cons_self
        · rw [show key = update.1 from hkey]
          exact hvalue
      · obtain ⟨value, hmem, hvalue⟩ := ih hv
        exact ⟨value, List.mem_cons_of_mem _ hmem, hvalue⟩

end Updates

section Rows

variable {presets : Presets} {strategy symbol : String} {params : Payload}

theorem foldl_replace_rows {T : Payload} {entries : List (String × Value)}
    (h : ((T.rows ++ entries).map Prod.fst).Nodup) :
    (entries.foldl Table.replace T).rows = T.rows ++ entries := by
  induction entries generalizing T with
  | nil => simp
  | cons e entries ih =>
      have hnew : T.rows.filter (fun x => x.1 ≠ e.1) = T.rows := by
        refine List.filter_eq_self.2 (fun x hx => ?_)
        rw [List.map_append, List.nodup_append] at h
        exact decide_eq_true (h.2.2 x.1 (List.mem_map_of_mem hx) e.1 (List.mem_map_of_mem List.mem_cons_self))
      have hrows : (T.replace e).rows = T.rows ++ [e] := congrArg (· ++ [e]) hnew
      rw [List.foldl_cons, ih (by rw [hrows]; simpa using h), hrows, List.append_assoc]
      rfl

theorem asdict_rows {o : ParamsObject} (h : o.names.Nodup) : (asdict o).rows = o.attrs :=
  foldl_replace_rows h

theorem load_save_self :
    loadPresetOverrides (saveStrategyPreset strategy symbol params presets) strategy symbol = params.rows := by
  simp [loadPresetOverrides, getStrategyPreset, saveStrategyPreset]

theorem load_save_other {strategy' symbol' : String} (h : ¬ (strategy' = strategy ∧ symbol' = symbol)) :
    loadPresetOverrides (saveStrategyPreset strategy symbol params presets) strategy' symbol' =
      loadPresetOverrides presets strategy' symbol' := by
  simp [loadPresetOverrides, getStrategyPreset, saveStrategyPreset, h]

/-- A seeded preset is the one that is taken where there is none. -/
theorem load_seedBuiltinPreset (key : String × String) (strategy symbol : String) :
    loadPresetOverrides (seedBuiltinPreset presets key) strategy symbol =
      loadPresetOverrides presets strategy symbol := by
  have hseeded : getStrategyPreset presets key.1 key.2 = none →
      loadPresetOverrides (saveStrategyPreset key.1 key.2
        ⟨builtinPresets key.1 key.2, builtinPresets_keys key.1 key.2⟩ presets) strategy symbol =
          loadPresetOverrides presets strategy symbol := by
    intro hnone
    by_cases hkey : strategy = key.1 ∧ symbol = key.2
    · obtain ⟨rfl, rfl⟩ := hkey
      rw [load_save_self, loadPresetOverrides, hnone]
    · exact load_save_other hkey
  unfold seedBuiltinPreset
  split
  next h => exact hseeded (by rw [getStrategyPreset, h])
  next h => exact hseeded (by rw [getStrategyPreset, h])
  · rfl

theorem load_seedBuiltinPresets (strategy symbol : String) :
    loadPresetOverrides (seedBuiltinPresets presets) strategy symbol = loadPresetOverrides presets strategy symbol := by
  unfold seedBuiltinPresets
  generalize builtinKeys = keys
  induction keys generalizing presets with
  | nil => rfl
  | cons key keys ih => exact ih.trans (load_seedBuiltinPreset key strategy symbol)

end Rows

/-- Params of a strategy and a symbol that could all have been its defaults. -/
structure Typed (strategy symbol : String) (params : ParamsObject) : Prop where
  cls : params.cls = builtClass strategy
  names : params.names = ((builtClass strategy).new symbol).names
  kinds : ∀ key v current, params.get key = some v → ((builtClass strategy).new symbol).get key = some current →
    kindOf v = kindOf current
  symbol : ∀ v, params.get "symbol" = some v → upper (text py v) = symbol

/-- Overrides for a strategy and a symbol: each is taken by the type of its field, and none is
for a method or an attribute that every object has. -/
structure Converts (strategy symbol : String) (overrides : List (String × Value)) : Prop where
  keys : (overrides.map Prod.fst).Nodup
  names : ∀ e ∈ overrides, PresetAttributes.special e.1 = false
  fields : ∀ e ∈ overrides, ∀ current, ((builtClass strategy).new symbol).get e.1 = some current →
    ∃ v, construct py current e.2 = .done v
  symbol : ∀ value, ("symbol", value) ∈ overrides → upper (text py value) = symbol

section Building

variable {py} {strategy symbol : String} {params : ParamsObject} {overrides : List (String × Value)}

theorem Typed.names_nodup (h : Typed py strategy symbol params) : params.names.Nodup :=
  h.names ▸ new_names _ _

theorem Typed.default (h : Typed py strategy symbol params) {key : String} {v : Value} (hv : params.get key = some v) :
    ∃ current, ((builtClass strategy).new symbol).get key = some current ∧ kindOf v = kindOf current ∧
      Field current := by
  have hkey : key ∈ ((builtClass strategy).new symbol).names := by
    rw [← h.names, ← get_isSome_iff, hv]
    rfl
  obtain ⟨current, hcurrent⟩ := Option.isSome_iff_exists.1 ((get_isSome_iff _ key).2 hkey)
  exact ⟨current, hcurrent, h.kinds key v current hv hcurrent, field_new hcurrent⟩

theorem upper_upper (s : String) : upper (upper s) = upper s := by
  rw [upper, upper, String.toList_ofList, Text.upper_upper]

theorem setDefaultSymbol_of_mem (h : "symbol" ∈ overrides.map Prod.fst) :
    setDefaultSymbol symbol overrides = overrides :=
  if_pos h

theorem setDefaultSymbol_twice :
    setDefaultSymbol symbol (setDefaultSymbol symbol overrides) = setDefaultSymbol symbol overrides := by
  refine setDefaultSymbol_of_mem ?_
  unfold setDefaultSymbol
  split_ifs with h
  · exact h
  · simp

/-- Params that are saved are found again, whatever the defaults. -/
theorem Typed.built (h : Typed py strategy symbol params) :
    StrategyPresets.buildStrategy py strategy symbol (asdict params).rows = some params := by
  have hsymbol : "symbol" ∈ params.names := by
    rw [h.names, ← get_isSome_iff, new_symbol]
    rfl
  rw [StrategyPresets.buildStrategy, asdict_rows h.names_nodup, setDefaultSymbol_of_mem hsymbol, constructParams_eq,
    applyPresetOverrides_eq_some_iff (p := params) h.names_nodup (new_names _ _) (by exact h.cls) (by exact h.names)]
  intro key current hcurrent
  have hkey : key ∈ params.names := by
    rw [h.names, ← get_isSome_iff, hcurrent]
    rfl
  obtain ⟨v, hv⟩ := Option.isSome_iff_exists.1 ((get_isSome_iff _ key).2 hkey)
  have hfield := field_new hcurrent
  have hcast : construct py current v = .done v :=
    (cast_field hfield).symm.trans (cast_of_kind (h.kinds key v current hv hcurrent) (kindOf_field hfield))
  have hlookup : params.attrs.lookup key = some v := hv
  rw [overriddenBy, hlookup, hv]
  simp only [overridden, hcast]

/-- Overrides that convert make params of the types of the fields. -/
theorem Converts.built (hpy : Lawful py) (h : Converts py strategy symbol overrides) (hupper : upper symbol = symbol) :
    ∃ params, StrategyPresets.buildStrategy py strategy symbol overrides = some params ∧
      Typed py strategy symbol params := by
  have hkeys := setDefaultSymbol_keys symbol h.keys
  have hover : ∀ key current, ((builtClass strategy).new symbol).get key = some current →
      ∃ v, overriddenBy py (setDefaultSymbol symbol overrides) key current = some v ∧ kindOf v = kindOf current ∧
        (key = "symbol" → upper (text py v) = symbol) := by
    intro key current hcurrent
    have hfield := field_new hcurrent
    rw [overriddenBy_setDefaultSymbol py _ symbol overrides hcurrent, overriddenBy]
    cases hvalue : overrides.lookup key with
    | none =>
        refine ⟨current, rfl, rfl, ?_⟩
        rintro rfl
        rw [new_symbol] at hcurrent
        cases hcurrent
        exact hupper
    | some value =>
        have hmem := mem_of_lookup_eq_some hvalue
        obtain ⟨v, hv⟩ := h.fields _ hmem current hcurrent
        refine ⟨v, by simp only [overridden, hv], cast_done hpy ((cast_field hfield).trans hv), ?_⟩
        rintro rfl
        rw [new_symbol] at hcurrent
        cases hcurrent
        cases (construct_str symbol).symm.trans hv
        exact h.symbol value hmem
  have hsome : (StrategyPresets.buildStrategy py strategy symbol overrides).isSome := by
    rw [StrategyPresets.buildStrategy, constructParams_eq]
    refine applyPresetOverrides_isSome hkeys (fun key current hcurrent => ?_)
    obtain ⟨v, hv, -⟩ := hover key current hcurrent
    rw [hv]
    rfl
  obtain ⟨params, hparams⟩ := Option.isSome_iff_exists.1 hsome
  refine ⟨params, hparams, ?_⟩
  rw [StrategyPresets.buildStrategy, constructParams_eq] at hparams
  obtain ⟨hcls, hnames⟩ := applyPresetOverrides_names hparams
  have hget := applyPresetOverrides_get hkeys hparams
  refine ⟨hcls, hnames, fun key v current hv hcurrent => ?_, fun v hv => ?_⟩
  · obtain ⟨v', hv', hkind, -⟩ := hover key current hcurrent
    rw [hget, hcurrent, Option.bind_some, hv'] at hv
    cases hv
    exact hkind
  · obtain ⟨v', hv', -, hsymbol⟩ := hover "symbol" _ (new_symbol _ symbol)
    rw [hget, new_symbol, Option.bind_some, hv'] at hv
    cases hv
    exact hsymbol rfl

/-- The object that such overrides build has these params as its fields. -/
theorem Converts.object {L : PresetAttributes.Language} (husual : PresetAttributes.Usual L)
    (hpy : Lawful L.toPython) (h : Converts L.toPython strategy symbol overrides) (hupper : upper symbol = symbol) :
    ∃ params, StrategyPresets.buildStrategy L.toPython strategy symbol overrides = some params ∧
      ∃ o ∈ buildStrategyObject L strategy symbol overrides,
        ∀ key ∈ ((builtClass strategy).new symbol).names,
          PresetAttributes.getattr L o key = (params.get key).map .value := by
  obtain ⟨params, hparams, -⟩ := h.built hpy hupper
  exact ⟨params, hparams, buildStrategyObject_of_names husual h.keys h.names hparams⟩

theorem converts_builtin : Converts py strategy symbol (builtinPresets strategy symbol) := by
  refine ⟨builtinPresets_keys strategy symbol, fun e he => ?_, fun e he current hcurrent => ?_, fun value hvalue => ?_⟩
  · obtain ⟨-, current, hcurrent, -⟩ := builtinPresets_entry py he
    exact PresetAttributes.special_of_new hcurrent
  · obtain ⟨-, current', hcurrent', hconstruct⟩ := builtinPresets_entry py he
    obtain rfl := Option.some.inj (hcurrent.symm.trans hcurrent')
    exact ⟨e.2, hconstruct⟩
  · exact absurd rfl (builtinPresets_fields py _ hvalue).2.1

end Building

/-- The params that a process has last had for a strategy and a symbol. -/
abbrev Memory := String → String → Option ParamsObject

def World.memorize (w : World) (seen : Memory) : Memory :=
  match w.server with
  | none => seen
  | some (d, s) =>
      match s.tradingStrategy with
      | none => seen
      | some strategy => fun name symbol =>
          if name = d.strategy ∧ symbol = d.symbol then some strategy.params else seen name symbol

def turn (x : World × Memory) (e : Event) : World × Memory :=
  (x.1.step py backend e, (x.1.step py backend e).memorize x.2)

/-- A process is started for a known strategy, over a preset that it can take; updates reach
the database and keep the symbol; and no one saves a preset of their own for a strategy and
symbol that have been in use. -/
def Kept (x : World × Memory) : Event → Prop
  | .start d _ => d.strategy ∈ availableStrategies ∧ d.symbol ≠ "" ∧ (x.2 d.strategy d.symbol = none →
      ∀ saved ∈ getStrategyPreset x.1.presets d.strategy d.symbol, Converts py d.strategy d.symbol saved.rows)
  | .updateParams payload saves => saves = true ∧ ∀ d s, x.1.server = some (d, s) →
      ∀ value, ("symbol", value) ∈ payload.rows → upper (text py value) = d.symbol
  | .savePreset strategy symbol _ _ => x.2 (lower (Text.trim strategy)) (upper (Text.trim symbol)) = none
  | .control _ _ => True

/-- What a start makes of the presets. -/
structure Remembered (presets : Presets) (strategy symbol : String) (params : ParamsObject) : Prop where
  known : strategy ∈ availableStrategies
  named : symbol ≠ ""
  typed : Typed py strategy symbol params
  built : StrategyPresets.buildStrategy py strategy symbol (loadPresetOverrides presets strategy symbol) = some params

/-- The state of a server under a deployment. -/
structure Serves (d : Deployment) (params : ParamsObject) (s : State) : Prop where
  tradingClient : s.tradingClient = true
  buildStrategy : s.buildStrategy = true
  strategy : s.tradingStrategy = some ⟨d.strategy, false, params⟩

structure Consistent (x : World × Memory) : Prop where
  remembered : ∀ strategy symbol params, x.2 strategy symbol = some params →
    Remembered py x.1.presets strategy symbol params
  running : ∀ d s, x.1.server = some (d, s) → ∃ params, Serves d params s ∧ x.2 d.strategy d.symbol = some params

section Step

variable {py} {backend} {presets : Presets} {d : Deployment} {s : State} {params : ParamsObject} {x : World × Memory}

theorem statusName_builtClass {strategy : String} (h : strategy ∈ availableStrategies) :
    statusName (builtClass strategy) = strategy := by
  simp only [availableStrategies, List.mem_cons, List.not_mem_nil, or_false] at h
  obtain rfl | rfl | rfl | rfl := h <;> rfl

theorem buildStrategy_complete {app : App} {name : String} {overrides : List (String × Value)}
    (h : StrategyPresets.buildStrategy app.py name app.symbol overrides = some params) :
    TradingControl.buildStrategy app ⟨some name, true, true, some overrides⟩ =
      .ok ⟨statusName (builtClass name), false, params⟩ := by
  have hmissing : (⟨some name, true, true, some overrides⟩ : Arguments).missing = [] := rfl
  simp only [TradingControl.buildStrategy, hmissing, Option.getD_some, h]

theorem onStartup_built {app : App} {redis : Redis.Store} {strategy : Strategy}
    (h : TradingControl.buildStrategy app
      ⟨some (lower app.tradingStrategy), true, true,
        some (setDefaultSymbol app.symbol
          (loadPresetOverrides app.presets (lower app.tradingStrategy) app.symbol))⟩ = .ok strategy) :
    onStartup app redis = .ok ⟨redis, true, some strategy, true⟩ := by
  rw [onStartup, h]
  rfl

/-- A start finds the params that are remembered. -/
theorem startup_eq (h : Remembered py presets d.strategy d.symbol params) (redis : Redis.Store) :
    startup py backend d redis presets = .ok ⟨redis, true, some ⟨d.strategy, false, params⟩, true⟩ := by
  have hparams : StrategyPresets.buildStrategy py d.strategy d.symbol
      (setDefaultSymbol d.symbol (loadPresetOverrides (seedBuiltinPresets presets) d.strategy d.symbol)) =
        some params := by
    have hbuilt := h.built
    rw [StrategyPresets.buildStrategy] at hbuilt ⊢
    rwa [setDefaultSymbol_twice, load_seedBuiltinPresets]
  have hbuilt : TradingControl.buildStrategy (d.app py backend (seedBuiltinPresets presets)) _ = _ :=
    buildStrategy_complete hparams
  rw [statusName_builtClass h.known] at hbuilt
  exact onStartup_built hbuilt

theorem Remembered.of_load {presets' : Presets} {strategy symbol : String}
    (h : Remembered py presets strategy symbol params)
    (hload : loadPresetOverrides presets' strategy symbol = loadPresetOverrides presets strategy symbol) :
    Remembered py presets' strategy symbol params :=
  { h with built := hload ▸ h.built }

theorem memorize_serving {w : World} {seen : Memory} (hserver : w.server = some (d, s)) (hserves : Serves d params s)
    (strategy symbol : String) :
    w.memorize seen strategy symbol =
      if strategy = d.strategy ∧ symbol = d.symbol then some params else seen strategy symbol := by
  simp only [World.memorize, hserver, hserves.strategy]

/-- A server that serves what is remembered keeps a world consistent. -/
theorem consistent_of_serving {w : World} {seen : Memory} (hserver : w.server = some (d, s))
    (hserves : Serves d params s)
    (hown : Remembered py w.presets d.strategy d.symbol params)
    (hothers : ∀ strategy symbol p, ¬ (strategy = d.strategy ∧ symbol = d.symbol) → seen strategy symbol = some p →
      Remembered py w.presets strategy symbol p) : Consistent py (w, w.memorize seen) := by
  refine ⟨fun strategy symbol p hp => ?_, fun d' s' hserver' => ?_⟩
  · have hvalue := (memorize_serving hserver hserves strategy symbol).symm.trans hp
    split_ifs at hvalue with hkey
    · obtain ⟨rfl, rfl⟩ := hkey
      cases hvalue
      exact hown
    · exact hothers strategy symbol p hkey hvalue
  · rw [hserver] at hserver'
    cases hserver'
    exact ⟨params, hserves, (memorize_serving hserver hserves _ _).trans (if_pos ⟨rfl, rfl⟩)⟩

theorem startup_known (hpy : Lawful py) (hknown : d.strategy ∈ availableStrategies) (hnamed : d.symbol ≠ "")
    (h : ∀ saved ∈ getStrategyPreset presets d.strategy d.symbol, Converts py d.strategy d.symbol saved.rows) :
    ∃ params, Remembered py presets d.strategy d.symbol params := by
  have hconverts : Converts py d.strategy d.symbol (loadPresetOverrides presets d.strategy d.symbol) := by
    unfold loadPresetOverrides
    split
    next entries hentries => exact h entries hentries
    · exact converts_builtin
  obtain ⟨params, hbuilt, htyped⟩ := hconverts.built hpy (upper_upper d.strategySymbol)
  exact ⟨params, hknown, hnamed, htyped, hbuilt⟩

theorem consistent_start (hpy : Lawful py) (h : Consistent py x) (redis : Redis.Store)
    (hkept : Kept py x (.start d redis)) : Consistent py (turn py backend x (.start d redis)) := by
  obtain ⟨hknown, hnamed, hconverts⟩ := hkept
  obtain ⟨params, hown⟩ : ∃ params, Remembered py x.1.presets d.strategy d.symbol params := by
    cases hseen : x.2 d.strategy d.symbol with
    | none => exact startup_known hpy hknown hnamed (hconverts hseen)
    | some params => exact ⟨params, h.remembered _ _ params hseen⟩
  have hserves : Serves d params ⟨redis, true, some ⟨d.strategy, false, params⟩, true⟩ := ⟨rfl, rfl, rfl⟩
  refine consistent_of_serving ?_ hserves (hown.of_load (load_seedBuiltinPresets _ _))
    (fun strategy symbol p _ hp => ?_)
  · simp only [World.step, startup_eq hown redis]
    rfl
  · exact (h.remembered strategy symbol p hp).of_load (load_seedBuiltinPresets _ _)

theorem handle_serves {app : App} (h : Serves d params s) (hknown : d.strategy ∈ availableStrategies) (now : ℚ)
    (request : Request) : Serves d params (handle app now s request).2 := by
  cases request with
  | startTrading =>
      rw [handle, startTrading]
      dsimp only
      split <;> exact ⟨h.tradingClient, h.buildStrategy, h.strategy⟩
  | stopTrading => exact ⟨h.tradingClient, h.buildStrategy, h.strategy⟩
  | changeStrategy strategy =>
      rw [handle, changeStrategy]
      split <;> exact ⟨h.tradingClient, h.buildStrategy, h.strategy⟩
  | changeSymbol symbol =>
      have hready : Ready s := by
        refine ⟨h.tradingClient, h.buildStrategy, builtClass d.strategy, params, builtClass_ne _, ?_⟩
        rw [statusName_builtClass hknown]
        exact h.strategy
      rw [handle, changeSymbol_ready hready]
      exact h

/-- Updates that keep the symbol leave params of the same types. -/
theorem applied_typed (hpy : Lawful py) (h : Typed py d.strategy d.symbol params) {payload : Payload}
    {normalized : List (String × Value)} (hnormalized : normalizeParamValues py params payload.rows = .ok normalized)
    (hsymbol : ∀ value, ("symbol", value) ∈ payload.rows → upper (text py value) = d.symbol) :
    ∃ p, applyInPlace py normalized params = (p, true) ∧ Typed py d.strategy d.symbol p := by
  have hkinds : ∀ e ∈ normalized, ∀ current, params.get e.1 = some current →
      kindOf e.2 = kindOf current ∧ kindOf current ≠ .other := by
    intro e he current hcurrent
    obtain ⟨value, -, hvalue⟩ := normalized_mem hnormalized he
    obtain ⟨start, -, hkind, hfield⟩ := h.default hcurrent
    have hother : kindOf current ≠ .other := hkind ▸ kindOf_field hfield
    rw [hcurrent, Option.getD_some] at hvalue
    exact ⟨normalizeValue_done hpy hother hvalue, hother⟩
  have hkeys : (normalized.map Prod.fst).Nodup := normalized_keys hnormalized ▸ payload.nodup
  obtain ⟨p, hp, hcls, hnames, hget⟩ := @applyInPlace_of_kinds py _ _ hkeys hkinds
  refine ⟨p, hp, hcls.trans h.cls, hnames.trans h.names, fun key v start hv hstart => ?_, fun v hv => ?_⟩
  · obtain ⟨current, hcurrent, rfl⟩ := Option.map_eq_some_iff.1 ((hget key).symm.trans hv)
    have hkind := h.kinds key current start hcurrent hstart
    cases hlookup : normalized.lookup key with
    | none => exact hkind
    | some v => exact (hkinds _ (mem_of_lookup_eq_some hlookup) current hcurrent).1.trans hkind
  · obtain ⟨current, hcurrent, rfl⟩ := Option.map_eq_some_iff.1 ((hget "symbol").symm.trans hv)
    cases hlookup : normalized.lookup "symbol" with
    | none => exact h.symbol current hcurrent
    | some v =>
        obtain ⟨value, hmem, hvalue⟩ := normalized_mem hnormalized (mem_of_lookup_eq_some hlookup)
        have hkind : kindOf current = .str := h.kinds _ _ _ hcurrent (new_symbol _ _)
        rw [hcurrent, Option.getD_some, normalizeValue, hkind] at hvalue
        simp only [cast, hkind] at hvalue
        cases (construct_str "").symm.trans hvalue
        exact hsymbol value hmem

/-- An update that is refused changes nothing; one that is not is saved whole. -/
theorem updateTradingParams_cases (hpy : Lawful py) (hserves : Serves d params s)
    (hown : Remembered py presets d.strategy d.symbol params) {payload : Payload}
    (hsymbol : ∀ value, ("symbol", value) ∈ payload.rows → upper (text py value) = d.symbol) :
    ((updateTradingParams py payload true s presets).2 = (s, presets)) ∨
      ∃ p, Typed py d.strategy d.symbol p ∧ Serves d p (updateTradingParams py payload true s presets).2.1 ∧
        (updateTradingParams py payload true s presets).2.2 =
          saveStrategyPreset d.strategy d.symbol (asdict p) presets := by
  rw [updateTradingParams, hserves.strategy]
  dsimp only
  cases hnormalized : normalizedUpdates py payload params with
  | error failure => exact .inl rfl
  | ok normalized =>
      have hvalues : normalizeParamValues py params payload.rows = .ok normalized := by
        unfold normalizedUpdates at hnormalized
        dsimp only at hnormalized
        split_ifs at hnormalized
        exact hnormalized
      obtain ⟨p, hp, htyped⟩ := applied_typed hpy hown.typed hvalues hsymbol
      obtain ⟨v, hv⟩ : ∃ v, p.get "symbol" = some v := by
        rw [← Option.isSome_iff_exists, get_isSome_iff, htyped.names, ← get_isSome_iff, new_symbol]
        rfl
      have hname : ¬ (d.strategy = "" ∨ d.symbol = "") := by
        rintro (hempty | hempty)
        · have hknown := hown.known
          rw [hempty] at hknown
          exact absurd hknown (by decide)
        · exact hown.named hempty
      simp only [hp, hv, Option.getD_some, htyped.symbol v hv, if_neg hname, Bool.not_true, Bool.false_eq_true,
        if_false, if_true]
      exact .inr ⟨p, htyped, ⟨hserves.tradingClient, hserves.buildStrategy, rfl⟩, rfl⟩

theorem Remembered.saved {p : ParamsObject} (h : Remembered py presets d.strategy d.symbol params)
    (htyped : Typed py d.strategy d.symbol p) :
    Remembered py (saveStrategyPreset d.strategy d.symbol (asdict p) presets) d.strategy d.symbol p :=
  ⟨h.known, h.named, htyped, by rw [load_save_self]; exact htyped.built⟩

theorem saveTradingPreset_cases (strategy symbol : String) (payload : Payload) (saves : Bool) :
    (saveTradingPreset strategy symbol payload saves presets).2 = presets ∨
      ∃ params, (saveTradingPreset strategy symbol payload saves presets).2 =
        saveStrategyPreset (lower (Text.trim strategy)) (upper (Text.trim symbol)) params presets := by
  unfold saveTradingPreset
  split
  · exact .inl rfl
  · exact .inl rfl
  next strategyName normalizedSymbol hstrategy hsymbol =>
    cases saves with
    | false => exact .inl rfl
    | true =>
        unfold validateStrategyName at hstrategy
        unfold validateSymbol at hsymbol
        dsimp only at hstrategy hsymbol
        split_ifs at hstrategy hsymbol
        rw [← Except.ok.inj hstrategy, ← Except.ok.inj hsymbol, if_pos rfl]
        dsimp only
        exact .inr ⟨setSymbol (upper (Text.trim symbol)) payload, Eq.refl _⟩

theorem consistent_step (hpy : Lawful py) (h : Consistent py x) {e : Event} (hkept : Kept py x e) :
    Consistent py (turn py backend x e) := by
  obtain ⟨⟨presets, server⟩, seen⟩ := x
  cases e with
  | start d redis => exact consistent_start hpy h redis hkept
  | control now request =>
      cases server with
      | none => exact ⟨h.remembered, nofun⟩
      | some ds =>
          obtain ⟨d, s⟩ := ds
          obtain ⟨params, hserves, hseen⟩ := h.running d s rfl
          have hown := h.remembered _ _ params hseen
          exact consistent_of_serving rfl (handle_serves hserves hown.known now request) hown
            (fun strategy symbol p _ hp => h.remembered strategy symbol p hp)
  | updateParams payload saves =>
      obtain ⟨rfl, hsymbol⟩ := hkept
      cases server with
      | none => exact ⟨h.remembered, nofun⟩
      | some ds =>
          obtain ⟨d, s⟩ := ds
          obtain ⟨params, hserves, hseen⟩ := h.running d s rfl
          have hown := h.remembered _ _ params hseen
          obtain heq | ⟨p, htyped, hserves', hpresets⟩ :=
            updateTradingParams_cases hpy hserves hown (hsymbol d s rfl)
          · refine consistent_of_serving (d := d) ?_ hserves ?_ ?_
            · simp only [World.step, heq]
            · simpa only [World.step, heq] using hown
            · intro strategy symbol p _ hp
              simpa only [World.step, heq] using h.remembered strategy symbol p hp
          · refine consistent_of_serving (d := d) rfl hserves' ?_ (fun strategy symbol q hkey hq => ?_)
            · simp only [World.step, hpresets]
              exact hown.saved htyped
            · simp only [World.step, hpresets]
              exact (h.remembered strategy symbol q hq).of_load (load_save_other hkey)
  | savePreset strategy symbol payload saves =>
      cases server with
      | none => exact ⟨h.remembered, nofun⟩
      | some ds =>
          obtain ⟨d, s⟩ := ds
          obtain ⟨params, hserves, hseen⟩ := h.running d s rfl
          have hkeep : ∀ strategy' symbol' p, seen strategy' symbol' = some p →
              Remembered py (saveTradingPreset strategy symbol payload saves presets).2 strategy' symbol' p := by
            intro strategy' symbol' p hp
            have hunseen : seen (lower (Text.trim strategy)) (upper (Text.trim symbol)) = none := hkept
            rcases saveTradingPreset_cases strategy symbol payload saves with heq | ⟨params, heq⟩
            · rw [heq]
              exact h.remembered _ _ p hp
            · rw [heq]
              refine (h.remembered _ _ p hp).of_load (load_save_other (fun hkey => ?_))
              rw [hkey.1, hkey.2, hunseen] at hp
              cases hp
          obtain ⟨presets', hpresets⟩ : ∃ p, (saveTradingPreset strategy symbol payload saves presets).2 = p := ⟨_, rfl⟩
          have hstep : World.step py backend ⟨presets, some (d, s)⟩ (.savePreset strategy symbol payload saves) =
              ⟨presets', some (d, s)⟩ := by
            simp only [World.step, hpresets, Option.isSome_some, if_true]
          rw [hpresets] at hkeep
          rw [turn, hstep]
          exact consistent_of_serving rfl hserves (hkeep _ _ params hseen)
            (fun strategy' symbol' p _ hp => hkeep strategy' symbol' p hp)

end Step

end Autr.Api.SavedParams
