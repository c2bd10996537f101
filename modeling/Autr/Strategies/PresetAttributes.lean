import Autr.Store.Keyed
import Autr.Strategies.StrategyParams
import Mathlib.Data.List.TakeWhile
import Mathlib.Logic.Function.Basic

namespace Autr.Strategies.PresetAttributes

open Store StrategyParams

inductive Kind
  | null
  | bool
  | int
  | float
  | str
  | container
  deriving DecidableEq

/-- `type(value)`. -/
def kindOf : Value → Kind
  | .null => .null
  | .bool _ => .bool
  | .int _ => .int
  | .float _ | .infinite _ | .nan => .float
  | .str _ => .str
  | .container _ => .container

/-- What an object has under a name. Its own dictionary is known by how often it has been
exchanged. -/
inductive Attribute
  | value (value : Value)
  | method (name : String)
  | own (exchanged : ℕ)
  | dictionary (entries : List (String × Value))
  | type (type : ParamsClass ⊕ Kind)
  | other (id : ℕ)
  deriving DecidableEq

def Attribute.kind : Attribute → Option Kind
  | .value v => some (kindOf v)
  | _ => none

/-- `to_dict`, and the names with two underscores in front: no other name means anything on
an object but those of its fields. -/
def special (key : String) : Bool := key = "to_dict" || key.toList.take 2 = ['_', '_']

/-- What the language does with values, and the attributes that a class has besides its
fields and methods. -/
structure Language extends Python where
  truth : Value → Bool
  collect : String → Value → Option Value
  entries : Value → Option (List (String × Value))
  inherited : ParamsClass → String → Option Attribute
  call : ℕ → Value → Option Attribute

structure Instance where
  cls : ParamsClass
  dict : String → Option Attribute
  exchanged : ℕ

variable (L : Language)

def classAttribute (cls : ParamsClass) (key : String) : Option Attribute :=
  ((cls.fields.lookup key).map .value).or (if key = "to_dict" then some (.method key) else L.inherited cls key)

/-- `getattr(o, key)`. Three names are looked up before the object's own dictionary. -/
def getattr (o : Instance) (key : String) : Option Attribute :=
  if key = "__class__" then some (.type (.inl o.cls))
  else if key = "__weakref__" then some (.value .null)
  else if key = "__dict__" then some (.own o.exchanged)
  else (o.dict key).or (classAttribute L o.cls key)

inductive Raised
  | typeError
  | attributeError
  | overflowError
  deriving DecidableEq

/-- `setattr(o, key, a)`. No value of a preset is a class that the object could be given. -/
def setattr (key : String) (a : Attribute) (o : Instance) : Except Raised Instance :=
  if key = "__class__" then .error .typeError
  else if key = "__weakref__" then .error .attributeError
  else if key = "__dict__" then
    match a with
    | .dictionary entries =>
        .ok { o with dict := fun k => (entries.lookup k).map .value, exchanged := o.exchanged + 1 }
    | _ => .error .typeError
  else .ok { o with dict := Function.update o.dict key (some a) }

inductive Built
  | built (a : Attribute)
  | refused
  | overflow
  deriving DecidableEq

/-- `type(current)(value)` on a value. -/
def convert (current value : Value) : Conversion :=
  match current with
  | .null => .refused
  | .bool _ => .done (.bool (L.truth value))
  | .int _ => construct L.toPython (.int 0) value
  | .float _ | .infinite _ | .nan => construct L.toPython (.float 0) value
  | .str _ => construct L.toPython (.str "") value
  | .container text => ((L.collect text value).map .done).getD .refused

/-- `type(current)(value)`. -/
def constructAttribute (current : Attribute) (value : Value) : Built :=
  match current with
  | .value current =>
      match convert L current value with
      | .done converted => .built (.value converted)
      | .refused => .refused
      | .overflow => .overflow
  | .method _ => .refused
  | .own _ | .dictionary _ => ((L.entries value).map (fun entries => .built (.dictionary entries))).getD .refused
  | .type _ => .built (.type (.inr (kindOf value)))
  | .other id => ((L.call id value).map .built).getD .refused

/-- One pass of the loop. What `setattr` raises after the value has been converted is caught,
and what it raises on the value as it is is not. -/
def override (key : String) (value : Value) (o : Instance) : Except Raised Instance :=
  match getattr L o key with
  | none => .ok o
  | some current =>
      match constructAttribute L current value with
      | .built a =>
          match setattr key a o with
          | .error .typeError => setattr key (.value value) o
          | result => result
      | .refused => setattr key (.value value) o
      | .overflow => .error .overflowError

/-- What is raised, if anything, and the object as it is left. -/
def applyPresetOverrides : List (String × Value) → Instance → Option Raised × Instance
  | [], o => (none, o)
  | (key, value) :: overrides, o =>
      match override L key value o with
      | .ok o => applyPresetOverrides overrides o
      | .error raised => (some raised, o)

/-- A declared field has a value of the type of its default, and any other attribute is the
one it was. -/
def Fits (cls : ParamsClass) (key : String) (before after : Option Attribute) : Prop :=
  match cls.fields.lookup key with
  | some default => after.bind Attribute.kind = some (kindOf default)
  | none => after = before

instance (cls : ParamsClass) (key : String) (before after : Option Attribute) :
    Decidable (Fits cls key before after) :=
  match h : cls.fields.lookup key with
  | some default => decidable_of_iff (after.bind Attribute.kind = some (kindOf default)) (by rw [Fits, h])
  | none => decidable_of_iff (after = before) (by rw [Fits, h])

def Framed (o o' : Instance) : Prop := ∀ key, Fits o.cls key (getattr L o key) (getattr L o' key)

def raises (o : Instance) (entry : String × Value) : Bool :=
  entry.1 = "__class__" || entry.1 = "__weakref__" || (entry.1 = "__dict__" && (L.entries entry.2).isNone) ||
    (getattr L o entry.1).any (fun current => constructAttribute L current entry.2 = .overflow)

/-- The entries that are applied. -/
def reached (o : Instance) (overrides : List (String × Value)) : List (String × Value) :=
  overrides.takeWhile (fun entry => !raises L o entry)

/-- The value as the type of what is there makes it, or else as it is. -/
def stored (value : Value) (current : Attribute) : Attribute :=
  match constructAttribute L current value with
  | .built a => a
  | _ => .value value

/-- The object is not given another dictionary, each entry fits what it is stored over, and
the other fields have values of their types already. -/
structure Fitting (o : Instance) (overrides : List (String × Value)) : Prop where
  entry : ∀ entry ∈ reached L o overrides, entry.1 ≠ "__dict__" ∧
    Fits o.cls entry.1 (getattr L o entry.1) ((getattr L o entry.1).map (stored L entry.2))
  field : ∀ key, key ∉ (reached L o overrides).map Prod.fst → Fits o.cls key (getattr L o key) (getattr L o key)

variable {L}

structure Ordinary (key : String) : Prop where
  notClass : key ≠ "__class__"
  notWeakref : key ≠ "__weakref__"
  notDict : key ≠ "__dict__"

theorem setattr_ordinary {key : String} (h : Ordinary key) (a : Attribute) (o : Instance) :
    setattr key a o = .ok { o with dict := Function.update o.dict key (some a) } := by
  simp only [setattr, if_neg h.notClass, if_neg h.notWeakref, if_neg h.notDict]

theorem getattr_update {key : String} (h : Ordinary key) (a : Attribute) (o : Instance) (k : String) :
    getattr L { o with dict := Function.update o.dict key (some a) } k =
      if k = key then some a else getattr L o k := by
  by_cases hk : k = key
  · subst hk
    rw [getattr, if_neg h.notClass, if_neg h.notWeakref, if_neg h.notDict, if_pos rfl]
    dsimp only
    rw [Function.update_self, Option.some_or]
  · rw [if_neg hk, getattr, getattr]
    dsimp only
    rw [Function.update_of_ne hk]

theorem raises_eq_false {o : Instance} {key : String} {value : Value} (h : raises L o (key, value) = false) :
    key ≠ "__class__" ∧ key ≠ "__weakref__" ∧ (key = "__dict__" → ∃ entries, L.entries value = some entries) ∧
      ∀ current, getattr L o key = some current → constructAttribute L current value ≠ .overflow := by
  simp only [raises, Bool.or_eq_false_iff, decide_eq_false_iff_not] at h
  obtain ⟨⟨⟨hclass, hweakref⟩, hdict⟩, hoverflow⟩ := h
  refine ⟨hclass, hweakref, fun hkey => ?_, fun current hcurrent => ?_⟩
  · simpa [hkey, Option.isSome_iff_exists] using hdict
  · rw [hcurrent] at hoverflow
    simpa using hoverflow

/-- An entry that does not raise and is not for the dictionary changes what is under its key. -/
theorem override_ordinary {o : Instance} {key : String} {value : Value} (hraises : raises L o (key, value) = false)
    (hdict : key ≠ "__dict__") :
    ∃ o', override L key value o = .ok o' ∧ o'.cls = o.cls ∧ o'.exchanged = o.exchanged ∧
      ∀ k, getattr L o' k = if k = key then (getattr L o key).map (stored L value) else getattr L o k := by
  obtain ⟨hclass, hweakref, -, hoverflow⟩ := raises_eq_false hraises
  have hkey : Ordinary key := ⟨hclass, hweakref, hdict⟩
  rw [override]
  cases hcurrent : getattr L o key with
  | none =>
      refine ⟨o, rfl, rfl, rfl, fun k => ?_⟩
      split
      next hk => rw [hk, hcurrent, Option.map_none]
      · rfl
  | some current =>
      refine ⟨{ o with dict := Function.update o.dict key (some (stored L value current)) }, ?_, rfl, rfl,
        fun k => getattr_update hkey _ o k⟩
      dsimp only
      cases hbuilt : constructAttribute L current value with
      | built a => simp only [setattr_ordinary hkey, stored, hbuilt]
      | refused => simp only [setattr_ordinary hkey, stored, hbuilt]
      | overflow => exact absurd hbuilt (hoverflow current hcurrent)

/-- An object that has been given other entries for its dictionary. -/
def exchange (entries : List (String × Value)) (o : Instance) : Instance :=
  { o with dict := fun k => (entries.lookup k).map .value, exchanged := o.exchanged + 1 }

theorem override_dict {o : Instance} {value : Value} {entries : List (String × Value)}
    (h : L.entries value = some entries) :
    override L "__dict__" value o = .ok (exchange entries o) := by
  have hcurrent : getattr L o "__dict__" = some (.own o.exchanged) := rfl
  rw [override, hcurrent]
  dsimp only
  rw [constructAttribute, h]
  rfl

theorem override_raises {o : Instance} {key : String} {value : Value} (h : raises L o (key, value) = true) :
    ∃ raised, override L key value o = .error raised := by
  simp only [raises, Bool.or_eq_true, decide_eq_true_eq, Bool.and_eq_true, Option.isNone_iff_eq_none,
    Option.any_eq_true] at h
  obtain ((rfl | rfl) | ⟨rfl, hentries⟩) | ⟨current, hcurrent, hoverflow⟩ := h
  · exact ⟨.typeError, rfl⟩
  · exact ⟨.attributeError, rfl⟩
  · have hcurrent : getattr L o "__dict__" = some (.own o.exchanged) := rfl
    refine ⟨.typeError, ?_⟩
    rw [override, hcurrent]
    dsimp only
    rw [constructAttribute, hentries]
    rfl
  · refine ⟨.overflowError, ?_⟩
    rw [override, hcurrent]
    dsimp only
    rw [hoverflow]

theorem applyPresetOverrides_ok {o o' : Instance} {key : String} {value : Value} (h : override L key value o = .ok o')
    (overrides : List (String × Value)) :
    applyPresetOverrides L ((key, value) :: overrides) o = applyPresetOverrides L overrides o' := by
  rw [applyPresetOverrides, h]

theorem reached_cons_of_raises {o : Instance} {entry : String × Value} (h : raises L o entry = true)
    (overrides : List (String × Value)) : reached L o (entry :: overrides) = [] := by
  rw [reached, List.takeWhile_cons, h]
  rfl

theorem reached_cons {o : Instance} {entry : String × Value} (h : raises L o entry = false)
    (overrides : List (String × Value)) : reached L o (entry :: overrides) = entry :: reached L o overrides := by
  rw [reached, List.takeWhile_cons, h]
  rfl

theorem reached_congr {o o' : Instance} {overrides : List (String × Value)}
    (h : ∀ key ∈ overrides.map Prod.fst, getattr L o' key = getattr L o key) :
    reached L o' overrides = reached L o overrides := by
  induction overrides with
  | nil => rfl
  | cons entry overrides ih =>
      have hentry : raises L o' entry = raises L o entry := by
        rw [raises, raises, h entry.1 List.mem_cons_self]
      have hrest := ih (fun key hkey => h key (List.mem_cons_of_mem _ hkey))
      cases hraises : raises L o entry with
      | true => rw [reached_cons_of_raises hraises, reached_cons_of_raises (hentry.trans hraises)]
      | false => rw [reached_cons hraises, reached_cons (hentry.trans hraises), hrest]

/-- An ordinary entry leaves the later ones what they were. -/
theorem reached_after {o o' : Instance} {key : String} {after : Option Attribute} {overrides : List (String × Value)}
    (hkey : key ∉ overrides.map Prod.fst) (h : ∀ k, getattr L o' k = if k = key then after else getattr L o k) :
    reached L o' overrides = reached L o overrides := by
  refine reached_congr (fun k hk => ?_)
  have hne : k ≠ key := fun he => hkey (he ▸ hk)
  rw [h, if_neg hne]

theorem exchanged_le (overrides : List (String × Value)) (o : Instance) :
    o.exchanged ≤ (applyPresetOverrides L overrides o).2.exchanged := by
  induction overrides generalizing o with
  | nil => exact le_rfl
  | cons entry overrides ih =>
      obtain ⟨key, value⟩ := entry
      cases hraises : raises L o (key, value) with
      | true =>
          obtain ⟨raised, hraised⟩ := override_raises hraises
          rw [applyPresetOverrides, hraised]
      | false =>
          by_cases hdict : key = "__dict__"
          · subst hdict
            obtain ⟨entries, hentries⟩ := (raises_eq_false hraises).2.2.1 rfl
            rw [applyPresetOverrides_ok (override_dict hentries)]
            exact Nat.le_of_succ_le (ih (exchange entries o))
          · obtain ⟨o', ho', -, hexchanged, -⟩ := override_ordinary hraises hdict
            rw [applyPresetOverrides_ok ho', ← hexchanged]
            exact ih o'

theorem exchanged_lt {overrides : List (String × Value)} {o : Instance} (hkeys : (overrides.map Prod.fst).Nodup)
    (h : "__dict__" ∈ (reached L o overrides).map Prod.fst) :
    o.exchanged < (applyPresetOverrides L overrides o).2.exchanged := by
  induction overrides generalizing o with
  | nil => cases h
  | cons entry overrides ih =>
      obtain ⟨key, value⟩ := entry
      obtain ⟨hkey, hkeys⟩ := List.nodup_cons.1 hkeys
      cases hraises : raises L o (key, value) with
      | true =>
          rw [reached_cons_of_raises hraises] at h
          cases h
      | false =>
          by_cases hdict : key = "__dict__"
          · subst hdict
            obtain ⟨entries, hentries⟩ := (raises_eq_false hraises).2.2.1 rfl
            rw [applyPresetOverrides_ok (override_dict hentries)]
            exact exchanged_le overrides (exchange entries o)
          · obtain ⟨o', ho', -, hexchanged, hget⟩ := override_ordinary hraises hdict
            rw [applyPresetOverrides_ok ho', ← hexchanged]
            rw [reached_cons hraises, List.map_cons] at h
            refine ih hkeys ?_
            rw [reached_after hkey hget]
            exact (List.mem_cons.1 h).resolve_left (fun he => hdict he.symm)

/-- What the loop makes of an object that keeps its dictionary. -/
theorem applied_getattr {overrides : List (String × Value)} {o : Instance} (hkeys : (overrides.map Prod.fst).Nodup)
    (h : "__dict__" ∉ (reached L o overrides).map Prod.fst) (key : String) :
    getattr L (applyPresetOverrides L overrides o).2 key =
      match (reached L o overrides).lookup key with
      | some value => (getattr L o key).map (stored L value)
      | none => getattr L o key := by
  induction overrides generalizing o with
  | nil => rfl
  | cons entry overrides ih =>
      obtain ⟨name, value⟩ := entry
      obtain ⟨hname, hkeys⟩ := List.nodup_cons.1 hkeys
      cases hraises : raises L o (name, value) with
      | true =>
          obtain ⟨raised, hraised⟩ := override_raises hraises
          rw [reached_cons_of_raises hraises, applyPresetOverrides, hraised]
          rfl
      | false =>
          rw [reached_cons hraises] at h ⊢
          obtain ⟨hdict, hrest⟩ := not_or.1 (fun hmem => h (List.mem_cons.2 hmem))
          obtain ⟨o', ho', -, -, hget⟩ := override_ordinary hraises (Ne.symm hdict)
          have hreached := reached_after hname hget
          rw [applyPresetOverrides_ok ho', ih hkeys (hreached ▸ hrest), hreached, hget]
          by_cases hkey : key = name
          · subst hkey
            have hno : (reached L o overrides).lookup key = none :=
              lookup_eq_none_of_notMem (fun hmem => hname (((List.takeWhile_sublist _).map Prod.fst).mem hmem))
            rw [hno, if_pos rfl]
            simp
          · rw [if_neg hkey, lookup_cons_of_ne hkey]

/-- The overrides keep the frame of the object and the types of its fields exactly when they fit. -/
theorem framed_iff (L : Language) (o : Instance) (overrides : Table (Prod.fst (α := String) (β := Value))) :
    Framed L o (applyPresetOverrides L overrides.rows o).2 ↔ Fitting L o overrides.rows := by
  by_cases hdict : "__dict__" ∈ (reached L o overrides.rows).map Prod.fst
  · refine iff_of_false (fun hframed => ?_) (fun hfitting => ?_)
    · -- the dictionary is no field of any class, and the object has another one
      have hown : Fits o.cls "__dict__" (some (.own o.exchanged))
          (some (.own (applyPresetOverrides L overrides.rows o).2.exchanged)) := hframed "__dict__"
      have hfield : o.cls.fields.lookup "__dict__" = none := by cases o.cls <;> rfl
      rw [Fits, hfield] at hown
      simp only [Option.some.injEq, Attribute.own.injEq] at hown
      exact absurd (exchanged_lt overrides.nodup hdict) (by omega)
    · obtain ⟨entry, hentry, hkey⟩ := List.mem_map.1 hdict
      exact (hfitting.entry entry hentry).1 hkey
  have hget := applied_getattr overrides.nodup hdict
  have hnodup : ((reached L o overrides.rows).map Prod.fst).Nodup :=
    ((List.takeWhile_sublist _).map Prod.fst).nodup overrides.nodup
  constructor
  · intro hframed
    refine ⟨fun entry hentry => ⟨?_, ?_⟩, fun key hkey => ?_⟩
    · exact fun hkey => hdict (hkey ▸ List.mem_map_of_mem hentry)
    · have hfits := hframed entry.1
      rwa [hget, lookup_eq_some_of_mem_nodup hnodup hentry] at hfits
    · have hfits := hframed key
      rwa [hget, lookup_eq_none_of_notMem hkey] at hfits
  · intro hfitting key
    rw [hget]
    cases hlookup : (reached L o overrides.rows).lookup key with
    | none =>
        refine hfitting.field key (fun hmem => ?_)
        have hsome := (lookup_isSome_iff_mem _ key).2 hmem
        rw [hlookup] at hsome
        cases hsome
    | some value => exact (hfitting.entry (key, value) (mem_of_lookup_eq_some hlookup)).2

section Deciding

variable (L)

/-- What is under a key after overrides that leave the dictionary of the object alone. -/
def overriddenAttr (o : Instance) (overrides : List (String × Value)) (key : String) : Option Attribute :=
  match overrides.lookup key with
  | some value => (getattr L o key).map (stored L value)
  | none => getattr L o key

def unraised (o : Instance) (overrides : List (String × Value)) : Bool := overrides.all (fun entry => !raises L o entry)

def beforeDict (overrides : List (String × Value)) : List (String × Value) :=
  overrides.takeWhile (fun entry => entry.1 ≠ "__dict__")

/-- The object and the overrides that decide what each attribute becomes, if nothing is
raised. Of what comes before a new dictionary nothing is left. -/
def deciding (o : Instance) (overrides : List (String × Value)) : Option (Instance × List (String × Value)) :=
  if unraised L o (beforeDict overrides) then
    match overrides.dropWhile (fun entry => entry.1 ≠ "__dict__") with
    | [] => some (o, overrides)
    | entry :: after =>
        (L.entries entry.2).bind (fun entries =>
          if unraised L (exchange entries o) after then some (exchange entries o, after) else none)
  else none

end Deciding

theorem raises_congr {o o' : Instance} {entry : String × Value} (h : getattr L o' entry.1 = getattr L o entry.1) :
    raises L o' entry = raises L o entry := by
  rw [raises, raises, h]

/-- Overrides with no new dictionary among them go through unless one of them raises. -/
theorem applied_before (before rest : List (String × Value)) (o : Instance)
    (hkeys : ((before ++ rest).map Prod.fst).Nodup) (hdict : "__dict__" ∉ before.map Prod.fst) :
    if unraised L o before = true then
      ∃ o', applyPresetOverrides L (before ++ rest) o = applyPresetOverrides L rest o' ∧ o'.cls = o.cls ∧
        o'.exchanged = o.exchanged ∧ ∀ key, getattr L o' key = overriddenAttr L o before key
    else (applyPresetOverrides L (before ++ rest) o).1 ≠ none := by
  induction before generalizing o with
  | nil => exact ⟨o, rfl, rfl, rfl, fun _ => rfl⟩
  | cons entry before ih =>
      obtain ⟨name, value⟩ := entry
      obtain ⟨hname, hkeys⟩ := List.nodup_cons.1 hkeys
      obtain ⟨hne, hdict⟩ := not_or.1 (fun hmem => hdict (List.mem_cons.2 hmem))
      cases hraises : raises L o (name, value) with
      | true =>
          obtain ⟨raised, hraised⟩ := override_raises hraises
          rw [unraised, List.all_cons, hraises, List.cons_append, applyPresetOverrides, hraised]
          exact Option.some_ne_none raised
      | false =>
          obtain ⟨o₁, ho₁, hcls, hexchanged, hget⟩ := override_ordinary hraises (Ne.symm hne)
          have hbefore : name ∉ before.map Prod.fst := fun hmem =>
            hname (((List.sublist_append_left before rest).map Prod.fst).subset hmem)
          have hsame : unraised L o ((name, value) :: before) = unraised L o₁ before := by
            rw [unraised, List.all_cons, hraises, unraised, Bool.not_false, Bool.true_and, Bool.eq_iff_iff,
              List.all_eq_true, List.all_eq_true]
            refine forall₂_congr (fun entry hentry => ?_)
            have hkey : entry.1 ≠ name := fun he => hbefore (he ▸ List.mem_map_of_mem hentry)
            rw [raises_congr ((hget entry.1).trans (if_neg hkey))]
          have hrest := ih o₁ hkeys hdict
          rw [hsame, List.cons_append, applyPresetOverrides_ok ho₁]
          split at hrest
          · next hunraised =>
              rw [if_pos hunraised]
              obtain ⟨o', ho', hcls', hexchanged', hget'⟩ := hrest
              refine ⟨o', ho', hcls'.trans hcls, hexchanged'.trans hexchanged, fun key => ?_⟩
              rw [hget', overriddenAttr, overriddenAttr]
              by_cases hkey : key = name
              · subst hkey
                rw [lookup_eq_none_of_notMem hbefore, hget, if_pos rfl]
                simp
              · rw [lookup_cons_of_ne hkey, hget, if_neg hkey]
          · next hraised =>
              rw [if_neg hraised]
              exact hrest

theorem beforeDict_keys (overrides : List (String × Value)) : "__dict__" ∉ (beforeDict overrides).map Prod.fst := by
  intro hmem
  obtain ⟨entry, hentry, hkey⟩ := List.mem_map.1 hmem
  have hne := List.mem_takeWhile_imp hentry
  rw [hkey] at hne
  exact of_decide_eq_true hne rfl

theorem exchange_of_eq {o o' : Instance} (hcls : o'.cls = o.cls) (hexchanged : o'.exchanged = o.exchanged)
    (entries : List (String × Value)) : exchange entries o' = exchange entries o := by
  rw [exchange, exchange, hcls, hexchanged]

/-- Overrides cut at the one for the dictionary. -/
theorem cut_dict (overrides : List (String × Value)) : beforeDict overrides = overrides ∨
    ∃ value after, overrides = beforeDict overrides ++ ("__dict__", value) :: after ∧
      overrides.dropWhile (fun entry => entry.1 ≠ "__dict__") = ("__dict__", value) :: after := by
  have hsplit : beforeDict overrides ++ overrides.dropWhile (fun entry => entry.1 ≠ "__dict__") = overrides :=
    List.takeWhile_append_dropWhile
  cases hdrop : overrides.dropWhile (fun entry => entry.1 ≠ "__dict__") with
  | nil =>
      rw [hdrop, List.append_nil] at hsplit
      exact .inl hsplit
  | cons entry after =>
      obtain ⟨name, value⟩ := entry
      have hhead := List.head?_dropWhile_not (fun entry : String × Value => decide (entry.1 ≠ "__dict__")) overrides
      rw [hdrop] at hhead
      obtain rfl : name = "__dict__" := by simpa using hhead
      exact .inr ⟨value, after, by rw [← hdrop, hsplit], rfl⟩

/-- The overrides go through exactly when something decides the attributes, and then as it says. -/
theorem applied_deciding {overrides : List (String × Value)} (o : Instance) (hkeys : (overrides.map Prod.fst).Nodup) :
    (∃ r o', deciding L o overrides = some r ∧ applyPresetOverrides L overrides o = (none, o') ∧ o'.cls = o.cls ∧
      ∀ key, getattr L o' key = overriddenAttr L r.1 r.2 key) ∨
    deciding L o overrides = none ∧ (applyPresetOverrides L overrides o).1 ≠ none := by
  rcases cut_dict overrides with hall | ⟨value, after, hcut, hdrop⟩
  · have hdrop : overrides.dropWhile (fun entry => entry.1 ≠ "__dict__") = [] := by
      rw [List.dropWhile_eq_nil_iff]
      exact List.takeWhile_eq_self_iff.1 hall
    have happlied := applied_before (L := L) overrides [] o (by rw [List.append_nil]; exact hkeys)
      (hall ▸ beforeDict_keys overrides)
    rw [List.append_nil] at happlied
    rw [deciding, hdrop, hall]
    by_cases hunraised : unraised L o overrides = true
    · rw [if_pos hunraised] at happlied ⊢
      obtain ⟨o', ho', hcls, -, hget⟩ := happlied
      exact .inl ⟨_, o', rfl, ho', hcls, hget⟩
    · rw [if_neg hunraised] at happlied ⊢
      exact .inr ⟨rfl, happlied⟩
  · have happlied := applied_before (L := L) _ _ o (hcut ▸ hkeys) (beforeDict_keys overrides)
    rw [← hcut] at happlied
    rw [hcut, List.map_append] at hkeys
    obtain ⟨hdict, hafter⟩ := List.nodup_cons.1 (List.nodup_append.1 hkeys).2.1
    rw [deciding, hdrop]
    by_cases hbefore : unraised L o (beforeDict overrides) = true
    swap
    · rw [if_neg hbefore] at happlied ⊢
      exact .inr ⟨rfl, happlied⟩
    rw [if_pos hbefore] at happlied ⊢
    obtain ⟨o₁, ho₁, hcls, hexchanged, -⟩ := happlied
    rw [ho₁]
    dsimp only
    cases hentries : L.entries value with
    | none =>
        have hraises : raises L o₁ ("__dict__", value) = true := by simp [raises, hentries]
        obtain ⟨raised, hraised⟩ := override_raises hraises
        rw [applyPresetOverrides, hraised]
        exact .inr ⟨rfl, Option.some_ne_none raised⟩
    | some entries =>
        rw [applyPresetOverrides_ok (override_dict hentries), exchange_of_eq hcls hexchanged, Option.bind_some]
        have hrest := applied_before (L := L) after [] (exchange entries o) (by rw [List.append_nil]; exact hafter)
          hdict
        rw [List.append_nil] at hrest
        by_cases hunraised : unraised L (exchange entries o) after = true
        · rw [if_pos hunraised] at hrest ⊢
          obtain ⟨o₂, ho₂, hcls₂, -, hget₂⟩ := hrest
          exact .inl ⟨_, o₂, rfl, ho₂, hcls₂, hget₂⟩
        · rw [if_neg hunraised] at hrest ⊢
          exact .inr ⟨rfl, hrest⟩

/-- Params whose fields have been set and nothing else. -/
def ofParams (p : ParamsObject) : Instance := ⟨p.cls, fun key => (p.get key).map .value, 0⟩

def ofDefaults (cls : ParamsClass) : Instance := ofParams ⟨cls, cls.fields⟩

/-- A value such as a field starts with. -/
def plain : Value → Bool
  | .int _ | .float _ | .str _ => true
  | _ => false

theorem convert_plain (L : Language) {current : Value} (h : plain current) (value : Value) :
    convert L current value = construct L.toPython current value := by
  cases current with
  | int => cases value <;> rfl
  | float => cases value <;> rfl
  | str => cases value <;> rfl
  | null | bool | infinite | nan | container => cases h

theorem stored_plain {current value : Value} (h : plain current)
    (hoverflow : constructAttribute L (.value current) value ≠ .overflow) :
    ∃ v, overridden L.toPython current value = some v ∧ stored L value (.value current) = .value v := by
  rw [overridden, stored]
  rw [constructAttribute, convert_plain L h] at hoverflow ⊢
  cases hbuilt : construct L.toPython current value with
  | done converted => exact ⟨converted, rfl, rfl⟩
  | refused => exact ⟨value, rfl, rfl⟩
  | overflow =>
      rw [hbuilt] at hoverflow
      exact absurd rfl hoverflow

theorem fields_plain (cls : ParamsClass) :
    ∀ field ∈ cls.fields, plain field.2 = true ∧ field.1 ∉ ["__class__", "__weakref__", "__dict__"] := by
  cases cls <;> decide +kernel

theorem new_plain {cls : ParamsClass} {symbol key : String} {current : Value}
    (h : (cls.new symbol).get key = some current) : plain current = true ∧ Ordinary key := by
  rw [ParamsClass.new, get_set] at h
  have hordinary : ∀ field, cls.fields.lookup key = some field → plain field = true ∧ Ordinary key := by
    intro field hfield
    obtain ⟨hplain, hkey⟩ := fields_plain cls (key, field) (mem_of_lookup_eq_some hfield)
    simp only [List.mem_cons, List.not_mem_nil, or_false, not_or] at hkey
    exact ⟨hplain, hkey.1, hkey.2.1, hkey.2.2⟩
  split at h
  · obtain ⟨field, hfield, rfl⟩ := Option.map_eq_some_iff.1 h
    exact ⟨rfl, (hordinary field hfield).2⟩
  · exact hordinary current h

theorem getattr_ofParams {p : ParamsObject} {key : String} (h : Ordinary key) {current : Value}
    (hcurrent : p.get key = some current) : getattr L (ofParams p) key = some (.value current) := by
  rw [getattr, if_neg h.notClass, if_neg h.notWeakref, if_neg h.notDict]
  simp only [ofParams, hcurrent, Option.map_some, Option.some_or]

/-- On the fields of a new object the attributes are the params, as long as nothing is raised. -/
theorem applied_new {overrides : List (String × Value)} {cls : ParamsClass} {symbol : String}
    (hkeys : (overrides.map Prod.fst).Nodup) (hdict : "__dict__" ∉ overrides.map Prod.fst)
    (hraises : ∀ entry ∈ overrides, raises L (ofParams (cls.new symbol)) entry = false) :
    ∃ p, StrategyParams.applyPresetOverrides L.toPython overrides (cls.new symbol) = some p ∧
      ∀ key ∈ (cls.new symbol).names,
        getattr L (applyPresetOverrides L overrides (ofParams (cls.new symbol))).2 key = (p.get key).map .value := by
  have hreached : reached L (ofParams (cls.new symbol)) overrides = overrides :=
    List.takeWhile_eq_self_iff.2 (fun entry hentry => by rw [hraises entry hentry]; rfl)
  have hdict' : "__dict__" ∉ (reached L (ofParams (cls.new symbol)) overrides).map Prod.fst := by rwa [hreached]
  have hfield : ∀ key current, (cls.new symbol).get key = some current →
      ∃ v, overriddenBy L.toPython overrides key current = some v ∧
        getattr L (applyPresetOverrides L overrides (ofParams (cls.new symbol))).2 key = some (.value v) := by
    intro key current hcurrent
    obtain ⟨hplain, hordinary⟩ := new_plain hcurrent
    have hget := getattr_ofParams (L := L) hordinary hcurrent
    rw [applied_getattr hkeys hdict', hreached, hget, overriddenBy]
    cases hlookup : overrides.lookup key with
    | none => exact ⟨current, rfl, rfl⟩
    | some value =>
        obtain ⟨-, -, -, hoverflow⟩ := raises_eq_false (hraises (key, value) (mem_of_lookup_eq_some hlookup))
        obtain ⟨v, hv, hstored⟩ := stored_plain hplain (hoverflow (.value current) hget)
        exact ⟨v, hv, congrArg some hstored⟩
  have hsome : (StrategyParams.applyPresetOverrides L.toPython overrides (cls.new symbol)).isSome := by
    refine applyPresetOverrides_isSome hkeys (fun key current hcurrent => ?_)
    obtain ⟨v, hv, -⟩ := hfield key current hcurrent
    rw [hv]
    rfl
  obtain ⟨p, hp⟩ := Option.isSome_iff_exists.1 hsome
  refine ⟨p, hp, fun key hkey => ?_⟩
  obtain ⟨current, hcurrent⟩ := Option.isSome_iff_exists.1 ((get_isSome_iff _ key).2 hkey)
  obtain ⟨v, hv, hget⟩ := hfield key current hcurrent
  rw [hget, applyPresetOverrides_get hkeys hp, hcurrent, Option.bind_some, hv, Option.map_some]

/-- Besides what it declares a class has special names only. -/
def Usual (L : Language) : Prop := ∀ cls key a, L.inherited cls key = some a → special key = true

theorem ordinary_of_special {key : String} (h : special key = false) : Ordinary key ∧ key ≠ "to_dict" := by
  refine ⟨⟨?_, ?_, ?_⟩, ?_⟩ <;> rintro rfl <;> exact absurd h (by decide +kernel)

theorem special_of_new {cls : ParamsClass} {symbol key : String} {current : Value}
    (h : (cls.new symbol).get key = some current) : special key = false := by
  have hfields : ∀ field ∈ (cls.new symbol).names, special field = false := by
    rw [ParamsClass.new, names_set]
    cases cls <;> decide +kernel
  refine hfields key ((get_isSome_iff _ key).1 ?_)
  rw [h]
  rfl

/-- A name that is neither a field nor special is nothing to new params. -/
theorem getattr_new_eq_none (husual : Usual L)
    {cls : ParamsClass} {symbol key : String} (hkey : special key = false) (hnone : (cls.new symbol).get key = none) :
    getattr L (ofParams (cls.new symbol)) key = none := by
  have hfield : cls.fields.lookup key = none := by
    rw [ParamsClass.new, get_set] at hnone
    split at hnone
    · exact Option.map_eq_none_iff.1 hnone
    · exact hnone
  have hinherited : L.inherited cls key = none := by
    cases h : L.inherited cls key with
    | none => rfl
    | some a => exact absurd (husual cls key a h) (by simp [hkey])
  obtain ⟨hordinary, htoDict⟩ := ordinary_of_special hkey
  have hcls : (cls.new symbol).cls = cls := rfl
  rw [getattr, if_neg hordinary.notClass, if_neg hordinary.notWeakref, if_neg hordinary.notDict]
  simp only [ofParams, hnone, Option.map_none, Option.none_or, classAttribute, hcls, hfield, if_neg htoDict, hinherited]

/-- A language in which no text is a number, and whose classes have no more than they declare. -/
def bare : Language where
  toPython := wordless
  truth value := value ≠ .null
  collect _ _ := none
  entries _ := none
  inherited _ _ := none
  call _ _ := none

/-- A text that is no number ends up in a field of integers, and a method makes way for a null. -/
theorem preset_not_framed :
    ¬ Framed bare (ofDefaults .regimeTrend)
        (applyPresetOverrides bare [("lookback_bars", .str "abc")] (ofDefaults .regimeTrend)).2 ∧
      ¬ Framed bare (ofDefaults .regimeTrend)
        (applyPresetOverrides bare [("to_dict", .null)] (ofDefaults .regimeTrend)).2 :=
  ⟨fun h => absurd (h "lookback_bars") (by decide +kernel), fun h => absurd (h "to_dict") (by decide +kernel)⟩

end Autr.Strategies.PresetAttributes
