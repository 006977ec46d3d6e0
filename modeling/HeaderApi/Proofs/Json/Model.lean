import HeaderApi.Proofs.Json.Unique
import Mathlib.Data.List.Basic
import Mathlib.Data.Option.Basic
import Mathlib.Data.Prod.Basic
import Mathlib.Tactic.FinCases

/-!
# Records from their JSON

What a record leaves out of its object is known from what stands under its keys: a missing value and
an empty list have no field, and no two parts of a record share a key.
-/

namespace HeaderApi

open Json

namespace Json

variable {α : Type}

/-- What stands under a key of an object. -/
def value? (key : String) : Json → Option Json
  | .obj fields => (fields.find? fun f => f.1 = key.toList).map Prod.snd
  | _ => none

/-- What stands for a list that is left out when it is empty. -/
def unlessEmpty (items : List Json) : Option Json :=
  if items.isEmpty then none else some (.arr items)

section Value

variable (key key' : String)

@[simp] theorem value?_append (fields others : List (Text × Json)) :
    value? key (.obj (fields ++ others)) =
      (value? key (.obj fields)).or (value? key (.obj others)) := by
  simp [value?, List.find?_append, Option.map_or]

@[simp] theorem value?_field (v : Json) :
    value? key (.obj (field key' v)) = if key' = key then some v else none := by
  by_cases h : key' = key
  · simp [value?, field, h]
  · simp [value?, field, h, String.toList_inj]

@[simp] theorem value?_toList (k : Text) (o : Option α) (f : α → Json) :
    value? key (.obj (o.map fun a => (k, f a)).toList) =
      if k = key.toList then o.map f else none := by
  cases o with
  | none => simp [value?]
  | some a => by_cases h : k = key.toList <;> simp [value?, h]

@[simp] theorem value?_optField (o : Option Text) :
    value? key (.obj (optField key' o)) = if key' = key then o.map .str else none := by
  simp [optField, String.toList_inj]

@[simp] theorem value?_listField (items : List Json) :
    value? key (.obj (listField key' items)) = if key' = key then unlessEmpty items else none := by
  cases items with
  | nil => simp [value?, listField, unlessEmpty]
  | cons item items => simp [listField, unlessEmpty]

end Value

theorem str_injective : Function.Injective Json.str := fun _ _ => Json.str.inj

/-- A text that is left out when it is empty is not lost. -/
theorem eq_of_ite_nil_eq {t u : Text}
    (h : (if t = [] then none else some t) = if u = [] then none else some u) : t = u := by
  split at h <;> split at h <;> simp_all

theorem unlessEmpty_map_injective {encode : α → Json} (h : Function.Injective encode) :
    Function.Injective fun items : List α => unlessEmpty (items.map encode) := by
  intro items others heq
  apply List.map_injective_iff.2 h
  cases items <;> cases others <;> simp_all [unlessEmpty]

theorem arr_map_injective {encode : α → Json} (h : Function.Injective encode) :
    Function.Injective fun items : List α => Json.arr (items.map encode) :=
  fun _ _ heq => List.map_injective_iff.2 h (Json.arr.inj heq)

theorem ofMap_injective {encode : α → Json} (h : Function.Injective encode) :
    Function.Injective (ofMap encode) := by
  rintro ⟨entries, _⟩ ⟨others, _⟩ heq
  have hentry : Function.Injective fun e : Text × α => (e.1, encode e.2) :=
    Function.Injective.prodMap (fun _ _ => id) h
  obtain rfl : entries = others := List.map_injective_iff.2 hentry (Json.obj.inj heq)
  rfl

end Json

/-! ## Parts of a record -/

theorem QualifiedName.toJson_injective : Function.Injective QualifiedName.toJson := by
  rintro ⟨name, owner⟩ ⟨name', owner'⟩ h
  have hname : name = name' := by simpa [toJson] using congrArg (value? "name") h
  have howner : owner.map Json.str = owner'.map Json.str := by
    simpa [toJson] using congrArg (value? "class") h
  rw [hname, Option.map_injective str_injective howner]

theorem ReturnDoc.toJson_injective : Function.Injective ReturnDoc.toJson := by
  rintro ⟨type, containing⟩ ⟨type', containing'⟩ h
  have htype : type = type' := by simpa [toJson] using congrArg (value? "type") h
  have hcontaining : containing.map Json.str = containing'.map Json.str := by
    simpa [toJson] using congrArg (value? "containing") h
  rw [htype, Option.map_injective str_injective hcontaining]

theorem Parameter.toJson_injective : Function.Injective Parameter.toJson := by
  intro p q h
  have hvariadic := congrArg (value? "variadic") h
  cases p with
  | variadic =>
    cases q with
    | variadic => rfl
    | named q => simp [toJson] at hvariadic
  | named p =>
    cases q with
    | variadic => simp [toJson] at hvariadic
    | named q =>
      obtain ⟨name, type, modifiers, doc⟩ := p
      obtain ⟨name', type', modifiers', doc'⟩ := q
      have hname : name = name' := by simpa [toJson] using congrArg (value? "name") h
      have htype : type = type' := by simpa [toJson] using congrArg (value? "type") h
      have hmodifiers : unlessEmpty (modifiers.map .str) = unlessEmpty (modifiers'.map .str) := by
        simpa [toJson] using congrArg (value? "modifiers") h
      have hdoc : (if doc = [] then none else some doc).map Json.str =
          (if doc' = [] then none else some doc').map .str := by
        simpa [toJson] using congrArg (value? "doc") h
      rw [hname, htype, unlessEmpty_map_injective str_injective hmodifiers,
        eq_of_ite_nil_eq (Option.map_injective str_injective hdoc)]

theorem Enum.toJson_injective : Function.Injective Enum.toJson := by
  rintro ⟨name, isFlags, entries⟩ ⟨name', isFlags', entries'⟩ h
  have hname : name = name' := by simpa [toJson] using congrArg (value? "name") h
  have hflags : isFlags = isFlags' := by simpa [toJson] using congrArg (value? "isflags") h
  have hentries : Json.arr (entries.map .str) = .arr (entries'.map .str) := by
    simpa [toJson, strs] using congrArg (value? "entries") h
  rw [hname, hflags, arr_map_injective str_injective hentries]

/-! ## Documentation

Its fields stand among those of another record. -/

namespace DocFields

def keys : List String := ["description", "raise", "see", "super", "since", "return"]

theorem eq_of_value?_eq {d d' : DocFields}
    (h : ∀ key ∈ keys, value? key (.obj d.toFields) = value? key (.obj d'.toFields)) : d = d' := by
  obtain ⟨description, raises, see, super, since, returns⟩ := d
  obtain ⟨description', raises', see', super', since', returns'⟩ := d'
  have hdescription : description = description' := by
    simpa [toFields] using h "description" (by decide)
  have hraises : unlessEmpty (raises.map .str) = unlessEmpty (raises'.map .str) := by
    simpa [toFields] using h "raise" (by decide)
  have hsee : unlessEmpty (see.map .str) = unlessEmpty (see'.map .str) := by
    simpa [toFields] using h "see" (by decide)
  have hsuper : super.map Json.str = super'.map .str := by
    simpa [toFields] using h "super" (by decide)
  have hsince : since.map Json.str = since'.map .str := by
    simpa [toFields] using h "since" (by decide)
  have hreturns : returns.map ReturnDoc.toJson = returns'.map ReturnDoc.toJson := by
    simpa [toFields] using h "return" (by decide)
  rw [hdescription, unlessEmpty_map_injective str_injective hraises,
    unlessEmpty_map_injective str_injective hsee, Option.map_injective str_injective hsuper,
    Option.map_injective str_injective hsince,
    Option.map_injective ReturnDoc.toJson_injective hreturns]

end DocFields

/-! ## Records -/

theorem FunctionKind.keyword_injective : Function.Injective FunctionKind.keyword := by
  intro k k' h
  cases k <;> cases k' <;> first | rfl | exact absurd h (by decide)

theorem FunctionEntry.toJson_injective : Function.Injective FunctionEntry.toJson := by
  rintro ⟨name, cname, kind, returnType, params, doc⟩
    ⟨name', cname', kind', returnType', params', doc'⟩ h
  have hname : name.toJson = name'.toJson := by simpa [toJson] using congrArg (value? "name") h
  have hcname : cname = cname' := by simpa [toJson] using congrArg (value? "cname") h
  have hkind : kind.keyword = kind'.keyword := by simpa [toJson] using congrArg (value? "type") h
  have hreturn : returnType = returnType' := by simpa [toJson] using congrArg (value? "rtype") h
  have hparams : Json.arr (params.map Parameter.toJson) = .arr (params'.map Parameter.toJson) := by
    simpa [toJson] using congrArg (value? "params") h
  have hdoc : doc = doc' := by
    apply DocFields.eq_of_value?_eq
    intro key hkey
    have hvalue := congrArg (value? key) h
    fin_cases hkey <;> simpa [toJson] using hvalue
  rw [QualifiedName.toJson_injective hname, hcname, FunctionKind.keyword_injective hkind, hreturn,
    arr_map_injective Parameter.toJson_injective hparams, hdoc]

theorem DelegateEntry.toJson_injective : Function.Injective DelegateEntry.toJson := by
  rintro ⟨name, cname, returnType, params, doc⟩ ⟨name', cname', returnType', params', doc'⟩ h
  have hname : name = name' := by simpa [toJson] using congrArg (value? "name") h
  have hcname : cname = cname' := by simpa [toJson] using congrArg (value? "cname") h
  have hreturn : returnType = returnType' := by simpa [toJson] using congrArg (value? "rtype") h
  have hparams : Json.arr (params.map Parameter.toJson) = .arr (params'.map Parameter.toJson) := by
    simpa [toJson] using congrArg (value? "params") h
  have hdoc : doc = doc' := by
    apply DocFields.eq_of_value?_eq
    intro key hkey
    have hvalue := congrArg (value? key) h
    fin_cases hkey <;> simpa [toJson] using hvalue
  rw [hname, hcname, hreturn, arr_map_injective Parameter.toJson_injective hparams, hdoc]

theorem ClassEntry.toJson_injective : Function.Injective ClassEntry.toJson := by
  rintro ⟨cname, doc, constructor, destructor, initializers, methods⟩
    ⟨cname', doc', constructor', destructor', initializers', methods'⟩ h
  have hcname : cname = cname' := by simpa [toJson] using congrArg (value? "cname") h
  have hdoc : doc = doc' := by
    apply DocFields.eq_of_value?_eq
    intro key hkey
    have hvalue := congrArg (value? key) h
    fin_cases hkey <;> simpa [toJson] using hvalue
  have hconstructor : constructor.map FunctionEntry.toJson =
      constructor'.map FunctionEntry.toJson := by
    simpa [toJson, DocFields.toFields] using congrArg (value? "constructor") h
  have hdestructor : destructor.map FunctionEntry.toJson =
      destructor'.map FunctionEntry.toJson := by
    simpa [toJson, DocFields.toFields] using congrArg (value? "destructor") h
  have hinitializers : unlessEmpty (initializers.map FunctionEntry.toJson) =
      unlessEmpty (initializers'.map FunctionEntry.toJson) := by
    simpa [toJson, DocFields.toFields] using congrArg (value? "initializers") h
  have hmethods : Json.arr (methods.map FunctionEntry.toJson) =
      .arr (methods'.map FunctionEntry.toJson) := by
    simpa [toJson, DocFields.toFields] using congrArg (value? "methods") h
  have hfunction := FunctionEntry.toJson_injective
  rw [hcname, hdoc, Option.map_injective hfunction hconstructor,
    Option.map_injective hfunction hdestructor, unlessEmpty_map_injective hfunction hinitializers,
    arr_map_injective hfunction hmethods]

theorem ApiModule.toJson_injective : Function.Injective ApiModule.toJson := by
  rintro ⟨name, enums, types, functions, delegates⟩
    ⟨name', enums', types', functions', delegates'⟩ h
  have hname : name = name' := by simpa [toJson] using congrArg (value? "name") h
  have henums : Json.arr (enums.map Enum.toJson) = .arr (enums'.map Enum.toJson) := by
    simpa [toJson] using congrArg (value? "enums") h
  have htypes : ofMap ClassEntry.toJson types = ofMap ClassEntry.toJson types' := by
    simpa [toJson] using congrArg (value? "types") h
  have hfunctions : Json.arr (functions.map FunctionEntry.toJson) =
      .arr (functions'.map FunctionEntry.toJson) := by
    simpa [toJson] using congrArg (value? "functions") h
  have hdelegates : ofMap DelegateEntry.toJson delegates =
      ofMap DelegateEntry.toJson delegates' := by
    simpa [toJson] using congrArg (value? "delegates") h
  rw [hname, arr_map_injective Enum.toJson_injective henums,
    ofMap_injective ClassEntry.toJson_injective htypes,
    arr_map_injective FunctionEntry.toJson_injective hfunctions,
    ofMap_injective DelegateEntry.toJson_injective hdelegates]

/-- The text tells the modules and their order, whatever the indentations are. -/
theorem renderModules_inj {i j : Int} {modules modules' : OrderedMap Text ApiModule}
    (h : renderModules i modules = renderModules j modules') : modules = modules' :=
  ofMap_injective ApiModule.toJson_injective (eq_of_render_eq h)

/-- A module that takes the place of another one leaves no trace of it. -/
theorem renderModules_inj_replaced :
    let log : ApiModule :=
      { name := "log".toList
        functions := [⟨.bare "info".toList, "log_info".toList, .method, "void".toList,
          [.named { name := "format".toList, type := "char *".toList }, .variadic], {}⟩] }
    let once : OrderedMap Text ApiModule := OrderedMap.empty.insert "log".toList log
    let twice : OrderedMap Text ApiModule :=
      (OrderedMap.empty.insert "log".toList { name := "old".toList }).insert "log".toList log
    renderModules (-1) twice = renderModules (-3) once ∧ twice = once := by
  intro log once twice
  have htext : renderModules (-1) twice = renderModules (-3) once := by decide +kernel
  exact ⟨htext, renderModules_inj htext⟩

end HeaderApi
