import HeaderApi.Proofs.Header.Index
import HeaderApi.Proofs.Module.Claims
import HeaderApi.Proofs.OrderedMap

/-!
# Where functions go

Types are registered first, so that each function finds its class, wherever the class is declared.
`Placed` says what a module holds when some of its functions are placed.
-/

namespace HeaderApi.Header

open Grammar Text

/-! ## Documented entries -/

namespace FunctionItem

def signature (f : FunctionItem) : Signature :=
  ⟨f.cname.text, f.type.text, f.params.map Param.parameter⟩

/-- The function as it is declared, with what its doc block says. -/
def entry (f : FunctionItem) : FunctionEntry where
  name := f.name
  cname := f.cname.text
  kind := .ofDoc f.doc.kind
  returnType := f.type.text
  params := f.params.map fun p => ApiModule.documentParam f.doc p.parameter
  doc := f.doc.fields

@[simp] theorem owner_entry (f : FunctionItem) : f.entry.name.owner = f.name.owner := rfl

@[simp] theorem cname_entry (f : FunctionItem) : f.entry.cname = f.cname.text := rfl

end FunctionItem

/-- The functions of a class, in order. -/
def owned (owner : Text) (fs : List FunctionItem) : List FunctionEntry :=
  (fs.filter (·.name.owner = some owner)).map FunctionItem.entry

/-- The last function of a kind. -/
def last? (kind : FunctionKind) (fs : List FunctionEntry) : Option FunctionEntry :=
  (fs.filter (·.kind = kind)).getLast?

namespace TypeItem

def cname (t : TypeItem) : Text := t.name.text ++ "_t".toList

/-- The class of a type when some functions are placed. -/
def entry (fs : List FunctionItem) (t : TypeItem) : ClassEntry where
  cname := t.cname
  doc := t.doc.fields
  constructor := last? .constructor (owned t.name.text fs)
  destructor := last? .destructor (owned t.name.text fs)
  initializers := (owned t.name.text fs).filter (·.kind = .initializer)
  methods := (owned t.name.text fs).filter (·.kind ∈ [.getter, .setter, .method])

end TypeItem

/-- What a module holds when some functions of a header are placed. -/
structure Placed (o : ScanOptions) (name : Text) (ts : List TypeItem) (fs : List FunctionItem)
    (m : ApiModule) : Prop where
  name : m.name = name
  enums : m.enums = []
  types : m.types.entries = ts.map fun t => (o.typeKey t.name.text, t.entry fs)
  functions : m.functions = (fs.filter (·.name.owner = none)).map FunctionItem.entry
  delegates : m.delegates = ∅

/-! ## Reports -/

namespace FunctionItem

/-- Whether a parameter of a name is declared. -/
def declares (f : FunctionItem) (name : Text) : Bool :=
  f.params.any fun p => p.parameter.name? = some name

/-- A report for each documented parameter that is not declared. -/
def unknownParams (f : FunctionItem) : List Diagnostic :=
  (f.doc.params.filter fun d => !f.declares d.name).map fun d =>
    .unknownParameter f.cname.text d.name

/-- A report if the function takes the place of an earlier one. -/
def replaced (earlier : List FunctionItem) (f : FunctionItem) : List Diagnostic :=
  match f.name.owner, f.entry.kind with
  | some owner, .constructor =>
    (last? .constructor (owned owner earlier)).toList.map fun previous =>
      .duplicateConstructor (owner ++ "_t".toList) previous.cname f.cname.text
  | some owner, .destructor =>
    (last? .destructor (owned owner earlier)).toList.map fun previous =>
      .duplicateDestructor (owner ++ "_t".toList) previous.cname f.cname.text
  | _, _ => []

def reports (earlier : List FunctionItem) (f : FunctionItem) : List Diagnostic :=
  f.unknownParams ++ f.replaced earlier

end FunctionItem

/-! ## Types -/

variable {o : ScanOptions} {name : Text} {index : DocIndex} {items : List Item} {m : ApiModule}
  {ts done : List TypeItem} {fs : List FunctionItem}

theorem withoutSuffix_cname (t : TypeItem) : withoutSuffix t.cname = t.name.text :=
  withoutSuffix_append t.name.text

theorem addType_cname (hm : Placed o name done [] m) (hindex : Indexed index items) {t : TypeItem}
    (ht : .type t ∈ items)
    (hkey : o.typeKey t.name.text ∉ done.map fun t => o.typeKey t.name.text) :
    ∃ m' notes, ApiModule.addType o index m t.cname = ⟨.ok m', [], notes⟩ ∧
      Placed o name (done ++ [t]) [] m' := by
  obtain ⟨offset, hget⟩ := hindex.get _ ht
  have hkeys : o.typeKey t.name.text ∉ m.types.keys := by
    rw [OrderedMap.keys, hm.types, List.map_map]
    exact hkey
  rw [ApiModule.addType, ApiModule.registerType, withoutSuffix_cname,
    show index.get? t.name.text = _ from hget]
  refine ⟨_, _, rfl, hm.name, hm.enums, ?_, hm.functions, hm.delegates⟩
  rw [OrderedMap.entries_insert_of_notMem hkeys, hm.types, List.map_append]
  rfl

/-! ## Functions -/

variable {f : FunctionItem} {owner : Text} {t : TypeItem}

theorem owned_concat_of_eq (h : f.name.owner = some owner) (fs : List FunctionItem) :
    owned owner (fs ++ [f]) = owned owner fs ++ [f.entry] := by
  simp [owned, h]

theorem owned_concat_of_ne (h : f.name.owner ≠ some owner) (fs : List FunctionItem) :
    owned owner (fs ++ [f]) = owned owner fs := by
  simp [owned, h]

theorem entry_concat_of_ne (h : f.name.owner ≠ some t.name.text) (fs : List FunctionItem) :
    t.entry (fs ++ [f]) = t.entry fs := by
  rw [TypeItem.entry, owned_concat_of_ne h, TypeItem.entry]

/-- A class gets one more function. -/
theorem attach_entry (h : f.name.owner = some t.name.text) (fs : List FunctionItem) :
    ApiModule.attach (t.entry fs) f.entry = ⟨.ok (t.entry (fs ++ [f])), f.replaced fs, []⟩ := by
  rw [ApiModule.attach, FunctionItem.replaced, h]
  cases hkind : f.entry.kind <;>
    simp [TypeItem.entry, owned_concat_of_eq h, last?, hkind, Scan.report, TypeItem.cname]

theorem unknownParams_signature (f : FunctionItem) :
    ApiModule.unknownParams f.signature f.doc = f.unknownParams := by
  have hdeclares : ∀ name, some name ∉ f.signature.params.map Parameter.name? ↔
      f.declares name = false := fun name => by
    simp [FunctionItem.signature, FunctionItem.declares]
  rw [ApiModule.unknownParams, FunctionItem.unknownParams]
  refine congrArg _ (List.filter_congr fun d _ => ?_)
  rw [Bool.eq_iff_iff, decide_eq_true_eq, hdeclares, Bool.not_eq_true']

theorem documentFunction_signature (f : FunctionItem) (offset : Nat) :
    ApiModule.documentFunction f.signature ⟨offset, f.name, f.doc⟩ = f.entry := by
  rw [ApiModule.documentFunction, FunctionItem.entry, FunctionItem.signature, List.map_map]
  rfl

/-- A free function goes to the end of the functions. -/
theorem place_free (hm : Placed o name ts fs m) (h : f.name.owner = none) :
    ∃ m' notes, ApiModule.place o m f.entry = ⟨.ok m', f.replaced fs, notes⟩ ∧
      Placed o name ts (fs ++ [f]) m' := by
  have hreplaced : f.replaced fs = [] := by
    rw [FunctionItem.replaced, h]
  refine ⟨{ m with functions := m.functions ++ [f.entry] }, [], ?_, hm.name, hm.enums, ?_, ?_,
    hm.delegates⟩
  · rw [ApiModule.place, f.owner_entry, h, hreplaced]
    rfl
  · rw [hm.types]
    exact List.map_congr_left fun t _ => by rw [entry_concat_of_ne (by simp [h])]
  · rw [List.filter_append, List.map_append, ← hm.functions]
    simp [h]

/-- A function of a class goes to that class, which keeps its place. -/
theorem place_owned (hm : Placed o name ts fs m)
    (hkeys : (ts.map fun t => o.typeKey t.name.text).Nodup) (ht : t ∈ ts)
    (h : f.name.owner = some t.name.text) :
    ∃ m' notes, ApiModule.place o m f.entry = ⟨.ok m', f.replaced fs, notes⟩ ∧
      Placed o name ts (fs ++ [f]) m' := by
  have hmem : (o.typeKey t.name.text, t.entry fs) ∈ m.types.entries :=
    hm.types ▸ List.mem_map_of_mem ht
  have hreserved : f.entry.name.name ≠ ApiModule.reservedMethod := f.notReserved (by rw [h]; rfl)
  refine ⟨{ m with types := m.types.insert (o.typeKey t.name.text) (t.entry (fs ++ [f])) }, [], ?_,
    hm.name, hm.enums, ?_, ?_, hm.delegates⟩
  · rw [ApiModule.place, f.owner_entry, h]
    simp only [OrderedMap.get?_of_mem hmem, if_neg hreserved, attach_entry h, Scan.bind_ok]
    simp
  · rw [OrderedMap.entries_insert_of_mem (List.mem_map_of_mem hmem), hm.types, List.map_map]
    refine List.map_congr_left fun t' ht' => ?_
    by_cases hkey : o.typeKey t'.name.text = o.typeKey t.name.text
    · obtain rfl := List.inj_on_of_nodup_map hkeys ht' ht hkey
      exact if_pos rfl
    · have hne : f.name.owner ≠ some t'.name.text := fun h' =>
        hkey (congrArg o.typeKey (Option.some.inj (h'.symm.trans h)))
      rw [entry_concat_of_ne hne]
      exact if_neg hkey
  · rw [hm.functions]
    simp [h]

theorem addFunction_signature (hm : Placed o name ts fs m) (hindex : Indexed index items)
    (hkeys : (ts.map fun t => o.typeKey t.name.text).Nodup) (hf : .function f ∈ items)
    (howner : ∀ owner ∈ f.name.owner, ∃ t ∈ ts, t.name.text = owner) :
    ∃ m' notes, ApiModule.addFunction o index m f.signature = ⟨.ok m', f.reports fs, notes⟩ ∧
      Placed o name ts (fs ++ [f]) m' := by
  obtain ⟨offset, hget⟩ := hindex.get _ hf
  have hplace : ∃ m' notes, ApiModule.place o m f.entry = ⟨.ok m', f.replaced fs, notes⟩ ∧
      Placed o name ts (fs ++ [f]) m' := by
    cases h : f.name.owner with
    | none => exact place_free hm h
    | some owner =>
      obtain ⟨t, ht, rfl⟩ := howner owner h
      exact place_owned hm hkeys ht h
  obtain ⟨m', notes, hplace, hm'⟩ := hplace
  refine ⟨m', notes, ?_, hm'⟩
  rw [ApiModule.addFunction, show index.get? f.signature.name = _ from hget]
  change (do
    Scan.report (ApiModule.unknownParams f.signature f.doc)
    ApiModule.place o m (ApiModule.documentFunction f.signature ⟨offset, f.name, f.doc⟩)) = _
  rw [unknownParams_signature, documentFunction_signature, hplace]
  rfl

end HeaderApi.Header
