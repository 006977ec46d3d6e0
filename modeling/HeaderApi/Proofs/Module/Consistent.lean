import HeaderApi.Proofs.Module.Step
import HeaderApi.Proofs.OrderedMap

/-!
# Consistent modules

The names and the kind of an entry say where it stands in a module: free functions are called what
the code calls them, the functions of a class carry its name in front, and types and delegates are
found under keys made of their own names.  Each step of a scan keeps that, and so every scan gives a
consistent module.
-/

namespace HeaderApi

/-- A function of the class with a given key. -/
structure FunctionEntry.OfClass (o : ScanOptions) (key : Text) (f : FunctionEntry) : Prop where
  owner : ∃ className, f.name.owner = some className ∧ o.typeKey className = key ∧
    className ++ "_".toList ++ f.name.name = f.cname
  notReserved : f.name.name ≠ ApiModule.reservedMethod

/-- The class with a given key. -/
structure ClassEntry.Consistent (o : ScanOptions) (key : Text) (c : ClassEntry) : Prop where
  key_eq : key = o.typeKey (withoutSuffix c.cname)
  constructor : ∀ f ∈ c.constructor, f.OfClass o key ∧ f.kind = .constructor
  destructor : ∀ f ∈ c.destructor, f.OfClass o key ∧ f.kind = .destructor
  initializers : ∀ f ∈ c.initializers, f.OfClass o key ∧ f.kind = .initializer
  methods : ∀ f ∈ c.methods, f.OfClass o key ∧ f.kind ∈ [.getter, .setter, .method]

structure ApiModule.Consistent (o : ScanOptions) (m : ApiModule) : Prop where
  functions : ∀ f ∈ m.functions, f.name.owner = none ∧ f.name.name = f.cname
  types : ∀ e ∈ m.types.entries, e.2.Consistent o e.1
  delegates : ∀ e ∈ m.delegates.entries, e.1 = e.2.name ∧ e.1 = withoutSuffix e.2.cname

namespace ApiModule

variable {o : ScanOptions} {index : DocIndex} {name t cname key : Text} {m m' : ApiModule}
  {s : Signature} {d : IndexedDoc} {f : FunctionEntry} {c : ClassEntry} {ds : List Diagnostic}

/-! ## Entries -/

theorem name_eq_of_owner_none (hsymbol : d.name.symbol = s.name) (howner : d.name.owner = none) :
    (documentFunction s d).name.name = (documentFunction s d).cname := by
  obtain ⟨offset, ⟨name, owner⟩, doc⟩ := d
  obtain rfl : owner = none := howner
  exact hsymbol

theorem ofClass_documentFunction {className : Text} (hsymbol : d.name.symbol = s.name)
    (howner : d.name.owner = some className) (hname : d.name.name ≠ reservedMethod) :
    (documentFunction s d).OfClass o (o.typeKey className) := by
  obtain ⟨offset, ⟨name, owner⟩, doc⟩ := d
  obtain rfl : owner = some className := howner
  exact ⟨⟨className, rfl, rfl, hsymbol⟩, hname⟩

/-- A class takes a function of its own at the place of its kind. -/
theorem consistent_attached (hc : c.Consistent o key) (hf : f.OfClass o key) :
    (c.attached f).Consistent o key := by
  obtain ⟨hkey, hconstructor, hdestructor, hinitializers, hmethods⟩ := hc
  unfold ClassEntry.attached
  cases hkind : f.kind with
  | constructor =>
    refine ⟨hkey, fun g hg => ?_, hdestructor, hinitializers, hmethods⟩
    obtain rfl := Option.some.inj hg
    exact ⟨hf, hkind⟩
  | destructor =>
    refine ⟨hkey, hconstructor, fun g hg => ?_, hinitializers, hmethods⟩
    obtain rfl := Option.some.inj hg
    exact ⟨hf, hkind⟩
  | initializer =>
    refine ⟨hkey, hconstructor, hdestructor, ?_, hmethods⟩
    exact List.forall_mem_append.2 ⟨hinitializers, List.forall_mem_singleton.2 ⟨hf, hkind⟩⟩
  | getter | setter | method =>
    refine ⟨hkey, hconstructor, hdestructor, hinitializers, ?_⟩
    exact List.forall_mem_append.2
      ⟨hmethods, List.forall_mem_singleton.2 ⟨hf, by rw [hkind]; decide⟩⟩

/-! ## Steps -/

theorem Consistent.addType (hm : m.Consistent o) (h : (addType o index m cname).result = .ok m') :
    m'.Consistent o := by
  cases h
  refine ⟨hm.functions, OrderedMap.forall_entries_insert hm.types ?_, hm.delegates⟩
  exact ⟨rfl, by simp, by simp, by simp, by simp⟩

theorem Consistent.functionStep (hm : m.Consistent o)
    (hindex : ∀ symbol d, index.get? symbol = some d → d.name.symbol = symbol)
    (h : FunctionStep o index m s m' ds) : m'.Consistent o := by
  cases h with
  | undocumented => exact hm
  | reserved => exact hm
  | free hdoc howner =>
    refine ⟨List.forall_mem_append.2 ⟨hm.functions, List.forall_mem_singleton.2 ⟨howner, ?_⟩⟩,
      hm.types, hm.delegates⟩
    exact name_eq_of_owner_none (hindex _ _ hdoc) howner
  | attached hdoc howner hclass hname =>
    have hc := hm.types _ (OrderedMap.mem_of_get? hclass)
    have hf := ofClass_documentFunction (o := o) (hindex _ _ hdoc) howner hname
    exact ⟨hm.functions, OrderedMap.forall_entries_insert hm.types (consistent_attached hc hf),
      hm.delegates⟩

theorem Consistent.delegateStep (hm : m.Consistent o) (h : DelegateStep index m s m' ds) :
    m'.Consistent o := by
  cases h with
  | undocumented => exact hm
  | documented =>
    exact ⟨hm.functions, hm.types, OrderedMap.forall_entries_insert hm.delegates ⟨rfl, rfl⟩⟩

/-! ## Scans -/

/-- Every module that a scan gives is consistent. -/
theorem consistent_of_ofText (h : (ofText o name t).result = .ok m) : m.Consistent o := by
  obtain ⟨index, declared, typed, placed, hstages⟩ := exists_stages h
  have hindex : ∀ symbol d, index.get? symbol = some d → d.name.symbol = symbol :=
    fun symbol d hd => symbol_of_documentation? (hstages.documented symbol ▸ hd)
  have hempty : Consistent o { name, enums := declared.enums } := by
    refine ⟨by simp, fun e he => ?_, fun e he => ?_⟩ <;> cases he
  have htyped : typed.Consistent o :=
    Scan.foldlM_induction (fun _ m _ => m.Consistent o) hstages.types hempty
      fun _ _ _ _ _ hm h => hm.addType h
  have hplaced : placed.Consistent o :=
    Scan.foldlM_induction (fun _ m _ => m.Consistent o) hstages.functions htyped
      fun _ _ _ _ _ hm h => hm.functionStep hindex (functionStep_of_ok h)
  exact Scan.foldlM_induction (fun _ m _ => m.Consistent o) hstages.delegates hplaced
    fun _ _ _ _ _ hm h => hm.delegateStep (delegateStep_of_ok h)

/-- The class `iri` holds the last one of its constructors. -/
theorem consistent_of_ofText_addressHeader :
    ∃ m, (ofText ⟨some "ta_".toList⟩ "iri".toList addressHeader).result = .ok m ∧
      m.Consistent ⟨some "ta_".toList⟩ ∧ m.types.keys = ["iri".toList] ∧
      m.types.values.map (·.constructor.map (·.cname)) = [some "ta_iri_copy".toList] := by
  obtain ⟨m, hm, hkeys, hconstructors, -⟩ := exists_ofText_addressHeader
  exact ⟨m, hm, consistent_of_ofText hm, hkeys, hconstructors⟩

end ApiModule

end HeaderApi
