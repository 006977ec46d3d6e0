import HeaderApi.Proofs.Header.Placement

/-!
# Scanning a documented header

A header that was written from documented declarations is scanned into a module that holds them all:
each class with its functions, and the free functions, in order and with their documentation.
-/

namespace HeaderApi.Header

open Grammar Text

variable {o : ScanOptions} {name : Text} {items : List Item}

/-- The symbols of a header do not clash, and the classes of its functions are declared. -/
structure WellFormed (o : ScanOptions) (items : List Item) : Prop where
  keys : (items.map Item.key).Nodup
  owners : ∀ f ∈ functions items, ∀ owner ∈ f.name.owner, ∃ t ∈ types items, t.name.text = owner
  /-- Leaving out a prefix does not make the names of two types the same. -/
  typeKeys : o.libPrefix ≠ none → ((types items).map fun t => o.typeKey t.name.text).Nodup

/-- Only parameters that are declared are documented, and no class has two constructors or two
destructors. -/
structure Clean (items : List Item) : Prop where
  params : ∀ f ∈ functions items, ∀ d ∈ f.doc.params, f.declares d.name = true
  single : (functions items).Pairwise fun f g => f.name.owner ≠ none →
    f.name.owner = g.name.owner → f.entry.kind = g.entry.kind →
      f.entry.kind ∉ [.constructor, .destructor]

/-! ## Declarations -/

theorem mem_types {t : TypeItem} : t ∈ types items ↔ .type t ∈ items := by
  rw [types, List.mem_filterMap]
  constructor
  · rintro ⟨i, hi, h⟩
    cases i with
    | type t' =>
      obtain rfl := Option.some.inj h
      exact hi
    | function f => cases h
  · exact fun h => ⟨_, h, rfl⟩

theorem mem_functions {f : FunctionItem} : f ∈ functions items ↔ .function f ∈ items := by
  rw [functions, List.mem_filterMap]
  constructor
  · rintro ⟨i, hi, h⟩
    cases i with
    | type t => cases h
    | function f' =>
      obtain rfl := Option.some.inj h
      exact hi
  · exact fun h => ⟨_, h, rfl⟩

/-- What the code of the header declares. -/
def declared (items : List Item) : Declarations where
  enums := []
  types := (types items).map TypeItem.cname
  functions := (functions items).map FunctionItem.signature
  delegates := []

theorem nodup_types (hkeys : (items.map Item.key).Nodup) :
    ((types items).map fun t => t.name.text).Nodup := by
  refine hkeys.sublist ?_
  clear hkeys
  induction items with
  | nil => exact .slnil
  | cons i items ih =>
    cases i with
    | type t => exact ih.cons_cons _
    | function f => exact ih.cons _

theorem eraseDups_eq_self {l : List Text} (h : l.Nodup) : l.eraseDups = l := by
  induction l with
  | nil => rfl
  | cons t l ih =>
    rw [List.nodup_cons] at h
    have hrest : l.filter (fun s => !s == t) = l := by
      rw [List.filter_eq_self]
      rintro s hs
      have hne : s ≠ t := by
        rintro rfl
        exact h.1 hs
      simpa using hne
    rw [List.eraseDups_cons, hrest, ih h.2]

theorem ofCode_decls (hkeys : (items.map Item.key).Nodup) :
    Declarations.ofCode (codeText (items.map Item.decl)) = .ok (declared items) := by
  have hread : ∀ {α β : Type} (f : Decl → Option β) (select : Item → Option α) (g : α → β),
      (∀ i : Item, f i.decl = (select i).map g) →
        (items.map Item.decl).filterMap f = (items.filterMap select).map g := by
    intro α β f select g h
    rw [List.filterMap_map, List.map_filterMap]
    exact List.filterMap_congr fun i _ => h i
  have htypes : (items.map Item.decl).filterMap Decl.typeName? = (types items).map TypeItem.cname :=
    hread _ Item.type? _ fun i => by cases i <;> rfl
  have hfunctions : (items.map Item.decl).filterMap Decl.prototype? =
      (functions items).map FunctionItem.signature :=
    hread _ Item.function? _ fun i => by cases i <;> rfl
  have henums : (items.map Item.decl).filterMap Decl.enum? = [] := by
    rw [List.filterMap_map, List.filterMap_eq_nil_iff]
    exact fun i _ => by cases i <;> rfl
  have hdelegates : (items.map Item.decl).filterMap Decl.delegate? = [] := by
    rw [List.filterMap_map, List.filterMap_eq_nil_iff]
    exact fun i _ => by cases i <;> rfl
  have hnodup : ((types items).map TypeItem.cname).Nodup := by
    have hnames := (nodup_types hkeys).map (List.append_left_injective "_t".toList)
    rwa [List.map_map] at hnames
  rw [Declarations.ofCode, prototypes_codeText, delegates_codeText, all_codeText, names_codeText,
    htypes, hfunctions, henums, hdelegates, eraseDups_eq_self hnodup]
  rfl

/-- Whatever is documented is declared. -/
theorem key_mem_symbols {i : Item} (hi : i ∈ items) : i.key ∈ (declared items).symbols := by
  simp only [Declarations.symbols, declared, List.mem_append]
  cases i with
  | type t =>
    refine .inl (.inl (.inr ?_))
    rw [List.map_map]
    exact List.mem_map.2 ⟨t, mem_types.2 hi, withoutSuffix_cname t⟩
  | function f =>
    refine .inl (.inr ?_)
    rw [List.map_map]
    exact List.mem_map.2 ⟨f, mem_functions.2 hi, rfl⟩

/-! ## Reports -/

theorem Clean.reports_eq_nil (h : Clean items) :
    Scan.reportsFrom FunctionItem.reports [] (functions items) = [] := by
  refine Scan.reportsFrom_eq_nil fun before f after hfunctions => ?_
  rw [List.nil_append] at hfunctions
  have hparams : f.unknownParams = [] := by
    rw [FunctionItem.unknownParams, List.map_eq_nil_iff, List.filter_eq_nil_iff]
    intro d hd
    simpa using h.params f (by simp [hfunctions]) d hd
  have hlast : ∀ {kind owner}, f.name.owner = some owner → f.entry.kind = kind →
      kind ∈ [FunctionKind.constructor, .destructor] → last? kind (owned owner before) = none := by
    intro kind owner howner hf hkind
    rw [last?, List.getLast?_eq_none_iff, List.filter_eq_nil_iff]
    intro e he hkind'
    obtain ⟨g, hg, rfl⟩ := List.mem_map.1 he
    obtain ⟨hbefore, hgowner⟩ := List.mem_filter.1 hg
    have hgowner : g.name.owner = some owner := by simpa using hgowner
    have hgkind : g.entry.kind = kind := by simpa using hkind'
    have hpairs := h.single
    rw [hfunctions, List.pairwise_append] at hpairs
    exact hpairs.2.2 g hbefore f List.mem_cons_self (by simp [hgowner]) (hgowner.trans howner.symm)
      (hgkind.trans hf.symm) (hgkind ▸ hkind)
  have hreplaced : f.replaced before = [] := by
    rw [FunctionItem.replaced]
    split
    next owner howner hkind => rw [hlast howner hkind (by decide)]; rfl
    next owner howner hkind => rw [hlast howner hkind (by decide)]; rfl
    next => rfl
  rw [FunctionItem.reports, hparams, hreplaced]
  rfl

/-! ## The round trip -/

theorem WellFormed.nodup_typeKeys (h : WellFormed o items) :
    ((types items).map fun t => o.typeKey t.name.text).Nodup := by
  by_cases hprefix : o.libPrefix = none
  · have hkey : ∀ n, o.typeKey n = n := fun n => by
      rw [ScanOptions.typeKey, hprefix]
      rfl
    simpa only [hkey] using nodup_types h.keys
  · exact h.typeKeys hprefix

theorem exists_types {index : DocIndex} {m : ApiModule} (h : WellFormed o items)
    (hindex : Indexed index items) (hm : Placed o name [] [] m) : ∃ m' notes,
      (declared items).types.foldlM (ApiModule.addType o index) m = ⟨.ok m', [], notes⟩ ∧
        Placed o name (types items) [] m' := by
  have hcnames : List.Forall₂ (fun cname t => cname = TypeItem.cname t) (declared items).types
      (types items) := List.forall₂_map_left_iff.2 (List.forall₂_same.2 fun _ _ => rfl)
  obtain ⟨m', notes, hfold, hm'⟩ := Scan.exists_foldlM (ApiModule.addType o index) (fun _ _ => [])
    (fun done m => Placed o name done [] m) hcnames
    (fun before cname t after m htypes hcname hm => by
      have hkeys := h.nodup_typeKeys
      rw [htypes, List.map_append, List.nodup_append] at hkeys
      subst hcname
      exact addType_cname hm hindex (mem_types.1 (by simp [htypes])) fun hkey =>
        hkeys.2.2 _ hkey _ List.mem_cons_self rfl) hm
  rw [Scan.reportsFrom_eq_nil fun _ _ _ _ => rfl] at hfold
  exact ⟨m', notes, hfold, hm'⟩

theorem exists_functions {index : DocIndex} {m : ApiModule} (h : WellFormed o items)
    (hindex : Indexed index items) (hm : Placed o name (types items) [] m) : ∃ m' notes,
      (declared items).functions.foldlM (ApiModule.addFunction o index) m =
        ⟨.ok m', Scan.reportsFrom FunctionItem.reports [] (functions items), notes⟩ ∧
        Placed o name (types items) (functions items) m' := by
  have hsignatures : List.Forall₂ (fun s f => s = FunctionItem.signature f)
      (declared items).functions (functions items) :=
    List.forall₂_map_left_iff.2 (List.forall₂_same.2 fun _ _ => rfl)
  refine Scan.exists_foldlM (ApiModule.addFunction o index) FunctionItem.reports
    (fun done m => Placed o name (types items) done m) hsignatures
    (fun before s f after m hfunctions hs hm => ?_) hm
  have hf : f ∈ functions items := by simp [hfunctions]
  subst hs
  exact addFunction_signature hm hindex h.nodup_typeKeys (mem_functions.1 hf) (h.owners f hf)

/-- A documented header is scanned into what it documents. -/
theorem ofText_text (name : Text) (h : WellFormed o items) :
    (∃ m, (ApiModule.ofText o name (text items)).result = .ok m ∧
      Placed o name (types items) (functions items) m) ∧
    (ApiModule.ofText o name (text items)).diagnostics =
      Scan.reportsFrom FunctionItem.reports [] (functions items) ∧
    (Clean items → (ApiModule.ofText o name (text items)).diagnostics = []) := by
  obtain ⟨index, notes₁, hofText, hindex⟩ := exists_index h.keys
  obtain ⟨m₁, notes₂, htypes, hm₁⟩ :=
    exists_types (m := { name }) h hindex ⟨rfl, rfl, rfl, rfl, rfl⟩
  obtain ⟨m, notes₃, hfunctions, hm⟩ := exists_functions h hindex hm₁
  have hunused : index.unused (declared items).symbols = [] :=
    hindex.unused_eq_nil fun _ => key_mem_symbols
  have hscan : ∃ notes, ApiModule.ofText o name (text items) =
      ⟨.ok m, Scan.reportsFrom FunctionItem.reports [] (functions items), notes⟩ := by
    have hdelegates : (declared items).delegates.foldlM (ApiModule.addDelegate index) m = pure m :=
      rfl
    have henums : (declared items).enums = [] := rfl
    rw [ApiModule.ofText_eq, hofText, codeOf_text, ofCode_decls h.keys]
    simp only [ApiModule.addAll, Scan.ofExcept, Scan.bind_ok, henums, htypes, hfunctions, hdelegates, hunused,
      Scan.pure_def, Scan.report, Scan.note, List.append_nil, List.nil_append]
    exact ⟨_, rfl⟩
  obtain ⟨notes, hscan⟩ := hscan
  rw [hscan]
  exact ⟨⟨m, rfl, hm⟩, rfl, Clean.reports_eq_nil⟩

/-! ## A header of three declarations -/

/-- A class with a constructor, declared in front of it, and a free function. -/
def addressItems : List Item :=
  let char : Name := ⟨⟨"char".toList, by decide, by decide⟩, by decide⟩
  let text : ParamType := ⟨[.const, .name char], by decide, 1⟩
  [.function
    { type := ⟨false, ⟨⟨"ta_iri_t".toList, by decide, by decide⟩, by decide⟩, 1⟩
      cname := ⟨⟨"ta_iri_new".toList, by decide, by decide⟩, by decide⟩
      params := [.named text ⟨"value".toList, by decide, by decide⟩]
      name := ⟨"new".toList, some "ta_iri".toList⟩
      doc :=
        { name := some ⟨"new".toList, some "ta_iri".toList⟩
          kind := some .constructor
          params := [⟨"value".toList, [], "The address.".toList⟩] }
      faithful := ⟨⟨0, by decide +kernel⟩, by decide +kernel⟩
      named := rfl
      symbol := by decide
      notReserved := by decide },
    .type
    { tag := ⟨⟨"_ta_iri".toList, by decide, by decide⟩, by decide⟩
      name := ⟨⟨"ta_iri".toList, by decide, by decide⟩, by decide⟩
      doc := { description := "An address.".toList, name := some (.bare "ta_iri".toList) }
      faithful := ⟨⟨0, by decide +kernel⟩, by decide +kernel⟩
      named := rfl },
    .function
    { type := ⟨false, ⟨⟨"void".toList, by decide, by decide⟩, by decide⟩, 0⟩
      cname := ⟨⟨"ta_log".toList, by decide, by decide⟩, by decide⟩
      params := [.named text ⟨"format".toList, by decide, by decide⟩, .variadic]
      name := .bare "ta_log".toList
      doc := { name := some (.bare "ta_log".toList) }
      faithful := ⟨⟨0, by decide +kernel⟩, by decide +kernel⟩
      named := rfl
      symbol := by decide
      notReserved := by decide }]

/-- With `ta_` left out of the keys, the class is `iri`, and it has got its constructor. -/
theorem ofText_text_addressItems :
    WellFormed ⟨some "ta_".toList⟩ addressItems ∧ Clean addressItems ∧
    (ApiModule.ofText ⟨some "ta_".toList⟩ "iri".toList (text addressItems)).diagnostics = [] ∧
    ∃ m, (ApiModule.ofText ⟨some "ta_".toList⟩ "iri".toList (text addressItems)).result = .ok m ∧
      m.types.keys = ["iri".toList] ∧
      m.types.values.map (·.constructor.map (·.cname)) = [some "ta_iri_new".toList] ∧
      m.functions.map (·.cname) = ["ta_log".toList] := by
  have hformed : WellFormed ⟨some "ta_".toList⟩ addressItems :=
    ⟨by decide, by decide, fun _ => by decide⟩
  have hclean : Clean addressItems := ⟨by decide, by decide⟩
  obtain ⟨⟨m, hresult, hm⟩, -, hdiagnostics⟩ := ofText_text "iri".toList hformed
  refine ⟨hformed, hclean, hdiagnostics hclean, m, hresult, ?_, ?_, ?_⟩
  · rw [OrderedMap.keys, hm.types]
    decide
  · rw [OrderedMap.values, hm.types]
    decide
  · rw [hm.functions]
    decide

end HeaderApi.Header
