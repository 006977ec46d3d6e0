import HeaderApi.Proofs.Declaration.StructType
import HeaderApi.Proofs.Module.Claims
import HeaderApi.Proofs.Module.Documentation

/-!
# The steps of a scan

What one declaration does to a module, with all that is reported about it: `FunctionStep` and
`DelegateStep` list what a function and a delegate can do.  A scan that gives a module has
registered the struct types and then taken these steps one after the other (`exists_stages`).
-/

namespace HeaderApi

/-- A report about a declaration and its documentation.  All others are about comments, which have
a place, or about several headers. -/
def Diagnostic.isAboutCode : Diagnostic → Bool
  | .undocumentedFunction _ | .undocumentedDelegate _ | .unknownParameter _ _
  | .duplicateConstructor _ _ _ | .duplicateDestructor _ _ _ => true
  | _ => false

/-- The class with one more function. -/
def ClassEntry.attached (owner : ClassEntry) (f : FunctionEntry) : ClassEntry :=
  match f.kind with
  | .initializer => { owner with initializers := owner.initializers ++ [f] }
  | .constructor => { owner with constructor := some f }
  | .destructor => { owner with destructor := some f }
  | .getter | .setter | .method => { owner with methods := owner.methods ++ [f] }

@[simp] theorem ClassEntry.cname_attached (owner : ClassEntry) (f : FunctionEntry) :
    (owner.attached f).cname = owner.cname := by
  unfold attached
  cases f.kind <;> rfl

/-- A report if a class has to give up a function for another one. -/
def ClassEntry.replaced (owner : ClassEntry) (f : FunctionEntry) : List Diagnostic :=
  match f.kind with
  | .constructor => owner.constructor.toList.map fun previous =>
      .duplicateConstructor owner.cname previous.cname f.cname
  | .destructor => owner.destructor.toList.map fun previous =>
      .duplicateDestructor owner.cname previous.cname f.cname
  | _ => []

theorem ClassEntry.isAboutCode_of_mem_replaced {owner : ClassEntry} {f : FunctionEntry}
    {r : Diagnostic} (h : r ∈ owner.replaced f) : r.isAboutCode = true := by
  unfold replaced at h
  cases hkind : f.kind with
  | constructor | destructor =>
    rw [hkind] at h
    obtain ⟨previous, -, rfl⟩ := List.mem_map.1 h
    rfl
  | initializer | getter | setter | method =>
    rw [hkind] at h
    cases h

theorem ClassEntry.filterMap_replaced_eq_nil {β : Type} {f : Diagnostic → Option β}
    (hconstructor : ∀ owner previous current,
      f (.duplicateConstructor owner previous current) = none)
    (hdestructor : ∀ owner previous current,
      f (.duplicateDestructor owner previous current) = none)
    (owner : ClassEntry) (g : FunctionEntry) : (owner.replaced g).filterMap f = [] := by
  rw [replaced]
  cases g.kind with
  | constructor => simp [List.filterMap_map, hconstructor]
  | destructor => simp [List.filterMap_map, hdestructor]
  | initializer | getter | setter | method => rfl

theorem Declarations.ofCode_eq_ok_iff {code : Text} {declared : Declarations} :
    ofCode code = .ok declared ↔ declared.enums = Enum.all code ∧
      declared.types = StructType.names code ∧
      Signature.prototypes code = .ok declared.functions ∧
      Signature.delegates code = .ok declared.delegates := by
  obtain ⟨enums, types, functions, delegates⟩ := declared
  rw [ofCode]
  cases Signature.prototypes code <;> cases Signature.delegates code <;>
    simp [bind, Except.bind, pure, Except.pure, eq_comm]

theorem Declarations.ofCode_eq_error_iff {code : Text} {e : ScanError} :
    ofCode code = .error e ↔ Signature.prototypes code = .error e ∨
      ∃ functions, Signature.prototypes code = .ok functions ∧
        Signature.delegates code = .error e := by
  rw [ofCode]
  cases Signature.prototypes code <;> cases Signature.delegates code <;>
    simp [bind, Except.bind, pure, Except.pure]

namespace ApiModule

variable {o : ScanOptions} {index : DocIndex} {name t : Text} {m m' : ApiModule} {s : Signature}

theorem attach_eq (owner : ClassEntry) (f : FunctionEntry) :
    attach owner f = ⟨.ok (owner.attached f), owner.replaced f, []⟩ := by
  unfold attach ClassEntry.attached ClassEntry.replaced
  cases f.kind <;> simp [Scan.report]

/-! ## Functions -/

/-- What a function of the code can do to a module, and what is reported. -/
inductive FunctionStep (o : ScanOptions) (index : DocIndex) (m : ApiModule) (s : Signature) :
    ApiModule → List Diagnostic → Prop where
  | undocumented (hdoc : index.get? s.name = none) :
    FunctionStep o index m s m [.undocumentedFunction s.name]
  | free {d : IndexedDoc} (hdoc : index.get? s.name = some d) (howner : d.name.owner = none) :
    FunctionStep o index m s { m with functions := m.functions ++ [documentFunction s d] }
      (unknownParams s d.doc)
  | reserved {d : IndexedDoc} {className : Text} {owner : ClassEntry}
    (hdoc : index.get? s.name = some d) (howner : d.name.owner = some className)
    (hclass : m.types.get? (o.typeKey className) = some owner)
    (hname : d.name.name = reservedMethod) :
    FunctionStep o index m s m (unknownParams s d.doc)
  | attached {d : IndexedDoc} {className : Text} {owner : ClassEntry}
    (hdoc : index.get? s.name = some d) (howner : d.name.owner = some className)
    (hclass : m.types.get? (o.typeKey className) = some owner)
    (hname : d.name.name ≠ reservedMethod) :
    FunctionStep o index m s
      { m with
        types := m.types.insert (o.typeKey className) (owner.attached (documentFunction s d)) }
      (unknownParams s d.doc ++ owner.replaced (documentFunction s d))

theorem functionStep_of_ok (h : (addFunction o index m s).result = .ok m') :
    FunctionStep o index m s m' (addFunction o index m s).diagnostics := by
  unfold addFunction registerFunction at h ⊢
  cases hdoc : index.get? s.name with
  | none =>
    simp only [hdoc, Scan.report, Scan.bind_ok, Scan.pure_def, List.append_nil] at h ⊢
    cases h
    exact .undocumented hdoc
  | some d =>
    simp only [hdoc, Scan.report, Scan.bind_ok] at h ⊢
    unfold place at h ⊢
    have hname : (documentFunction s d).name = d.name := rfl
    cases howner : d.name.owner with
    | none =>
      simp only [hname, howner, Scan.pure_def, List.append_nil] at h ⊢
      cases h
      exact .free hdoc howner
    | some className =>
      simp only [hname, howner] at h ⊢
      cases hclass : m.types.get? (o.typeKey className) with
      | none =>
        simp only [hclass] at h
        cases h
      | some owner =>
        simp only [hclass, attach_eq, Scan.bind_ok, Scan.note, Scan.pure_def] at h ⊢
        by_cases hreserved : d.name.name = reservedMethod
        · simp only [if_pos hreserved] at h ⊢
          cases h
          simpa using .reserved hdoc howner hclass hreserved
        · simp only [if_neg hreserved] at h ⊢
          cases h
          simpa using .attached hdoc howner hclass hreserved

/-! ## Delegates -/

/-- The entry of a delegate with its documentation. -/
def documentDelegate (s : Signature) (d : IndexedDoc) : DelegateEntry where
  name := withoutSuffix s.name
  cname := s.name
  returnType := s.returnType
  params := s.params.map (documentParam d.doc)
  doc := d.doc.fields

/-- What a delegate of the code can do to a module, and what is reported. -/
inductive DelegateStep (index : DocIndex) (m : ApiModule) (s : Signature) :
    ApiModule → List Diagnostic → Prop where
  | undocumented (hdoc : index.get? (withoutSuffix s.name) = none) :
    DelegateStep index m s m
      [.undocumentedDelegate (m.name ++ ".".toList ++ withoutSuffix s.name)]
  | documented {d : IndexedDoc} (hdoc : index.get? (withoutSuffix s.name) = some d) :
    DelegateStep index m s
      { m with delegates := m.delegates.insert (withoutSuffix s.name) (documentDelegate s d) }
      (unknownParams s d.doc)

theorem delegateStep_of_ok (h : (addDelegate index m s).result = .ok m') :
    DelegateStep index m s m' (addDelegate index m s).diagnostics := by
  unfold addDelegate registerDelegate at h ⊢
  cases hdoc : index.get? (withoutSuffix s.name) with
  | none =>
    simp only [hdoc, Scan.report, Scan.bind_ok, Scan.pure_def, List.append_nil] at h ⊢
    cases h
    exact .undocumented hdoc
  | some d =>
    simp only [hdoc, Scan.report, Scan.bind_ok, Scan.pure_def, List.append_nil] at h ⊢
    cases h
    exact .documented hdoc

/-! ## Whole scans -/

/-- The stages of a scan that gives the module `m`. -/
structure Stages (o : ScanOptions) (name t : Text) (index : DocIndex) (declared : Declarations)
    (typed placed m : ApiModule) : Prop where
  documented : ∀ symbol, index.get? symbol = documentation? t symbol
  code : Declarations.ofCode (codeOf t) = .ok declared
  types : (declared.types.foldlM (addType o index) { name, enums := declared.enums }).result =
    .ok typed
  functions : (declared.functions.foldlM (addFunction o index) typed).result = .ok placed
  delegates : (declared.delegates.foldlM (addDelegate index) placed).result = .ok m
  diagnostics : (ofText o name t).diagnostics =
    (unclosedComments t).map .unterminatedComment ++ (docBlocks t).flatMap DocBlock.reports ++
      (declared.functions.foldlM (addFunction o index) typed).diagnostics ++
      (declared.delegates.foldlM (addDelegate index) placed).diagnostics ++
      index.unused declared.symbols

/-- Struct types are registered without a report. -/
theorem diagnostics_types (cnames : List Text) (m : ApiModule) :
    (cnames.foldlM (addType o index) m).diagnostics = [] := by
  induction cnames generalizing m with
  | nil => rfl
  | cons cname cnames ih =>
    rw [List.foldlM_cons, Scan.diagnostics_bind rfl, ih]
    rfl

theorem exists_stages (h : (ofText o name t).result = .ok m) :
    ∃ index declared typed placed, Stages o name t index declared typed placed m := by
  obtain ⟨index, notes, hindex, hdocumented⟩ := exists_index_ofText t
  simp only [ofText_eq, addAll, bind_assoc] at h
  obtain ⟨index', h₀, h⟩ := Scan.bind_ok_iff.1 h
  obtain rfl : index = index' := by simpa [hindex] using h₀
  obtain ⟨declared, hdeclared, h⟩ := Scan.bind_ok_iff.1 h
  obtain ⟨typed, htypes, h⟩ := Scan.bind_ok_iff.1 h
  obtain ⟨placed, hfunctions, h⟩ := Scan.bind_ok_iff.1 h
  obtain ⟨m', hdelegates, h⟩ := Scan.bind_ok_iff.1 h
  obtain rfl : m' = m := by simpa [Scan.report, Scan.note] using h
  refine ⟨index, declared, typed, placed, hdocumented, hdeclared, htypes, hfunctions, hdelegates,
    ?_⟩
  simp only [ofText_eq, addAll, bind_assoc]
  rw [Scan.diagnostics_bind h₀, Scan.diagnostics_bind hdeclared, Scan.diagnostics_bind htypes,
    Scan.diagnostics_bind hfunctions, Scan.diagnostics_bind hdelegates, diagnostics_types, hindex]
  simp [Scan.report, Scan.note, Scan.ofExcept]

/-! ## Reports -/

theorem isAboutCode_of_mem_unknownParams {d : IndexedDoc} {r : Diagnostic}
    (h : r ∈ unknownParams s d.doc) : r.isAboutCode = true := by
  obtain ⟨p, -, rfl⟩ := List.mem_map.1 h
  rfl

theorem filterMap_unknownParams_eq_nil {β : Type} {f : Diagnostic → Option β}
    (hf : ∀ symbol param, f (.unknownParameter symbol param) = none) (s : Signature)
    (doc : Docstring) : (unknownParams s doc).filterMap f = [] := by
  refine List.filterMap_eq_nil_iff.2 fun r hr => ?_
  obtain ⟨p, -, rfl⟩ := List.mem_map.1 hr
  exact hf s.name p.name

theorem isAboutCode_of_mem_place (m : ApiModule) (f : FunctionEntry) :
    ∀ r ∈ (place o m f).diagnostics, r.isAboutCode = true := by
  unfold place
  cases f.name.owner with
  | none => simp
  | some className =>
    dsimp only
    cases m.types.get? (o.typeKey className) with
    | none => simp [Scan.fail]
    | some owner =>
      dsimp only
      split
      · simp [Scan.note]
      · rw [attach_eq]
        apply Scan.forall_diagnostics_bind
        · exact fun _ => ClassEntry.isAboutCode_of_mem_replaced
        · simp

/-- What is reported about a function is about the code, also where the scan fails at it. -/
theorem isAboutCode_of_mem_addFunction (m : ApiModule) (s : Signature) :
    ∀ r ∈ (addFunction o index m s).diagnostics, r.isAboutCode = true := by
  unfold addFunction registerFunction
  cases index.get? s.name with
  | none =>
    apply Scan.forall_diagnostics_bind
    · simp [Scan.report, Diagnostic.isAboutCode]
    · simp
  | some d =>
    apply Scan.forall_diagnostics_bind
    · exact fun _ => isAboutCode_of_mem_unknownParams
    · exact fun _ => isAboutCode_of_mem_place m _

theorem isAboutCode_of_mem_addDelegate (m : ApiModule) (s : Signature) :
    ∀ r ∈ (addDelegate index m s).diagnostics, r.isAboutCode = true := by
  unfold addDelegate registerDelegate
  dsimp only
  cases index.get? (withoutSuffix s.name) with
  | none =>
    apply Scan.forall_diagnostics_bind
    · simp [Scan.report, Diagnostic.isAboutCode]
    · simp
  | some d =>
    apply Scan.forall_diagnostics_bind
    · exact fun _ => isAboutCode_of_mem_unknownParams
    · simp

/-- A report that is not about the code comes from the comments or from the index. -/
theorem Stages.mem_diagnostics_iff {declared : Declarations} {typed placed : ApiModule}
    {r : Diagnostic} (hstages : Stages o name t index declared typed placed m)
    (hr : r.isAboutCode = false) : r ∈ (ofText o name t).diagnostics ↔
      r ∈ (unclosedComments t).map .unterminatedComment ∨
        (∃ block ∈ docBlocks t, r ∈ block.reports) ∨ r ∈ index.unused declared.symbols := by
  have hfunctions : ∀ r ∈ (declared.functions.foldlM (addFunction o index) typed).diagnostics,
      r.isAboutCode = true :=
    Scan.forall_diagnostics_foldlM isAboutCode_of_mem_addFunction _ _
  have hdelegates : ∀ r ∈ (declared.delegates.foldlM (addDelegate index) placed).diagnostics,
      r.isAboutCode = true :=
    Scan.forall_diagnostics_foldlM isAboutCode_of_mem_addDelegate _ _
  have hfunctions' := mt (hfunctions r) (by simp [hr])
  have hdelegates' := mt (hdelegates r) (by simp [hr])
  rw [hstages.diagnostics]
  simp only [List.mem_append, hfunctions', hdelegates', or_false, List.mem_flatMap, or_assoc]

/-- What is read off reports without a place comes from the functions and from the delegates. -/
theorem Stages.filterMap_diagnostics {declared : Declarations} {typed placed : ApiModule}
    {β : Type} {f : Diagnostic → Option β}
    (hstages : Stages o name t index declared typed placed m)
    (hf : ∀ r, r.offset?.isSome → f r = none) :
    (ofText o name t).diagnostics.filterMap f =
      (declared.functions.foldlM (addFunction o index) typed).diagnostics.filterMap f ++
        (declared.delegates.foldlM (addDelegate index) placed).diagnostics.filterMap f := by
  have hunclosed : ((unclosedComments t).map Diagnostic.unterminatedComment).filterMap f = [] := by
    refine List.filterMap_eq_nil_iff.2 fun r hr => hf r ?_
    obtain ⟨offset, -, rfl⟩ := List.mem_map.1 hr
    rfl
  have hblocks : ((docBlocks t).flatMap DocBlock.reports).filterMap f = [] := by
    refine List.filterMap_eq_nil_iff.2 fun r hr => hf r ?_
    obtain ⟨block, -, hr⟩ := List.mem_flatMap.1 hr
    rw [offset?_of_mem_reports hr]
    rfl
  have hunused : (index.unused declared.symbols).filterMap f = [] := by
    refine List.filterMap_eq_nil_iff.2 fun r hr => hf r ?_
    obtain ⟨e, -, rfl⟩ := List.mem_map.1 hr
    rfl
  rw [hstages.diagnostics]
  simp only [List.filterMap_append, hunclosed, hblocks, hunused, List.nil_append, List.append_nil]

/-! ## A header whose functions take all the steps -/

/-- A class with two constructors and a reserved method, and two more functions, of which one is
documented. -/
def addressHeader : Text :=
  "/** @name: ta_iri::new @type: constructor */\n".toList ++
  "ta_iri_t *ta_iri_new (void);\n".toList ++
  "/** @name: ta_iri::copy @type: constructor */\n".toList ++
  "ta_iri_t *ta_iri_copy (void);\n".toList ++
  "/** @name: ta_iri::set_handler */\n".toList ++
  "void ta_iri_set_handler (void);\n".toList ++
  "int ta_debug (void);\n".toList ++
  "/** @name: ta_log */\n".toList ++
  "void ta_log (void);\n".toList ++
  "typedef struct _ta_iri ta_iri_t;\n".toList

theorem names_addressHeader : StructType.names (codeOf addressHeader) = ["ta_iri_t".toList] := by
  rw [StructType.names_of_notMem (by decide +kernel)]
  decide +kernel

/-- The class keeps its second constructor. -/
theorem exists_ofText_addressHeader :
    ∃ m, (ofText ⟨some "ta_".toList⟩ "iri".toList addressHeader).result = .ok m ∧
      m.types.keys = ["iri".toList] ∧
      m.types.values.map (·.constructor.map (·.cname)) = [some "ta_iri_copy".toList] ∧
      m.functions.map (·.cname) = ["ta_log".toList] := by
  have h : ∃ m ∈ (ofText ⟨some "ta_".toList⟩ "iri".toList addressHeader).result.toOption,
      m.types.keys = ["iri".toList] ∧
      m.types.values.map (·.constructor.map (·.cname)) = [some "ta_iri_copy".toList] ∧
      m.functions.map (·.cname) = ["ta_log".toList] := by
    rw [ofText, Declarations.ofCode, names_addressHeader]
    decide +kernel
  obtain ⟨m, hm, hsummary⟩ := h
  exact ⟨m, Scan.result_eq_ok_of_mem hm, hsummary⟩

theorem diagnostics_addressHeader :
    (ofText ⟨some "ta_".toList⟩ "iri".toList addressHeader).diagnostics =
      [.duplicateConstructor "ta_iri_t".toList "ta_iri_new".toList "ta_iri_copy".toList,
        .undocumentedFunction "ta_debug".toList] := by
  rw [ofText, Declarations.ofCode, names_addressHeader]
  decide +kernel

end ApiModule

end HeaderApi
