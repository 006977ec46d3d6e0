import HeaderApi.Proofs.Declaration.ParameterList
import HeaderApi.Proofs.Module.Accounting
import HeaderApi.Proofs.Module.Delegates

/-!
# Signatures and their documentation

The code decides what a function returns, and the types, names and order of its parameters.  A
documented parameter adds something to the parameter of its name; if the signature has none of that
name, it is reported, and nothing else comes of it (`signatures_kept`).
-/

namespace HeaderApi

/-! ## What is kept -/

/-- A parameter as it is declared, and with what the first entry of its name adds. -/
inductive Parameter.Described (doc : Docstring) : Parameter → Parameter → Prop where
  | variadic : Described doc .variadic .variadic
  | found {type : Text} {before after : List ParamDoc} {d : ParamDoc}
    (hparams : doc.params = before ++ d :: after) (hfirst : ∀ d' ∈ before, d'.name ≠ d.name) :
    Described doc (.named ⟨d.name, type, [], []⟩) (.named ⟨d.name, type, d.modifiers, d.doc⟩)
  | missing {name type : Text} (hparams : ∀ d ∈ doc.params, d.name ≠ name) :
    Described doc (.named ⟨name, type, [], []⟩) (.named ⟨name, type, [], []⟩)

namespace Signature

/-- An entry has the name, the type and the parameters that the code declares. -/
structure Kept (s : Signature) (doc : Docstring) (cname returnType : Text)
    (params : List Parameter) : Prop where
  cname : cname = s.name
  returnType : returnType = s.returnType
  params : List.Forall₂ (Parameter.Described doc) s.params params

def paramNames (s : Signature) : List Text := s.params.filterMap Parameter.name?

/-- The documented parameters that a signature does not have, each with the signature's name. -/
def undeclared (s : Signature) (d : IndexedDoc) : List (Text × Text) :=
  (d.doc.params.filter (!s.paramNames.contains ·.name)).map fun p => (s.name, p.name)

end Signature

/-- The symbol that a report is about and the parameter that it does not have. -/
def Diagnostic.unknownParameter? : Diagnostic → Option (Text × Text)
  | .unknownParameter symbol param => some (symbol, param)
  | _ => none

variable {o : ScanOptions} {index : DocIndex} {declared : Declarations} {name t code item : Text}
  {typed placed m m' : ApiModule} {s : Signature} {signatures : List Signature} {d : IndexedDoc}
  {p : Parameter} {ps : List Parameter} {f : FunctionEntry} {e : DelegateEntry}
  {ds : List Diagnostic}

/-! ## Parameters of the code -/

/-- The code says nothing about a parameter but its name and its type. -/
inductive Parameter.Plain : Parameter → Prop where
  | variadic : Plain .variadic
  | named (name type : Text) : Plain (.named ⟨name, type, [], []⟩)

theorem Parameter.StandsFor.plain (h : StandsFor item p) : p.Plain := by
  cases h with
  | variadic => exact .variadic
  | named => exact .named _ _

theorem Parameter.plain_of_readList {params : Text} (h : readList params = .ok ps) :
    ∀ p ∈ ps, p.Plain := by
  rw [readList] at h
  split at h
  next =>
    cases h
    simp
  next =>
    rw [readItems_eq_ok_iff_standsFor] at h
    generalize Text.commaParts (Text.trim params) = items at h
    induction h with
    | nil => simp
    | cons hp _ ih => exact List.forall_mem_cons.2 ⟨hp.plain, ih⟩

theorem Signature.plain_of_read {r : Raw} (h : r.read = .ok s) : ∀ p ∈ s.params, p.Plain := by
  rw [Raw.read] at h
  cases hparams : Parameter.readList r.params with
  | error e =>
    rw [hparams] at h
    cases h
  | ok ps =>
    rw [hparams] at h
    cases h
    exact Parameter.plain_of_readList hparams

theorem Signature.plain_of_readAll {rs : List Raw} (h : readAll rs = .ok signatures) :
    ∀ s ∈ signatures, ∀ p ∈ s.params, p.Plain := by
  induction rs generalizing signatures with
  | nil =>
    cases h
    simp
  | cons r rs ih =>
    rw [readAll] at h
    split at h
    next => cases h
    next s hs =>
      cases hrest : readAll rs with
      | error e =>
        rw [hrest] at h
        cases h
      | ok rest =>
        rw [hrest] at h
        cases h
        exact List.forall_mem_cons.2 ⟨plain_of_read hs, ih hrest⟩

theorem described_documentParam (doc : Docstring) (hp : p.Plain) :
    Parameter.Described doc p (ApiModule.documentParam doc p) := by
  cases hp with
  | variadic => exact .variadic
  | named name type =>
    rw [ApiModule.documentParam]
    dsimp only
    cases hd : doc.param? name with
    | none =>
      refine .missing fun d hd' => ?_
      simpa using List.find?_eq_none.1 hd d hd'
    | some d =>
      obtain ⟨hname, before, after, hparams, hfirst⟩ := List.find?_eq_some_iff_append.1 hd
      obtain rfl : d.name = name := by simpa using hname
      exact .found hparams fun d' hd' => by simpa using hfirst d' hd'

theorem Signature.forall₂_documentParam (doc : Docstring) (h : ∀ p ∈ ps, p.Plain) :
    List.Forall₂ (Parameter.Described doc) ps (ps.map (ApiModule.documentParam doc)) := by
  rw [List.forall₂_map_right_iff, List.forall₂_same]
  exact fun p hp => described_documentParam doc (h p hp)

namespace ApiModule

theorem kept_documentFunction (h : ∀ p ∈ s.params, p.Plain) (d : IndexedDoc) :
    s.Kept d.doc (documentFunction s d).cname (documentFunction s d).returnType
      (documentFunction s d).params :=
  ⟨rfl, rfl, Signature.forall₂_documentParam d.doc h⟩

theorem kept_documentDelegate (h : ∀ p ∈ s.params, p.Plain) (d : IndexedDoc) :
    s.Kept d.doc (documentDelegate s d).cname (documentDelegate s d).returnType
      (documentDelegate s d).params :=
  ⟨rfl, rfl, Signature.forall₂_documentParam d.doc h⟩

/-! ## Entries -/

/-- Each function of a module is one of some functions. -/
structure DrawnFrom (fs : List FunctionEntry) (m : ApiModule) : Prop where
  functions : ∀ f ∈ m.functions, f ∈ fs
  types : ∀ e ∈ m.types.entries, ∀ f ∈ e.2.members, f ∈ fs

/-- A class that gets a function has no other new one. -/
theorem mem_members_attached {c : ClassEntry} {f g : FunctionEntry}
    (h : g ∈ (c.attached f).members) : g = f ∨ g ∈ c.members := by
  cases hkind : f.kind with
  | constructor | destructor =>
    simp only [ClassEntry.members, ClassEntry.attached, hkind, List.mem_append, Option.mem_toList,
      Option.some.injEq] at h ⊢
    grind
  | initializer | getter | setter | method =>
    simp only [ClassEntry.members, ClassEntry.attached, hkind, List.mem_append,
      List.mem_singleton] at h ⊢
    grind

theorem DrawnFrom.mem {fs : List FunctionEntry} (h : m.DrawnFrom fs)
    (hf : f ∈ m.functions ++ m.members) : f ∈ fs := by
  rcases List.mem_append.1 hf with hf | hf
  · exact h.functions f hf
  · obtain ⟨c, hc, hf⟩ := List.mem_flatMap.1 hf
    obtain ⟨e, he, rfl⟩ := List.mem_map.1 hc
    exact h.types e he f hf

theorem DrawnFrom.mono {fs fs' : List FunctionEntry} (h : m.DrawnFrom fs) (hsub : fs ⊆ fs') :
    m.DrawnFrom fs' :=
  ⟨fun f hf => hsub (h.functions f hf), fun e he f hf => hsub (h.types e he f hf)⟩

theorem DrawnFrom.functionStep {done : List Signature} (hm : m.DrawnFrom (documentedIn t done))
    (hindex : ∀ symbol, index.get? symbol = documentation? t symbol)
    (h : FunctionStep o index m s m' ds) : m'.DrawnFrom (documentedIn t (done ++ [s])) := by
  have hold : m.DrawnFrom (documentedIn t (done ++ [s])) := by
    apply hm.mono
    rw [documentedIn_append]
    exact List.subset_append_left _ _
  have hnew : ∀ d, index.get? s.name = some d →
      documentFunction s d ∈ documentedIn t (done ++ [s]) := by
    intro d hd
    rw [documentedIn_append, documentedIn_singleton_of_some (hindex _ ▸ hd)]
    exact List.mem_append_right _ (List.mem_singleton_self _)
  cases h with
  | undocumented | reserved => exact hold
  | free hdoc =>
    refine ⟨List.forall_mem_append.2 ⟨hold.functions, ?_⟩, hold.types⟩
    exact List.forall_mem_singleton.2 (hnew _ hdoc)
  | attached hdoc _ hclass =>
    refine ⟨hold.functions, OrderedMap.forall_entries_insert hold.types fun f hf => ?_⟩
    rcases mem_members_attached hf with rfl | hf
    · exact hnew _ hdoc
    · exact hold.types _ (OrderedMap.mem_of_get? hclass) f hf

/-! ## Reports -/

theorem filterMap_unknownParams_eq (s : Signature) (d : IndexedDoc) :
    (unknownParams s d.doc).filterMap Diagnostic.unknownParameter? = s.undeclared d := by
  have hnames : ∀ name, decide (some name ∉ s.params.map Parameter.name?) =
      !s.paramNames.contains name := by
    intro name
    rw [Signature.paramNames, Bool.eq_iff_iff, decide_eq_true_iff, Bool.not_eq_true',
      Bool.eq_false_iff, Ne, List.contains_iff_mem, List.mem_map, List.mem_filterMap]
  rw [unknownParams, Signature.undeclared, List.filterMap_map]
  simp only [hnames]
  exact congrFun List.filterMap_eq_map _

theorem FunctionStep.filterMap_unknownParameter? (h : FunctionStep o index m s m' ds) :
    ds.filterMap Diagnostic.unknownParameter? =
      (index.get? s.name).toList.flatMap s.undeclared := by
  cases h with
  | undocumented hdoc =>
    rw [hdoc]
    rfl
  | free hdoc | reserved hdoc =>
    rw [hdoc, filterMap_unknownParams_eq, Option.toList_some, List.flatMap_singleton]
  | attached hdoc =>
    rw [hdoc, List.filterMap_append, filterMap_unknownParams_eq,
      ClassEntry.filterMap_replaced_eq_nil (fun _ _ _ => rfl) fun _ _ _ => rfl,
      List.append_nil, Option.toList_some, List.flatMap_singleton]

theorem filterMap_unknownParameter?_delegateReports (name t : Text) (s : Signature) :
    (delegateReports name t s).filterMap Diagnostic.unknownParameter? =
      (documentation? t s.base).toList.flatMap s.undeclared := by
  rw [delegateReports]
  cases documentation? t s.base with
  | none => rfl
  | some d =>
    rw [Option.toList_some, List.flatMap_singleton]
    exact filterMap_unknownParams_eq s d

/-! ## Scans -/

theorem Stages.placed_drawnFrom (hstages : Stages o name t index declared typed placed m) :
    placed.DrawnFrom (documentedIn t declared.functions) := by
  have htyped : typed.DrawnFrom (documentedIn t []) := by
    refine Scan.foldlM_induction (fun _ m _ => m.DrawnFrom (documentedIn t [])) hstages.types
      ⟨by simp, fun e he => by cases he⟩ fun _ _ _ _ _ hm h => ?_
    cases h
    exact ⟨hm.functions, OrderedMap.forall_entries_insert hm.types (by simp [ClassEntry.members])⟩
  exact Scan.foldlM_induction (fun done m _ => m.DrawnFrom (documentedIn t done))
    hstages.functions htyped
    fun _ _ _ _ _ hm h => hm.functionStep hstages.documented (functionStep_of_ok h)

theorem Stages.filterMap_unknownParameter?
    (hstages : Stages o name t index declared typed placed m) :
    (ofText o name t).diagnostics.filterMap Diagnostic.unknownParameter? =
      declared.functions.flatMap
          (fun s => (documentation? t s.name).toList.flatMap s.undeclared) ++
        declared.delegates.flatMap
          fun s => (documentation? t s.base).toList.flatMap s.undeclared := by
  have hplaced : ∀ r : Diagnostic, r.offset?.isSome → r.unknownParameter? = none := by
    intro r hr
    cases r with
    | unknownParameter => cases hr
    | _ => rfl
  rw [hstages.filterMap_diagnostics hplaced, hstages.delegates_eq.2, List.filterMap_flatMap]
  congr 1
  · refine Scan.foldlM_induction
      (fun done _ ds => ds.filterMap Diagnostic.unknownParameter? =
        done.flatMap fun s => (documentation? t s.name).toList.flatMap s.undeclared)
      hstages.functions rfl fun done s _ _ ds hds h => ?_
    rw [List.filterMap_append, hds, (functionStep_of_ok h).filterMap_unknownParameter?,
      hstages.documented, List.flatMap_append, List.flatMap_singleton]
  · exact List.flatMap_congr fun s _ => filterMap_unknownParameter?_delegateReports name t s

/-- Functions and delegates keep the signatures of the code, whatever their documentation says, and
each documented parameter that is none of them is reported. -/
theorem signatures_kept (h : (ofText o name t).result = .ok m) :
    ∃ functions delegates, Signature.prototypes (codeOf t) = .ok functions ∧
      Signature.delegates (codeOf t) = .ok delegates ∧
      (∀ f ∈ m.functions ++ m.members, ∃ s ∈ functions, ∃ d, documentation? t s.name = some d ∧
        s.Kept d.doc f.cname f.returnType f.params) ∧
      (∀ e ∈ m.delegates.values, ∃ s ∈ delegates, ∃ d, documentation? t s.base = some d ∧
        s.Kept d.doc e.cname e.returnType e.params) ∧
      (ofText o name t).diagnostics.filterMap Diagnostic.unknownParameter? =
        functions.flatMap (fun s => (documentation? t s.name).toList.flatMap s.undeclared) ++
          delegates.flatMap fun s => (documentation? t s.base).toList.flatMap s.undeclared := by
  obtain ⟨index, declared, typed, placed, hstages⟩ := exists_stages h
  obtain ⟨-, -, hprototypes, hdelegates⟩ := Declarations.ofCode_eq_ok_iff.1 hstages.code
  refine ⟨declared.functions, declared.delegates, hprototypes, hdelegates, ?_, ?_,
    hstages.filterMap_unknownParameter?⟩
  · have hdrawn : m.DrawnFrom (documentedIn t declared.functions) := by
      rw [hstages.delegates_eq.1]
      exact ⟨hstages.placed_drawnFrom.functions, hstages.placed_drawnFrom.types⟩
    intro f hf
    obtain ⟨s, hs, hentry⟩ := List.mem_filterMap.1 (hdrawn.mem hf)
    obtain ⟨d, hd, rfl⟩ := Option.map_eq_some_iff.1 hentry
    exact ⟨s, hs, d, hd, kept_documentFunction (Signature.plain_of_readAll hprototypes s hs) d⟩
  · rw [hstages.delegates_eq.1]
    intro e he
    obtain ⟨entry, hmem, rfl⟩ := List.mem_map.1 he
    obtain ⟨s, hs, hentry⟩ := List.mem_filterMap.1 (OrderedMap.mem_of_mem_collect hmem).1
    obtain ⟨d, hd, hentry⟩ := Option.map_eq_some_iff.1 hentry
    rw [← hentry]
    exact ⟨s, hs, d, hd, kept_documentDelegate (Signature.plain_of_readAll hdelegates s hs) d⟩

/-- Parameters that are documented in another order, twice, and in vain. -/
def paramHeader : Text :=
  "/** @name: ta_log @param: text: a text @param: n (in): a number\n".toList ++
  "@param: n: again @param: m @param: m */\n".toList ++
  "void ta_log (int n, const char *text, ...);\n".toList ++
  "/** @name: ta_cb @param: q */\n".toList ++
  "typedef void (*ta_cb_t) (char *s);\n".toList

theorem ofText_paramHeader :
    (ofText ⟨none⟩ "a".toList paramHeader).diagnostics =
      [.unknownParameter "ta_log".toList "m".toList, .unknownParameter "ta_log".toList "m".toList,
        .unknownParameter "ta_cb_t".toList "q".toList] ∧
    ∃ m, (ofText ⟨none⟩ "a".toList paramHeader).result = .ok m ∧
      m.functions.map (·.params) =
        [[.named ⟨"n".toList, "int".toList, ["in".toList], "a number".toList⟩,
          .named ⟨"text".toList, "const char *".toList, [], "a text".toList⟩, .variadic]] := by
  have hnames : StructType.names (codeOf paramHeader) = [] := by
    rw [StructType.names_of_notMem (by decide +kernel)]
    decide +kernel
  have h : (ofText ⟨none⟩ "a".toList paramHeader).diagnostics =
      [.unknownParameter "ta_log".toList "m".toList, .unknownParameter "ta_log".toList "m".toList,
        .unknownParameter "ta_cb_t".toList "q".toList] ∧
      ∃ m ∈ (ofText ⟨none⟩ "a".toList paramHeader).result.toOption, m.functions.map (·.params) =
        [[.named ⟨"n".toList, "int".toList, ["in".toList], "a number".toList⟩,
          .named ⟨"text".toList, "const char *".toList, [], "a text".toList⟩, .variadic]] := by
    rw [ofText, Declarations.ofCode, hnames]
    decide +kernel
  obtain ⟨hdiagnostics, m, hm, hparams⟩ := h
  exact ⟨hdiagnostics, m, Scan.result_eq_ok_of_mem hm, hparams⟩

/-- The parameters stay as they are declared, and three entries are reported. -/
theorem signatures_kept_paramHeader :
    ∃ m functions delegates, (ofText ⟨none⟩ "a".toList paramHeader).result = .ok m ∧
      Signature.prototypes (codeOf paramHeader) = .ok functions ∧
      Signature.delegates (codeOf paramHeader) = .ok delegates ∧
      (∀ f ∈ m.functions, ∃ s ∈ functions, ∃ d, documentation? paramHeader s.name = some d ∧
        s.Kept d.doc f.cname f.returnType f.params) ∧
      m.functions.map (·.params) =
        [[.named ⟨"n".toList, "int".toList, ["in".toList], "a number".toList⟩,
          .named ⟨"text".toList, "const char *".toList, [], "a text".toList⟩, .variadic]] ∧
      functions.flatMap
          (fun s => (documentation? paramHeader s.name).toList.flatMap s.undeclared) ++
        delegates.flatMap
          (fun s => (documentation? paramHeader s.base).toList.flatMap s.undeclared) =
        [("ta_log".toList, "m".toList), ("ta_log".toList, "m".toList),
          ("ta_cb_t".toList, "q".toList)] := by
  obtain ⟨hdiagnostics, m, hm, hparams⟩ := ofText_paramHeader
  obtain ⟨functions, delegates, hfunctions, hdelegates, hkept, -, hreports⟩ := signatures_kept hm
  refine ⟨m, functions, delegates, hm, hfunctions, hdelegates,
    fun f hf => hkept f (List.mem_append_left _ hf), hparams, ?_⟩
  rw [← hreports, hdiagnostics]
  rfl

end ApiModule

end HeaderApi
