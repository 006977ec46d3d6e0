import HeaderApi.Proofs.Module.Step

/-!
# What a module depends on

A scan asks its index for the symbols of the code only, and of a doc block that it finds it uses
what was read from it and not its place.  So indexes that agree on these symbols
(`DocIndex.Agree`) take the same declarations into the same module, with the same reports, and two
headers of one code differ at most in the reports about their comments (`ofText_congr`).
-/

namespace HeaderApi

/-- The indexes answer alike for some symbols, apart from the places of the doc blocks. -/
def DocIndex.Agree (index index' : DocIndex) (symbols : List Text) : Prop :=
  ∀ symbol ∈ symbols, (index.get? symbol).map (fun d => (d.name, d.doc)) =
    (index'.get? symbol).map fun d => (d.name, d.doc)

/-- The reports about the code, without those about its comments. -/
def Scan.codeReports {α : Type} (s : Scan α) : List Diagnostic :=
  s.diagnostics.filter Diagnostic.isAboutCode

namespace Scan

variable {α β : Type} {x : Scan α} {a : α}

theorem codeReports_bind (h : x.result = .ok a) (f : α → Scan β) :
    (x >>= f).codeReports = x.codeReports ++ (f a).codeReports := by
  rw [codeReports, diagnostics_bind h, List.filter_append]
  rfl

/-- A step in front that says nothing about the code. -/
theorem bind_of_quiet (h : x.result = .ok a) (hquiet : x.codeReports = []) (f : α → Scan β) :
    (x >>= f).result = (f a).result ∧ (x >>= f).codeReports = (f a).codeReports := by
  refine ⟨?_, by rw [codeReports_bind h, hquiet, List.nil_append]⟩
  obtain ⟨result, ds, ns⟩ := x
  obtain rfl : result = .ok a := h
  rfl

/-- A step behind that keeps the result and says nothing about the code. -/
theorem bind_quiet {f : α → Scan α} (h : ∀ a, (f a).result = .ok a ∧ (f a).codeReports = [])
    (x : Scan α) : (x >>= f).result = x.result ∧ (x >>= f).codeReports = x.codeReports := by
  cases hx : x.result with
  | error e =>
    obtain ⟨result, ds, ns⟩ := x
    obtain rfl : result = .error e := hx
    exact ⟨rfl, rfl⟩
  | ok a =>
    refine ⟨?_, by rw [codeReports_bind hx, (h a).2, List.append_nil]⟩
    obtain ⟨result, ds, ns⟩ := x
    obtain rfl : result = .ok a := hx
    exact (h a).1

end Scan

variable {o : ScanOptions} {index index' : DocIndex} {name t t' symbol cname : Text}
  {symbols : List Text} {m : ApiModule} {s : Signature} {d : IndexedDoc}
  {declared : Declarations} {e : ScanError}

theorem DocIndex.Agree.cases (h : index.Agree index' symbols) (hsymbol : symbol ∈ symbols) :
    (index.get? symbol = none ∧ index'.get? symbol = none) ∨
      ∃ offset offset' name doc, index.get? symbol = some ⟨offset, name, doc⟩ ∧
        index'.get? symbol = some ⟨offset', name, doc⟩ := by
  have heq := h symbol hsymbol
  cases hd : index.get? symbol with
  | none =>
    rw [hd, Option.map_none, eq_comm, Option.map_eq_none_iff] at heq
    exact .inl ⟨rfl, heq⟩
  | some d =>
    rw [hd, Option.map_some, eq_comm, Option.map_eq_some_iff] at heq
    obtain ⟨⟨offset', name, doc⟩, hd', heq⟩ := heq
    obtain ⟨rfl, rfl⟩ := Prod.mk.inj heq
    exact .inr ⟨d.offset, offset', d.name, d.doc, rfl, hd'⟩

namespace ApiModule

/-! ## Declarations -/

theorem addType_congr (h : index.Agree index' symbols) (hsymbol : withoutSuffix cname ∈ symbols) :
    addType o index m cname = addType o index' m cname := by
  unfold addType registerType
  rcases h.cases hsymbol with ⟨hd, hd'⟩ | ⟨_, _, _, _, hd, hd'⟩
  · simp only [hd, hd']
  · simp only [hd, hd', Option.map_some]

theorem addFunction_congr (h : index.Agree index' symbols) (hsymbol : s.name ∈ symbols) :
    addFunction o index m s = addFunction o index' m s := by
  unfold addFunction registerFunction
  rcases h.cases hsymbol with ⟨hd, hd'⟩ | ⟨_, _, _, _, hd, hd'⟩
  · rw [hd, hd']
  · rw [hd, hd']
    rfl

theorem addDelegate_congr (h : index.Agree index' symbols)
    (hsymbol : withoutSuffix s.name ∈ symbols) :
    addDelegate index m s = addDelegate index' m s := by
  unfold addDelegate registerDelegate
  rcases h.cases hsymbol with ⟨hd, hd'⟩ | ⟨_, _, _, _, hd, hd'⟩
  · simp only [hd, hd']
  · simp only [hd, hd']

theorem addAll_congr (h : index.Agree index' declared.symbols) :
    addAll o index name declared = addAll o index' name declared := by
  have htypes : ∀ cname ∈ declared.types, ∀ m,
      addType o index m cname = addType o index' m cname := by
    intro cname hcname m
    apply addType_congr h
    simp only [Declarations.symbols, List.mem_append]
    exact .inl (.inl (.inr (List.mem_map_of_mem hcname)))
  have hfunctions : ∀ s ∈ declared.functions, ∀ m,
      addFunction o index m s = addFunction o index' m s := by
    intro s hs m
    apply addFunction_congr h
    simp only [Declarations.symbols, List.mem_append]
    exact .inl (.inr (List.mem_map_of_mem hs))
  have hdelegates : ∀ s ∈ declared.delegates, ∀ m,
      addDelegate index m s = addDelegate index' m s := by
    intro s hs m
    apply addDelegate_congr h
    simp only [Declarations.symbols, List.mem_append]
    exact .inr (List.mem_map_of_mem hs)
  unfold addAll
  simp only [Scan.foldlM_congr htypes, Scan.foldlM_congr hfunctions, Scan.foldlM_congr hdelegates]

/-! ## Scans -/

/-- What is reported at a place is not about the code. -/
theorem filter_isAboutCode_eq_nil {ds : List Diagnostic} (h : ∀ r ∈ ds, r.offset?.isSome) :
    ds.filter Diagnostic.isAboutCode = [] := by
  rw [List.filter_eq_nil_iff]
  intro r hr habout
  have hplace := h r hr
  cases r <;> simp_all [Diagnostic.offset?, Diagnostic.isAboutCode]

/-- Comments and doc blocks are read without a word about the code. -/
theorem codeReports_index (t : Text) : (DocIndex.ofText t).codeReports = [] := by
  obtain ⟨index, notes, hindex, -⟩ := exists_index_ofText t
  rw [Scan.codeReports, hindex]
  apply filter_isAboutCode_eq_nil
  intro r hr
  rcases List.mem_append.1 hr with hr | hr
  · obtain ⟨offset, -, rfl⟩ := List.mem_map.1 hr
    rfl
  · obtain ⟨block, -, hr⟩ := List.mem_flatMap.1 hr
    rw [offset?_of_mem_reports hr]
    rfl

theorem codeReports_unused (index : DocIndex) (symbols : List Text) :
    (Scan.report (index.unused symbols)).codeReports = [] := by
  apply filter_isAboutCode_eq_nil
  intro r hr
  obtain ⟨entry, -, rfl⟩ := List.mem_map.1 hr
  rfl

/-- If the code cannot be read, nothing is said about it. -/
theorem ofText_of_error (o : ScanOptions) (name : Text)
    (h : Declarations.ofCode (codeOf t) = .error e) :
    (ofText o name t).result = .error e ∧ (ofText o name t).codeReports = [] := by
  obtain ⟨index, notes, hindex, -⟩ := exists_index_ofText t
  have hresult : (DocIndex.ofText t).result = .ok index := by rw [hindex]
  rw [ofText_eq, h]
  exact Scan.bind_of_quiet hresult (codeReports_index t) _

/-- The index of a header and its code decide the module and the reports about the code. -/
theorem exists_ofText_of_ok (o : ScanOptions) (name : Text)
    (h : Declarations.ofCode (codeOf t) = .ok declared) : ∃ index,
    (∀ symbol, index.get? symbol = documentation? t symbol) ∧
    (ofText o name t).result = (addAll o index name declared).result ∧
    (ofText o name t).codeReports = (addAll o index name declared).codeReports := by
  obtain ⟨index, notes, hindex, hdocumented⟩ := exists_index_ofText t
  have hresult : (DocIndex.ofText t).result = .ok index := by rw [hindex]
  refine ⟨index, hdocumented, ?_⟩
  rw [ofText_eq, h]
  obtain ⟨hresult', hreports'⟩ := Scan.bind_of_quiet hresult (codeReports_index t) _
  rw [hresult', hreports']
  refine Scan.bind_quiet (fun m => ⟨rfl, ?_⟩) (addAll o index name declared)
  rw [Scan.codeReports_bind rfl, codeReports_unused]
  rfl

/-- The name that a doc block gives stands in what was read from it. -/
theorem name_of_documentation? (h : documentation? t symbol = some d) : d.doc.name = some d.name := by
  rw [documentation?] at h
  obtain ⟨block, -, hblock⟩ := List.mem_filterMap.1 (mem_of_lastWith? h)
  obtain ⟨name, hname, rfl⟩ := Option.map_eq_some_iff.1 hblock
  exact hname

theorem agree_of_documentation? (hindex : ∀ symbol, index.get? symbol = documentation? t symbol)
    (hindex' : ∀ symbol, index'.get? symbol = documentation? t' symbol)
    (h : ∀ symbol ∈ symbols,
      (documentation? t symbol).map (·.doc) = (documentation? t' symbol).map (·.doc)) :
    index.Agree index' symbols := by
  intro symbol hsymbol
  have hdoc := h symbol hsymbol
  rw [hindex, hindex']
  cases hd : documentation? t symbol with
  | none =>
    rw [hd, Option.map_none, eq_comm, Option.map_eq_none_iff] at hdoc
    rw [hdoc]
  | some d =>
    rw [hd, Option.map_some, eq_comm, Option.map_eq_some_iff] at hdoc
    obtain ⟨d', hd', hdoc⟩ := hdoc
    have hname : d'.name = d.name := by
      apply Option.some.inj
      rw [← name_of_documentation? hd, ← name_of_documentation? hd', hdoc]
    rw [hd', Option.map_some, Option.map_some, hdoc, hname]

/-- A header's module, or the error with which its scan fails, and the reports about its code depend
on the code and on what the last doc block of each declared symbol says. -/
theorem ofText_congr (hcode : codeOf t = codeOf t')
    (hdocs : ∀ declared, Declarations.ofCode (codeOf t) = .ok declared →
      ∀ symbol ∈ declared.symbols,
        (documentation? t symbol).map (·.doc) = (documentation? t' symbol).map (·.doc)) :
    (ofText o name t).result = (ofText o name t').result ∧
      (ofText o name t).codeReports = (ofText o name t').codeReports := by
  cases hdeclared : Declarations.ofCode (codeOf t) with
  | error e =>
    obtain ⟨hresult, hreports⟩ := ofText_of_error o name hdeclared
    obtain ⟨hresult', hreports'⟩ := ofText_of_error o name (hcode ▸ hdeclared)
    exact ⟨hresult.trans hresult'.symm, hreports.trans hreports'.symm⟩
  | ok declared =>
    obtain ⟨index, hindex, hresult, hreports⟩ := exists_ofText_of_ok o name hdeclared
    obtain ⟨index', hindex', hresult', hreports'⟩ := exists_ofText_of_ok o name (hcode ▸ hdeclared)
    have hagree := agree_of_documentation? hindex hindex' (hdocs declared hdeclared)
    rw [hresult, hreports, hresult', hreports', addAll_congr hagree]
    exact ⟨rfl, rfl⟩

/-- A documented function. -/
def logHeader : Text :=
  "/** @name: ta_log @param: m */\n".toList ++ "void ta_log (int n);\n".toList

/-- The same function, with other comments and with more doc blocks behind it. -/
def logHeader' : Text :=
  "// Logging.\n".toList ++ "void ta_log /* a number */ (int n);\n".toList ++
  "/** @name: ta_log @param: k */\n".toList ++ "/** @name: ta_old */\n".toList ++
  "/** @name: ta_log @param: m */\n".toList

theorem ofCode_logHeader : Declarations.ofCode (codeOf logHeader) =
    .ok ⟨[], [], [⟨"ta_log".toList, "void".toList, [.named ⟨"n".toList, "int".toList, [], []⟩]⟩],
      []⟩ := by
  have hnames : StructType.names (codeOf logHeader) = [] := by
    rw [StructType.names_of_notMem (by decide +kernel)]
    decide +kernel
  rw [Declarations.ofCode, hnames]
  decide +kernel

/-- Of the two doc blocks for one function the last one counts, where it says the same. -/
theorem ofText_congr_logHeader :
    (ofText ⟨none⟩ "log".toList logHeader).result = (ofText ⟨none⟩ "log".toList logHeader').result ∧
    (ofText ⟨none⟩ "log".toList logHeader).codeReports =
      (ofText ⟨none⟩ "log".toList logHeader').codeReports ∧
    (ofText ⟨none⟩ "log".toList logHeader).codeReports =
      [.unknownParameter "ta_log".toList "m".toList] ∧
    (ofText ⟨none⟩ "log".toList logHeader).result.toOption.map (·.functions.map (·.cname)) =
      some ["ta_log".toList] := by
  have hcode : codeOf logHeader = codeOf logHeader' := by decide +kernel
  have hdocs : ∀ declared, Declarations.ofCode (codeOf logHeader) = .ok declared →
      ∀ symbol ∈ declared.symbols, (documentation? logHeader symbol).map (·.doc) =
        (documentation? logHeader' symbol).map (·.doc) := by
    intro declared hdeclared
    rw [ofCode_logHeader] at hdeclared
    cases hdeclared
    decide +kernel
  obtain ⟨hresult, hreports⟩ := ofText_congr (o := ⟨none⟩) hcode hdocs
  refine ⟨hresult, hreports, ?_⟩
  rw [Scan.codeReports, ofText, ofCode_logHeader]
  constructor <;> decide +kernel

end ApiModule

end HeaderApi
