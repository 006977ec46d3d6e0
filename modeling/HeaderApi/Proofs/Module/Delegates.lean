import HeaderApi.Proofs.Module.Step

/-!
# Which delegates are kept

A documented delegate is kept under its name without the suffix `_t`, and the last one of a name
counts (`Stages.delegates_eq`).  So a delegate is lost, without a report, if a later one is called
the same but for the suffix (`delegates_kept_iff`).
-/

namespace HeaderApi

/-- The qualified name of a delegate that has no documentation. -/
def Diagnostic.undocumentedDelegate? : Diagnostic → Option Text
  | .undocumentedDelegate name => some name
  | _ => none

/-- The name by which a delegate is documented and kept. -/
def Signature.base (s : Signature) : Text := withoutSuffix s.name

/-- The delegates among some signatures that the header documents. -/
def delegatesIn (t : Text) (signatures : List Signature) : List DelegateEntry :=
  signatures.filterMap fun s =>
    (documentation? t s.base).map (ApiModule.documentDelegate s)

variable {o : ScanOptions} {index : DocIndex} {declared : Declarations} {name t base : Text}
  {typed placed m m' : ApiModule} {s : Signature} {signatures : List Signature}

theorem delegatesIn_concat (t : Text) (signatures : List Signature) (s : Signature) :
    delegatesIn t (signatures ++ [s]) = delegatesIn t signatures ++
      ((documentation? t s.base).map (ApiModule.documentDelegate s)).toList := by
  rw [delegatesIn, List.filterMap_append, List.filterMap_cons]
  cases documentation? t s.base <;> rfl

/-- A name is made of its base, with the suffix or without it. -/
theorem eq_withoutSuffix_or (cname : Text) :
    cname = withoutSuffix cname ∨ cname = withoutSuffix cname ++ "_t".toList := by
  rw [withoutSuffix]
  cases h : Text.before? "_t".toList cname with
  | none => exact .inl rfl
  | some base => exact .inr (Text.before?_eq_some_iff.1 h)

namespace ApiModule

/-- What is reported about a delegate of the module `name`. -/
def delegateReports (name t : Text) (s : Signature) : List Diagnostic :=
  match documentation? t s.base with
  | none => [.undocumentedDelegate (name ++ ".".toList ++ s.base)]
  | some d => unknownParams s d.doc

/-- A delegate is reported as undocumented, or the module holds it. -/
def DelegateAccounted (name : Text) (ds : List Diagnostic) (m : ApiModule) (s : Signature) :
    Prop :=
  .undocumentedDelegate (name ++ ".".toList ++ s.base) ∈ ds ∨
    ∃ e ∈ m.delegates.entries, e.2.cname = s.name

/-! ## Runs -/

/-- A function leaves the name of a module and its delegates as they are. -/
theorem FunctionStep.frame {ds : List Diagnostic} (h : FunctionStep o index m s m' ds) :
    m'.name = m.name ∧ m'.delegates = m.delegates := by
  cases h <;> exact ⟨rfl, rfl⟩

/-- Before the delegates come, a module has the given name and no delegate. -/
theorem Stages.placed_delegates (hstages : Stages o name t index declared typed placed m) :
    placed.name = name ∧ placed.delegates = ∅ := by
  have htyped : typed.name = name ∧ typed.delegates = ∅ := by
    refine Scan.foldlM_induction (fun _ m _ => m.name = name ∧ m.delegates = ∅) hstages.types
      ⟨rfl, rfl⟩ fun _ _ _ _ _ hm h => ?_
    cases h
    exact hm
  refine Scan.foldlM_induction (fun _ m _ => m.name = name ∧ m.delegates = ∅) hstages.functions
    htyped fun _ _ _ _ _ hm h => ?_
  obtain ⟨hname, hdelegates⟩ := (functionStep_of_ok h).frame
  exact ⟨hname.trans hm.1, hdelegates.trans hm.2⟩

/-- The delegates of a module are the documented ones of the code, collected by their names. -/
theorem Stages.delegates_eq (hstages : Stages o name t index declared typed placed m) :
    m = { placed with delegates := .collect (·.name) (delegatesIn t declared.delegates) } ∧
    (declared.delegates.foldlM (addDelegate index) placed).diagnostics =
      declared.delegates.flatMap (delegateReports name t) := by
  obtain ⟨hname, hempty⟩ := hstages.placed_delegates
  refine Scan.foldlM_induction
    (fun done m ds =>
      m = { placed with delegates := .collect (·.name) (delegatesIn t done) } ∧
        ds = done.flatMap (delegateReports name t))
    hstages.delegates ⟨?_, rfl⟩ fun done s m₁ m₂ ds hm h => ?_
  · exact congrArg (fun delegates => { placed with delegates }) hempty
  · obtain ⟨rfl, rfl⟩ := hm
    have hstep := delegateStep_of_ok h
    rw [List.flatMap_append, List.flatMap_singleton, delegatesIn_concat, delegateReports,
      ← hstages.documented, Signature.base]
    generalize (addDelegate index _ s).diagnostics = reports at hstep ⊢
    cases hstep with
    | undocumented hdoc =>
      rw [hdoc, ← hname]
      exact ⟨by rw [Option.map_none, Option.toList_none, List.append_nil], rfl⟩
    | documented hdoc =>
      rw [hdoc]
      exact ⟨by rw [Option.map_some, Option.toList_some, OrderedMap.collect_concat]; rfl, rfl⟩

/-! ## Accounts -/

theorem FunctionStep.filterMap_undocumentedDelegate? {ds : List Diagnostic}
    (h : FunctionStep o index m s m' ds) :
    ds.filterMap Diagnostic.undocumentedDelegate? = [] := by
  cases h with
  | undocumented => rfl
  | free | reserved => exact filterMap_unknownParams_eq_nil (fun _ _ => rfl) s _
  | attached =>
    rw [List.filterMap_append, filterMap_unknownParams_eq_nil fun _ _ => rfl,
      ClassEntry.filterMap_replaced_eq_nil (fun _ _ _ => rfl) fun _ _ _ => rfl]
    rfl

theorem filterMap_delegateReports (name t : Text) (s : Signature) :
    (delegateReports name t s).filterMap Diagnostic.undocumentedDelegate? =
      if documentation? t s.base = none then [name ++ ".".toList ++ s.base] else [] := by
  rw [delegateReports]
  cases documentation? t s.base with
  | none => rfl
  | some d => exact filterMap_unknownParams_eq_nil (fun _ _ => rfl) s _

/-- A delegate is reported as undocumented if and only if it is. -/
theorem Stages.undocumentedDelegate_mem_iff
    (hstages : Stages o name t index declared typed placed m) (hs : s ∈ declared.delegates) :
    .undocumentedDelegate (name ++ ".".toList ++ s.base) ∈ (ofText o name t).diagnostics ↔
      documentation? t s.base = none := by
  have hfunctions : (declared.functions.foldlM (addFunction o index) typed).diagnostics.filterMap
      Diagnostic.undocumentedDelegate? = [] := by
    refine Scan.foldlM_induction
      (fun _ _ ds => ds.filterMap Diagnostic.undocumentedDelegate? = []) hstages.functions rfl
      fun _ _ _ _ _ hds h => ?_
    rw [List.filterMap_append, hds, (functionStep_of_ok h).filterMap_undocumentedDelegate?]
    rfl
  have hmem : ∀ x, .undocumentedDelegate x ∈ (ofText o name t).diagnostics ↔
      x ∈ (ofText o name t).diagnostics.filterMap Diagnostic.undocumentedDelegate? := by
    intro x
    rw [List.mem_filterMap]
    constructor
    · exact fun h => ⟨_, h, rfl⟩
    · rintro ⟨r, hr, hx⟩
      cases r with
      | undocumentedDelegate y => exact Option.some.inj hx ▸ hr
      | _ => cases hx
  have hplaced : ∀ r : Diagnostic, r.offset?.isSome → r.undocumentedDelegate? = none := by
    intro r hr
    cases r with
    | undocumentedDelegate => cases hr
    | _ => rfl
  rw [hmem, hstages.filterMap_diagnostics hplaced, hfunctions, hstages.delegates_eq.2,
    List.nil_append, List.filterMap_flatMap, List.mem_flatMap]
  simp only [filterMap_delegateReports]
  constructor
  · rintro ⟨s', -, hmem⟩
    split at hmem
    next hnone =>
      have hbase := List.append_cancel_left (List.mem_singleton.1 hmem)
      rwa [hbase]
    next => cases hmem
  · exact fun hnone => ⟨s, hs, by rw [if_pos hnone]; exact List.mem_singleton_self _⟩

/-- Of the documented delegates of one base the last one counts. -/
theorem get?_collect_delegatesIn {d : IndexedDoc} (hdoc : documentation? t base = some d)
    (signatures : List Signature) :
    (OrderedMap.collect (·.name) (delegatesIn t signatures)).get? base =
      (lastWith? Signature.base base signatures).map (documentDelegate · d) := by
  rw [OrderedMap.get?_collect]
  induction signatures using List.reverseRecOn with
  | nil => rfl
  | append_singleton signatures s ih =>
    have hname : ∀ d', (documentDelegate s d').name = s.base := fun _ => rfl
    rw [delegatesIn_concat, lastWith?_concat]
    by_cases hbase : s.base = base
    · rw [if_pos hbase, hbase, hdoc, Option.map_some, Option.map_some, Option.toList_some,
        lastWith?_concat, if_pos ((hname d).trans hbase)]
    · rw [if_neg hbase, ← ih]
      cases documentation? t s.base with
      | none => rw [Option.map_none, Option.toList_none, List.append_nil]
      | some d' =>
        rw [Option.map_some, Option.toList_some, lastWith?_concat,
          if_neg (hname d' ▸ hbase)]

theorem base_of_mem_collect_delegatesIn {e : Text × DelegateEntry}
    (he : e ∈ (OrderedMap.collect (·.name) (delegatesIn t signatures)).entries) :
    e.1 = withoutSuffix e.2.cname := by
  obtain ⟨hmem, hkey⟩ := OrderedMap.mem_of_mem_collect he
  obtain ⟨s, -, hs⟩ := List.mem_filterMap.1 hmem
  obtain ⟨d, -, hd⟩ := Option.map_eq_some_iff.1 hs
  rw [← hkey, ← hd]
  rfl

/-- Of the documented delegates of one base the module holds the last one. -/
theorem Stages.exists_delegate_iff (hstages : Stages o name t index declared typed placed m)
    (hdoc : documentation? t s.base ≠ none) :
    (∃ e ∈ m.delegates.entries, e.2.cname = s.name) ↔
      (lastWith? Signature.base s.base declared.delegates).map (·.name) = some s.name := by
  obtain ⟨d, hd⟩ := Option.ne_none_iff_exists'.1 hdoc
  have hfound := get?_collect_delegatesIn hd declared.delegates
  rw [hstages.delegates_eq.1]
  constructor
  · rintro ⟨e, he, hcname⟩
    have hbase : e.1 = s.base := by
      rw [base_of_mem_collect_delegatesIn he, hcname, Signature.base]
    rw [← hbase, OrderedMap.get?_of_mem he] at hfound
    obtain ⟨s', hs', hentry⟩ := Option.map_eq_some_iff.1 hfound.symm
    rw [← hbase, hs', Option.map_some, ← hcname, ← hentry]
    rfl
  · intro h
    obtain ⟨s', hs', hname⟩ := Option.map_eq_some_iff.1 h
    rw [hs', Option.map_some] at hfound
    exact ⟨_, OrderedMap.mem_of_get? hfound, hname⟩

/-- A base is the name of one of some signatures, and with the suffix that of another one. -/
def HasBoth (signatures : List Signature) (base : Text) : Prop :=
  withoutSuffix base = base ∧ base ∈ signatures.map (·.name) ∧
    base ++ "_t".toList ∈ signatures.map (·.name)

/-- Each of some signatures has the name of the last one of its base if and only if no base is the
name of one and, with the suffix, of another. -/
theorem forall_last_iff {P : Text → Prop} :
    (∀ s ∈ signatures, P s.base →
      (lastWith? Signature.base s.base signatures).map (·.name) = some s.name) ↔
        ∀ base, P base → ¬ HasBoth signatures base := by
  constructor
  · rintro h base hP ⟨hbase, hplain, hsuffixed⟩
    obtain ⟨s, hs, rfl⟩ := List.mem_map.1 hplain
    obtain ⟨s', hs', hname⟩ := List.mem_map.1 hsuffixed
    have hbase' : s'.base = s.name := by rw [Signature.base, hname, withoutSuffix_append]
    have hlast := h s hs (by rwa [Signature.base, hbase])
    have hlast' := h s' hs' (by rwa [hbase'])
    rw [Signature.base, hbase] at hlast
    rw [hbase', hlast, Option.some.injEq, hname] at hlast'
    simpa using congrArg List.length hlast'
  · intro h s hs hP
    cases hlast : lastWith? Signature.base s.base signatures with
    | none => exact absurd (List.mem_map_of_mem hs) (notMem_of_lastWith? hlast)
    | some s' =>
      have hs' := mem_of_lastWith? hlast
      have hbase : s'.base = s.base := key_of_lastWith? hlast
      have hnot : ∀ s₁ ∈ signatures, ∀ s₂ ∈ signatures, s₁.base = s.base → s₁.name = s₁.base →
          s₂.name ≠ s.base ++ "_t".toList := by
        intro s₁ hs₁ s₂ hs₂ hbase₁ hname₁ hname₂
        refine h s.base hP ⟨?_, List.mem_map.2 ⟨s₁, hs₁, hname₁.trans hbase₁⟩,
          List.mem_map.2 ⟨s₂, hs₂, hname₂⟩⟩
        rw [← hbase₁, ← hname₁]
        exact hname₁.symm
      rw [Option.map_some, Option.some.injEq]
      rcases eq_withoutSuffix_or s.name with hplain | hsuffixed <;>
        rcases eq_withoutSuffix_or s'.name with hplain' | hsuffixed'
      · rw [hplain, hplain']
        exact hbase
      · exact absurd (hbase ▸ hsuffixed') (hnot s hs s' hs' rfl hplain)
      · exact absurd hsuffixed (hnot s' hs' s hs hbase hplain')
      · rw [hsuffixed, hsuffixed']
        exact congrArg (· ++ "_t".toList) hbase

/-- A delegate is accounted for unless a later one takes its place, and all are if and only if no
documented name is declared with the suffix and without it. -/
theorem delegates_kept_iff (h : (ofText o name t).result = .ok m) :
    ∃ delegates, Signature.delegates (codeOf t) = .ok delegates ∧
      (∀ s ∈ delegates, DelegateAccounted name (ofText o name t).diagnostics m s ↔
        documentation? t s.base = none ∨
          (lastWith? Signature.base s.base delegates).map (·.name) = some s.name) ∧
      ((∀ s ∈ delegates, DelegateAccounted name (ofText o name t).diagnostics m s) ↔
        ∀ base, documentation? t base ≠ none → ¬ HasBoth delegates base) := by
  obtain ⟨index, declared, typed, placed, hstages⟩ := exists_stages h
  have haccounted : ∀ s ∈ declared.delegates,
      DelegateAccounted name (ofText o name t).diagnostics m s ↔
        (documentation? t s.base ≠ none →
          (lastWith? Signature.base s.base declared.delegates).map (·.name) = some s.name) := by
    intro s hs
    rw [DelegateAccounted, hstages.undocumentedDelegate_mem_iff hs]
    by_cases hdoc : documentation? t s.base = none
    · simp [hdoc]
    · simp [hdoc, hstages.exists_delegate_iff hdoc]
  refine ⟨declared.delegates, (Declarations.ofCode_eq_ok_iff.1 hstages.code).2.2.2,
    fun s hs => ?_, ?_⟩
  · rw [haccounted s hs, Classical.or_iff_not_imp_left]
  · rw [← forall_last_iff]
    exact forall₂_congr haccounted

/-- Two delegates whose names differ by the suffix. -/
def suffixHeader : Text :=
  "/** @name: ta_cb */\n".toList ++ "typedef void (*ta_cb_t) (void);\n".toList ++
  "typedef void (*ta_cb) (int n);\n".toList

def suffixDelegates : List Signature :=
  [⟨"ta_cb_t".toList, "void".toList, []⟩,
    ⟨"ta_cb".toList, "void".toList, [.named ⟨"n".toList, "int".toList, [], []⟩]⟩]

theorem delegates_suffixHeader :
    Signature.delegates (codeOf suffixHeader) = .ok suffixDelegates := by
  decide +kernel

theorem ofText_suffixHeader :
    (ofText ⟨none⟩ "a".toList suffixHeader).diagnostics = [] ∧
    ∃ m, (ofText ⟨none⟩ "a".toList suffixHeader).result = .ok m ∧
      m.delegates.entries.map (fun e => (e.1, e.2.cname)) = [("ta_cb".toList, "ta_cb".toList)] := by
  have hnames : StructType.names (codeOf suffixHeader) = [] := by
    rw [StructType.names_of_notMem (by decide +kernel)]
    decide +kernel
  have h : (ofText ⟨none⟩ "a".toList suffixHeader).diagnostics = [] ∧
      ∃ m ∈ (ofText ⟨none⟩ "a".toList suffixHeader).result.toOption,
        m.delegates.entries.map (fun e => (e.1, e.2.cname)) =
          [("ta_cb".toList, "ta_cb".toList)] := by
    rw [ofText, Declarations.ofCode, hnames]
    decide +kernel
  obtain ⟨hdiagnostics, m, hm, hentries⟩ := h
  exact ⟨hdiagnostics, m, Scan.result_eq_ok_of_mem hm, hentries⟩

/-- The second delegate is accounted for, and the first one is not. -/
theorem delegates_kept_iff_suffixHeader :
    ∃ m, (ofText ⟨none⟩ "a".toList suffixHeader).result = .ok m ∧
      Signature.delegates (codeOf suffixHeader) = .ok suffixDelegates ∧
      ∀ s ∈ suffixDelegates,
        DelegateAccounted "a".toList (ofText ⟨none⟩ "a".toList suffixHeader).diagnostics m s ↔
          s.name = "ta_cb".toList := by
  obtain ⟨-, m, hm, -⟩ := ofText_suffixHeader
  obtain ⟨delegates, hdelegates, haccounted, -⟩ := delegates_kept_iff hm
  obtain rfl := Except.ok.inj (delegates_suffixHeader.symm.trans hdelegates)
  refine ⟨m, hm, hdelegates, fun s hs => ?_⟩
  rw [haccounted s hs]
  revert s
  decide +kernel

/-- The first delegate is lost without a report. -/
theorem exists_delegate_lost :
    (ofText ⟨none⟩ "a".toList suffixHeader).diagnostics = [] ∧
    ∃ m delegates s, (ofText ⟨none⟩ "a".toList suffixHeader).result = .ok m ∧
      Signature.delegates (codeOf suffixHeader) = .ok delegates ∧ s ∈ delegates ∧
      ¬ DelegateAccounted "a".toList (ofText ⟨none⟩ "a".toList suffixHeader).diagnostics m s := by
  obtain ⟨hdiagnostics, m, hm, hentries⟩ := ofText_suffixHeader
  refine ⟨hdiagnostics, m, suffixDelegates, ⟨"ta_cb_t".toList, "void".toList, []⟩, hm,
    delegates_suffixHeader, List.mem_cons_self, ?_⟩
  rintro (hreport | ⟨e, he, hcname⟩)
  · rw [hdiagnostics] at hreport
    cases hreport
  · have hmem := List.mem_map_of_mem (f := fun e => (e.1, e.2.cname)) he
    rw [hentries, List.mem_singleton, hcname] at hmem
    have hname : "ta_cb_t".toList = "ta_cb".toList := congrArg Prod.snd hmem
    exact absurd hname (by decide)

end ApiModule

end HeaderApi
