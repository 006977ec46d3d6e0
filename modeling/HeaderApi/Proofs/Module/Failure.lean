import HeaderApi.Proofs.Module.Dependence
import HeaderApi.Proofs.Module.Types

/-!
# Scans that fail

A scan fails for three reasons only (`Failure`): a prototype or a delegate cannot be read, or a
function is documented for a class that the code does not have.  All struct types are registered
before the first function comes, and no function brings a key, so that a class is looked for among
the struct types of the code, wherever these stand (`ofText_eq_error_iff`).
-/

namespace HeaderApi

variable {o : ScanOptions} {index : DocIndex} {name : Text} {m m' : ApiModule} {s : Signature}
  {functions : List Signature} {declared : Declarations} {e : ScanError}

/-- The keys of the struct types in code, each where it comes first. -/
def ScanOptions.typeKeys (o : ScanOptions) (code : Text) : List Text :=
  ((StructType.names code).map o.keyOf).eraseDups

/-- A function is documented for a class, and no type has the key of this class. -/
def LacksClass (o : ScanOptions) (docs : Text → Option IndexedDoc) (keys : List Text)
    (s : Signature) (className : Text) : Prop :=
  ∃ d, docs s.name = some d ∧ d.name.owner = some className ∧ o.typeKey className ∉ keys

/-- What makes the scan of a header fail. -/
inductive Failure (o : ScanOptions) (t : Text) : ScanError → Prop where
  | prototypes {e : ScanError} (hprototypes : Signature.prototypes (codeOf t) = .error e) :
    Failure o t e
  | delegates {functions : List Signature} {e : ScanError}
    (hprototypes : Signature.prototypes (codeOf t) = .ok functions)
    (hdelegates : Signature.delegates (codeOf t) = .error e) : Failure o t e
  | unknownClass {before after delegates : List Signature} {s : Signature} {className : Text}
    (hprototypes : Signature.prototypes (codeOf t) = .ok (before ++ s :: after))
    (hdelegates : Signature.delegates (codeOf t) = .ok delegates)
    (hbefore : ∀ s' ∈ before, ¬ ∃ className,
      LacksClass o (documentation? t) (o.typeKeys (codeOf t)) s' className)
    (hlacks : LacksClass o (documentation? t) (o.typeKeys (codeOf t)) s className) :
    Failure o t (.unknownClass className s.name (o.typeKeys (codeOf t)))

namespace ApiModule

/-! ## Types -/

/-- No struct type makes a scan fail, and together they have the keys of their names. -/
theorem exists_types (o : ScanOptions) (index : DocIndex) (hm : m.types.keys = [])
    (cnames : List Text) : ∃ typed, (cnames.foldlM (addType o index) m).result = .ok typed ∧
      typed.types.keys = (cnames.map o.keyOf).eraseDups := by
  have hcnames : List.Forall₂ Eq cnames cnames := List.forall₂_same.2 fun _ _ => rfl
  have hstep : ∀ before cname cname' after m, cnames = before ++ cname' :: after →
      cname = cname' → m.types.keys = (before.map o.keyOf).eraseDups → ∃ m' notes,
        addType o index m cname = ⟨.ok m', [], notes⟩ ∧
          m'.types.keys = ((before ++ [cname']).map o.keyOf).eraseDups := by
    rintro before cname - after m - rfl hkeys
    refine ⟨_, _, rfl, ?_⟩
    rw [List.map_append, List.map_singleton, eraseDups_concat, OrderedMap.keys_insert, hkeys]
    simp only [List.mem_eraseDups, ScanOptions.keyOf]
    congr
  obtain ⟨typed, notes, hrun, hkeys⟩ := Scan.exists_foldlM (addType o index) (fun _ _ => [])
    (fun done m => m.types.keys = (done.map o.keyOf).eraseDups) hcnames hstep (by simpa using hm)
  exact ⟨typed, by rw [hrun], hkeys⟩

/-! ## Functions -/

theorem FunctionStep.keys_eq {ds : List Diagnostic} (h : FunctionStep o index m s m' ds) :
    m'.types.keys = m.types.keys := by
  cases h with
  | undocumented | free | reserved => rfl
  | attached hdoc howner hclass hname =>
    rw [OrderedMap.keys_insert, if_pos (OrderedMap.mem_keys_iff.2 (by simp [hclass]))]

/-- A function makes a scan fail if and only if it lacks its class, whatever its name in it is. -/
theorem addFunction_eq_error_iff : (addFunction o index m s).result = .error e ↔
    ∃ className, LacksClass o index.get? m.types.keys s className ∧
      e = .unknownClass className s.name m.types.keys := by
  unfold addFunction registerFunction LacksClass
  cases hdoc : index.get? s.name with
  | none => simp [Scan.report]
  | some d =>
    have hname : (documentFunction s d).name = d.name := rfl
    have hcname : (documentFunction s d).cname = s.name := rfl
    unfold place
    simp only [Scan.report, Scan.bind_ok, hname, hcname]
    cases howner : d.name.owner with
    | none => simp [howner]
    | some className =>
      cases hclass : m.types.get? (o.typeKey className) with
      | none =>
        have hkey : o.typeKey className ∉ m.types.keys := by simp [OrderedMap.mem_keys_iff, hclass]
        simp [howner, hclass, hkey, Scan.fail, eq_comm]
      | some owner =>
        have hkey : o.typeKey className ∈ m.types.keys := by simp [OrderedMap.mem_keys_iff, hclass]
        by_cases hreserved : d.name.name = reservedMethod
        · simp [howner, hclass, hkey, hreserved, Scan.note]
        · simp [howner, hclass, hkey, hreserved, attach_eq]

/-- Of the functions that lack their classes the first one makes a scan fail. -/
theorem functions_eq_error_iff : (functions.foldlM (addFunction o index) m).result = .error e ↔
    ∃ before s after, functions = before ++ s :: after ∧
      (∀ s' ∈ before, ¬ ∃ className, LacksClass o index.get? m.types.keys s' className) ∧
      ∃ className, LacksClass o index.get? m.types.keys s className ∧
        e = .unknownClass className s.name m.types.keys := by
  have hkeep : ∀ m₁ s m₂, m₁.types.keys = m.types.keys →
      (addFunction o index m₁ s).result = .ok m₂ → m₂.types.keys = m.types.keys :=
    fun _ _ _ hkeys h => (functionStep_of_ok h).keys_eq.trans hkeys
  have hfails : ∀ m₁ s e, m₁.types.keys = m.types.keys →
      ((addFunction o index m₁ s).result = .error e ↔
        ∃ className, LacksClass o index.get? m.types.keys s className ∧
          e = .unknownClass className s.name m.types.keys) := by
    intro m₁ s e hkeys
    rw [addFunction_eq_error_iff, hkeys]
  have hany : ∀ s, (∃ e className, LacksClass o index.get? m.types.keys s className ∧
      e = ScanError.unknownClass className s.name m.types.keys) ↔
        ∃ className, LacksClass o index.get? m.types.keys s className := by
    intro s
    rw [exists_comm]
    simp
  rw [Scan.foldlM_eq_error_iff hkeep hfails rfl]
  simp only [hany]

/-! ## Delegates -/

theorem delegates_ne_error (delegates : List Signature) (m : ApiModule) (e : ScanError) :
    (delegates.foldlM (addDelegate index) m).result ≠ .error e := by
  have hfails : ∀ m s e, True → ((addDelegate index m s).result = .error e ↔ False) := by
    intro m s e _
    unfold addDelegate registerDelegate
    dsimp only
    cases index.get? (withoutSuffix s.name) <;> simp [Scan.report]
  rw [Ne, Scan.foldlM_eq_error_iff (fun _ _ _ _ _ => trivial) hfails trivial]
  simp

/-! ## Whole scans -/

theorem addAll_eq_error_iff : (addAll o index name declared).result = .error e ↔
    ∃ before s after, declared.functions = before ++ s :: after ∧
      (∀ s' ∈ before, ¬ ∃ className, LacksClass o index.get?
        (declared.types.map o.keyOf).eraseDups s' className) ∧
      ∃ className,
        LacksClass o index.get? (declared.types.map o.keyOf).eraseDups s className ∧
        e = .unknownClass className s.name (declared.types.map o.keyOf).eraseDups := by
  obtain ⟨typed, htypes, hkeys⟩ := exists_types (m := { name, enums := declared.enums }) o index rfl
    declared.types
  rw [← hkeys, ← functions_eq_error_iff, addAll]
  simp only [Scan.bind_error_iff, htypes, delegates_ne_error]
  simp

/-- The scan of a header fails with an error if and only if the header has the reason for it. -/
theorem ofText_eq_error_iff (o : ScanOptions) (name t : Text) (e : ScanError) :
    (ofText o name t).result = .error e ↔ Failure o t e := by
  cases hcode : Declarations.ofCode (codeOf t) with
  | error e' =>
    rw [(ofText_of_error o name hcode).1]
    have hread := Declarations.ofCode_eq_error_iff.1 hcode
    constructor
    · intro h
      cases h
      rcases hread with hprototypes | ⟨functions, hprototypes, hdelegates⟩
      · exact .prototypes hprototypes
      · exact .delegates hprototypes hdelegates
    · intro h
      cases h <;> simp_all
  | ok declared =>
    obtain ⟨-, htypes, hprototypes, hdelegates⟩ := Declarations.ofCode_eq_ok_iff.1 hcode
    obtain ⟨index, hindex, hresult, -⟩ := exists_ofText_of_ok o name hcode
    have hdocs : index.get? = documentation? t := funext hindex
    rw [hresult, addAll_eq_error_iff, hdocs, htypes]
    constructor
    · rintro ⟨before, s, after, hfunctions, hbefore, className, hlacks, rfl⟩
      exact .unknownClass (hfunctions ▸ hprototypes) hdelegates hbefore hlacks
    · intro h
      cases h with
      | prototypes h | delegates _ h => simp_all
      | @unknownClass before after _ s className h _ hbefore hlacks =>
        have hfunctions : declared.functions = before ++ s :: after := by
          simpa [hprototypes] using h
        exact ⟨before, s, after, hfunctions, hbefore, className, hlacks, rfl⟩

/-- Two classes of one key and callbacks of two classes, of which one is not declared. -/
def callbackHeader : Text :=
  "/** @name: ta_iri::set_handler */\n".toList ++ "void ta_iri_set_handler (void);\n".toList ++
  "/** @name: ta_uri::set_handler */\n".toList ++ "void ta_uri_set_handler (void);\n".toList ++
  "/** @name: ta_nope::run */\n".toList ++ "void ta_nope_run (void);\n".toList ++
  "typedef struct _ta_iri ta_iri_t;\n".toList ++ "typedef struct _iri iri_t;\n".toList

/-- A reserved method makes a scan fail as well if its class is not declared. -/
theorem ofText_eq_error_iff_callbackHeader :
    Failure ⟨some "ta_".toList⟩ callbackHeader
      (.unknownClass "ta_uri".toList "ta_uri_set_handler".toList ["iri".toList]) := by
  have hnames : StructType.names (codeOf callbackHeader) = ["ta_iri_t".toList, "iri_t".toList] := by
    rw [StructType.names_of_notMem (by decide +kernel)]
    decide +kernel
  have hresult : (ofText ⟨some "ta_".toList⟩ "iri".toList callbackHeader).result.map
      (fun _ => ()) =
        .error (.unknownClass "ta_uri".toList "ta_uri_set_handler".toList ["iri".toList]) := by
    rw [ofText, Declarations.ofCode, hnames]
    decide +kernel
  exact (ofText_eq_error_iff _ "iri".toList _ _).1 (Scan.result_eq_error_of_map hresult)

end ApiModule

end HeaderApi
