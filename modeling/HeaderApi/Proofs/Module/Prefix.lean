import HeaderApi.Proofs.Module.Step

/-!
# Headers scanned with a library prefix

A library prefix is left out of the keys of the types, and of the names of classes where these are
looked up.  As long as no two types get one key, a scan with it goes step by step as the scan
without it, and gives the same but for these keys (`ofText_libPrefix`).
-/

namespace HeaderApi

variable {index : DocIndex} {lead name t : Text} {names : List Text} {m m' : ApiModule}

/-- The library prefix leaves different names different. -/
def ScanOptions.Separates (o : ScanOptions) (names : List Text) : Prop :=
  ∀ a ∈ names, ∀ b ∈ names, o.typeKey a = o.typeKey b → a = b

/-- The second module is the first one with the keys of its types formed by `o`. -/
structure ApiModule.Rekeyed (o : ScanOptions) (names : List Text) (m m' : ApiModule) : Prop where
  types : OrderedMap.Translates o.typeKey id m.types m'.types
  rest : m' = { m with types := m'.types }
  keys : ∀ key ∈ m.types.keys, key ∈ names

namespace ApiModule.Rekeyed

variable {o : ScanOptions} (hnames : o.Separates names)

include hnames

theorem get?_types (h : Rekeyed o names m m') {key : Text} (hkey : key ∈ names) :
    m'.types.get? (o.typeKey key) = m.types.get? key := by
  rw [h.types.get? fun key' hkey' => hnames key' (h.keys key' hkey') key hkey, Option.map_id, id]

theorem insertType (h : Rekeyed o names m m') {key : Text} (hkey : key ∈ names)
    (entry : ClassEntry) :
    Rekeyed o names { m with types := m.types.insert key entry }
      { m' with types := m'.types.insert (o.typeKey key) entry } := by
  refine ⟨h.types.insert (fun key' hkey' => hnames key' (h.keys key' hkey') key hkey) entry, ?_, ?_⟩
  · rw [h.rest]
  · intro key' hkey'
    rw [OrderedMap.keys_insert] at hkey'
    split at hkey'
    · exact h.keys key' hkey'
    · rcases List.mem_append.1 hkey' with hmem | hmem
      · exact h.keys key' hmem
      · exact List.mem_singleton.1 hmem ▸ hkey

theorem follows_addType (h : Rekeyed o names m m') {cname : Text}
    (hname : withoutSuffix cname ∈ names) :
    Scan.Follows (Rekeyed o names) id (addType ⟨none⟩ index m cname)
      (addType o index m' cname) := by
  unfold addType registerType
  refine (Scan.follows_note _ _).bind fun _ _ _ => Scan.follows_pure ?_
  exact h.insertType hnames hname _

theorem follows_place (h : Rekeyed o names m m') (f : FunctionEntry) :
    Scan.Follows (Rekeyed o names) id (place ⟨none⟩ m f) (place o m' f) := by
  unfold place
  cases f.name.owner with
  | none =>
    apply Scan.follows_pure
    exact ⟨h.types, by rw [h.rest], h.keys⟩
  | some className =>
    have hkey : ScanOptions.typeKey ⟨none⟩ className = className := rfl
    dsimp only
    rw [hkey]
    cases hclass : m.types.get? className with
    | none =>
      -- The first scan ends here without a result.
      exact Scan.follows_fail _ _
    | some owner =>
      have hmem : className ∈ names :=
        h.keys className (List.mem_map_of_mem (OrderedMap.mem_of_get? hclass))
      rw [h.get?_types hnames hmem, hclass]
      dsimp only
      split
      · exact (Scan.follows_note _ _).bind fun _ _ _ => Scan.follows_pure h
      · refine (Scan.follows_self _).bind fun owner' _ howner => Scan.follows_pure ?_
        rw [← howner.1]
        exact h.insertType hnames hmem owner'

theorem follows_addFunction (h : Rekeyed o names m m') (s : Signature) :
    Scan.Follows (Rekeyed o names) id (addFunction ⟨none⟩ index m s)
      (addFunction o index m' s) := by
  unfold addFunction registerFunction
  cases index.get? s.name with
  | none => exact (Scan.follows_self _).bind fun _ _ _ => Scan.follows_pure h
  | some d => exact (Scan.follows_self _).bind fun _ _ _ => h.follows_place hnames _

omit hnames in
theorem follows_addDelegate (h : Rekeyed o names m m') (s : Signature) :
    Scan.Follows (Rekeyed o names) id (addDelegate index m s) (addDelegate index m' s) := by
  have hname : m'.name = m.name := by rw [h.rest]
  unfold addDelegate registerDelegate
  dsimp only
  cases index.get? (withoutSuffix s.name) with
  | none =>
    rw [hname]
    exact (Scan.follows_self _).bind fun _ _ _ => Scan.follows_pure h
  | some d =>
    refine (Scan.follows_self _).bind fun _ _ _ => Scan.follows_pure ?_
    exact ⟨h.types, by rw [h.rest], h.keys⟩

end ApiModule.Rekeyed

namespace ApiModule

theorem follows_ofText {o : ScanOptions}
    (hnames : o.Separates ((StructType.names (codeOf t)).map withoutSuffix)) :
    Scan.Follows (Rekeyed o ((StructType.names (codeOf t)).map withoutSuffix)) id
      (ofText ⟨none⟩ name t) (ofText o name t) := by
  simp only [ofText_eq, addAll, bind_assoc]
  refine (Scan.follows_self _).bind fun index _ hindex => ?_
  refine (Scan.follows_self _).bind fun declared _ hdeclared => ?_
  obtain ⟨rfl, -⟩ := hindex
  obtain ⟨rfl, hdeclared⟩ := hdeclared
  have hmem : ∀ cname ∈ declared.types,
      withoutSuffix cname ∈ (StructType.names (codeOf t)).map withoutSuffix := by
    intro cname hcname
    rw [(Declarations.ofCode_eq_ok_iff.1 hdeclared).2.1] at hcname
    exact List.mem_map_of_mem hcname
  have hstart : Rekeyed o ((StructType.names (codeOf t)).map withoutSuffix)
      { name, enums := declared.enums } { name, enums := declared.enums } :=
    ⟨rfl, rfl, fun _ hkey => absurd hkey List.not_mem_nil⟩
  refine (Scan.Follows.foldlM_same (fun cname hcname _ _ h =>
    h.follows_addType hnames (hmem cname hcname)) hstart).bind fun m m' hm => ?_
  refine (Scan.Follows.foldlM_same (fun s _ _ _ h =>
    h.follows_addFunction hnames s) hm).bind fun m m' hm => ?_
  refine (Scan.Follows.foldlM_same (fun s _ _ _ h =>
    h.follows_addDelegate s) hm).bind fun m m' hm => ?_
  refine (Scan.follows_self _).bind fun _ _ _ => ?_
  exact (Scan.follows_note _ _).bind fun _ _ _ => Scan.follows_pure hm

/-- A library prefix is left out of the keys of the types, and nothing else changes, as long as it
leaves different names different. -/
theorem ofText_libPrefix (hnames : ScanOptions.Separates ⟨some lead⟩
      ((StructType.names (codeOf t)).map withoutSuffix))
    (h : (ofText ⟨none⟩ name t).result = .ok m) :
    ∃ types, (ofText ⟨some lead⟩ name t).result = .ok { m with types } ∧
      (ofText ⟨some lead⟩ name t).diagnostics = (ofText ⟨none⟩ name t).diagnostics ∧
      types.entries = m.types.entries.map fun e => ((Text.after? lead e.1).getD e.1, e.2) := by
  obtain ⟨m', hresult, hreports, hm⟩ := follows_ofText hnames m h
  rw [List.map_id] at hreports
  exact ⟨m'.types, hm.rest ▸ hresult, hreports, hm.types⟩

theorem exists_ofText_addressHeader_of_none :
    ∃ m, (ofText ⟨none⟩ "iri".toList addressHeader).result = .ok m ∧
      m.types.keys = ["ta_iri".toList] ∧ m.functions.map (·.cname) = ["ta_log".toList] := by
  have h : ∃ m ∈ (ofText ⟨none⟩ "iri".toList addressHeader).result.toOption,
      m.types.keys = ["ta_iri".toList] ∧ m.functions.map (·.cname) = ["ta_log".toList] := by
    rw [ofText, Declarations.ofCode, names_addressHeader]
    decide +kernel
  obtain ⟨m, hm, hsummary⟩ := h
  exact ⟨m, Scan.result_eq_ok_of_mem hm, hsummary⟩

/-- The functions of the class find it under its shorter key. -/
theorem ofText_libPrefix_addressHeader :
    ScanOptions.Separates ⟨some "ta_".toList⟩
      ((StructType.names (codeOf addressHeader)).map withoutSuffix) ∧
    ∃ m m', (ofText ⟨none⟩ "iri".toList addressHeader).result = .ok m ∧
      (ofText ⟨some "ta_".toList⟩ "iri".toList addressHeader).result = .ok m' ∧
      m.types.keys = ["ta_iri".toList] ∧ m'.types.keys = ["iri".toList] ∧
      m'.types.values = m.types.values ∧ m'.functions.map (·.cname) = ["ta_log".toList] := by
  have hnames : ScanOptions.Separates ⟨some "ta_".toList⟩
      ((StructType.names (codeOf addressHeader)).map withoutSuffix) := by
    rw [names_addressHeader, ScanOptions.Separates]
    decide +kernel
  obtain ⟨m, hm, hkeys, hfunctions⟩ := exists_ofText_addressHeader_of_none
  obtain ⟨types, hm', -, hentries⟩ := ofText_libPrefix hnames hm
  refine ⟨hnames, m, _, hm, hm', hkeys, ?_, ?_, hfunctions⟩
  · have hstripped : types.keys = m.types.keys.map fun key =>
        (Text.after? "ta_".toList key).getD key := by
      rw [OrderedMap.keys, hentries, OrderedMap.keys, List.map_map, List.map_map]
      rfl
    rw [hstripped, hkeys]
    rfl
  · rw [OrderedMap.values, hentries, OrderedMap.values, List.map_map]
    rfl

end ApiModule

end HeaderApi
