import HeaderApi.Proofs.Declaration.Locality
import HeaderApi.Proofs.Module.Step
import HeaderApi.Proofs.OrderedMap

/-!
# Which struct types are kept

A struct type is registered under a key made of its name, and the last one of a key counts
(`Registers.existsUnique_iff`).  So all struct types of the code are kept if and only if their keys
are distinct.  They are when no prefix is left out (`nodup_keys_of_libPrefix`); with a prefix, two
names may have one key.
-/

namespace HeaderApi

variable {o : ScanOptions} {index : DocIndex} {name t cname key : Text} {m m' : ApiModule}
  {s : Signature} {ds : List Diagnostic} {cnames : List Text}

/-- The key under which a struct type is registered. -/
def ScanOptions.keyOf (o : ScanOptions) (cname : Text) : Text := o.typeKey (withoutSuffix cname)

namespace StructType

theorem exists_of_mem_names (h : cname ∈ names t) : ∃ base, cname = base ++ "_t".toList := by
  have hnames : ∀ {p : Pattern} {c : Cut}, c ∈ namesBy p t →
      ∃ s texts, p.Spells s texts ∧ texts.head? = some c.text := by
    intro p c hc
    obtain ⟨cuts, hcuts, hhead⟩ := List.mem_filterMap.1 hc
    obtain ⟨a, s, rest, -, -, hm⟩ := Pattern.exists_matches_of_mem_captures hcuts
    obtain ⟨s', -, hs'⟩ := Pattern.spells_of_matches hm
    exact ⟨s', _, hs', by rw [List.head?_map, hhead]; rfl⟩
  rw [names, List.mem_eraseDups, List.mem_map] at h
  obtain ⟨c, hc, rfl⟩ := h
  rcases List.mem_merge.1 hc with hforward | hbody
  · obtain ⟨s, texts, hs, hhead⟩ := hnames hforward
    obtain ⟨w, n, g, -, -, -, -, rfl⟩ := spells_forwardPattern.1 hs
    exact ⟨n, (Option.some.inj hhead).symm⟩
  · obtain ⟨s, texts, hs, hhead⟩ := hnames hbody
    obtain ⟨front, body, g, n, g', -, -, -, -, -, -, rfl⟩ := spells_bodyPattern.1 hs
    exact ⟨n, (Option.some.inj hhead).symm⟩

theorem nodup_names (t : Text) : (names t).Nodup := nodup_eraseDups _

end StructType

/-- Without a prefix, different struct types have different keys. -/
theorem nodup_keys_of_libPrefix (ho : o.libPrefix = none) (t : Text) :
    ((StructType.names t).map o.keyOf).Nodup := by
  refine List.Nodup.map_on (fun a ha b hb h => ?_) (StructType.nodup_names t)
  obtain ⟨a, rfl⟩ := StructType.exists_of_mem_names ha
  obtain ⟨b, rfl⟩ := StructType.exists_of_mem_names hb
  simp only [ScanOptions.keyOf, ScanOptions.typeKey, ho, Option.bind_none, Option.getD_none,
    withoutSuffix_append] at h
  rw [h]

namespace ApiModule

/-! ## Steps -/

/-- Each class is the last struct type of its key. -/
def Registers (o : ScanOptions) (cnames : List Text) (m : ApiModule) : Prop :=
  ∀ key, (m.types.get? key).map (·.cname) = lastWith? o.keyOf key cnames

theorem Registers.addType (hm : m.Registers o cnames)
    (h : (addType o index m cname).result = .ok m') : m'.Registers o (cnames ++ [cname]) := by
  cases h
  intro key
  rw [lastWith?_concat, ← hm key]
  simp only [OrderedMap.get?_insert]
  split
  · next hkey => exact (if_pos hkey).symm
  · next hkey => exact (if_neg hkey).symm

theorem Registers.functionStep (hm : m.Registers o cnames) (h : FunctionStep o index m s m' ds) :
    m'.Registers o cnames := by
  cases h with
  | undocumented | free | reserved => exact hm
  | @attached d className owner hdoc howner hclass hname =>
    intro key
    rw [← hm key]
    simp only [OrderedMap.get?_insert]
    split
    · next hkey =>
      rw [← hkey, hclass, Option.map_some, Option.map_some, ClassEntry.cname_attached]
    · rfl

theorem Registers.delegateStep (hm : m.Registers o cnames) (h : DelegateStep index m s m' ds) :
    m'.Registers o cnames := by
  cases h with
  | undocumented | documented => exact hm

/-! ## Scans -/

/-- A struct type is kept in one place if it is the last one of its key, and else it is lost. -/
theorem Registers.existsUnique_iff (hm : m.Registers o cnames) :
    (∃! e, e ∈ m.types.entries ∧ e.2.cname = cname) ↔
      lastWith? o.keyOf (o.keyOf cname) cnames = some cname := by
  have hentry : ∀ e ∈ m.types.entries, lastWith? o.keyOf e.1 cnames = some e.2.cname := by
    intro e he
    rw [← hm e.1, OrderedMap.get?_of_mem he, Option.map_some]
  constructor
  · rintro ⟨e, ⟨he, rfl⟩, -⟩
    rw [key_of_lastWith? (hentry e he), hentry e he]
  · intro h
    rw [← hm] at h
    obtain ⟨c, hc, rfl⟩ := Option.map_eq_some_iff.1 h
    refine ⟨_, ⟨OrderedMap.mem_of_get? hc, rfl⟩, ?_⟩
    rintro ⟨key, c'⟩ ⟨he, hcname⟩
    have hkey : o.keyOf c.cname = key := hcname ▸ key_of_lastWith? (hentry _ he)
    rw [hkey, OrderedMap.get?_of_mem he] at hc
    rw [hkey, Option.some.inj hc]

/-- A class has the key of its struct type. -/
theorem Registers.keyOf_cname (hm : m.Registers o cnames) {c : ClassEntry}
    (h : m.types.get? key = some c) : o.keyOf c.cname = key := by
  have hlast := hm key
  rw [h, Option.map_some] at hlast
  exact key_of_lastWith? hlast.symm

theorem Stages.registers_typed {declared : Declarations} {typed placed : ApiModule}
    (hstages : Stages o name t index declared typed placed m) :
    typed.Registers o declared.types :=
  Scan.foldlM_induction (fun done m _ => m.Registers o done) hstages.types (fun _ => rfl)
    fun _ _ _ _ _ hm h => hm.addType h

theorem registers_of_ofText (h : (ofText o name t).result = .ok m) :
    m.Registers o (StructType.names (codeOf t)) := by
  obtain ⟨index, declared, typed, placed, hstages⟩ := exists_stages h
  rw [← (Declarations.ofCode_eq_ok_iff.1 hstages.code).2.1]
  have hplaced : placed.Registers o declared.types :=
    Scan.foldlM_induction (fun _ m _ => m.Registers o declared.types) hstages.functions
      hstages.registers_typed fun _ _ _ _ _ hm h => hm.functionStep (functionStep_of_ok h)
  exact Scan.foldlM_induction (fun _ m _ => m.Registers o declared.types) hstages.delegates hplaced
    fun _ _ _ _ _ hm h => hm.delegateStep (delegateStep_of_ok h)

/-- A struct type is kept unless a later one has the same key, and all are kept if and only if
their keys are distinct, as they are without a prefix. -/
theorem types_kept_iff (h : (ofText o name t).result = .ok m) :
    (∀ cname, (∃! e, e ∈ m.types.entries ∧ e.2.cname = cname) ↔
      lastWith? o.keyOf (o.keyOf cname) (StructType.names (codeOf t)) = some cname) ∧
    ((∀ cname ∈ StructType.names (codeOf t), ∃! e, e ∈ m.types.entries ∧ e.2.cname = cname) ↔
      ((StructType.names (codeOf t)).map o.keyOf).Nodup) ∧
    (o.libPrefix = none → ∀ cname ∈ StructType.names (codeOf t),
      ∃! e, e ∈ m.types.entries ∧ e.2.cname = cname) := by
  have hm := registers_of_ofText h
  have hall : (∀ cname ∈ StructType.names (codeOf t),
      ∃! e, e ∈ m.types.entries ∧ e.2.cname = cname) ↔
      ((StructType.names (codeOf t)).map o.keyOf).Nodup := by
    simp only [hm.existsUnique_iff]
    exact forall_lastWith?_iff (StructType.nodup_names _)
  exact ⟨fun _ => hm.existsUnique_iff, hall, fun ho => hall.2 (nodup_keys_of_libPrefix ho _)⟩

/-- Two struct types whose names differ by the prefix `ta_`. -/
def prefixHeader : Text :=
  "typedef struct _a ta_x_t;\n".toList ++ "typedef struct _b x_t;\n".toList

theorem names_prefixHeader :
    StructType.names (codeOf prefixHeader) = ["ta_x_t".toList, "x_t".toList] := by
  rw [StructType.names_of_notMem (by decide +kernel)]
  decide +kernel

/-- Without a prefix, both struct types are kept. -/
theorem types_kept_iff_prefixHeader :
    ∃ m, (ofText ⟨none⟩ "a".toList prefixHeader).result = .ok m ∧
      m.types.keys = ["ta_x".toList, "x".toList] ∧
      ∀ cname ∈ ["ta_x_t".toList, "x_t".toList],
        ∃! e, e ∈ m.types.entries ∧ e.2.cname = cname := by
  have h : ∃ m ∈ (ofText ⟨none⟩ "a".toList prefixHeader).result.toOption,
      m.types.keys = ["ta_x".toList, "x".toList] := by
    rw [ofText, Declarations.ofCode, names_prefixHeader]
    decide +kernel
  obtain ⟨m, hm, hkeys⟩ := h
  have hm := Scan.result_eq_ok_of_mem hm
  exact ⟨m, hm, hkeys, names_prefixHeader ▸ (types_kept_iff hm).2.2 rfl⟩

/-- If the prefix is left out, both have the key `x`, and the first one is lost without a report. -/
theorem exists_type_lost :
    "ta_x_t".toList ∈ StructType.names (codeOf prefixHeader) ∧
    (ofText ⟨some "ta_".toList⟩ "a".toList prefixHeader).diagnostics = [] ∧
    ∃ m, (ofText ⟨some "ta_".toList⟩ "a".toList prefixHeader).result = .ok m ∧
      ¬ ∃! e, e ∈ m.types.entries ∧ e.2.cname = "ta_x_t".toList := by
  have hdiagnostics : (ofText ⟨some "ta_".toList⟩ "a".toList prefixHeader).diagnostics = [] := by
    rw [ofText, Declarations.ofCode, names_prefixHeader]
    decide +kernel
  have h : ∃ m ∈ (ofText ⟨some "ta_".toList⟩ "a".toList prefixHeader).result.toOption,
      ∀ e ∈ m.types.entries, e.2.cname ≠ "ta_x_t".toList := by
    rw [ofText, Declarations.ofCode, names_prefixHeader]
    decide +kernel
  obtain ⟨m, hm, hlost⟩ := h
  refine ⟨by rw [names_prefixHeader]; decide, hdiagnostics, m, Scan.result_eq_ok_of_mem hm, ?_⟩
  rintro ⟨e, ⟨he, hcname⟩, -⟩
  exact hlost e he hcname

end ApiModule

end HeaderApi
