import HeaderApi.Proofs.Module.Delegates
import HeaderApi.Proofs.Module.Types

/-!
# Constructors and destructors

A class has a slot for a constructor and one for a destructor.  The functions that go to a slot hold
it one after the other: the last one keeps it, and each one before is reported together with the one
that follows it (`slots_history`).
-/

namespace HeaderApi

/-- A place of a class that holds one function at most. -/
inductive Slot where
  | constructor
  | destructor
deriving DecidableEq

/-- A class gave up a function for another one. -/
structure Replacement where
  owner : Text
  previous : Text
  current : Text
deriving DecidableEq

namespace Replacement

/-- The replacements in a slot that some functions hold one after the other. -/
def chain (owner : Text) (names : List Text) : List Replacement :=
  List.zipWith (Replacement.mk owner) names names.tail

/-- Whether a replacement is about a class or about one of some functions. -/
def concerns (owner : Text) (names : List Text) (r : Replacement) : Bool :=
  r.owner == owner || names.contains r.previous || names.contains r.current

variable {owner : Text} {names : List Text} {r : Replacement}

theorem chain_concat (owner : Text) (names : List Text) (current : Text) :
    chain owner (names ++ [current]) =
      chain owner names ++ (names.getLast?.map (⟨owner, ·, current⟩)).toList := by
  induction names with
  | nil => rfl
  | cons first names ih =>
    cases names with
    | nil => rfl
    | cons second names =>
      have hcons : ∀ names, chain owner (first :: second :: names) =
          ⟨owner, first, second⟩ :: chain owner (second :: names) := fun _ => rfl
      rw [List.cons_append] at ih
      rw [List.cons_append, List.cons_append, hcons, hcons, ih, List.getLast?_cons_cons,
        List.cons_append]

theorem concerns_iff : r.concerns owner names = true ↔
    r.owner = owner ∨ r.previous ∈ names ∨ r.current ∈ names := by
  rw [concerns, Bool.or_eq_true, Bool.or_eq_true, beq_iff_eq, List.contains_iff_mem,
    List.contains_iff_mem, or_assoc]

theorem mem_of_mem_chain (h : r ∈ chain owner names) :
    r.owner = owner ∧ r.previous ∈ names ∧ r.current ∈ names := by
  obtain ⟨i, hi, rfl⟩ := List.mem_iff_getElem.1 h
  simp only [chain, List.getElem_zipWith]
  exact ⟨trivial, List.getElem_mem _, List.mem_of_mem_tail (List.getElem_mem _)⟩

end Replacement

namespace Slot

def kind : Slot → FunctionKind
  | .constructor => .constructor
  | .destructor => .destructor

/-- The `@type` of the functions that go to the slot. -/
def docKind : Slot → DocKind
  | .constructor => .constructor
  | .destructor => .destructor

def function? : Slot → ClassEntry → Option FunctionEntry
  | .constructor => ClassEntry.constructor
  | .destructor => ClassEntry.destructor

/-- What a report says about the slot. -/
def replacement? : Slot → Diagnostic → Option Replacement
  | .constructor, .duplicateConstructor owner previous current => some ⟨owner, previous, current⟩
  | .destructor, .duplicateDestructor owner previous current => some ⟨owner, previous, current⟩
  | _, _ => none

/-- Whether a function of the code goes to the slot of the class with a key. -/
def takes (slot : Slot) (o : ScanOptions) (t key : Text) (s : Signature) : Bool :=
  (documentation? t s.name).any fun d =>
    d.doc.kind = some slot.docKind ∧ d.name.owner.map o.typeKey = some key ∧
      d.name.name ≠ ApiModule.reservedMethod

/-- The functions that go to the slot, in the order of the code. -/
def names (slot : Slot) (o : ScanOptions) (t key : Text) (signatures : List Signature) :
    List Text :=
  (signatures.filter (slot.takes o t key)).map (·.name)

/-- The class with a key, and the function in its slot. -/
def held? (slot : Slot) (m : ApiModule) (key : Text) : Option (Text × Option FunctionEntry) :=
  (m.types.get? key).map fun c => (c.cname, slot.function? c)

variable {slot : Slot} {o : ScanOptions} {index : DocIndex} {t key key' a cname : Text}
  {m m' : ApiModule} {s : Signature} {signatures done : List Signature} {d : IndexedDoc}
  {ds ds' : List Diagnostic} {f : Option FunctionEntry}

/-! ## Functions that go to a slot -/

theorem ofDoc_eq_kind_iff {k : Option DocKind} :
    FunctionKind.ofDoc k = slot.kind ↔ k = some slot.docKind := by
  rcases k with _ | k
  · cases slot <;> simp [FunctionKind.ofDoc, kind, docKind]
  · cases slot <;> cases k <;> simp [FunctionKind.ofDoc, kind, docKind]

theorem takes_of_none (h : documentation? t s.name = none) (key : Text) :
    slot.takes o t key s = false := by
  rw [takes, h, Option.any_none]

theorem takes_iff (h : documentation? t s.name = some d) (key : Text) :
    slot.takes o t key s = true ↔ (ApiModule.documentFunction s d).kind = slot.kind ∧
      d.name.owner.map o.typeKey = some key ∧ d.name.name ≠ ApiModule.reservedMethod := by
  rw [takes, h, Option.any_some, decide_eq_true_iff, ApiModule.documentFunction, ofDoc_eq_kind_iff]

theorem names_concat (slot : Slot) (o : ScanOptions) (t key : Text) (signatures : List Signature)
    (s : Signature) : slot.names o t key (signatures ++ [s]) =
      slot.names o t key signatures ++ if slot.takes o t key s then [s.name] else [] := by
  rw [names, List.filter_append, List.map_append, names]
  cases h : slot.takes o t key s <;> simp [h]

/-- A function goes to one class. -/
theorem key_unique (h : a ∈ slot.names o t key signatures)
    (h' : a ∈ slot.names o t key' signatures) : key = key' := by
  obtain ⟨s, hs, rfl⟩ := List.mem_map.1 h
  obtain ⟨s', hs', hname⟩ := List.mem_map.1 h'
  have htakes := (List.mem_filter.1 hs).2
  have htakes' := (List.mem_filter.1 hs').2
  cases hdoc : documentation? t s.name with
  | none =>
    rw [takes_of_none hdoc] at htakes
    cases htakes
  | some d =>
    have howner := ((takes_iff hdoc key).1 htakes).2.1
    rw [((takes_iff (hname ▸ hdoc) key').1 htakes').2.1] at howner
    exact (Option.some.inj howner).symm

/-! ## Classes -/

theorem function?_attached (slot : Slot) (c : ClassEntry) (f : FunctionEntry) :
    slot.function? (c.attached f) = if f.kind = slot.kind then some f else slot.function? c := by
  cases slot <;> cases hkind : f.kind <;> simp [function?, kind, ClassEntry.attached, hkind]

theorem filterMap_replaced (slot : Slot) (c : ClassEntry) (f : FunctionEntry) :
    (c.replaced f).filterMap slot.replacement? =
      if f.kind = slot.kind then
        ((slot.function? c).map fun previous => ⟨c.cname, previous.cname, f.cname⟩).toList
      else [] := by
  cases slot with
  | constructor =>
    cases hkind : f.kind <;> cases hheld : c.constructor <;>
      simp [function?, kind, replacement?, ClassEntry.replaced, hkind, hheld]
  | destructor =>
    cases hkind : f.kind <;> cases hheld : c.destructor <;>
      simp [function?, kind, replacement?, ClassEntry.replaced, hkind, hheld]

theorem held?_insert_attached (slot : Slot) (m : ApiModule) (key key' : Text) (c : ClassEntry)
    (f : FunctionEntry) :
    slot.held? { m with types := m.types.insert key (c.attached f) } key' =
      if key = key' then
        some (c.cname, if f.kind = slot.kind then some f else slot.function? c)
      else slot.held? m key' := by
  simp only [held?, OrderedMap.get?_insert]
  split
  · rw [Option.map_some, ClassEntry.cname_attached, function?_attached]
  · rfl

/-! ## Steps -/

/-- What a function of the code can do to the slots of all classes, and what is reported. -/
inductive Step (slot : Slot) (o : ScanOptions) (t : Text) (m : ApiModule) (s : Signature)
    (m' : ApiModule) (rs : List Replacement) : Prop where
  | kept (htakes : ∀ key, slot.takes o t key s = false)
    (hheld : ∀ key, slot.held? m' key = slot.held? m key) (hreports : rs = [])
  | taken {key cname : Text} {previous : Option FunctionEntry} {f : FunctionEntry}
    (htakes : ∀ key', slot.takes o t key' s = decide (key = key')) (hcname : f.cname = s.name)
    (hclass : slot.held? m key = some (cname, previous))
    (hheld : ∀ key', slot.held? m' key' =
      if key = key' then some (cname, some f) else slot.held? m key')
    (hreports : rs = (previous.map fun p => ⟨cname, p.cname, s.name⟩).toList)

section FunctionStep

variable (hindex : ∀ symbol, index.get? symbol = documentation? t symbol)

include hindex

theorem step_of_functionStep (h : ApiModule.FunctionStep o index m s m' ds) (slot : Slot) :
    slot.Step o t m s m' (ds.filterMap slot.replacement?) := by
  have hunknown : ∀ d : IndexedDoc,
      (ApiModule.unknownParams s d.doc).filterMap slot.replacement? = [] := fun d =>
    ApiModule.filterMap_unknownParams_eq_nil (fun _ _ => by cases slot <;> rfl) s d.doc
  cases h with
  | undocumented hdoc =>
    refine .kept (takes_of_none (hindex _ ▸ hdoc)) (fun _ => rfl) ?_
    cases slot <;> rfl
  | @free d hdoc howner =>
    refine .kept (fun key => ?_) (fun _ => rfl) (hunknown d)
    rw [Bool.eq_false_iff, Ne, takes_iff (hindex _ ▸ hdoc), howner]
    rintro ⟨-, hkey, -⟩
    cases hkey
  | @reserved d className owner hdoc howner hclass hname =>
    refine .kept (fun key => ?_) (fun _ => rfl) (hunknown d)
    rw [Bool.eq_false_iff, Ne, takes_iff (hindex _ ▸ hdoc)]
    exact fun htakes => htakes.2.2 hname
  | @attached d className owner hdoc howner hclass hname =>
    have hdoc' : documentation? t s.name = some d := hindex _ ▸ hdoc
    have hclass' : slot.held? m (o.typeKey className) =
        some (owner.cname, slot.function? owner) := by
      rw [held?, hclass, Option.map_some]
    rw [List.filterMap_append, hunknown, filterMap_replaced, List.nil_append]
    by_cases hkind : (ApiModule.documentFunction s d).kind = slot.kind
    · have htakes : ∀ key, slot.takes o t key s = decide (o.typeKey className = key) := by
        intro key
        rw [Bool.eq_iff_iff, takes_iff hdoc', howner, decide_eq_true_iff, Option.map_some,
          Option.some_inj]
        exact ⟨fun htakes => htakes.2.1, fun hkey => ⟨hkind, hkey, hname⟩⟩
      rw [if_pos hkind]
      refine .taken (f := ApiModule.documentFunction s d) htakes rfl hclass' (fun key => ?_) rfl
      rw [held?_insert_attached, if_pos hkind]
    · rw [if_neg hkind]
      refine .kept (fun key => ?_) (fun key => ?_) rfl
      · rw [Bool.eq_false_iff, Ne, takes_iff hdoc']
        exact fun htakes => hkind htakes.1
      · rw [held?_insert_attached, if_neg hkind]
        split
        next hkey => rw [← hkey, hclass']
        next => rfl

end FunctionStep

/-! ## Histories -/

/-- The slot of each class has been held by the functions that go to it, one after the other. -/
structure History (slot : Slot) (o : ScanOptions) (t : Text) (signatures : List Signature)
    (rs : List Replacement) (m : ApiModule) : Prop where
  last : ∀ key cname f, slot.held? m key = some (cname, f) →
    f.map (·.cname) = (slot.names o t key signatures).getLast?
  chain : ∀ key cname f, slot.held? m key = some (cname, f) →
    rs.filter (·.owner = cname) = Replacement.chain cname (slot.names o t key signatures)
  owner : ∀ r ∈ rs, ∃ key f, slot.held? m key = some (r.owner, f)

variable {rs rs' : List Replacement}

namespace History

/-- A function that goes to no slot adds nothing to the histories. -/
theorem kept (hm : slot.History o t done rs m) (htakes : ∀ key, slot.takes o t key s = false)
    (hheld : ∀ key, slot.held? m' key = slot.held? m key) :
    slot.History o t (done ++ [s]) rs m' := by
  have hnames : ∀ key, slot.names o t key (done ++ [s]) = slot.names o t key done := by
    intro key
    rw [names_concat, htakes, if_neg Bool.false_ne_true, List.append_nil]
  constructor
  · simpa only [hheld, hnames] using hm.last
  · simpa only [hheld, hnames] using hm.chain
  · simpa only [hheld] using hm.owner

/-- A function that goes to the slot of a class follows the one that has held it. -/
theorem taken {previous : Option FunctionEntry} {f : FunctionEntry}
    (hm : slot.History o t done rs m)
    (hkeys : ∀ key cname f, slot.held? m key = some (cname, f) → o.keyOf cname = key)
    (htakes : ∀ key', slot.takes o t key' s = decide (key = key')) (hcname : f.cname = s.name)
    (hclass : slot.held? m key = some (cname, previous))
    (hheld : ∀ key', slot.held? m' key' =
      if key = key' then some (cname, some f) else slot.held? m key') :
    slot.History o t (done ++ [s])
      (rs ++ (previous.map fun p => ⟨cname, p.cname, s.name⟩).toList) m' := by
  have hnames : slot.names o t key (done ++ [s]) = slot.names o t key done ++ [s.name] := by
    rw [names_concat, htakes, if_pos (decide_eq_true rfl)]
  have hnames' : ∀ {key'}, key ≠ key' →
      slot.names o t key' (done ++ [s]) = slot.names o t key' done := by
    intro key' hkey
    rw [names_concat, htakes, if_neg (by simpa using hkey), List.append_nil]
  have howner : ∀ r ∈ (previous.map fun p => Replacement.mk cname p.cname s.name).toList,
      r.owner = cname := by
    intro r hr
    obtain ⟨p, -, rfl⟩ := Option.map_eq_some_iff.1 (Option.mem_toList.1 hr)
    rfl
  have hcases : ∀ key' cname' f', slot.held? m' key' = some (cname', f') →
      (key = key' ∧ cname = cname' ∧ some f = f') ∨
        (key ≠ key' ∧ slot.held? m key' = some (cname', f')) := by
    intro key' cname' f' hf'
    rw [hheld] at hf'
    split at hf'
    next hkey =>
      obtain ⟨hcname', hf'⟩ := Prod.mk.inj (Option.some.inj hf')
      exact .inl ⟨hkey, hcname', hf'⟩
    next hkey => exact .inr ⟨hkey, hf'⟩
  constructor
  · intro key' cname' f' hf'
    rcases hcases key' cname' f' hf' with ⟨rfl, rfl, rfl⟩ | ⟨hkey, hf'⟩
    · rw [hnames, List.getLast?_concat, Option.map_some, hcname]
    · rw [hnames' hkey, hm.last key' cname' f' hf']
  · intro key' cname' f' hf'
    rw [List.filter_append]
    rcases hcases key' cname' f' hf' with ⟨rfl, rfl, rfl⟩ | ⟨hkey, hf'⟩
    · rw [hnames, Replacement.chain_concat, hm.chain key cname previous hclass,
        List.filter_eq_self.2 fun r hr => decide_eq_true (howner r hr),
        ← hm.last key cname previous hclass, Option.map_map]
      rfl
    · -- Another class has another name, as its key is made of it.
      have hne : cname ≠ cname' := by
        intro hcname'
        apply hkey
        rw [← hkeys key cname previous hclass, hcname', hkeys key' cname' f' hf']
      rw [hnames' hkey, hm.chain key' cname' f' hf',
        List.filter_eq_nil_iff.2 fun r hr => by simpa [howner r hr] using hne, List.append_nil]
  · intro r hr
    rcases List.mem_append.1 hr with hr | hr
    · obtain ⟨key', f', hf'⟩ := hm.owner r hr
      by_cases hkey : key = key'
      · rw [← hkey, hclass] at hf'
        obtain ⟨rfl, -⟩ := Prod.mk.inj (Option.some.inj hf')
        exact ⟨key, some f, by rw [hheld, if_pos rfl]⟩
      · exact ⟨key', f', by rw [hheld, if_neg hkey, hf']⟩
    · exact ⟨key, some f, by rw [hheld, if_pos rfl, howner r hr]⟩

theorem step (hm : slot.History o t done rs m)
    (hkeys : ∀ key cname f, slot.held? m key = some (cname, f) → o.keyOf cname = key)
    (h : slot.Step o t m s m' rs') : slot.History o t (done ++ [s]) (rs ++ rs') m' := by
  cases h with
  | kept htakes hheld hreports =>
    rw [hreports, List.append_nil]
    exact hm.kept htakes hheld
  | taken htakes hcname hclass hheld hreports =>
    rw [hreports]
    exact hm.taken hkeys htakes hcname hclass hheld

/-- What is reported about a class or about a function that goes to its slot is the history of the
slot. -/
theorem filter_concerns (hm : slot.History o t signatures rs m)
    (h : slot.held? m key = some (cname, f)) :
    rs.filter (·.concerns cname (slot.names o t key signatures)) =
      Replacement.chain cname (slot.names o t key signatures) := by
  rw [← hm.chain key cname f h]
  refine List.filter_congr fun r hr => ?_
  obtain ⟨key', f', hf'⟩ := hm.owner r hr
  have hmem : r ∈ rs.filter (·.owner = r.owner) :=
    List.mem_filter.2 ⟨hr, decide_eq_true rfl⟩
  rw [hm.chain key' r.owner f' hf'] at hmem
  obtain ⟨-, hprevious, hcurrent⟩ := Replacement.mem_of_mem_chain hmem
  have howner : ∀ a ∈ slot.names o t key' signatures, a ∈ slot.names o t key signatures →
      r.owner = cname := by
    intro a ha' ha
    obtain rfl := key_unique ha ha'
    rw [h] at hf'
    exact (congrArg Prod.fst (Option.some.inj hf')).symm
  rw [Bool.eq_iff_iff, Replacement.concerns_iff, decide_eq_true_iff]
  exact ⟨fun hr => hr.elim id fun hr => hr.elim (howner _ hprevious) (howner _ hcurrent), .inl⟩

end History

end Slot

namespace ApiModule

variable {o : ScanOptions} {index : DocIndex} {declared : Declarations} {name t : Text}
  {typed placed m : ApiModule}

/-! ## Scans -/

theorem Registers.keyOf_of_held? {cnames : List Text} (hm : m.Registers o cnames) {slot : Slot}
    {key cname : Text} {f : Option FunctionEntry} (h : slot.held? m key = some (cname, f)) :
    o.keyOf cname = key := by
  obtain ⟨c, hc, heq⟩ := Option.map_eq_some_iff.1 h
  obtain ⟨rfl, -⟩ := Prod.mk.inj heq
  exact hm.keyOf_cname hc

/-- A class is registered with empty slots. -/
theorem Stages.history_typed (hstages : Stages o name t index declared typed placed m)
    (slot : Slot) : slot.History o t [] [] typed := by
  have hempty : ∀ key cname f, slot.held? typed key = some (cname, f) → f = none := by
    refine Scan.foldlM_induction
      (fun _ m _ => ∀ key cname f, slot.held? m key = some (cname, f) → f = none) hstages.types
      (fun key cname f hf => by cases hf) fun _ _ _ _ _ hm h => ?_
    cases h
    intro key cname f hf
    simp only [Slot.held?, OrderedMap.get?_insert] at hf
    split at hf
    · cases hf
      cases slot <;> rfl
    · exact hm key cname f hf
  refine ⟨fun key cname f hf => ?_, fun _ _ _ _ => rfl, fun r hr => by cases hr⟩
  rw [hempty key cname f hf]
  rfl

theorem Stages.history_placed (hstages : Stages o name t index declared typed placed m)
    (slot : Slot) : slot.History o t declared.functions
      ((declared.functions.foldlM (addFunction o index) typed).diagnostics.filterMap
        slot.replacement?) placed := by
  refine (Scan.foldlM_induction
    (fun done m ds => m.Registers o declared.types ∧
      slot.History o t done (ds.filterMap slot.replacement?) m)
    hstages.functions ⟨hstages.registers_typed, hstages.history_typed slot⟩
    fun done s m m' ds hm h => ?_).2
  have hstep := functionStep_of_ok h
  rw [List.filterMap_append]
  exact ⟨hm.1.functionStep hstep, hm.2.step (fun _ _ _ => hm.1.keyOf_of_held?)
    (Slot.step_of_functionStep hstages.documented hstep slot)⟩

theorem filterMap_replacement?_delegateReports (slot : Slot) (name t : Text) (s : Signature) :
    (delegateReports name t s).filterMap slot.replacement? = [] := by
  rw [delegateReports]
  cases documentation? t s.base with
  | none => cases slot <;> rfl
  | some d => exact filterMap_unknownParams_eq_nil (fun _ _ => by cases slot <;> rfl) s d.doc

/-- Nothing but the functions changes a slot or says so. -/
theorem Stages.history (hstages : Stages o name t index declared typed placed m) (slot : Slot) :
    slot.History o t declared.functions
      ((ofText o name t).diagnostics.filterMap slot.replacement?) m := by
  have hoffset : ∀ r : Diagnostic, r.offset?.isSome → slot.replacement? r = none := by
    intro r hr
    cases slot <;> cases r <;> first | rfl | cases hr
  have hheld : ∀ key, slot.held? m key = slot.held? placed key := by
    intro key
    rw [Slot.held?, hstages.delegates_eq.1, Slot.held?]
  have hdelegates : declared.delegates.flatMap
      (fun s => (delegateReports name t s).filterMap slot.replacement?) = [] :=
    List.flatMap_eq_nil_iff.2 fun s _ => filterMap_replacement?_delegateReports slot name t s
  obtain ⟨hlast, hchain, howner⟩ := hstages.history_placed slot
  rw [hstages.filterMap_diagnostics hoffset, hstages.delegates_eq.2, List.filterMap_flatMap,
    hdelegates, List.append_nil]
  exact ⟨by simpa only [hheld] using hlast, by simpa only [hheld] using hchain,
    by simpa only [hheld] using howner⟩

/-- The slots of each class go from one function to the next in the order of the code, each change
is reported, and no other function touches them. -/
theorem slots_history (h : (ofText o name t).result = .ok m) (slot : Slot) :
    ∃ index signatures, (DocIndex.ofText t).result = .ok index ∧
      Signature.prototypes (codeOf t) = .ok signatures ∧
      (∀ key c, m.types.get? key = some c →
        (slot.function? c).map (·.cname) = (slot.names o t key signatures).getLast? ∧
        ((ofText o name t).diagnostics.filterMap slot.replacement?).filter
            (·.concerns c.cname (slot.names o t key signatures)) =
          Replacement.chain c.cname (slot.names o t key signatures)) ∧
      ∀ m₁ s m₂ key, (addFunction o index m₁ s).result = .ok m₂ → slot.takes o t key s = false →
        slot.held? m₂ key = slot.held? m₁ key := by
  obtain ⟨index', declared, typed, placed, hstages⟩ := exists_stages h
  obtain ⟨index, notes, hindex, hdocumented⟩ := exists_index_ofText t
  have hhistory := hstages.history slot
  refine ⟨index, declared.functions, by rw [hindex],
    (Declarations.ofCode_eq_ok_iff.1 hstages.code).2.2.1, fun key c hc => ?_,
    fun m₁ s m₂ key hstep htakes => ?_⟩
  · have hheld : slot.held? m key = some (c.cname, slot.function? c) := by
      rw [Slot.held?, hc, Option.map_some]
    exact ⟨hhistory.last key c.cname _ hheld, hhistory.filter_concerns hheld⟩
  · cases Slot.step_of_functionStep hdocumented (functionStep_of_ok hstep) slot with
    | kept _ hheld => exact hheld key
    | @taken key' cname previous f hkey _ _ hheld =>
      rw [hkey, decide_eq_false_iff_not] at htakes
      rw [hheld, if_neg htakes]

theorem names_constructor_addressHeader :
    (Signature.prototypes (codeOf addressHeader)).map
        (Slot.constructor.names ⟨some "ta_".toList⟩ addressHeader "iri".toList) =
      .ok ["ta_iri_new".toList, "ta_iri_copy".toList] := by
  decide +kernel

/-- Two functions go to the constructor of the class: the second one keeps it, and the first one is
reported with it. -/
theorem slots_history_addressHeader :
    ∃ m c, (ofText ⟨some "ta_".toList⟩ "iri".toList addressHeader).result = .ok m ∧
      m.types.get? "iri".toList = some c ∧
      c.constructor.map (·.cname) = some "ta_iri_copy".toList ∧
      ((ofText ⟨some "ta_".toList⟩ "iri".toList addressHeader).diagnostics.filterMap
          Slot.constructor.replacement?).filter
          (·.concerns c.cname ["ta_iri_new".toList, "ta_iri_copy".toList]) =
        [⟨c.cname, "ta_iri_new".toList, "ta_iri_copy".toList⟩] := by
  obtain ⟨m, hm, hkeys, -⟩ := exists_ofText_addressHeader
  obtain ⟨c, hc⟩ := Option.isSome_iff_exists.1 <| OrderedMap.mem_keys_iff.1 <|
    hkeys ▸ List.mem_singleton_self "iri".toList
  obtain ⟨-, signatures, -, hread, hslots, -⟩ := slots_history hm .constructor
  have hnames := names_constructor_addressHeader
  rw [hread] at hnames
  have hslot := hslots "iri".toList c hc
  rw [Except.ok.inj hnames] at hslot
  exact ⟨m, c, hm, hc, hslot⟩

end ApiModule

end HeaderApi
