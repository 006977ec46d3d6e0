import HeaderApi.Proofs.Module.Step
import HeaderApi.Proofs.OrderedMap
import Mathlib.Data.List.Perm.Basic

/-!
# Where functions go

Every function of the code is reported as undocumented, is reserved, or goes to one place of the
module, where it stays unless it is reported that another function replaced it.  Functions that
stand in one list have the order of the code.  Each step keeps these accounts
(`Accounts.functionStep`), and so a whole scan does.
-/

namespace HeaderApi

/-! ## Places -/

namespace Diagnostic

/-- The function that has no documentation. -/
def undocumented? : Diagnostic → Option Text
  | .undocumentedFunction name => some name
  | _ => none

/-- The function that a class has given up. -/
def replaced? : Diagnostic → Option Text
  | .duplicateConstructor _ previous _ | .duplicateDestructor _ previous _ => some previous
  | _ => none

/-- A report that does not say where a function has gone. -/
def IsNeutral (r : Diagnostic) : Prop := r.undocumented? = none ∧ r.replaced? = none

end Diagnostic

namespace FunctionEntry

/-- Whether a function is left out of its class, whichever this is. -/
def isReserved (f : FunctionEntry) : Bool :=
  f.name.owner.isSome && f.name.name = ApiModule.reservedMethod

/-- Whether a function goes to the class with a key. -/
def goesTo (o : ScanOptions) (key : Text) (f : FunctionEntry) : Bool :=
  f.name.owner.map o.typeKey = some key && f.name.name ≠ ApiModule.reservedMethod

end FunctionEntry

/-- The functions of a class. -/
def ClassEntry.members (c : ClassEntry) : List FunctionEntry :=
  c.constructor.toList ++ c.destructor.toList ++ c.initializers ++ c.methods

/-- The functions of all classes. -/
def ApiModule.members (m : ApiModule) : List FunctionEntry :=
  m.types.values.flatMap ClassEntry.members

/-- The functions among some signatures that the header documents. -/
def documentedIn (t : Text) (signatures : List Signature) : List FunctionEntry :=
  signatures.filterMap fun s => (documentation? t s.name).map (ApiModule.documentFunction s)

/-- The initializers and methods of a class are the functions that go to it, in the given order. -/
structure ClassEntry.Lists (o : ScanOptions) (key : Text) (fs : List FunctionEntry)
    (c : ClassEntry) : Prop where
  initializers : c.initializers = fs.filter fun f => f.goesTo o key ∧ f.kind = .initializer
  methods : c.methods = fs.filter fun f =>
    f.goesTo o key ∧ f.kind ∈ [.getter, .setter, .method]

/-- Each of some functions of the code is in one place, and each list has the order of the code. -/
structure ApiModule.Accounts (o : ScanOptions) (t : Text) (signatures : List Signature)
    (ds : List Diagnostic) (m : ApiModule) : Prop where
  balance : (signatures.map (·.name)).Perm
    (ds.filterMap Diagnostic.undocumented? ++ m.functions.map (·.cname) ++
      m.members.map (·.cname) ++ ds.filterMap Diagnostic.replaced? ++
      ((documentedIn t signatures).filter FunctionEntry.isReserved).map (·.cname))
  functions : m.functions = (documentedIn t signatures).filter fun f => f.name.owner = none
  classes : ∀ key c, m.types.get? key = some c → c.Lists o key (documentedIn t signatures)

variable {o : ScanOptions} {index : DocIndex} {name t key : Text} {m m' : ApiModule}
  {s : Signature} {d : IndexedDoc} {f : FunctionEntry} {c : ClassEntry}
  {ds ds' : List Diagnostic} {done : List Signature}

/-! ## Classes -/

namespace ClassEntry

theorem Lists.attached {fs : List FunctionEntry} (h : c.Lists o key fs)
    (hgoes : f.goesTo o key = true) : (c.attached f).Lists o key (fs ++ [f]) := by
  constructor
  · cases hkind : f.kind <;> simp [ClassEntry.attached, h.initializers, hgoes, hkind]
  · cases hkind : f.kind <;> simp [ClassEntry.attached, h.methods, hgoes, hkind]

theorem Lists.concat {fs : List FunctionEntry} (h : c.Lists o key fs)
    (hgoes : f.goesTo o key = false) : c.Lists o key (fs ++ [f]) :=
  ⟨by simp [h.initializers, hgoes], by simp [h.methods, hgoes]⟩

/-- A class that gets a function has it, and keeps all of its own but the one that it gives up. -/
theorem members_attached (c : ClassEntry) (f : FunctionEntry) :
    (f.cname :: c.members.map (·.cname)).Perm
      ((c.attached f).members.map (·.cname) ++
        (c.replaced f).filterMap Diagnostic.replaced?) := by
  -- Up to order, two lists are the same if each name stands in both of them as often.
  rw [List.perm_iff_count]
  intro a
  cases hkind : f.kind with
  | constructor =>
    cases hconstructor : c.constructor with
    | none | some previous =>
      simp only [members, attached, replaced, hkind, hconstructor, Option.toList, List.map_append,
        List.map_cons, List.map_nil, List.filterMap_cons, List.filterMap_nil, Diagnostic.replaced?,
        List.count_append, List.count_cons, List.count_nil]
      omega
  | destructor =>
    cases hdestructor : c.destructor with
    | none | some previous =>
      simp only [members, attached, replaced, hkind, hdestructor, Option.toList, List.map_append,
        List.map_cons, List.map_nil, List.filterMap_cons, List.filterMap_nil, Diagnostic.replaced?,
        List.count_append, List.count_cons, List.count_nil]
      omega
  | initializer | getter | setter | method =>
    simp only [members, attached, replaced, hkind, List.map_append, List.map_cons, List.map_nil,
      List.filterMap_nil, List.count_append, List.count_cons, List.count_nil]
    omega

theorem undocumented?_replaced (c : ClassEntry) (f : FunctionEntry) :
    (c.replaced f).filterMap Diagnostic.undocumented? = [] :=
  filterMap_replaced_eq_nil (fun _ _ _ => rfl) (fun _ _ _ => rfl) c f

end ClassEntry

namespace ApiModule

theorem members_insert_attached (h : m.types.get? key = some c) (f : FunctionEntry) :
    (f.cname :: m.members.map (·.cname)).Perm
      ((members { m with types := m.types.insert key (c.attached f) }).map (·.cname) ++
        (c.replaced f).filterMap Diagnostic.replaced?) := by
  obtain ⟨before, after, hold, hnew⟩ := OrderedMap.exists_values_insert h (c.attached f)
  rw [List.perm_iff_count]
  intro a
  have hclass := (c.members_attached f).count_eq a
  simp only [members, hold, hnew, List.flatMap_append, List.flatMap_cons, List.map_append,
    List.count_append, List.count_cons] at hclass ⊢
  omega

/-! ## Neutral reports -/

theorem isNeutral_of_offset? {r : Diagnostic} {offset : Nat} (h : r.offset? = some offset) :
    r.IsNeutral := by
  cases r with
  | undocumentedFunction | duplicateConstructor | duplicateDestructor => cases h
  | _ => exact ⟨rfl, rfl⟩

theorem isNeutral_of_mem_unknownParams {r : Diagnostic} (h : r ∈ unknownParams s d.doc) :
    r.IsNeutral := by
  obtain ⟨p, -, rfl⟩ := List.mem_map.1 h
  exact ⟨rfl, rfl⟩

theorem filterMap_of_isNeutral (h : ∀ r ∈ ds, r.IsNeutral) :
    ds.filterMap Diagnostic.undocumented? = [] ∧ ds.filterMap Diagnostic.replaced? = [] :=
  ⟨List.filterMap_eq_nil_iff.2 fun r hr => (h r hr).1,
    List.filterMap_eq_nil_iff.2 fun r hr => (h r hr).2⟩

theorem filterMap_unknownParams (s : Signature) (d : IndexedDoc) :
    (unknownParams s d.doc).filterMap Diagnostic.undocumented? = [] ∧
      (unknownParams s d.doc).filterMap Diagnostic.replaced? = [] :=
  filterMap_of_isNeutral fun _ => isNeutral_of_mem_unknownParams

theorem DelegateStep.isNeutral (h : DelegateStep index m s m' ds) : ∀ r ∈ ds, r.IsNeutral := by
  cases h with
  | undocumented => exact List.forall_mem_singleton.2 ⟨rfl, rfl⟩
  | documented => exact fun _ => isNeutral_of_mem_unknownParams

/-! ## Steps -/

theorem documentedIn_append (t : Text) (before after : List Signature) :
    documentedIn t (before ++ after) = documentedIn t before ++ documentedIn t after :=
  List.filterMap_append

theorem documentedIn_singleton_of_some (h : documentation? t s.name = some d) :
    documentedIn t [s] = [documentFunction s d] := by
  simp [documentedIn, h]

theorem documentedIn_singleton_of_none (h : documentation? t s.name = none) :
    documentedIn t [s] = [] := by
  simp [documentedIn, h]

namespace FunctionStep

variable (hindex : ∀ symbol, index.get? symbol = documentation? t symbol)

include hindex

/-- A function of the code comes to one place, and the others stay or are reported. -/
theorem balance (h : FunctionStep o index m s m' ds) :
    (s.name :: (m.functions ++ m.members).map (·.cname)).Perm
      (ds.filterMap Diagnostic.undocumented? ++ (m'.functions ++ m'.members).map (·.cname) ++
        ds.filterMap Diagnostic.replaced? ++
        ((documentedIn t [s]).filter FunctionEntry.isReserved).map (·.cname)) := by
  rw [List.perm_iff_count]
  intro a
  cases h with
  | undocumented hdoc =>
    simp [documentedIn_singleton_of_none (hindex _ ▸ hdoc), List.filterMap_cons,
      Diagnostic.undocumented?, Diagnostic.replaced?]
  | @free d hdoc howner =>
    have hreserved : [documentFunction s d].filter FunctionEntry.isReserved = [] := by
      simp [FunctionEntry.isReserved, documentFunction, howner]
    have hcname : (documentFunction s d).cname = s.name := rfl
    have hmembers : members { m with functions := m.functions ++ [documentFunction s d] } =
        m.members := rfl
    obtain ⟨hundocumented, hreplaced⟩ := filterMap_unknownParams s d
    rw [documentedIn_singleton_of_some (hindex _ ▸ hdoc), hreserved, hundocumented, hreplaced,
      hmembers]
    simp only [hcname, List.map_append, List.map_cons, List.map_nil, List.count_append,
      List.count_cons, List.count_nil]
    omega
  | @reserved d className owner hdoc howner hclass hname =>
    have hreserved : [documentFunction s d].filter FunctionEntry.isReserved =
        [documentFunction s d] := by
      simp [FunctionEntry.isReserved, documentFunction, howner, hname]
    have hcname : (documentFunction s d).cname = s.name := rfl
    obtain ⟨hundocumented, hreplaced⟩ := filterMap_unknownParams s d
    rw [documentedIn_singleton_of_some (hindex _ ▸ hdoc), hreserved, hundocumented, hreplaced]
    simp only [hcname, List.map_append, List.map_cons, List.map_nil, List.count_append,
      List.count_cons, List.count_nil]
    omega
  | @attached d className owner hdoc howner hclass hname =>
    have hreserved : [documentFunction s d].filter FunctionEntry.isReserved = [] := by
      simp [FunctionEntry.isReserved, documentFunction, hname]
    have hcname : (documentFunction s d).cname = s.name := rfl
    have hmembers := (members_insert_attached hclass (documentFunction s d)).count_eq a
    obtain ⟨hundocumented, hreplaced⟩ := filterMap_unknownParams s d
    rw [documentedIn_singleton_of_some (hindex _ ▸ hdoc), hreserved, List.filterMap_append,
      List.filterMap_append, hundocumented, hreplaced, ClassEntry.undocumented?_replaced]
    simp only [hcname, List.map_append, List.map_nil, List.count_append, List.count_cons,
      List.count_nil] at hmembers ⊢
    omega

theorem functions_eq (h : FunctionStep o index m s m' ds) :
    m'.functions = m.functions ++
      (documentedIn t [s]).filter fun f => f.name.owner = none := by
  cases h with
  | undocumented hdoc => simp [documentedIn_singleton_of_none (hindex _ ▸ hdoc)]
  | free hdoc howner =>
    simp [documentedIn_singleton_of_some (hindex _ ▸ hdoc), documentFunction, howner]
  | reserved hdoc howner =>
    simp [documentedIn_singleton_of_some (hindex _ ▸ hdoc), documentFunction, howner]
  | attached hdoc howner =>
    simp [documentedIn_singleton_of_some (hindex _ ▸ hdoc), documentFunction, howner]

/-- A class gets a function that goes to it, and no other. -/
theorem exists_class (h : FunctionStep o index m s m' ds) {c' : ClassEntry}
    (hc' : m'.types.get? key = some c') : ∃ c, m.types.get? key = some c ∧
      ∀ fs, c.Lists o key fs → c'.Lists o key (fs ++ documentedIn t [s]) := by
  cases h with
  | undocumented hdoc =>
    rw [documentedIn_singleton_of_none (hindex _ ▸ hdoc)]
    exact ⟨c', hc', fun fs hfs => fs.append_nil.symm ▸ hfs⟩
  | @free d hdoc howner =>
    rw [documentedIn_singleton_of_some (hindex _ ▸ hdoc)]
    refine ⟨c', hc', fun fs hfs => hfs.concat ?_⟩
    simp [FunctionEntry.goesTo, documentFunction, howner]
  | @reserved d className owner hdoc howner hclass hname =>
    rw [documentedIn_singleton_of_some (hindex _ ▸ hdoc)]
    refine ⟨c', hc', fun fs hfs => hfs.concat ?_⟩
    simp [FunctionEntry.goesTo, documentFunction, hname]
  | @attached d className owner hdoc howner hclass hname =>
    rw [documentedIn_singleton_of_some (hindex _ ▸ hdoc)]
    rw [OrderedMap.get?_insert] at hc'
    by_cases hkey : o.typeKey className = key
    · obtain rfl : owner.attached (documentFunction s d) = c' := by simpa [hkey] using hc'
      refine ⟨owner, hkey ▸ hclass, fun fs hfs => hfs.attached ?_⟩
      simp [FunctionEntry.goesTo, documentFunction, howner, hname, hkey]
    · refine ⟨c', by simpa [hkey] using hc', fun fs hfs => hfs.concat ?_⟩
      simp [FunctionEntry.goesTo, documentFunction, howner, hkey]

end FunctionStep

variable {signatures : List Signature}

theorem Accounts.functionStep (hm : m.Accounts o t done ds)
    (hindex : ∀ symbol, index.get? symbol = documentation? t symbol)
    (h : FunctionStep o index m s m' ds') : m'.Accounts o t (done ++ [s]) (ds ++ ds') where
  balance := by
    rw [List.perm_iff_count]
    intro a
    have hrun := hm.balance.count_eq a
    have hstep := (h.balance hindex).count_eq a
    simp only [documentedIn_append, List.filter_append, List.filterMap_append, List.map_append,
      List.count_append, List.count_cons, List.map_cons, List.map_nil, List.count_nil]
      at hrun hstep ⊢
    omega
  functions := by
    rw [h.functions_eq hindex, hm.functions, documentedIn_append, List.filter_append]
  classes key c' hc' := by
    obtain ⟨c, hc, hlists⟩ := h.exists_class hindex hc'
    rw [documentedIn_append]
    exact hlists _ (hm.classes key c hc)

/-- Neutral reports change no account. -/
theorem Accounts.report (hm : m.Accounts o t signatures ds) (hds' : ∀ r ∈ ds', r.IsNeutral) :
    m.Accounts o t signatures (ds ++ ds') where
  balance := by
    obtain ⟨hundocumented, hreplaced⟩ := filterMap_of_isNeutral hds'
    simpa [hundocumented, hreplaced] using hm.balance
  functions := hm.functions
  classes := hm.classes

theorem Accounts.delegateStep (hm : m.Accounts o t signatures ds)
    (h : DelegateStep index m s m' ds') : m'.Accounts o t signatures (ds ++ ds') := by
  have hds' := h.isNeutral
  cases h with
  | undocumented => exact hm.report hds'
  | documented =>
    obtain ⟨hbalance, hfunctions, hclasses⟩ := hm.report hds'
    exact ⟨hbalance, hfunctions, hclasses⟩

/-! ## Scans -/

/-- A class is registered without functions. -/
theorem accounts_types {cnames : List Text} (hm : m.functions = [] ∧ m.types = ∅)
    (h : (cnames.foldlM (addType o index) m).result = .ok m') (hds : ∀ r ∈ ds, r.IsNeutral) :
    m'.Accounts o t [] ds := by
  have hempty : m'.functions = [] ∧ ∀ e ∈ m'.types.entries, e.2.members = [] := by
    refine Scan.foldlM_induction
      (fun _ m _ => m.functions = [] ∧ ∀ e ∈ m.types.entries, e.2.members = []) h
      ⟨hm.1, fun e he => ?_⟩ fun _ _ _ _ _ hm h => ?_
    · rw [hm.2] at he
      cases he
    · cases h
      exact ⟨hm.1, OrderedMap.forall_entries_insert hm.2 rfl⟩
  obtain ⟨hundocumented, hreplaced⟩ := filterMap_of_isNeutral hds
  have hmembers : m'.members = [] := by
    rw [members, List.flatMap_eq_nil_iff]
    intro c hc
    obtain ⟨e, he, rfl⟩ := List.mem_map.1 hc
    exact hempty.2 e he
  refine ⟨?_, hempty.1, fun key c hc => ?_⟩
  · simp [hundocumented, hreplaced, hempty.1, hmembers, documentedIn]
  · have hc := hempty.2 _ (OrderedMap.mem_of_get? hc)
    simp only [ClassEntry.members, List.append_eq_nil_iff] at hc
    exact ⟨hc.1.2, hc.2⟩

theorem Accounts.addFunctions (hm : m.Accounts o t [] ds)
    (hindex : ∀ symbol, index.get? symbol = documentation? t symbol)
    (h : (signatures.foldlM (addFunction o index) m).result = .ok m') :
    m'.Accounts o t signatures (ds ++ (signatures.foldlM (addFunction o index) m).diagnostics) := by
  refine Scan.foldlM_induction (fun done m ds' => m.Accounts o t done (ds ++ ds')) h
    (by rwa [List.append_nil]) fun done s m m' ds' hm h => ?_
  rw [← List.append_assoc]
  exact hm.functionStep hindex (functionStep_of_ok h)

theorem Accounts.addDelegates {delegates : List Signature} (hm : m.Accounts o t signatures ds)
    (h : (delegates.foldlM (addDelegate index) m).result = .ok m') :
    m'.Accounts o t signatures (ds ++ (delegates.foldlM (addDelegate index) m).diagnostics) := by
  refine Scan.foldlM_induction (fun _ m ds' => m.Accounts o t signatures (ds ++ ds')) h
    (by rwa [List.append_nil]) fun done s m m' ds' hm h => ?_
  rw [← List.append_assoc]
  exact hm.delegateStep (delegateStep_of_ok h)

/-- No function is lost, duplicated or moved. -/
theorem functions_accounted {name : Text} (h : (ofText o name t).result = .ok m) :
    ∃ signatures, Signature.prototypes (codeOf t) = .ok signatures ∧
      m.Accounts o t signatures (ofText o name t).diagnostics := by
  obtain ⟨index, declared, typed, placed, hstages⟩ := exists_stages h
  refine ⟨declared.functions, (Declarations.ofCode_eq_ok_iff.1 hstages.code).2.2.1, ?_⟩
  have hcomments : ∀ r ∈ (unclosedComments t).map Diagnostic.unterminatedComment ++
      (docBlocks t).flatMap DocBlock.reports, r.IsNeutral := by
    intro r hr
    rcases List.mem_append.1 hr with hr | hr
    · obtain ⟨offset, -, rfl⟩ := List.mem_map.1 hr
      exact isNeutral_of_offset? rfl
    · obtain ⟨block, -, hr⟩ := List.mem_flatMap.1 hr
      exact isNeutral_of_offset? (offset?_of_mem_reports hr)
  have hunused : ∀ r ∈ index.unused declared.symbols, r.IsNeutral := by
    intro r hr
    obtain ⟨e, -, rfl⟩ := List.mem_map.1 hr
    exact isNeutral_of_offset? rfl
  have htyped := accounts_types (t := t) ⟨rfl, rfl⟩ hstages.types hcomments
  rw [hstages.diagnostics]
  exact (htyped.addFunctions hstages.documented hstages.functions).addDelegates hstages.delegates
    |>.report hunused

/-- The five functions of the header go to four places: two of them to the class, of which the
second one replaced the first. -/
theorem functions_accounted_addressHeader :
    ∃ m, (ofText ⟨some "ta_".toList⟩ "iri".toList addressHeader).result = .ok m ∧
      (∃ signatures, Signature.prototypes (codeOf addressHeader) = .ok signatures ∧
        m.Accounts ⟨some "ta_".toList⟩ addressHeader signatures
          (ofText ⟨some "ta_".toList⟩ "iri".toList addressHeader).diagnostics) ∧
      (ofText ⟨some "ta_".toList⟩ "iri".toList addressHeader).diagnostics =
        [.duplicateConstructor "ta_iri_t".toList "ta_iri_new".toList "ta_iri_copy".toList,
          .undocumentedFunction "ta_debug".toList] ∧
      m.functions.map (·.cname) = ["ta_log".toList] := by
  obtain ⟨m, hm, -, -, hfunctions⟩ := exists_ofText_addressHeader
  exact ⟨m, hm, functions_accounted hm, diagnostics_addressHeader, hfunctions⟩

end ApiModule

end HeaderApi
