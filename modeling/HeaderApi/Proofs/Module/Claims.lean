import HeaderApi.Proofs.OrderedMap
import HeaderApi.Proofs.Scan
import HeaderApi.Scan.Module

/-!
# Claimed doc blocks

A claim finds what the index holds, whatever has been claimed before it, and marks what it finds.
So a scan does what it would do if each declaration only looked its doc block up (`addType`,
`addFunction`, `addDelegate`), and the symbols of all declarations are marked in the end, as far as
they are documented (`registerAll_eq`, `marked_of_registerAll`).
-/

namespace HeaderApi

/-- The symbols of the declarations, in the order in which they claim their doc blocks. -/
def Declarations.symbols (d : Declarations) : List Text :=
  d.enums.map (withoutSuffix ·.name) ++ d.types.map withoutSuffix ++ d.functions.map (·.name) ++
    d.delegates.map (withoutSuffix ·.name)

/-! ## One claim, and several -/

namespace Claims

variable {c : Claims} {symbol : Text}

@[simp] theorem fst_claim (c : Claims) (symbol : Text) :
    (c.claim symbol).1 = c.index.get? symbol := by
  rw [claim]
  cases c.index.get? symbol <;> rfl

@[simp] theorem index_claim (c : Claims) (symbol : Text) : (c.claim symbol).2.index = c.index := by
  rw [claim]
  cases c.index.get? symbol <;> rfl

theorem mem_marked_claim {s : Text} : s ∈ (c.claim symbol).2.marked ↔
    s ∈ c.marked ∨ s = symbol ∧ (c.index.get? s).isSome := by
  rcases eq_or_ne s symbol with rfl | hne
  · cases hd : c.index.get? s <;> simp [claim, hd]
  · cases hd : c.index.get? symbol <;> simp [claim, hd, hne]

@[simp] theorem claimAll_nil (c : Claims) : c.claimAll [] = c := rfl

theorem claimAll_cons (c : Claims) (symbol : Text) (symbols : List Text) :
    c.claimAll (symbol :: symbols) = (c.claim symbol).2.claimAll symbols := rfl

theorem claimAll_append (c : Claims) (symbols symbols' : List Text) :
    c.claimAll (symbols ++ symbols') = (c.claimAll symbols).claimAll symbols' :=
  List.foldl_append

@[simp] theorem index_claimAll (c : Claims) (symbols : List Text) :
    (c.claimAll symbols).index = c.index := by
  induction symbols generalizing c with
  | nil => rfl
  | cons symbol symbols ih => rw [claimAll_cons, ih, index_claim]

/-- What is claimed is marked, if it is documented. -/
theorem mem_marked_claimAll {symbols : List Text} : symbol ∈ (c.claimAll symbols).marked ↔
    symbol ∈ c.marked ∨ symbol ∈ symbols ∧ (c.index.get? symbol).isSome := by
  induction symbols generalizing c with
  | nil => simp
  | cons s symbols ih =>
    rw [claimAll_cons, ih, mem_marked_claim, index_claim, List.mem_cons, or_and_right, or_assoc]

/-- If only these symbols are claimed, then what stays unmarked are the entries under others. -/
theorem unused_claimAll (index : DocIndex) (symbols : List Text) :
    (({ index } : Claims).claimAll symbols).unused = index.unused symbols := by
  rw [unused, index_claimAll, DocIndex.unused, DocIndex.unused]
  congr 1
  apply List.filter_congr
  rintro ⟨symbol, d⟩ hentry
  have hmarked : symbol ∈ (({ index } : Claims).claimAll symbols).marked ↔ symbol ∈ symbols := by
    simp [mem_marked_claimAll, OrderedMap.get?_of_mem hentry]
  simp only [hmarked]

end Claims

/-! ## Declarations that claim -/

namespace ApiModule

variable {o : ScanOptions} {index : DocIndex} {name : Text} {m : ApiModule}
  {declared : Declarations}

/-- Registers a struct type with what the index holds for it. -/
def addType (o : ScanOptions) (index : DocIndex) (m : ApiModule) (cname : Text) : Scan ApiModule :=
  registerType o (index.get? (withoutSuffix cname)) m cname

def addFunction (o : ScanOptions) (index : DocIndex) (m : ApiModule) (s : Signature) :
    Scan ApiModule :=
  registerFunction o (index.get? s.name) m s

def addDelegate (index : DocIndex) (m : ApiModule) (s : Signature) : Scan ApiModule :=
  registerDelegate (index.get? (withoutSuffix s.name)) m s

/-- Takes what code declares into a module, where the index is only looked into. -/
def addAll (o : ScanOptions) (index : DocIndex) (name : Text) (declared : Declarations) :
    Scan ApiModule := do
  let m ← declared.types.foldlM (addType o index) { name, enums := declared.enums }
  let m ← declared.functions.foldlM (addFunction o index) m
  declared.delegates.foldlM (addDelegate index) m

/-- Declarations that claim one after the other are registered as the index has them, and mark their
symbols. -/
theorem foldlM_claiming {α : Type} (symbol : α → Text)
    (register : Option IndexedDoc → ApiModule → α → Scan ApiModule) (m : ApiModule) (c : Claims)
    (declarations : List α) :
    declarations.foldlM (claiming symbol register) (m, c) = (do
      let m ← declarations.foldlM (fun m a => register (c.index.get? (symbol a)) m a) m
      pure (m, c.claimAll (declarations.map symbol))) := by
  induction declarations generalizing m c with
  | nil => rfl
  | cons a declarations ih =>
    simp only [List.foldlM_cons, claiming, Claims.fst_claim, bind_assoc, pure_bind, ih,
      Claims.index_claim, List.map_cons, Claims.claimAll_cons]

/-- All declarations are registered as the index has them, and mark their symbols. -/
theorem registerAll_eq (o : ScanOptions) (index : DocIndex) (name : Text)
    (declared : Declarations) : registerAll o index name declared = (do
      let m ← addAll o index name declared
      pure (m, ({ index } : Claims).claimAll declared.symbols)) := by
  simp only [registerAll, foldlM_claiming, Claims.index_claimAll, bind_assoc, pure_bind, addAll,
    Declarations.symbols, Claims.claimAll_append]
  rfl

/-- The doc blocks that are marked when all is registered are those of the declarations. -/
theorem marked_of_registerAll {c : Claims}
    (h : (registerAll o index name declared).result = .ok (m, c)) (symbol : Text) :
    symbol ∈ c.marked ↔ symbol ∈ declared.symbols ∧ (index.get? symbol).isSome := by
  rw [registerAll_eq] at h
  obtain ⟨m', -, h⟩ := Scan.bind_ok_iff.1 h
  obtain ⟨-, rfl⟩ := Prod.mk.inj (Except.ok.inj h)
  simp [Claims.mem_marked_claimAll]

/-- A scan that looks into the index only, and knows the doc blocks that are not used from the
symbols of the declarations. -/
theorem ofText_eq (o : ScanOptions) (name t : Text) : ofText o name t = (do
    let index ← DocIndex.ofText t
    let declared ← Scan.ofExcept (Declarations.ofCode (codeOf t))
    let m ← addAll o index name declared
    Scan.report (index.unused declared.symbols)
    Scan.note (.scanned name m.types.size m.functions.length m.delegates.size)
    pure m) := by
  simp only [ofText, registerAll_eq, bind_assoc, pure_bind, Claims.unused_claimAll]

end ApiModule

end HeaderApi
