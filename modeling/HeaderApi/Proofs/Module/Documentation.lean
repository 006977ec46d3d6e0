import HeaderApi.Proofs.OrderedMap
import HeaderApi.Proofs.Scan
import HeaderApi.Scan.DocIndex

/-!
# The documentation of symbols

The index of a header answers for each symbol with the last doc block that names it
(`exists_index_ofText`).  Making it never fails, and all that it reports has the place of a comment.
-/

namespace HeaderApi

/-- A doc block, read, if it names a symbol. -/
def DocBlock.indexed? (block : DocBlock) : Option IndexedDoc :=
  let doc := (Docstring.parse block.start block.text).1
  doc.name.map fun name => ⟨block.start, name, doc⟩

/-- What is reported about a doc block. -/
def DocBlock.reports (block : DocBlock) : List Diagnostic :=
  let (doc, rejected) := Docstring.parse block.start block.text
  rejected ++ if doc.name.isNone then [.missingName block.start] else []

/-- The documentation of a symbol: of the doc blocks that name it, the last one. -/
def documentation? (t symbol : Text) : Option IndexedDoc :=
  lastWith? (·.name.symbol) symbol ((docBlocks t).filterMap DocBlock.indexed?)

variable {block : DocBlock} {d : IndexedDoc}
  {t symbol : Text}

/-! ## One doc block -/

/-- A report about a tag of the doc block at byte `offset`. -/
inductive Diagnostic.IsTagReport (offset : Nat) : Diagnostic → Prop where
  | unknown (tag : Text) : IsTagReport offset (.unknownTag tag offset)
  | invalid (tag value : Text) : IsTagReport offset (.invalidTag tag value offset)

theorem isTagReport_of_read {offset : Nat} {key value : Text} {r : Diagnostic}
    (h : Tag.read offset key value = .error r) : r.IsTagReport offset := by
  unfold Tag.read at h
  split at h
  case h_1 =>
    cases h
    exact .unknown key
  case h_3 =>
    split at h
    next => cases h
    next =>
      cases h
      exact .invalid key _
  all_goals cases h

theorem isTagReport_of_mem_parse {offset : Nat} {r : Diagnostic}
    (h : r ∈ (Docstring.parse offset t).2) : r.IsTagReport offset := by
  obtain ⟨tag, htag, hr⟩ := List.mem_filterMap.1 h
  obtain ⟨pair, -, rfl⟩ := List.mem_map.1 htag
  split at hr
  next e he =>
    obtain rfl := Option.some.inj hr
    exact isTagReport_of_read he
  next => cases hr

/-- A doc block is reported for its tags and for having no name. -/
theorem mem_reports_iff {r : Diagnostic} : r ∈ block.reports ↔
    r ∈ (Docstring.parse block.start block.text).2 ∨
      block.indexed? = none ∧ r = .missingName block.start := by
  have hname : (Docstring.parse block.start block.text).1.name.isNone = true ↔
      block.indexed? = none := by
    rw [DocBlock.indexed?, Option.map_eq_none_iff, Option.isNone_iff_eq_none]
  rw [DocBlock.reports, List.mem_append]
  apply or_congr Iff.rfl
  rw [← hname]
  split <;> simp_all

/-- The reports about a doc block are placed at it. -/
theorem offset?_of_mem_reports {r : Diagnostic} (h : r ∈ block.reports) :
    r.offset? = some block.start := by
  rcases mem_reports_iff.1 h with h | ⟨-, rfl⟩
  · cases isTagReport_of_mem_parse h <;> rfl
  · rfl

theorem addBlock_of_some (h : block.indexed? = some d) (index : DocIndex) : ∃ notes,
    DocIndex.addBlock index block = ⟨.ok (index.insert d.name.symbol d), block.reports, notes⟩ := by
  obtain ⟨name, hname, rfl⟩ := Option.map_eq_some_iff.1 h
  refine ⟨[.indexed name.symbol block.start block.stop], ?_⟩
  rw [DocIndex.addBlock, DocBlock.reports]
  simp [hname, Scan.report, Scan.note]

theorem addBlock_of_none (h : block.indexed? = none) (index : DocIndex) :
    DocIndex.addBlock index block = ⟨.ok index, block.reports, []⟩ := by
  have hname := Option.map_eq_none_iff.1 h
  rw [DocIndex.addBlock, DocBlock.reports]
  simp [hname, Scan.report]

/-! ## All doc blocks -/

theorem symbol_of_documentation? (h : documentation? t symbol = some d) :
    d.name.symbol = symbol := by
  rw [documentation?] at h
  have hkey := key_of_lastWith? h
  exact hkey

theorem reportsFrom_eq_flatMap {ι : Type} (reports : ι → List Diagnostic) (done rest : List ι) :
    Scan.reportsFrom (fun _ i => reports i) done rest = rest.flatMap reports := by
  induction rest generalizing done with
  | nil => rfl
  | cons i rest ih => rw [Scan.reportsFrom, ih, List.flatMap_cons]

namespace DocIndex

/-- The doc blocks that name symbols, each under its symbol. -/
def ofBlocks (blocks : List DocBlock) : DocIndex :=
  .collect (·.name.symbol) (blocks.filterMap DocBlock.indexed?)

theorem exists_addBlock_ofBlocks (blocks : List DocBlock) (block : DocBlock) :
    ∃ notes, addBlock (ofBlocks blocks) block =
      ⟨.ok (ofBlocks (blocks ++ [block])), block.reports, notes⟩ := by
  rw [ofBlocks, ofBlocks, List.filterMap_append]
  cases h : block.indexed? with
  | some d =>
    obtain ⟨notes, hadd⟩ := addBlock_of_some h (ofBlocks blocks)
    refine ⟨notes, hadd.trans ?_⟩
    rw [List.filterMap_cons_some h, List.filterMap_nil, OrderedMap.collect_concat]
    rfl
  | none =>
    refine ⟨[], (addBlock_of_none h _).trans ?_⟩
    rw [List.filterMap_cons_none h, List.filterMap_nil, List.append_nil]

/-- The index of a header is made of its doc blocks. -/
theorem exists_ofText_eq (t : Text) : ∃ notes,
    ofText t = ⟨.ok (ofBlocks (docBlocks t)),
      (unclosedComments t).map .unterminatedComment ++ (docBlocks t).flatMap DocBlock.reports,
      notes⟩ := by
  have hblocks : List.Forall₂ Eq (docBlocks t) (docBlocks t) := List.forall₂_same.2 fun _ _ => rfl
  have hempty : (∅ : DocIndex) = ofBlocks [] := rfl
  obtain ⟨index, notes, hrun, rfl⟩ := Scan.exists_foldlM addBlock (fun _ block => block.reports)
    (fun done index => index = ofBlocks done) hblocks
    (fun before block _ _ _ _ hblock hindex => by
      subst hblock hindex
      obtain ⟨notes, hadd⟩ := exists_addBlock_ofBlocks before block
      exact ⟨_, notes, hadd, rfl⟩) hempty
  rw [reportsFrom_eq_flatMap] at hrun
  refine ⟨notes, ?_⟩
  rw [ofText, hrun]
  rfl

end DocIndex

/-- The index of a header holds its documentation. -/
theorem exists_index_ofText (t : Text) : ∃ index notes,
    DocIndex.ofText t = ⟨.ok index, (unclosedComments t).map .unterminatedComment ++
      (docBlocks t).flatMap DocBlock.reports, notes⟩ ∧
    ∀ symbol, index.get? symbol = documentation? t symbol := by
  obtain ⟨notes, hindex⟩ := DocIndex.exists_ofText_eq t
  exact ⟨_, notes, hindex, fun symbol => OrderedMap.get?_collect _ _ symbol⟩

end HeaderApi
