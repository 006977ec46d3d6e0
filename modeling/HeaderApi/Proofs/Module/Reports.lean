import HeaderApi.Proofs.Module.DocBlocks
import HeaderApi.Proofs.Module.Relocation

/-!
# Where reports point

Of the doc blocks for a symbol that the code does not declare, the last one is reported as unused,
in the order in which such symbols are first named (`DocIndex.forall₂_unused`).  This report, and
each other one that has a place, points at a block comment of the header, whether or not the scan
gives a module (`exists_comment_of_offset?`).
-/

namespace HeaderApi

/-- The symbol that a doc block names. -/
def DocBlock.symbol? (block : DocBlock) : Option Text := block.indexed?.map (·.name.symbol)

/-- The symbols that doc blocks name, in the order in which this happens first. -/
def documentedSymbols (t : Text) : List Text := ((docBlocks t).filterMap DocBlock.symbol?).eraseDups

namespace Diagnostic

def isUnused : Diagnostic → Bool
  | .unusedDocstring _ _ => true
  | _ => false

/-- A report about a doc block and what stands in it. -/
def isAboutBlock : Diagnostic → Bool
  | .unknownTag _ _ | .invalidTag _ _ _ | .missingName _ | .unusedDocstring _ _ => true
  | _ => false

/-- The report that a symbol is not declared points at the last doc block that names it. -/
def IsUnusedReport (t symbol : Text) (r : Diagnostic) : Prop :=
  ∃ block, lastWith? DocBlock.symbol? (some symbol) (docBlocks t) = some block ∧
    r = .unusedDocstring symbol block.start

/-- A report points at a block comment, and if it is about a doc block, this comment is one. -/
def PointsAt (t : Text) (r : Diagnostic) (s : CommentSpan) : Prop :=
  r.offset? = some s.start ∧ Text.StandsAt "/*".toList t s.start ∧
    (r.isAboutBlock = true → s.isDoc = true)

end Diagnostic

variable {o : ScanOptions} {index : DocIndex} {declared : Declarations} {name t symbol : Text}
  {symbols : List Text} {m : ApiModule} {block : DocBlock} {d : IndexedDoc} {r : Diagnostic}
  {s : CommentSpan} {offset : Nat}

/-! ## Unused doc blocks -/

namespace DocIndex

theorem keys_ofBlocks (t : Text) : (ofBlocks (docBlocks t)).keys = documentedSymbols t := by
  rw [ofBlocks, OrderedMap.keys_collect, List.map_filterMap, documentedSymbols]
  rfl

theorem result_ofText (t : Text) : (ofText t).result = .ok (ofBlocks (docBlocks t)) := by
  obtain ⟨notes, hindex⟩ := exists_ofText_eq t
  rw [hindex]

/-- The index answers with the last doc block that names a symbol. -/
theorem exists_block_of_get? (h : (ofBlocks (docBlocks t)).get? symbol = some d) :
    ∃ block, lastWith? DocBlock.symbol? (some symbol) (docBlocks t) = some block ∧
      d.offset = block.start := by
  rw [ofBlocks, OrderedMap.get?_collect, lastWith?_filterMap] at h
  obtain ⟨block, hlast, hd⟩ := Option.bind_eq_some_iff.1 h
  exact ⟨block, hlast, DocBlock.offset_of_indexed? hd⟩

theorem forall₂_unused (t : Text) (symbols : List Text) :
    List.Forall₂ (Diagnostic.IsUnusedReport t) ((documentedSymbols t).filter (· ∉ symbols))
      ((ofBlocks (docBlocks t)).unused symbols) := by
  rw [← keys_ofBlocks, OrderedMap.keys, List.filter_map, unused, List.forall₂_map_left_iff,
    List.forall₂_map_right_iff]
  apply List.forall₂_same.2
  rintro ⟨symbol, d⟩ he
  obtain ⟨block, hlast, hoffset⟩ :=
    exists_block_of_get? (OrderedMap.get?_of_mem (List.mem_filter.1 he).1)
  exact ⟨block, hlast, congrArg (Diagnostic.unusedDocstring symbol) hoffset⟩

theorem isUnused_of_mem_unused (h : r ∈ index.unused symbols) : r.isUnused = true := by
  obtain ⟨e, -, rfl⟩ := List.mem_map.1 h
  rfl

theorem not_isUnused_of_mem (h : r ∈ (ofText t).diagnostics) : r.isUnused = false := by
  obtain ⟨notes, hindex⟩ := exists_ofText_eq t
  rw [hindex] at h
  rcases List.mem_append.1 h with h | h
  · obtain ⟨offset, -, rfl⟩ := List.mem_map.1 h
    rfl
  · obtain ⟨block, -, h⟩ := List.mem_flatMap.1 h
    rcases mem_reports_iff.1 h with h | ⟨-, rfl⟩
    · cases isTagReport_of_mem_parse h <;> rfl
    · rfl

end DocIndex

/-! ## Comments that reports point at -/

/-- A comment that is a doc block, or is not closed, is a block comment. -/
theorem CommentSpan.Fits.standsAt_block (h : s.Fits t) (hs : s.isDoc = true ∨ s.isClosed = false) :
    Text.StandsAt "/*".toList t s.start := by
  obtain ⟨start, stop, shape⟩ := s
  cases shape with
  | line => exact absurd hs (by simp [isDoc, isClosed])
  | block => exact FitsBlock.opens h

theorem fits_of_mem_commentSpans (hs : s ∈ commentSpans t) : s.Fits t :=
  ((lexedFrom_iff [] t _).2 rfl).fits s hs

/-- A doc block is read from a comment. -/
theorem exists_span_of_mem_docBlocks (h : block ∈ docBlocks t) :
    ∃ s ∈ commentSpans t, s.isDoc = true ∧ s.start = block.start := by
  have hstart := List.mem_map_of_mem (f := DocBlock.start) h
  rw [map_start_docBlocks] at hstart
  obtain ⟨s, hs, hstart⟩ := List.mem_map.1 hstart
  obtain ⟨hs, hdoc⟩ := List.mem_filter.1 hs
  exact ⟨s, hs, hdoc, hstart⟩

theorem exists_pointsAt_of_block (hblock : block ∈ docBlocks t)
    (hr : r.offset? = some block.start) : ∃ s ∈ commentSpans t, r.PointsAt t s := by
  obtain ⟨s, hs, hdoc, hstart⟩ := exists_span_of_mem_docBlocks hblock
  exact ⟨s, hs, hstart ▸ hr, (fits_of_mem_commentSpans hs).standsAt_block (.inl hdoc),
    fun _ => hdoc⟩

theorem exists_pointsAt_of_open (h : offset ∈ unclosedComments t) :
    ∃ s ∈ commentSpans t, (Diagnostic.unterminatedComment offset).PointsAt t s := by
  rw [unclosedComments_eq] at h
  obtain ⟨s, hs, rfl⟩ := List.mem_map.1 h
  obtain ⟨hs, hopen⟩ := List.mem_filter.1 hs
  refine ⟨s, hs, rfl, (fits_of_mem_commentSpans hs).standsAt_block (.inr ?_), fun h => ?_⟩
  · simpa using hopen
  · cases h

namespace ApiModule

/-! ## Scans -/

theorem isUnused_of_isAboutCode (h : r.isAboutCode = true) : r.isUnused = false := by
  cases r with
  | unusedDocstring => cases h
  | _ => rfl

/-- Of the doc blocks for a symbol that is not declared, the last one is reported. -/
theorem filter_isUnused_diagnostics (h : (ofText o name t).result = .ok m)
    (hdeclared : Declarations.ofCode (codeOf t) = .ok declared) :
    (ofText o name t).diagnostics.filter (·.isUnused) =
      (DocIndex.ofBlocks (docBlocks t)).unused declared.symbols := by
  have hresult : (addAll o (.ofBlocks (docBlocks t)) name declared).result = .ok m :=
    (ofText_of_ok (DocIndex.result_ofText t) hdeclared).1.symm.trans h
  have hindex : (DocIndex.ofText t).diagnostics.filter (·.isUnused) = [] :=
    List.filter_eq_nil_iff.2 fun r hr => by simp [DocIndex.not_isUnused_of_mem hr]
  have hcode : (addAll o (.ofBlocks (docBlocks t)) name declared).diagnostics.filter
      (·.isUnused) = [] :=
    List.filter_eq_nil_iff.2 fun r hr => by
      simp [isUnused_of_isAboutCode (isAboutCode_of_mem_addAll r hr)]
  have hunused : ((DocIndex.ofBlocks (docBlocks t)).unused declared.symbols).filter
      (·.isUnused) = (DocIndex.ofBlocks (docBlocks t)).unused declared.symbols :=
    List.filter_eq_self.2 fun r hr => DocIndex.isUnused_of_mem_unused hr
  have hok : (addAll o (.ofBlocks (docBlocks t)) name declared).result.isOk = true := by
    rw [hresult]
    rfl
  rw [(ofText_of_ok (DocIndex.result_ofText t) hdeclared).2, if_pos hok, List.filter_append,
    List.filter_append, hindex, hcode, hunused, List.nil_append, List.nil_append]

/-- A report is about an open comment, about a doc block, or about the code. -/
theorem mem_diagnostics_cases (h : r ∈ (ofText o name t).diagnostics) :
    (∃ offset ∈ unclosedComments t, r = .unterminatedComment offset) ∨
      (∃ block ∈ docBlocks t, r.offset? = some block.start) ∨ r.isAboutCode = true := by
  obtain ⟨notes, hindex⟩ := DocIndex.exists_ofText_eq t
  have hcomments : r ∈ (DocIndex.ofText t).diagnostics →
      (∃ offset ∈ unclosedComments t, r = .unterminatedComment offset) ∨
        ∃ block ∈ docBlocks t, r.offset? = some block.start := by
    rw [hindex, List.mem_append, List.mem_map, List.mem_flatMap]
    rintro (⟨offset, hoffset, rfl⟩ | ⟨block, hblock, hr⟩)
    · exact .inl ⟨offset, hoffset, rfl⟩
    · exact .inr ⟨block, hblock, offset?_of_mem_reports hr⟩
  have hunused : ∀ symbols, r ∈ (DocIndex.ofBlocks (docBlocks t)).unused symbols →
      ∃ block ∈ docBlocks t, r.offset? = some block.start := by
    intro symbols hr
    obtain ⟨⟨symbol, d⟩, he, rfl⟩ := List.mem_map.1 hr
    obtain ⟨block, hlast, hoffset⟩ :=
      DocIndex.exists_block_of_get? (OrderedMap.get?_of_mem (List.mem_filter.1 he).1)
    exact ⟨block, mem_of_lastWith? hlast, congrArg some hoffset⟩
  cases hdeclared : Declarations.ofCode (codeOf t) with
  | error e =>
    rw [diagnostics_ofText_of_error hdeclared] at h
    exact (hcomments h).imp_right .inl
  | ok declared =>
    rw [(ofText_of_ok (DocIndex.result_ofText t) hdeclared).2, List.mem_append,
      List.mem_append] at h
    rcases h with (h | h) | h
    · exact (hcomments h).imp_right .inl
    · exact .inr (.inr (isAboutCode_of_mem_addAll r h))
    · split at h
      · exact .inr (.inl (hunused _ h))
      · cases h

/-- A report with a place points at a comment, whether or not the scan gives a module. -/
theorem exists_comment_of_offset? (h : r ∈ (ofText o name t).diagnostics)
    (hoffset : r.offset? = some offset) : ∃ s ∈ commentSpans t, r.PointsAt t s := by
  rcases mem_diagnostics_cases h with ⟨offset', hopen, rfl⟩ | ⟨block, hblock, hr⟩ | habout
  · exact exists_pointsAt_of_open hopen
  · exact exists_pointsAt_of_block hblock hr
  · cases r with
    | unterminatedComment | unknownTag | invalidTag | missingName | unusedDocstring =>
      cases habout
    | _ => cases hoffset

/-- A scan that gives a module reports the last doc block of each symbol that is not declared, and
every scan points at block comments only. -/
theorem unused_exact_and_placed (o : ScanOptions) (name t : Text) :
    (∀ m, (ofText o name t).result = .ok m → ∃ declared,
      Declarations.ofCode (codeOf t) = .ok declared ∧
      List.Forall₂ (Diagnostic.IsUnusedReport t)
        ((documentedSymbols t).filter (· ∉ declared.symbols))
        ((ofText o name t).diagnostics.filter (·.isUnused))) ∧
    ∀ r ∈ (ofText o name t).diagnostics, ∀ offset, r.offset? = some offset →
      ∃ s ∈ commentSpans t, r.PointsAt t s := by
  refine ⟨fun m h => ?_, fun r hr offset hoffset => exists_comment_of_offset? hr hoffset⟩
  obtain ⟨index, declared, typed, placed, hstages⟩ := exists_stages h
  refine ⟨declared, hstages.code, ?_⟩
  rw [filter_isUnused_diagnostics h hstages.code]
  exact DocIndex.forall₂_unused t declared.symbols

/-- A symbol with two doc blocks that is not declared, and comments with something to report. -/
def reportHeader : Text :=
  "/** @name: x */\n".toList ++ "/** @name: y */\n".toList ++
  "/** @name: x @nope: 1 */\n".toList ++ "/** z */\n".toList ++ "void y (void);\n".toList ++
  "/* end".toList

def reportsOfHeader : List Diagnostic :=
  [.unterminatedComment 81, .unknownTag "nope".toList 32, .missingName 57,
    .unusedDocstring "x".toList 32]

theorem ofText_reportHeader :
    (ofText ⟨none⟩ "a".toList reportHeader).diagnostics = reportsOfHeader ∧
    ∃ m, (ofText ⟨none⟩ "a".toList reportHeader).result = .ok m := by
  have hnames : StructType.names (codeOf reportHeader) = [] := by
    rw [StructType.names_of_notMem (by decide +kernel)]
    decide +kernel
  have h : (ofText ⟨none⟩ "a".toList reportHeader).diagnostics = reportsOfHeader ∧
      ∃ m ∈ (ofText ⟨none⟩ "a".toList reportHeader).result.toOption, m.functions.length = 1 := by
    rw [ofText, Declarations.ofCode, hnames]
    decide +kernel
  obtain ⟨hdiagnostics, m, hm, -⟩ := h
  exact ⟨hdiagnostics, m, Scan.result_eq_ok_of_mem hm⟩

/-- Of the two doc blocks for `x` the second one is reported, and each report has its comment. -/
theorem unused_exact_and_placed_reportHeader :
    (∃ declared, Declarations.ofCode (codeOf reportHeader) = .ok declared ∧
      List.Forall₂ (Diagnostic.IsUnusedReport reportHeader)
        ((documentedSymbols reportHeader).filter (· ∉ declared.symbols))
        [.unusedDocstring "x".toList 32]) ∧
    ∀ r ∈ reportsOfHeader, ∃ s ∈ commentSpans reportHeader, r.PointsAt reportHeader s := by
  obtain ⟨hdiagnostics, m, hm⟩ := ofText_reportHeader
  obtain ⟨hunused, hplaced⟩ := unused_exact_and_placed ⟨none⟩ "a".toList reportHeader
  obtain ⟨declared, hdeclared, hreports⟩ := hunused m hm
  rw [hdiagnostics] at hreports hplaced
  refine ⟨⟨declared, hdeclared, hreports⟩, fun r hr => ?_⟩
  have hsome : ∀ r ∈ reportsOfHeader, r.offset?.isSome = true := by decide
  obtain ⟨offset, hoffset⟩ := Option.isSome_iff_exists.1 (hsome r hr)
  exact hplaced r hr offset hoffset

end ApiModule

end HeaderApi
