import HeaderApi.Proofs.Comment.Lexing
import HeaderApi.Proofs.Module.Step

/-!
# What becomes of doc blocks

A doc block without a name is reported.  One with a name is found by the declaration of its symbol,
or reported as unused, unless a later block for the same symbol has taken its place: then it is
lost without a report (`accounted_iff`).
-/

namespace HeaderApi

variable {o : ScanOptions} {index : DocIndex} {declared : Declarations} {name t symbol : Text}
  {symbols : List Text} {m : ApiModule} {block later : DocBlock} {d : IndexedDoc} {r : Diagnostic}
  {offset : Nat}

namespace DocBlock

/-- A later doc block is for the same symbol. -/
def IsReplaced (t : Text) (block : DocBlock) : Prop :=
  ∃ later ∈ docBlocks t, block.start < later.start ∧
    ∃ d ∈ block.indexed?, ∃ d' ∈ later.indexed?, d'.name.symbol = d.name.symbol

/-- Something becomes of a doc block: it is reported, or a declaration finds it. -/
inductive Accounted (index : DocIndex) (declared : Declarations) (ds : List Diagnostic)
    (block : DocBlock) : Prop where
  | unnamed (hname : block.indexed? = none) (hreport : .missingName block.start ∈ ds)
  | unused (symbol : Text) (hreport : .unusedDocstring symbol block.start ∈ ds)
  | claimed {d : IndexedDoc} (hname : block.indexed? = some d)
    (hsymbol : d.name.symbol ∈ declared.symbols) (hindex : index.get? d.name.symbol = some d)

/-! ## Places -/

theorem offset_of_indexed? (h : block.indexed? = some d) : d.offset = block.start := by
  obtain ⟨name, -, rfl⟩ := Option.map_eq_some_iff.1 h
  rfl

/-- No two doc blocks begin at one place. -/
theorem eq_of_start_eq (hblock : block ∈ docBlocks t) (hlater : later ∈ docBlocks t)
    (h : block.start = later.start) : block = later := by
  have hnodup : ((docBlocks t).map DocBlock.start).Nodup :=
    (List.pairwise_map.2 (docBlocks_ordered t)).imp ne_of_lt
  exact List.inj_on_of_nodup_map hnodup hblock hlater h

end DocBlock

theorem DocIndex.mem_unused_iff : .unusedDocstring symbol offset ∈ index.unused symbols ↔
    symbol ∉ symbols ∧ ∃ d, index.get? symbol = some d ∧ d.offset = offset := by
  constructor
  · intro h
    obtain ⟨⟨symbol, d⟩, hmem, heq⟩ := List.mem_map.1 h
    obtain ⟨rfl, rfl⟩ := Diagnostic.unusedDocstring.inj heq
    obtain ⟨hmem, hsymbol⟩ := List.mem_filter.1 hmem
    exact ⟨of_decide_eq_true hsymbol, d, OrderedMap.get?_of_mem hmem, rfl⟩
  · rintro ⟨hsymbol, d, hd, rfl⟩
    refine List.mem_map.2 ⟨(symbol, d), ?_, rfl⟩
    exact List.mem_filter.2 ⟨OrderedMap.mem_of_get? hd, decide_eq_true hsymbol⟩

/-- The documentation of a symbol is read from the doc block that none replaces. -/
theorem documentation?_eq_some_iff : documentation? t symbol = some d ↔
    ∃ block ∈ docBlocks t, block.indexed? = some d ∧ d.name.symbol = symbol ∧
      ¬ block.IsReplaced t := by
  have hordered : ((docBlocks t).filterMap DocBlock.indexed?).Pairwise (·.offset < ·.offset) := by
    refine (docBlocks_ordered t).filterMap _ fun block later hlt d hd d' hd' => ?_
    rwa [DocBlock.offset_of_indexed? hd, DocBlock.offset_of_indexed? hd']
  rw [documentation?, lastWith?_eq_some_iff hordered]
  constructor
  · rintro ⟨hmem, hsymbol, hlast⟩
    obtain ⟨block, hblock, hd⟩ := List.mem_filterMap.1 hmem
    refine ⟨block, hblock, hd, hsymbol, ?_⟩
    rintro ⟨later, hlater, hlt, d', hd', d'', hd'', hsame⟩
    obtain rfl : d = d' := Option.some.inj (hd.symm.trans hd')
    refine hlast d'' (List.mem_filterMap.2 ⟨later, hlater, hd''⟩) ?_ (hsame.trans hsymbol)
    rwa [DocBlock.offset_of_indexed? hd, DocBlock.offset_of_indexed? hd'']
  · rintro ⟨block, hblock, hd, hsymbol, hnot⟩
    refine ⟨List.mem_filterMap.2 ⟨block, hblock, hd⟩, hsymbol, fun d' hmem hlt hsame => ?_⟩
    obtain ⟨later, hlater, hd'⟩ := List.mem_filterMap.1 hmem
    rw [DocBlock.offset_of_indexed? hd, DocBlock.offset_of_indexed? hd'] at hlt
    exact hnot ⟨later, hlater, hlt, d, hd, d', hd', hsame.trans hsymbol.symm⟩

/-- A doc block is found by its symbol unless another one replaces it. -/
theorem documentation?_of_indexed? (hblock : block ∈ docBlocks t) (hd : block.indexed? = some d) :
    documentation? t d.name.symbol = some d ↔ ¬ block.IsReplaced t := by
  rw [documentation?_eq_some_iff]
  constructor
  · rintro ⟨block', hblock', hd', -, hnot⟩
    have hstart := (DocBlock.offset_of_indexed? hd).symm.trans (DocBlock.offset_of_indexed? hd')
    rwa [DocBlock.eq_of_start_eq hblock hblock' hstart]
  · exact fun hnot => ⟨block, hblock, hd, rfl, hnot⟩

namespace ApiModule

variable {typed placed : ApiModule}

/-- A report about an unused doc block names one that none replaces. -/
theorem Stages.not_isReplaced_of_unused (hstages : Stages o name t index declared typed placed m)
    (hblock : block ∈ docBlocks t)
    (h : .unusedDocstring symbol block.start ∈ (ofText o name t).diagnostics) :
    ¬ block.IsReplaced t := by
  rcases (hstages.mem_diagnostics_iff rfl).1 h with h | ⟨block', -, h⟩ | h
  · obtain ⟨offset, -, h⟩ := List.mem_map.1 h
    cases h
  · rcases mem_reports_iff.1 h with h | ⟨-, h⟩
    · cases isTagReport_of_mem_parse h
    · cases h
  · obtain ⟨-, d, hd, hoffset⟩ := DocIndex.mem_unused_iff.1 h
    rw [hstages.documented, documentation?_eq_some_iff] at hd
    obtain ⟨block', hblock', hd', -, hnot⟩ := hd
    have hstart := (DocBlock.offset_of_indexed? hd').symm.trans hoffset
    rwa [← DocBlock.eq_of_start_eq hblock' hblock hstart]

/-- A doc block is accounted for if and only if no later one for the same symbol replaces it. -/
theorem accounted_iff (h : (ofText o name t).result = .ok m) :
    ∃ index declared, (DocIndex.ofText t).result = .ok index ∧
      Declarations.ofCode (codeOf t) = .ok declared ∧
      ∀ block ∈ docBlocks t,
        block.Accounted index declared (ofText o name t).diagnostics ↔ ¬ block.IsReplaced t := by
  obtain ⟨index', declared, typed, placed, hstages⟩ := exists_stages h
  obtain ⟨index, notes, hindex, hdocumented⟩ := exists_index_ofText t
  refine ⟨index, declared, by rw [hindex], hstages.code, fun block hblock => ⟨?_, ?_⟩⟩
  · intro haccounted
    cases haccounted with
    | unnamed hname =>
      rintro ⟨-, -, -, d, hd, -⟩
      rw [hname] at hd
      cases hd
    | unused symbol hreport => exact hstages.not_isReplaced_of_unused hblock hreport
    | claimed hname hsymbol hfound =>
      rw [hdocumented] at hfound
      exact (documentation?_of_indexed? hblock hname).1 hfound
  · intro hnot
    cases hname : block.indexed? with
    | none =>
      refine .unnamed hname ((hstages.mem_diagnostics_iff rfl).2 (.inr (.inl ⟨block, hblock, ?_⟩)))
      exact mem_reports_iff.2 (.inr ⟨hname, rfl⟩)
    | some d =>
      have hfound := (documentation?_of_indexed? hblock hname).2 hnot
      by_cases hsymbol : d.name.symbol ∈ declared.symbols
      · exact .claimed hname hsymbol (hdocumented _ ▸ hfound)
      · refine .unused d.name.symbol ((hstages.mem_diagnostics_iff rfl).2 (.inr (.inr ?_)))
        refine DocIndex.mem_unused_iff.2 ⟨hsymbol, d, hstages.documented _ ▸ hfound, ?_⟩
        exact DocBlock.offset_of_indexed? hname

/-- Two doc blocks for one symbol. -/
def twiceHeader : Text := "/** @name: x */\n".toList ++ "/** @name: x */\n".toList

theorem docBlocks_twiceHeader : docBlocks twiceHeader =
    [⟨0, 15, " @name: x ".toList⟩, ⟨16, 31, " @name: x ".toList⟩] := by
  decide +kernel

theorem ofCode_twiceHeader : Declarations.ofCode (codeOf twiceHeader) = .ok ⟨[], [], [], []⟩ := by
  have hnames : StructType.names (codeOf twiceHeader) = [] := by
    rw [StructType.names_of_notMem (by decide +kernel)]
    decide +kernel
  rw [Declarations.ofCode, hnames]
  decide +kernel

theorem ofText_twiceHeader :
    (ofText ⟨none⟩ "a".toList twiceHeader).result = .ok { name := "a".toList } ∧
    (ofText ⟨none⟩ "a".toList twiceHeader).diagnostics = [.unusedDocstring "x".toList 16] := by
  rw [ofText, ofCode_twiceHeader]
  decide +kernel

/-- The second block is accounted for, and the first one is not. -/
theorem accounted_iff_twiceHeader :
    (ofText ⟨none⟩ "a".toList twiceHeader).result = .ok { name := "a".toList } ∧
    ∃ index declared, (DocIndex.ofText twiceHeader).result = .ok index ∧
      ¬ DocBlock.Accounted index declared (ofText ⟨none⟩ "a".toList twiceHeader).diagnostics
        ⟨0, 15, " @name: x ".toList⟩ ∧
      DocBlock.Accounted index declared (ofText ⟨none⟩ "a".toList twiceHeader).diagnostics
        ⟨16, 31, " @name: x ".toList⟩ := by
  obtain ⟨index, declared, hindex, -, hblocks⟩ := accounted_iff ofText_twiceHeader.1
  refine ⟨ofText_twiceHeader.1, index, declared, hindex, ?_, ?_⟩
  · rw [hblocks _ (by simp [docBlocks_twiceHeader]), not_not]
    exact ⟨⟨16, 31, " @name: x ".toList⟩, by simp [docBlocks_twiceHeader], by decide,
      _, rfl, _, rfl, rfl⟩
  · rw [hblocks _ (by simp [docBlocks_twiceHeader])]
    rintro ⟨later, hlater, hlt, -⟩
    rw [docBlocks_twiceHeader, List.mem_cons, List.mem_singleton] at hlater
    rcases hlater with rfl | rfl <;> exact absurd hlt (by decide)

/-- The first block is lost without a report. -/
theorem exists_block_lost : ∃ m block, (ofText ⟨none⟩ "a".toList twiceHeader).result = .ok m ∧
    block ∈ docBlocks twiceHeader ∧
    ∀ index declared, Declarations.ofCode (codeOf twiceHeader) = .ok declared →
      ¬ block.Accounted index declared (ofText ⟨none⟩ "a".toList twiceHeader).diagnostics := by
  refine ⟨_, ⟨0, 15, " @name: x ".toList⟩, ofText_twiceHeader.1, by simp [docBlocks_twiceHeader],
    fun index declared hdeclared haccounted => ?_⟩
  rw [ofCode_twiceHeader] at hdeclared
  cases hdeclared
  cases haccounted with
  | unnamed hname => exact absurd hname (by decide +kernel)
  | unused symbol hreport =>
    rw [ofText_twiceHeader.2] at hreport
    simp at hreport
  | claimed hname hsymbol => exact absurd hsymbol (by simp [Declarations.symbols])

end ApiModule

end HeaderApi
