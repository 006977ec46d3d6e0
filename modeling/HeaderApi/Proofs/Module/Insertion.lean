import HeaderApi.Proofs.Code.Directive
import HeaderApi.Proofs.Module.Relocation

/-!
# Text that leaves no trace

A closed comment between two texts separates them as a space does.  A scan takes no notice of it,
unless it is a doc block for one of the symbols that the code declares (`ofText_insertComment`).  A
directive on lines of its own is not seen at all (`ofText_insertDirective`).
-/

namespace HeaderApi

open Text

variable {a b c t t' symbol : Text} {g : Nat → Nat}

/-! ## One comment -/

/-- A block comment as it stands in a header. -/
def commentText (c : Text) : Text := "/*".toList ++ c ++ "*/".toList

/-- The comment with the text `c` between `/*` and `*/`. -/
def Comment.ofInner : Text → Comment
  | '*' :: body => .block true body true
  | c => .block false c true

theorem blockComment_inner (hc : ¬ "*/".toList <:+: c) (t : Text) :
    blockComment (c ++ "*/".toList ++ t) = (.ofInner c, t) := by
  unfold Comment.ofInner
  split
  next body =>
    have hbody : ¬ "*/".toList <:+: body := by
      intro h
      exact hc (h.trans (List.suffix_cons '*' body).isInfix)
    have hhead : body.head? ≠ some '/' := by
      intro h
      obtain ⟨r, rfl⟩ := List.head?_eq_some_iff.1 h
      exact hc (List.prefix_append _ r).isInfix
    exact blockComment_doc hhead hbody t
  next hstar =>
    have hhead : c.head? ≠ some '*' := by
      intro h
      obtain ⟨r, rfl⟩ := List.head?_eq_some_iff.1 h
      exact hstar r rfl
    exact blockComment_plain hhead hc t

theorem pieces_commentText (hc : ¬ "*/".toList <:+: c) (t : Text) :
    pieces (commentText c ++ t) = .comment (.ofInner c) :: pieces t := by
  have htext : commentText c ++ t = '/' :: '*' :: (c ++ "*/".toList ++ t) := by simp [commentText]
  rw [htext, pieces, blockComment_inner hc]

theorem docBlocks_commentText (hc : ¬ "*/".toList <:+: c) :
    docBlocks (commentText c) = [(0, Comment.ofInner c)].filterMap docBlockOf? := by
  have hpieces := pieces_commentText hc []
  rw [List.append_nil] at hpieces
  rw [docBlocks_eq_filterMap, comments, hpieces, pieces]
  rfl

theorem source_ofInner (c : Text) : (Comment.ofInner c).source = commentText c := by
  unfold Comment.ofInner commentText
  split <;> simp [Comment.source]

theorem byteSize_ofInner (c : Text) :
    byteSize ([Piece.comment (.ofInner c)].flatMap Piece.source) =
      byteSize ([Piece.char ' '].flatMap Piece.source) + (byteSize (commentText c) - 1) := by
  have hsource : [Piece.comment (.ofInner c)].flatMap Piece.source = commentText c := by
    simp [Piece.source, source_ofInner]
  have hspace : byteSize ([Piece.char ' '].flatMap Piece.source) = 1 := by decide
  have hpos : 0 < byteSize (commentText c) := by
    rw [← source_ofInner]
    exact (Comment.ofInner c).byteSize_source_pos
  rw [hsource, hspace]
  omega

/-- Of closed block comments a scan takes notice of doc blocks only. -/
theorem isNotable_ofInner (hc : ¬ "*/".toList <:+: c) (h : docBlocks (commentText c) = []) :
    (Comment.ofInner c).isNotable = false := by
  rw [docBlocks_commentText hc] at h
  unfold Comment.ofInner at h ⊢
  split at h
  next => cases h
  next => rfl

/-! ## Documentation -/

/-- Doc blocks for other symbols do not change the documentation of a symbol. -/
theorem documentation?_of_blocks {before middle behind before' behind' : List DocBlock}
    (ht : docBlocks t = before ++ behind) (ht' : docBlocks t' = before' ++ middle ++ behind')
    (hbefore : List.Forall₂ (DocBlock.Moved g) before before')
    (hbehind : List.Forall₂ (DocBlock.Moved g) behind behind')
    (hmiddle : ∀ d ∈ middle.filterMap DocBlock.indexed?, d.name.symbol ≠ symbol) :
    (documentation? t' symbol).map (·.doc) = (documentation? t symbol).map (·.doc) := by
  have hnone : lastWith? (·.name.symbol) symbol (middle.filterMap DocBlock.indexed?) = none :=
    lastWith?_eq_none hmiddle
  have hmoved : (before' ++ behind').filterMap DocBlock.indexed? =
      ((before ++ behind).filterMap DocBlock.indexed?).map (IndexedDoc.mapOffset g) :=
    DocBlock.Moved.filterMap_indexed? (List.rel_append hbefore hbehind)
  have hkey : ∀ d : IndexedDoc, (d.mapOffset g).name.symbol = d.name.symbol := fun _ => rfl
  calc (documentation? t' symbol).map (·.doc)
      = (lastWith? (·.name.symbol) symbol
          ((before' ++ behind').filterMap DocBlock.indexed?)).map (·.doc) := by
        rw [documentation?, ht']
        simp only [List.filterMap_append, lastWith?_append, hnone, Option.none_or]
    _ = ((documentation? t symbol).map (IndexedDoc.mapOffset g)).map (·.doc) := by
        rw [hmoved, lastWith?_map hkey, documentation?, ht]
    _ = (documentation? t symbol).map (·.doc) := by
        rw [Option.map_map]
        rfl

/-! ## Between two texts -/

section Between

variable (ha : EndsInCode a) (hslash : a.getLast? ≠ some '/')

include ha hslash

theorem pieces_insertSpace (b : Text) :
    pieces (a ++ " ".toList ++ b) = pieces a ++ [.char ' '] ++ pieces b := by
  rw [List.append_assoc, ha.pieces_append hslash, List.append_assoc]
  exact congrArg (pieces a ++ ·) (pieces_cons (by decide) b)

variable (hc : ¬ "*/".toList <:+: c)

include hc

theorem pieces_insertComment (b : Text) :
    pieces (a ++ commentText c ++ b) = pieces a ++ [.comment (.ofInner c)] ++ pieces b := by
  rw [List.append_assoc, ha.pieces_append hslash, pieces_commentText hc, List.append_assoc]
  rfl

theorem codeOf_insertComment (b : Text) :
    codeOf (a ++ commentText c ++ b) = codeOf (a ++ " ".toList ++ b) := by
  rw [codeOf, codeOf, stripComments, stripComments, pieces_insertSpace ha hslash,
    pieces_insertComment ha hslash hc]
  simp only [List.map_append, List.map_cons, Piece.code]

theorem documentation?_insertComment (b : Text)
    (hsymbol : ∀ block ∈ docBlocks (commentText c), ∀ d ∈ block.indexed?,
      d.name.symbol ≠ symbol) :
    (documentation? (a ++ commentText c ++ b) symbol).map (·.doc) =
      (documentation? (a ++ " ".toList ++ b) symbol).map (·.doc) := by
  obtain ⟨before, behind, behind', hcomments, hcomments', hbefore, hbehind⟩ :=
    exists_comments_shift (pieces_insertSpace ha hslash b) (pieces_insertComment ha hslash hc b)
      (congrArg byteSize (flatMap_source_pieces a)) (byteSize_ofInner c)
  have ht : docBlocks (a ++ " ".toList ++ b) =
      before.filterMap docBlockOf? ++ behind.filterMap docBlockOf? := by
    rw [docBlocks_eq_filterMap, hcomments]
    simp [commentsFrom]
  have ht' : docBlocks (a ++ commentText c ++ b) = before.filterMap docBlockOf? ++
      [(byteSize a, .ofInner c)].filterMap docBlockOf? ++ behind'.filterMap docBlockOf? := by
    rw [docBlocks_eq_filterMap, hcomments']
    simp only [List.filterMap_append, commentsFrom]
  -- By itself the comment begins at byte 0.
  have hinner : List.Forall₂ (CommentMoved (· + byteSize a)) [(0, .ofInner c)]
      [(byteSize a, .ofInner c)] :=
    .cons ⟨(Nat.zero_add _).symm, Comment.readsAs_refl _⟩ .nil
  refine documentation?_of_blocks ht ht' (CommentMoved.forall₂_docBlocks hbefore)
    (CommentMoved.forall₂_docBlocks hbehind) fun d' hd' => ?_
  rw [DocBlock.Moved.filterMap_indexed? (CommentMoved.forall₂_docBlocks hinner),
    ← docBlocks_commentText hc] at hd'
  obtain ⟨d, hd, rfl⟩ := List.mem_map.1 hd'
  obtain ⟨block, hblock, hd⟩ := List.mem_filterMap.1 hd
  exact hsymbol block hblock d hd

end Between

/-! ## Scans -/

namespace ApiModule

/-- A closed block comment between two texts is as good as a space.  If it is a doc block, it may
not be the one of a symbol that the code declares. -/
theorem ofText_insertComment (o : ScanOptions) (name : Text) (ha : EndsInCode a)
    (hslash : a.getLast? ≠ some '/') (hc : ¬ "*/".toList <:+: c)
    (hdoc : ∀ declared, Declarations.ofCode (codeOf (a ++ " ".toList ++ b)) = .ok declared →
      ∀ block ∈ docBlocks (commentText c), ∀ d ∈ block.indexed?,
        d.name.symbol ∉ declared.symbols) :
    (ofText o name (a ++ commentText c ++ b)).result =
        (ofText o name (a ++ " ".toList ++ b)).result ∧
      (docBlocks (commentText c) = [] →
        (ofText o name (a ++ commentText c ++ b)).diagnostics =
          (ofText o name (a ++ " ".toList ++ b)).diagnostics.map
            (Diagnostic.mapOffset (shiftFrom (byteSize a) (byteSize (commentText c) - 1)))) := by
  have hcode := codeOf_insertComment ha hslash hc b
  constructor
  · refine result_eq_of_agree hcode fun index index' declared hindex hindex' hdeclared => ?_
    obtain ⟨_, _, hrun, hdocumented⟩ := exists_index_ofText (a ++ " ".toList ++ b)
    obtain ⟨_, _, hrun', hdocumented'⟩ := exists_index_ofText (a ++ commentText c ++ b)
    rw [hrun] at hindex
    rw [hrun'] at hindex'
    obtain rfl := Except.ok.inj hindex
    obtain rfl := Except.ok.inj hindex'
    refine agree_of_documentation? hdocumented hdocumented' fun symbol hsymbol => ?_
    refine (documentation?_insertComment ha hslash hc b fun block hblock d hd heq => ?_).symm
    exact hdoc declared hdeclared block hblock d hd (heq ▸ hsymbol)
  · intro hplain
    have hquiet := isNotable_ofInner hc hplain
    have hrelocated := Relocated.of_pieces hcode (pieces_insertSpace ha hslash b)
      (pieces_insertComment ha hslash hc b) (congrArg byteSize (flatMap_source_pieces a))
      (byteSize_ofInner c) (by simp [commentsFrom]) (by simpa [commentsFrom] using hquiet)
    exact (ofText_relocated hrelocated).2

/-- A doc block and a return type. -/
def voidText : Text := "/** @name: ta_log */\n".toList ++ "void".toList

/-- A doc block for a symbol that is not declared. -/
def oldText : Text := "/** @name: ta_old */\n".toList

/-- The function that belongs behind the return type. -/
def logText : Text := "ta_log (void);\n".toList ++ oldText

theorem ofCode_voidLog :
    Declarations.ofCode (codeOf (voidText ++ " ".toList ++ logText)) =
      .ok ⟨[], [], [⟨"ta_log".toList, "void".toList, []⟩], []⟩ := by
  have hnames : StructType.names (codeOf (voidText ++ " ".toList ++ logText)) = [] := by
    rw [StructType.names_of_notMem (by decide +kernel)]
    decide +kernel
  rw [Declarations.ofCode, hnames]
  decide +kernel

theorem ofText_voidLog :
    (ofText ⟨none⟩ "log".toList (voidText ++ " ".toList ++ logText)).result.toOption.map
        (·.functions.map (·.cname)) = some ["ta_log".toList] ∧
      (ofText ⟨none⟩ "log".toList (voidText ++ " ".toList ++ logText)).diagnostics =
        [.unusedDocstring "ta_old".toList 41] := by
  rw [ofText, ofCode_voidLog]
  decide +kernel

theorem endsInCode_voidText : EndsInCode voidText := by
  have hlast : (pieces voidText).getLast? = some (.char 'd') := by decide +kernel
  refine ⟨by decide +kernel, fun body h => ?_⟩
  rw [hlast] at h
  cases h

/-- A comment between the return type and the name of a function, and a doc block there. -/
theorem ofText_insertComment_voidText :
    (ofText ⟨none⟩ "log".toList (voidText ++ commentText " loud ".toList ++ logText)).diagnostics =
      [.unusedDocstring "ta_old".toList 50] ∧
    (ofText ⟨none⟩ "log".toList
        (voidText ++ commentText "* @name: ta_new ".toList ++ logText)).result.toOption.map
      (·.functions.map (·.cname)) = some ["ta_log".toList] := by
  obtain ⟨hfunctions, hreports⟩ := ofText_voidLog
  have hslash : voidText.getLast? ≠ some '/' := by decide +kernel
  have hdoc : ∀ c, (∀ block ∈ docBlocks (commentText c), ∀ d ∈ block.indexed?,
      d.name.symbol ≠ "ta_log".toList) → ∀ declared,
      Declarations.ofCode (codeOf (voidText ++ " ".toList ++ logText)) = .ok declared →
      ∀ block ∈ docBlocks (commentText c), ∀ d ∈ block.indexed?,
        d.name.symbol ∉ declared.symbols := by
    intro c hc declared hdeclared
    rw [ofCode_voidLog] at hdeclared
    cases hdeclared
    simpa [Declarations.symbols] using hc
  constructor
  · have h := ofText_insertComment ⟨none⟩ "log".toList endsInCode_voidText hslash
      (by decide +kernel) (hdoc " loud ".toList (by decide +kernel))
    rw [h.2 (by decide +kernel), hreports]
    decide +kernel
  · have h := ofText_insertComment ⟨none⟩ "log".toList endsInCode_voidText hslash
      (by decide +kernel) (hdoc "* @name: ta_new ".toList (by decide +kernel))
    rw [h.1, hfunctions]

end ApiModule

/-! ## A directive -/

section Directive

variable {d : Directive} (hblock : ¬ "/*".toList <:+: d.source)
  (hline : ¬ "//".toList <:+: d.source)

include hblock hline

theorem pieces_directive (b : Text) :
    pieces (d.source ++ b) = d.source.map .char ++ pieces b := by
  have hslash : d.source.getLast? ≠ some '/' := by
    simp [Directive.source, Directive.lines]
  rw [(EndsInCode.of_noMarks hblock hline).pieces_append hslash, pieces_of_noMarks hblock hline]

theorem stripComments_directive (b : Text) :
    stripComments (d.source ++ b) = d.source ++ stripComments b := by
  have hcode : (d.source.map Piece.char).map Piece.code = d.source := by
    rw [List.map_map]
    exact List.map_id _
  rw [stripComments, pieces_directive hblock hline, List.map_append, hcode, stripComments]

end Directive

namespace ApiModule

/-- A directive on lines of its own is not seen, where none is open in front of it. -/
theorem ofText_insertDirective (o : ScanOptions) (name b : Text) (d : Directive)
    (hblock : ¬ "/*".toList <:+: d.source) (hline : ¬ "//".toList <:+: d.source)
    (ha : a = [] ∨ a.getLast? = some '\n') (hclosed : unclosedComments a = [])
    (hbefore : inDirectiveAfter false (physicalLines (stripComments a)) = false) :
    (ofText o name (a ++ d.source ++ b)).result = (ofText o name (a ++ b)).result ∧
      (ofText o name (a ++ d.source ++ b)).diagnostics =
        (ofText o name (a ++ b)).diagnostics.map
          (Diagnostic.mapOffset (shiftFrom (byteSize a) (byteSize d.source))) := by
  have hends : EndsInCode a := .of_lineFeed hclosed ha
  have hslash : a.getLast? ≠ some '/' := by
    rcases ha with rfl | hfeed
    · simp
    · simp [hfeed]
  have hcode : codeOf (a ++ d.source ++ b) = codeOf (a ++ b) := by
    have hlines := physicalLines_append (hends.stripComments_lineFeed ha)
    rw [codeOf_eq, codeOf_eq, List.append_assoc, hends.stripComments_append hslash,
      hends.stripComments_append hslash, stripComments_directive hblock hline, hlines, hlines,
      d.physicalLines_source_append, d.codeWords_insert hbefore]
  have hpieces : pieces (a ++ b) = pieces a ++ [] ++ pieces b := by
    rw [hends.pieces_append hslash, List.append_nil]
  have hpieces' : pieces (a ++ d.source ++ b) = pieces a ++ d.source.map .char ++ pieces b := by
    rw [List.append_assoc, hends.pieces_append hslash, pieces_directive hblock hline,
      List.append_assoc]
  have hsize : byteSize ((d.source.map Piece.char).flatMap Piece.source) =
      byteSize (([] : List Piece).flatMap Piece.source) + byteSize d.source := by
    rw [← pieces_of_noMarks hblock hline, flatMap_source_pieces]
    exact (Nat.zero_add _).symm
  exact ofText_relocated (.of_pieces hcode hpieces hpieces'
    (congrArg byteSize (flatMap_source_pieces a)) hsize (by simp [commentsFrom])
    (by simp [commentsFrom_map_char]))

/-- A macro over two lines, of which the second one looks like a prototype. -/
def macroDirective : Directive where
  continued := ["#define TA_LOG(x) \\".toList]
  last := "void ta_macro (int x);".toList
  opens := by decide +kernel
  continues := by decide +kernel
  ends := by decide +kernel
  oneLine := by decide +kernel

theorem ofText_logOld :
    (ofText ⟨none⟩ "log".toList (logHeader ++ oldText)).result.toOption.map
        (·.functions.map (·.cname)) = some ["ta_log".toList] ∧
      (ofText ⟨none⟩ "log".toList (logHeader ++ oldText)).diagnostics =
        [.unknownParameter "ta_log".toList "m".toList, .unusedDocstring "ta_old".toList 52] := by
  have hcode : codeOf (logHeader ++ oldText) = codeOf logHeader := by decide +kernel
  rw [ofText, hcode, ofCode_logHeader]
  decide +kernel

/-- The function that the macro seems to declare is not found. -/
theorem ofText_insertDirective_logHeader :
    (ofText ⟨none⟩ "log".toList
        (logHeader ++ macroDirective.source ++ oldText)).result.toOption.map
      (·.functions.map (·.cname)) = some ["ta_log".toList] ∧
    (ofText ⟨none⟩ "log".toList (logHeader ++ macroDirective.source ++ oldText)).diagnostics =
      [.unknownParameter "ta_log".toList "m".toList, .unusedDocstring "ta_old".toList 95] := by
  obtain ⟨hfunctions, hreports⟩ := ofText_logOld
  have h := ofText_insertDirective ⟨none⟩ "log".toList oldText macroDirective (a := logHeader)
    (by decide +kernel) (by decide +kernel) (.inr (by decide +kernel)) (by decide +kernel)
    (by decide +kernel)
  rw [h.1, h.2, hfunctions, hreports]
  exact ⟨rfl, by decide +kernel⟩

end ApiModule

end HeaderApi
