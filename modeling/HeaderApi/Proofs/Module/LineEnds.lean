import HeaderApi.Proofs.Code.Words
import HeaderApi.Proofs.Docstring.Layout
import HeaderApi.Proofs.Module.Relocation
import HeaderApi.Proofs.Text.Returns

/-!
# Headers with other line ends

With a carriage return in front of each line feed, a line comment has one at its end, a block
comment has them on its lines, and code has them among its blanks (`PiecesReturned`).  None of them
is seen: the scan gives the same, and reports have moved by the line feeds before them
(`ofText_withReturns`).
-/

namespace HeaderApi

open Text

/-! ## Pieces -/

/-- The pieces of a text, and those of the text with carriage returns.  The carriage return behind a
line comment is a part of the comment. -/
inductive PiecesReturned : List Piece → List Piece → Prop where
  | nil : PiecesReturned [] []
  | char {c : Char} {ps ps' : List Piece} (hc : c ≠ '\n') (h : PiecesReturned ps ps') :
    PiecesReturned (.char c :: ps) (.char c :: ps')
  | lineFeed {ps ps' : List Piece} (h : PiecesReturned ps ps') :
    PiecesReturned (.char '\n' :: ps) (.char '\r' :: .char '\n' :: ps')
  | lastLine (body : Text) : PiecesReturned [.comment (.line body)] [.comment (.line body)]
  | line {body : Text} {ps ps' : List Piece} (hbody : '\n' ∉ body) (h : PiecesReturned ps ps') :
    PiecesReturned (.comment (.line body) :: .char '\n' :: ps)
      (.comment (.line (body ++ ['\r'])) :: .char '\n' :: ps')
  | block {doc closed : Bool} {body : Text} {ps ps' : List Piece} (h : PiecesReturned ps ps') :
    PiecesReturned (.comment (.block doc body closed) :: ps)
      (.comment (.block doc (withReturns body) closed) :: ps')

variable {body line line' rest t t' : Text} {c : Char} {doc closed : Bool} {ls ls' : List Text}
  {ps ps' : List Piece}

theorem PiecesReturned.of_lineFeed
    (h : PiecesReturned (.char '\n' :: ps) (.char '\r' :: .char '\n' :: ps')) :
    PiecesReturned ps ps' := by
  cases h with
  | lineFeed h => exact h

theorem openingComment?_withReturns_eq_none (h : openingComment? t = none) :
    openingComment? (withReturns t) = none := by
  rw [openingComment?_eq_none_iff] at h ⊢
  rwa [isPrefix_withReturns_iff (by decide) (by decide),
    isPrefix_withReturns_iff (by decide) (by decide)]

theorem blockComment_withReturns (h : blockComment t = (.block doc body closed, rest)) :
    blockComment (withReturns t) = (.block doc (withReturns body) closed, withReturns rest) := by
  obtain ⟨doc₁, inner, hopen, hdoc, hblock⟩ := exists_inner t
  obtain ⟨doc₂, inner', hopen', hdoc', hblock'⟩ := exists_inner (withReturns t)
  have htext : '/' :: '*' :: withReturns t = withReturns ('/' :: '*' :: t) := rfl
  have hsame : doc₂ = doc₁ := by
    rw [htext, isPrefix_withReturns_iff (by decide) (by decide),
      isPrefix_withReturns_iff (by decide) (by decide), ← hdoc] at hdoc'
    exact Bool.eq_iff_iff.2 hdoc'
  have hinner : inner' = withReturns inner := by
    have hmark : withReturns (blockMark doc₁) = blockMark doc₁ := by cases doc₁ <;> rfl
    rw [htext, ← hopen, withReturns_append, hmark, hsame] at hopen'
    exact List.append_cancel_left hopen'
  rw [hblock', hinner, cutAt_withReturns (by decide) (by decide) (by decide), hsame]
  rw [hblock] at h
  cases hcut : cutAt "*/".toList inner with
  | none =>
    rw [hcut] at h
    cases h
    rfl
  | some cut =>
    rw [hcut] at h
    cases h
    rfl

theorem returned_pieces (t : Text) : PiecesReturned (pieces t) (pieces (withReturns t)) := by
  induction t using pieces_induction with
  | nil =>
    rw [withReturns_nil, pieces]
    exact .nil
  | char c t hopening ih =>
    rw [pieces_cons_of_none hopening]
    by_cases hc : c = '\n'
    · rw [hc, withReturns_lineFeed, pieces_cons (by decide), pieces_cons (by decide)]
      exact .lineFeed ih
    · have hopening' := openingComment?_withReturns_eq_none hopening
      rw [withReturns_cons hc] at hopening' ⊢
      rw [pieces_cons_of_none hopening']
      exact .char hc ih
  | comment t k rest hopening ih =>
    rw [pieces_of_openingComment? hopening]
    cases k with
    | line body =>
      obtain ⟨rfl, hbody, hrest⟩ := openingComment?_eq_line_iff.1 hopening
      rcases hrest with rfl | ⟨r, rfl⟩
      · have hnone : '\n' ∉ "//".toList ++ (body ++ []) := by simpa using hbody
        rw [withReturns_of_notMem hnone, pieces_of_openingComment? hopening, pieces]
        exact .lastLine body
      · have htext : withReturns ("//".toList ++ (body ++ '\n' :: r)) =
            "//".toList ++ (body ++ ['\r'] ++ '\n' :: withReturns r) := by
          rw [withReturns_append, withReturns_append, withReturns_of_notMem hbody,
            withReturns_lineFeed]
          simp [withReturns]
        have hopening' : openingComment? (withReturns ("//".toList ++ (body ++ '\n' :: r))) =
            some (.line (body ++ ['\r']), '\n' :: withReturns r) :=
          openingComment?_eq_line_iff.2
            ⟨htext, by simpa using hbody, .inr (List.prefix_append ['\n'] _)⟩
        have hrest : pieces ("\n".toList ++ r) = .char '\n' :: pieces r := pieces_cons (by decide) r
        have hrest' : pieces (withReturns ("\n".toList ++ r)) =
            .char '\r' :: .char '\n' :: pieces (withReturns r) := by
          rw [show withReturns ("\n".toList ++ r) = '\r' :: '\n' :: withReturns r from rfl,
            pieces_cons (by decide), pieces_cons (by decide)]
        -- The line feed behind the comment stands there without its carriage return.
        rw [hrest, hrest'] at ih
        rw [hrest]
        refine (pieces_of_openingComment? hopening').symm ▸ ?_
        rw [pieces_cons (by decide)]
        exact .line hbody ih.of_lineFeed
    | block doc body closed =>
      obtain ⟨s, rfl, hs⟩ := openingComment?_eq_block_iff.1 hopening
      have hopening' : openingComment? (withReturns ('/' :: '*' :: s)) =
          some (.block doc (withReturns body) closed, withReturns rest) :=
        openingComment?_eq_block_iff.2 ⟨withReturns s, rfl, blockComment_withReturns hs⟩
      rw [pieces_of_openingComment? hopening']
      exact .block ih

/-! ## Code -/

/-- The line is the same, or has a carriage return in front of its line feed. -/
inductive LineReturned : Text → Text → Prop where
  | same (line : Text) : LineReturned line line
  | lineFeed (a : Text) : LineReturned (a ++ ['\n']) (a ++ ['\r'] ++ ['\n'])

namespace LineReturned

theorem cons (h : LineReturned line line') (c : Char) : LineReturned (c :: line) (c :: line') := by
  cases h with
  | same => exact .same _
  | lineFeed a => exact .lineFeed (c :: a)

theorem words_eq (h : LineReturned line line') : words line' = words line := by
  cases h with
  | same => rfl
  | lineFeed a =>
    rw [words_append_cons isBlank_lineFeed, words_append_cons isBlank_lineFeed,
      words_append_cons isBlank_carriageReturn, words_nil, List.append_nil]

theorem opensDirective_eq (h : LineReturned line line') :
    opensDirective line' = opensDirective line := by
  cases h with
  | same => rfl
  | lineFeed a =>
    rw [opensDirective, opensDirective, head?_trimStart_concat isBlank_lineFeed,
      head?_trimStart_concat isBlank_lineFeed, head?_trimStart_concat isBlank_carriageReturn]

theorem continuesDirective_eq (h : LineReturned line line') :
    continuesDirective line' = continuesDirective line := by
  cases h with
  | same => rfl
  | lineFeed a =>
    rw [continuesDirective, continuesDirective, trimEnd_concat_of_blank isBlank_lineFeed,
      trimEnd_concat_of_blank isBlank_lineFeed, trimEnd_concat_of_blank isBlank_carriageReturn]

theorem codeWords_eq (h : List.Forall₂ LineReturned ls ls') (inDirective : Bool) :
    codeWords inDirective ls' = codeWords inDirective ls := by
  induction h generalizing inDirective with
  | nil => rfl
  | cons hline _ ih =>
    rw [codeWords, codeWords, hline.opensDirective_eq, hline.continuesDirective_eq, hline.words_eq,
      ih, ih]

theorem physicalLines_cons (h : List.Forall₂ LineReturned (physicalLines t) (physicalLines t'))
    (c : Char) :
    List.Forall₂ LineReturned (physicalLines (c :: t)) (physicalLines (c :: t')) := by
  rw [physicalLines, physicalLines]
  split
  · exact .cons (.same _) h
  · generalize physicalLines t = ls, physicalLines t' = ls' at h ⊢
    cases h with
    | nil => exact .cons (.same _) .nil
    | cons hline h => exact .cons (hline.cons c) h

end LineReturned

namespace PiecesReturned

theorem physicalLines_code (h : PiecesReturned ps ps') :
    List.Forall₂ LineReturned (physicalLines (ps.map Piece.code))
      (physicalLines (ps'.map Piece.code)) := by
  induction h with
  | nil => exact .nil
  | char _ _ ih => exact LineReturned.physicalLines_cons ih _
  | lineFeed _ ih => exact .cons (.lineFeed []) ih
  | lastLine => exact LineReturned.physicalLines_cons .nil ' '
  | line _ _ ih => exact .cons (.same " \n".toList) ih
  | block _ ih => exact LineReturned.physicalLines_cons ih ' '

end PiecesReturned

theorem codeOf_withReturns (t : Text) : codeOf (withReturns t) = codeOf t := by
  rw [codeOf_eq, codeOf_eq, stripComments, stripComments,
    LineReturned.codeWords_eq (returned_pieces t).physicalLines_code]

/-! ## Doc blocks -/

namespace Docstring

theorem lineContent_chomp (line : Text) :
    lineContent (chomp (line ++ ['\n'])) = lineContent line := by
  rw [chomp, before?_eq_some_iff.2 rfl]
  change lineContent ((before? ['\r'] line).getD line) = lineContent line
  cases h : before? ['\r'] line with
  | none => rfl
  | some a =>
    rw [before?_eq_some_iff.1 h, lineContent_concat_of_blank isBlank_carriageReturn]
    rfl

theorem map_lineContent_withReturns (t : Text) :
    (lines (withReturns t)).map lineContent = (lines t).map lineContent := by
  induction t using lines_induction with
  | last a ha => rw [withReturns_of_notMem ha]
  | line a t ha ih =>
    have htext : withReturns (a ++ '\n' :: t) = a ++ ['\r'] ++ '\n' :: withReturns t := by
      rw [withReturns_append, withReturns_of_notMem ha, withReturns_lineFeed]
      simp
    rw [lines, lines] at ih ⊢
    rw [htext, physicalLines_append_lineFeed (by simpa using ha), physicalLines_append_lineFeed ha,
      List.map_cons, List.map_cons, List.map_cons, List.map_cons, ih, lineContent_chomp,
      lineContent_chomp, lineContent_concat_of_blank isBlank_carriageReturn]

/-- Carriage returns in a doc block are not read. -/
theorem parse_withReturns (offset : Nat) (t : Text) :
    parse offset (withReturns t) = parse offset t := by
  have hlines : Line.ofText (withReturns t) = Line.ofText t := by
    rw [Line.ofText, map_lineContent_withReturns, Line.ofText]
  rw [parse, hlines, parse]

end Docstring

/-! ## Places -/

/-- The place in the text with carriage returns of what stands at byte `offset` of a text. -/
def offsetWithReturns (t : Text) (offset : Nat) : Nat := offset + lineFeedsBefore t offset

theorem offsetWithReturns_append (p r : Text) :
    offsetWithReturns (p ++ r) (byteSize p) = byteSize (withReturns p) := by
  rw [offsetWithReturns, lineFeedsBefore_append, byteSize_withReturns]

theorem source_block_withReturns (doc : Bool) (body : Text) (closed : Bool) :
    (Comment.block doc (withReturns body) closed).source =
      withReturns (Comment.block doc body closed).source := by
  rw [Comment.source, Comment.source, withReturns_append, withReturns_append]
  cases doc <;> cases closed <;> rfl

/-- Each comment has moved by the line feeds in front of it, where `p` is the text in front of all
the pieces. -/
theorem PiecesReturned.forall₂_commentsFrom (h : PiecesReturned ps ps') (p : Text) :
    List.Forall₂ (CommentMoved (offsetWithReturns (p ++ ps.flatMap Piece.source)))
      (commentsFrom (byteSize p) ps) (commentsFrom (byteSize (withReturns p)) ps') := by
  induction h generalizing p with
  | nil => exact .nil
  | @char c ps ps' hc _ ih =>
    have hrest := ih (p ++ [c])
    rw [withReturns_append, withReturns_cons hc, byteSize_append, byteSize_append,
      List.append_assoc] at hrest
    exact hrest
  | @lineFeed ps ps' _ ih =>
    have hrest := ih (p ++ ['\n'])
    rw [withReturns_append, byteSize_append, byteSize_append, List.append_assoc] at hrest
    exact hrest
  | lastLine => exact .cons ⟨(offsetWithReturns_append p _).symm, .line _ _⟩ .nil
  | @line body ps ps' hbody _ ih =>
    have hrest := ih (p ++ (Comment.line body).source ++ ['\n'])
    have hsource : withReturns (Comment.line body).source = (Comment.line body).source :=
      withReturns_of_notMem (by simpa [Comment.source] using hbody)
    have hreturn : (Comment.line (body ++ ['\r'])).source = (Comment.line body).source ++ ['\r'] :=
      (List.append_assoc _ _ _).symm
    rw [withReturns_append, withReturns_append, byteSize_append, byteSize_append, byteSize_append,
      byteSize_append, List.append_assoc, List.append_assoc, hsource] at hrest
    refine .cons ⟨(offsetWithReturns_append p _).symm, .line _ _⟩ ?_
    change List.Forall₂ _ (commentsFrom _ ps) (commentsFrom (byteSize (withReturns p) +
      byteSize (Comment.line (body ++ ['\r'])).source + byteSize ['\n']) ps')
    rw [hreturn, byteSize_append]
    exact hrest
  | @block doc closed body ps ps' _ ih =>
    have hrest := ih (p ++ (Comment.block doc body closed).source)
    rw [withReturns_append, byteSize_append, byteSize_append, List.append_assoc,
      ← source_block_withReturns] at hrest
    exact .cons ⟨(offsetWithReturns_append p _).symm,
      .block fun _ offset => Docstring.parse_withReturns offset body⟩ hrest

theorem relocated_withReturns (t : Text) :
    Relocated (offsetWithReturns t) t (withReturns t) := by
  refine ⟨codeOf_withReturns t, ?_⟩
  have h := (returned_pieces t).forall₂_commentsFrom []
  rw [List.nil_append, flatMap_source_pieces] at h
  exact CommentMoved.forall₂_notable h

namespace ApiModule

/-- Carriage returns in front of the line feeds do not matter: a header with them is scanned into
the same module, or fails with the same error, and its reports have moved by the line feeds before
their places. -/
theorem ofText_withReturns (o : ScanOptions) (name t : Text) :
    (ofText o name (withReturns t)).result = (ofText o name t).result ∧
      (ofText o name (withReturns t)).diagnostics = (ofText o name t).diagnostics.map
        (Diagnostic.mapOffset fun offset => offset + lineFeedsBefore t offset) :=
  ofText_relocated (relocated_withReturns t)

end ApiModule

end HeaderApi
