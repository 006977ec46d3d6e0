import HeaderApi.Proofs.Comment.Lexing

/-!
# Comments of texts put together

A text that ends outside comments is read by itself, whatever stands behind it
(`EndsInCode.pieces_append`).  The comments behind it are those of the rest, further on by what the
text takes up.
-/

namespace HeaderApi

open Text

variable {a body r rest t : Text} {k : Comment} {doc : Bool} {offset start : Nat}
  {ps qs : List Piece}

/-! ## The kinds of comments that a text begins with -/

/-- A line comment runs up to a line feed or to the end of the text. -/
theorem openingComment?_eq_line_iff : openingComment? t = some (.line body, rest) ↔
    t = "//".toList ++ (body ++ rest) ∧ '\n' ∉ body ∧ (rest = [] ∨ "\n".toList <+: rest) := by
  constructor
  · intro h
    unfold openingComment? at h
    split at h
    next t =>
      obtain ⟨line, x, rfl, hline, hx⟩ := CommentSpan.exists_line t
      have htake := CommentSpan.eq_takeWhile hline hx
      have hdrop := List.takeWhile_append_dropWhile (p := (· ≠ '\n')) (l := line ++ x)
      rw [htake, List.append_cancel_left_eq] at hdrop
      rw [htake, hdrop] at h
      cases h
      exact ⟨rfl, hline, hx⟩
    next t =>
      obtain ⟨doc, inner, -, -, hblock⟩ := exists_inner t
      rw [Option.some.inj h] at hblock
      split at hblock <;> simp at hblock
    next => cases h
  · rintro ⟨rfl, hbody, hrest⟩
    have htake := CommentSpan.eq_takeWhile hbody hrest
    have hdrop := List.takeWhile_append_dropWhile (p := (· ≠ '\n')) (l := body ++ rest)
    rw [htake, List.append_cancel_left_eq] at hdrop
    change some (Comment.line ((body ++ rest).takeWhile (· ≠ '\n')),
      (body ++ rest).dropWhile (· ≠ '\n')) = _
    rw [htake, hdrop]

theorem openingComment?_eq_block_iff {closed : Bool} :
    openingComment? t = some (.block doc body closed, rest) ↔
      ∃ s, t = '/' :: '*' :: s ∧ blockComment s = (.block doc body closed, rest) := by
  constructor
  · intro h
    unfold openingComment? at h
    split at h
    next => cases h
    next s => exact ⟨s, rfl, Option.some.inj h⟩
    next => cases h
  · rintro ⟨s, rfl, h⟩
    exact congrArg some h

/-! ## Closed block comments -/

theorem blockComment_plain (hhead : body.head? ≠ some '*') (hbody : ¬ "*/".toList <:+: body)
    (t : Text) : blockComment (body ++ "*/".toList ++ t) = (.block false body true, t) := by
  have hcut : cutAt "*/".toList (body ++ "*/".toList ++ t) = some (body, t) := by
    rw [List.append_assoc]
    exact cutAt_body hbody t
  cases body with
  | nil => rfl
  | cons c body =>
    have hc : ∀ r, c :: body ++ "*/".toList ++ t ≠ '*' :: r :=
      fun r h => hhead (congrArg some (List.cons.inj h).1)
    rw [blockComment, hcut]
    · exact fun r => hc _
    · exact hc

/-- What a closed block comment looks like. -/
theorem of_blockComment_closed (h : blockComment t = (.block doc body true, rest)) :
    ¬ "*/".toList <:+: body ∧ if doc then
        body.head? ≠ some '/' ∧ t = '*' :: (body ++ "*/".toList ++ rest)
      else body.head? ≠ some '*' ∧ t = body ++ "*/".toList ++ rest := by
  obtain ⟨doc', inner, hopen, hdoc, hblock⟩ := exists_inner t
  rw [h] at hblock
  cases hcut : cutAt "*/".toList inner with
  | none =>
    rw [hcut] at hblock
    simp at hblock
  | some cut =>
    rw [hcut] at hblock
    simp only [Prod.mk.injEq, Comment.block.injEq, and_true] at hblock
    obtain ⟨⟨rfl, rfl⟩, rfl⟩ := hblock
    have hbody := CommentSpan.not_infix_body hcut
    refine ⟨hbody, ?_⟩
    rw [eq_append_of_cutAt hcut] at hopen
    cases doc with
    | true =>
      have ht : '*' :: (cut.1 ++ "*/".toList ++ cut.2) = t :=
        (List.cons.inj (List.cons.inj hopen).2).2
      refine ⟨fun hhead => (hdoc.1 rfl).2 ?_, ht.symm⟩
      obtain ⟨b, hb⟩ := List.head?_eq_some_iff.1 hhead
      rw [← ht, hb]
      exact ⟨b ++ "*/".toList ++ cut.2, rfl⟩
    | false =>
      have ht : cut.1 ++ "*/".toList ++ cut.2 = t := (List.cons.inj (List.cons.inj hopen).2).2
      refine ⟨fun hhead => ?_, ht.symm⟩
      obtain ⟨b, hb⟩ := List.head?_eq_some_iff.1 hhead
      rw [← ht, hb] at hdoc
      rw [hb] at hbody
      cases b with
      | nil => simp at hdoc
      | cons d b =>
        have hd : d ≠ '/' := by
          rintro rfl
          exact hbody (List.prefix_append _ b).isInfix
        simp [Ne.symm hd] at hdoc

/-- A closed block comment does not depend on what stands behind it. -/
theorem blockComment_append (h : blockComment t = (.block doc body true, rest)) (x : Text) :
    blockComment (t ++ x) = (.block doc body true, rest ++ x) := by
  obtain ⟨hbody, hparts⟩ := of_blockComment_closed h
  cases doc with
  | true =>
    obtain ⟨hhead, rfl⟩ := hparts
    simpa using blockComment_doc hhead hbody (rest ++ x)
  | false =>
    obtain ⟨hhead, rfl⟩ := hparts
    simpa using blockComment_plain hhead hbody (rest ++ x)

/-! ## Texts that end outside comments -/

theorem comment_mem_pieces_iff : .comment k ∈ pieces t ↔ ∃ start, (start, k) ∈ comments t := by
  have hmem : .comment k ∈ pieces t ↔ k ∈ (comments t).map Prod.snd := by
    rw [comments, map_snd_commentsFrom, List.mem_filterMap]
    constructor
    · exact fun h => ⟨_, h, rfl⟩
    · rintro ⟨_ | k, h, hk⟩
      · cases hk
      · cases hk
        exact h
  simpa using hmem

theorem unclosedComments_eq_nil_iff :
    unclosedComments t = [] ↔ ∀ doc body, .comment (.block doc body false) ∉ pieces t := by
  rw [unclosedComments, List.filterMap_eq_nil_iff]
  constructor
  · intro h doc body hmem
    obtain ⟨start, hstart⟩ := comment_mem_pieces_iff.1 hmem
    exact absurd (h _ hstart) (by simp)
  · rintro h ⟨start, k⟩ hk
    rcases k with _ | ⟨doc, body, _ | _⟩
    · rfl
    · exact absurd (comment_mem_pieces_iff.2 ⟨start, hk⟩) (h doc body)
    · rfl

theorem notMem_of_line (h : .comment (.line body) ∈ pieces t) : '\n' ∉ body := by
  induction t using pieces_induction with
  | nil => simp [pieces] at h
  | char c t hopening ih =>
    rw [pieces_cons_of_none hopening, List.mem_cons] at h
    exact ih (h.resolve_left (by simp))
  | comment t k rest hopening ih =>
    rw [pieces_of_openingComment? hopening, List.mem_cons] at h
    rcases h with heq | hmem
    · obtain rfl := Piece.comment.inj heq
      exact (openingComment?_eq_line_iff.1 hopening).2.1
    · exact ih hmem

/-- Without the marks that open them there are no comments. -/
theorem pieces_of_noMarks (hblock : ¬ "/*".toList <:+: t) (hline : ¬ "//".toList <:+: t) :
    pieces t = t.map .char := by
  induction t using pieces_induction with
  | nil => rw [pieces, List.map_nil]
  | char c t hopening ih =>
    have hsuffix := (List.suffix_cons c t).isInfix
    rw [pieces_cons_of_none hopening, List.map_cons,
      ih (fun h => hblock (h.trans hsuffix)) fun h => hline (h.trans hsuffix)]
  | comment t k rest hopening _ =>
    have hnone : openingComment? t = none :=
      openingComment?_eq_none_iff.2 ⟨fun h => hblock h.isInfix, fun h => hline h.isInfix⟩
    rw [hnone] at hopening
    cases hopening

/-- No comment is open where the text ends. -/
structure EndsInCode (t : Text) : Prop where
  closed : unclosedComments t = []
  line : ∀ body, (pieces t).getLast? ≠ some (.comment (.line body))

namespace EndsInCode

/-- No line comment reaches behind a line feed. -/
theorem of_lineFeed (hclosed : unclosedComments t = []) (h : t = [] ∨ t.getLast? = some '\n') :
    EndsInCode t := by
  refine ⟨hclosed, fun body hlast => ?_⟩
  obtain ⟨ps, hps⟩ := List.getLast?_eq_some_iff.1 hlast
  have hbody : '\n' ∉ "//".toList ++ body := by
    have hmem : .comment (.line body) ∈ pieces t := List.mem_of_getLast? hlast
    simpa using notMem_of_line hmem
  have htext : t = ps.flatMap Piece.source ++ ("//".toList ++ body) := by
    rw [← flatMap_source_pieces t, hps, List.flatMap_append, List.flatMap_singleton]
    rfl
  rcases h with rfl | hfeed
  · simp at htext
  · rw [htext, List.getLast?_append_of_ne_nil _ (by simp)] at hfeed
    exact hbody (List.mem_of_getLast? hfeed)

theorem of_noMarks (hblock : ¬ "/*".toList <:+: t) (hline : ¬ "//".toList <:+: t) :
    EndsInCode t := by
  have hpieces := pieces_of_noMarks hblock hline
  refine ⟨unclosedComments_eq_nil_iff.2 fun doc body => ?_, fun body hlast => ?_⟩
  · simp [hpieces]
  · have hmem := List.mem_of_getLast? hlast
    simp [hpieces] at hmem

theorem of_pieces_cons {p : Piece} (h : EndsInCode t) (ht : pieces t = p :: pieces rest) :
    EndsInCode rest := by
  refine ⟨unclosedComments_eq_nil_iff.2 fun doc body hmem => ?_, fun body hlast => h.line body ?_⟩
  · exact unclosedComments_eq_nil_iff.1 h.closed doc body (ht ▸ List.mem_cons_of_mem p hmem)
  · rw [ht, List.getLast?_cons, hlast]
    rfl

/-- The comment that such a text begins with is the same with more text behind. -/
theorem openingComment?_append (h : EndsInCode t) (hopening : openingComment? t = some (k, rest))
    (x : Text) : openingComment? (t ++ x) = some (k, rest ++ x) := by
  have hpieces := pieces_of_openingComment? hopening
  cases k with
  | line body =>
    obtain ⟨rfl, hbody, hrest⟩ := openingComment?_eq_line_iff.1 hopening
    have hfeed : "\n".toList <+: rest := by
      refine hrest.resolve_left fun hnil => h.line body ?_
      rw [hpieces, hnil, pieces]
      rfl
    rw [List.append_assoc, List.append_assoc]
    exact openingComment?_eq_line_iff.2 ⟨rfl, hbody, .inr (hfeed.trans (List.prefix_append _ x))⟩
  | block doc body closed =>
    obtain ⟨s, rfl, hs⟩ := openingComment?_eq_block_iff.1 hopening
    cases closed with
    | true => exact openingComment?_eq_block_iff.2 ⟨s ++ x, rfl, blockComment_append hs x⟩
    | false =>
      refine absurd ?_ (unclosedComments_eq_nil_iff.1 h.closed doc body)
      rw [hpieces]
      exact List.mem_cons_self

/-- A text that ends outside comments is read by itself, if a slash at its end does not open a
comment together with what follows. -/
theorem pieces_append (h : EndsInCode a) (hslash : a.getLast? ≠ some '/') (x : Text) :
    pieces (a ++ x) = pieces a ++ pieces x := by
  induction a using pieces_induction with
  | nil => simp [pieces]
  | char c t hopening ih =>
    have hpieces := pieces_cons_of_none hopening
    have hopening' : openingComment? (c :: (t ++ x)) = none := by
      rw [openingComment?_eq_none_iff] at hopening ⊢
      cases t with
      | nil =>
        have hc : '/' ≠ c := fun hc => hslash (congrArg some hc.symm)
        simp [hc]
      | cons d t => simpa using hopening
    have hlast : t.getLast? ≠ some '/' := by
      intro hlast
      rw [List.getLast?_cons, hlast] at hslash
      exact hslash rfl
    rw [List.cons_append, pieces_cons_of_none hopening', hpieces, List.cons_append,
      ih (h.of_pieces_cons hpieces) hlast]
  | comment t k rest hopening ih =>
    have hpieces := pieces_of_openingComment? hopening
    have hlast : rest.getLast? ≠ some '/' := by
      intro hlast
      rw [eq_append_of_openingComment? hopening, List.getLast?_append, hlast] at hslash
      exact hslash rfl
    rw [pieces_of_openingComment? (h.openingComment?_append hopening x), hpieces, List.cons_append,
      ih (h.of_pieces_cons hpieces) hlast]

theorem stripComments_append (h : EndsInCode a) (hslash : a.getLast? ≠ some '/') (x : Text) :
    stripComments (a ++ x) = stripComments a ++ stripComments x := by
  rw [stripComments, h.pieces_append hslash, List.map_append, stripComments, stripComments]

/-- If a line ends where such a text ends, then a line of its code ends there. -/
theorem stripComments_lineFeed (h : EndsInCode t) (ht : t = [] ∨ t.getLast? = some '\n') :
    stripComments t = [] ∨ (stripComments t).getLast? = some '\n' := by
  rcases List.eq_nil_or_concat' (pieces t) with hnil | ⟨ps, p, hps⟩
  · exact .inl (by rw [stripComments, hnil, List.map_nil])
  · have htext : t = ps.flatMap Piece.source ++ p.source := by
      rw [← flatMap_source_pieces t, hps, List.flatMap_append, List.flatMap_singleton]
    have hfeed : t.getLast? = some '\n' := by
      refine ht.resolve_left fun hnil => ?_
      rw [hnil, pieces] at hps
      simp at hps
    refine .inr ?_
    rw [stripComments, hps, List.map_append, List.map_singleton, List.getLast?_concat]
    rw [htext] at hfeed
    cases p with
    | char c => simpa [Piece.source, Piece.code] using hfeed
    | comment k =>
      cases k with
      | line body =>
        refine absurd ?_ (h.line body)
        rw [hps, List.getLast?_concat]
      | block doc body closed =>
        cases closed with
        | true => simp [Piece.source, Comment.source] at hfeed
        | false =>
          refine absurd ?_ (unclosedComments_eq_nil_iff.1 h.closed doc body)
          rw [hps]
          exact List.mem_append_right ps (List.mem_singleton.2 rfl)

end EndsInCode

/-! ## Places of the comments -/

theorem commentsFrom_append (offset : Nat) (ps qs : List Piece) :
    commentsFrom offset (ps ++ qs) = commentsFrom offset ps ++
      commentsFrom (offset + byteSize (ps.flatMap Piece.source)) qs := by
  induction ps generalizing offset with
  | nil => rfl
  | cons p ps ih =>
    cases p with
    | char c =>
      simp only [List.cons_append, commentsFrom, ih, List.flatMap_cons, byteSize_append,
        Nat.add_assoc]
    | comment k =>
      simp only [List.cons_append, commentsFrom, ih, List.flatMap_cons, byteSize_append,
        Nat.add_assoc]

theorem commentsFrom_map_char (offset : Nat) (t : Text) :
    commentsFrom offset (t.map .char) = [] := by
  induction t generalizing offset with
  | nil => rfl
  | cons c t ih => exact ih _

theorem commentsFrom_add (offset n : Nat) (ps : List Piece) :
    commentsFrom (offset + n) ps = (commentsFrom offset ps).map fun e => (e.1 + n, e.2) := by
  induction ps generalizing offset with
  | nil => rfl
  | cons p ps ih =>
    have hrest := ih (offset + byteSize p.source)
    rw [Nat.add_right_comm] at hrest
    cases p with
    | char c => exact hrest
    | comment k => exact congrArg ((offset + n, k) :: ·) hrest

theorem le_start_of_mem_commentsFrom (h : (start, k) ∈ commentsFrom offset ps) :
    offset ≤ start ∧ start < offset + byteSize (ps.flatMap Piece.source) := by
  induction ps generalizing offset with
  | nil => cases h
  | cons p ps ih =>
    rw [List.flatMap_cons, byteSize_append]
    cases p with
    | char c =>
      have := ih h
      omega
    | comment k' =>
      rcases List.mem_cons.1 h with heq | htail
      · obtain ⟨rfl, rfl⟩ := Prod.mk.inj heq
        have hpos := k.byteSize_source_pos
        have hsource : (Piece.comment k).source = k.source := rfl
        rw [hsource]
        omega
      · have := ih htail
        omega

end HeaderApi
