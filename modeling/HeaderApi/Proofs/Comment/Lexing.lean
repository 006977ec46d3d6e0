import HeaderApi.Proofs.Comment.Span

/-!
# The comments of a text

Reading a text finds all its comments, one behind the other, and nothing else: `LexedFrom` says so
of a list of places without saying how they are found, and there is one such list (`lexedFrom_iff`).
-/

namespace HeaderApi

open Text

/-- The spans are the comments of a text from byte `pos` on. -/
structure LexedFrom (t : Text) (pos : Nat) (spans : List CommentSpan) : Prop where
  slices : ∀ s ∈ spans, (slice? t s.start s.stop).isSome
  behind : ∀ s ∈ spans, pos ≤ s.start
  ordered : spans.Pairwise (·.stop ≤ ·.start)
  fits : ∀ s ∈ spans, s.Fits t
  /-- No comment opens outside the spans. -/
  outside : ∀ n, pos ≤ n → (∀ s ∈ spans, n < s.start ∨ s.stop ≤ n) →
    ¬ StandsAt "/*".toList t n ∧ ¬ StandsAt "//".toList t n
  closed : ∀ s ∈ spans.dropLast, s.isClosed

/-- The places of the comments of a text. -/
def commentSpans (t : Text) : List CommentSpan :=
  (comments t).map fun (start, k) => .ofComment start k

variable {p r rest t : Text} {c : Char} {k : Comment} {pos : Nat} {s : CommentSpan}
  {spans : List CommentSpan}

theorem Comment.byteSize_source_pos (k : Comment) : 0 < byteSize k.source := by
  rw [Nat.pos_iff_ne_zero, ne_eq, byteSize_eq_zero_iff]
  cases k with
  | line => simp [Comment.source]
  | block doc => cases doc <;> simp [Comment.source]

namespace CommentSpan

theorem Fits.start_lt_stop (h : s.Fits t) : s.start < s.stop := by
  obtain ⟨p, r, k, rest, -, -, rfl⟩ := h.exists_comment
  have := k.byteSize_source_pos
  simp only [ofComment]
  omega

theorem Fits.isSome_slice? (h : s.Fits t) : (slice? t s.start s.stop).isSome := by
  obtain ⟨p, r, k, rest, rfl, hopening, rfl⟩ := h.exists_comment
  have hslice : slice? (p ++ r) (byteSize p) (byteSize p + byteSize k.source) = some k.source :=
    slice?_append_eq_some_iff.2 ⟨rest, eq_append_of_openingComment? hopening, rfl⟩
  exact Option.isSome_of_eq_some hslice

theorem Fits.stop_eq_of_open (h : s.Fits t) (hopen : s.isClosed = false) : s.stop = byteSize t := by
  obtain ⟨start, stop, shape⟩ := s
  cases shape with
  | line => simp [isClosed] at hopen
  | block doc bodyStart bodyStop closed =>
    obtain rfl : closed = false := hopen
    exact (FitsBlock.ends h).2

theorem Fits.stop_le (h : s.Fits t) : s.stop ≤ byteSize t := by
  obtain ⟨p, r, k, rest, rfl, hopening, rfl⟩ := h.exists_comment
  rw [eq_append_of_openingComment? hopening]
  simp only [ofComment, byteSize_append]
  omega

end CommentSpan

/-! ## One step of reading -/

theorem not_opens_of_byteSize_le {n : Nat} (h : byteSize t ≤ n) :
    ¬ StandsAt "/*".toList t n ∧ ¬ StandsAt "//".toList t n := by
  have hmark : ∀ mark, 0 < byteSize mark → ¬ StandsAt mark t n := by
    intro mark hpos hstands
    obtain ⟨p, r, rfl, rfl⟩ := standsAt_iff.1 hstands
    simp only [byteSize_append] at h
    omega
  exact ⟨hmark _ (by decide), hmark _ (by decide)⟩

/-- Behind the end there is no comment. -/
theorem lexedFrom_end_iff : LexedFrom t (byteSize t) spans ↔ spans = [] := by
  constructor
  · intro h
    rw [List.eq_nil_iff_forall_not_mem]
    intro s hs
    have hstart := h.behind s hs
    have hlt := (h.fits s hs).start_lt_stop
    have hstop := (h.fits s hs).stop_le
    omega
  · rintro rfl
    exact ⟨by simp, by simp, .nil, by simp, fun n hn _ => not_opens_of_byteSize_le hn, by simp⟩

/-- The next place is behind the next character. -/
theorem add_utf8Size_le {q x : Text} (h : p ++ c :: r = q ++ x) (hlt : byteSize p < byteSize q) :
    byteSize p + c.utf8Size ≤ byteSize q := by
  rcases List.append_eq_append_iff.1 h with ⟨y, rfl, hy⟩ | ⟨y, rfl, -⟩
  · cases y with
    | nil => simp at hlt
    | cons d y =>
      obtain ⟨rfl, -⟩ := List.cons.inj hy
      simp only [byteSize_append, byteSize_cons]
      omega
  · simp only [byteSize_append] at hlt
    omega

/-- No comment opens at a character of the code, nor inside it. -/
theorem not_opens_char (hopening : openingComment? (c :: r) = none) {n : Nat}
    (hle : byteSize p ≤ n) (hlt : n < byteSize p + c.utf8Size) :
    ¬ StandsAt "/*".toList (p ++ c :: r) n ∧ ¬ StandsAt "//".toList (p ++ c :: r) n := by
  by_cases hn : n = byteSize p
  · rw [hn, standsAt_append_iff, standsAt_append_iff]
    exact openingComment?_eq_none_iff.1 hopening
  · have hplace : ∀ mark, ¬ StandsAt mark (p ++ c :: r) n := by
      intro mark hstands
      obtain ⟨q, x, hq, rfl⟩ := standsAt_iff.1 hstands
      have := add_utf8Size_le hq (by omega)
      omega
    exact ⟨hplace _, hplace _⟩

/-- A character with which no comment opens is left out. -/
theorem lexedFrom_char_iff (hopening : openingComment? (c :: r) = none) :
    LexedFrom (p ++ c :: r) (byteSize (p ++ [c])) spans ↔
      LexedFrom (p ++ c :: r) (byteSize p) spans := by
  have hsize : byteSize (p ++ [c]) = byteSize p + c.utf8Size := by simp
  rw [hsize]
  constructor
  · rintro ⟨hslices, hbehind, hordered, hfits, houtside, hclosed⟩
    refine ⟨hslices, fun s hs => ?_, hordered, hfits, fun n hn hspans => ?_, hclosed⟩
    · have := hbehind s hs
      omega
    · by_cases hlt : n < byteSize p + c.utf8Size
      · exact not_opens_char hopening hn hlt
      · exact houtside n (by omega) hspans
  · rintro ⟨hslices, hbehind, hordered, hfits, houtside, hclosed⟩
    refine ⟨hslices, fun s hs => ?_, hordered, hfits, fun n hn => houtside n (by omega), hclosed⟩
    by_contra hlt
    obtain ⟨hblock, hline⟩ := not_opens_char hopening (hbehind s hs) (by omega)
    exact (hfits s hs).opens.elim hblock hline

/-- Behind a comment the text is read on. -/
theorem lexedFrom_cons_iff (hfit : s.Fits t) :
    LexedFrom t s.start (s :: spans) ↔ LexedFrom t s.stop spans := by
  have hlt := hfit.start_lt_stop
  constructor
  · intro h
    obtain ⟨hslices, -, hordered, hfits, houtside, hclosed⟩ := h
    rw [List.pairwise_cons] at hordered
    rw [List.forall_mem_cons] at hslices hfits
    refine ⟨hslices.2, hordered.1, hordered.2, hfits.2, fun n hn hspans => ?_, fun s' hs' => ?_⟩
    · exact houtside n (by omega) (List.forall_mem_cons.2 ⟨.inr hn, hspans⟩)
    · have hne : spans ≠ [] := by
        rintro rfl
        simp at hs'
      exact hclosed s' (List.dropLast_cons_of_ne_nil hne ▸ List.mem_cons_of_mem s hs')
  · intro h
    refine ⟨List.forall_mem_cons.2 ⟨hfit.isSome_slice?, h.slices⟩,
      List.forall_mem_cons.2 ⟨le_rfl, fun s' hs' => ?_⟩, List.pairwise_cons.2 ⟨h.behind, h.ordered⟩,
      List.forall_mem_cons.2 ⟨hfit, h.fits⟩, fun n hn hspans => ?_, ?_⟩
    · have := h.behind s' hs'
      omega
    · rw [List.forall_mem_cons] at hspans
      exact h.outside n (by omega) hspans.2
    · cases spans with
      | nil => simp
      | cons s' spans =>
        -- An open comment runs to the end of the text, where no other one can begin.
        have hs : s.isClosed = true := by
          rw [← Bool.not_eq_false]
          intro hopen
          have hstart := h.behind s' List.mem_cons_self
          have hfit' := h.fits s' List.mem_cons_self
          have := hfit'.start_lt_stop
          have := hfit'.stop_le
          rw [hfit.stop_eq_of_open hopen] at hstart
          omega
        rw [List.dropLast_cons_of_ne_nil (by simp)]
        exact List.forall_mem_cons.2 ⟨hs, h.closed⟩

/-- A comment that opens at a place is the first one from there on. -/
theorem lexedFrom_comment_iff (hopening : openingComment? r = some (k, rest)) :
    LexedFrom (p ++ r) (byteSize p) spans ↔ ∃ tail,
      spans = .ofComment (byteSize p) k :: tail ∧
        LexedFrom (p ++ r) (byteSize (p ++ k.source)) tail := by
  have hfit : (CommentSpan.ofComment (byteSize p) k).Fits (p ++ r) :=
    (CommentSpan.fits_iff hopening rfl).2 rfl
  have hstop : byteSize (p ++ k.source) = (CommentSpan.ofComment (byteSize p) k).stop := by
    simp [CommentSpan.ofComment]
  constructor
  · intro h
    -- The place lies in a span; no span but the first one can hold it.
    obtain ⟨s, hs, hle, hlt⟩ : ∃ s ∈ spans, s.start ≤ byteSize p ∧ byteSize p < s.stop := by
      by_contra hnone
      refine hfit.opens.elim (h.outside _ le_rfl fun s hs => ?_).1
        (h.outside _ le_rfl fun s hs => ?_).2
      all_goals
        by_contra hcovered
        rw [not_or, not_lt, not_le] at hcovered
        exact hnone ⟨s, hs, hcovered⟩
    obtain ⟨first, tail, rfl⟩ := List.exists_cons_of_ne_nil (List.ne_nil_of_mem hs)
    have hbehind := h.behind first List.mem_cons_self
    have hfirst : first.start = byteSize p := by
      rcases List.mem_cons.1 hs with rfl | htail
      · omega
      · have := (List.pairwise_cons.1 h.ordered).1 s htail
        have := (h.fits first List.mem_cons_self).start_lt_stop
        omega
    obtain rfl := (CommentSpan.fits_iff hopening hfirst).1 (h.fits first List.mem_cons_self)
    exact ⟨tail, rfl, hstop ▸ (lexedFrom_cons_iff hfit).1 h⟩
  · rintro ⟨tail, rfl, h⟩
    exact (lexedFrom_cons_iff hfit).2 (hstop ▸ h)

/-! ## The whole text -/

/-- The places of the comments of `t` where it begins at byte `pos` of a text. -/
def commentSpansFrom (pos : Nat) (t : Text) : List CommentSpan :=
  (commentsFrom pos (pieces t)).map fun (start, k) => .ofComment start k

theorem commentSpansFrom_nil (pos : Nat) : commentSpansFrom pos [] = [] := by
  rw [commentSpansFrom, pieces]
  rfl

theorem commentSpansFrom_cons_of_none (h : openingComment? (c :: t) = none) (p : Text) :
    commentSpansFrom (byteSize p) (c :: t) = commentSpansFrom (byteSize (p ++ [c])) t := by
  rw [commentSpansFrom, pieces_cons_of_none h, byteSize_append]
  rfl

theorem commentSpansFrom_of_openingComment? (h : openingComment? t = some (k, rest)) (p : Text) :
    commentSpansFrom (byteSize p) t =
      .ofComment (byteSize p) k :: commentSpansFrom (byteSize (p ++ k.source)) rest := by
  rw [commentSpansFrom, pieces_of_openingComment? h, byteSize_append]
  rfl

/-- From each place on, reading gives the one list of spans that are the comments from there on. -/
theorem lexedFrom_iff (p r : Text) (spans : List CommentSpan) :
    LexedFrom (p ++ r) (byteSize p) spans ↔ spans = commentSpansFrom (byteSize p) r := by
  induction r using pieces_induction generalizing p spans with
  | nil => rw [List.append_nil, commentSpansFrom_nil, lexedFrom_end_iff]
  | char c r hopening ih =>
    have h := ih (p ++ [c]) spans
    rw [List.append_assoc, List.singleton_append] at h
    rw [← lexedFrom_char_iff hopening, h, commentSpansFrom_cons_of_none hopening]
  | comment r k rest hopening ih =>
    have h := fun tail => ih (p ++ k.source) tail
    rw [List.append_assoc, ← eq_append_of_openingComment? hopening] at h
    rw [lexedFrom_comment_iff hopening, commentSpansFrom_of_openingComment? hopening]
    simp only [h, exists_eq_right]

/-! ## Code and doc blocks -/

/-- The text from byte `pos` on, with one space in the place of each span. -/
def blankOut? (t : Text) : (pos : Nat) → List CommentSpan → Option Text
  | pos, [] => dropBytes? pos t
  | pos, s :: spans => do
    let code ← slice? t pos s.start
    let behind ← blankOut? t s.stop spans
    pure (code ++ ' ' :: behind)

theorem blankOut?_cons {x : Text}
    (h : blankOut? (p ++ c :: r) (byteSize (p ++ [c])) spans = some x) :
    blankOut? (p ++ c :: r) (byteSize p) spans = some (c :: x) := by
  have htext : p ++ c :: r = (p ++ [c]) ++ r := by simp
  cases spans with
  | nil =>
    rw [blankOut?, htext, dropBytes?_append] at h
    rw [blankOut?, dropBytes?_append, Option.some.inj h]
  | cons s spans =>
    obtain ⟨code, hcode, hrest⟩ := Option.bind_eq_some_iff.1 h
    obtain ⟨behind, hbehind, hx⟩ := Option.bind_eq_some_iff.1 hrest
    rw [htext, slice?_append_eq_some_iff] at hcode
    obtain ⟨y, rfl, hstart⟩ := hcode
    have hslice : slice? (p ++ c :: (code ++ y)) (byteSize p) s.start = some (c :: code) := by
      refine slice?_append_eq_some_iff.2 ⟨y, rfl, ?_⟩
      rw [hstart, byteSize_append, byteSize_cons, byteSize_cons, byteSize_nil]
      omega
    rw [blankOut?, hslice, hbehind, ← Option.some.inj hx]
    rfl

theorem blankOut?_commentSpansFrom (p r : Text) :
    blankOut? (p ++ r) (byteSize p) (commentSpansFrom (byteSize p) r) = some (stripComments r) := by
  induction r using pieces_induction generalizing p with
  | nil =>
    rw [commentSpansFrom_nil, blankOut?, dropBytes?_append, stripComments, pieces]
    rfl
  | char c r hopening ih =>
    have h := ih (p ++ [c])
    rw [List.append_assoc, List.singleton_append] at h
    rw [commentSpansFrom_cons_of_none hopening, blankOut?_cons h, stripComments, stripComments,
      pieces_cons_of_none hopening]
    rfl
  | comment r k rest hopening ih =>
    have h := ih (p ++ k.source)
    rw [List.append_assoc, ← eq_append_of_openingComment? hopening] at h
    have hstart : slice? (p ++ r) (byteSize p) (byteSize p) = some [] :=
      slice?_append_eq_some_iff.2 ⟨r, rfl, rfl⟩
    have hstop : (CommentSpan.ofComment (byteSize p) k).stop = byteSize (p ++ k.source) := by
      simp [CommentSpan.ofComment]
    rw [commentSpansFrom_of_openingComment? hopening, blankOut?, hstop, h, stripComments,
      stripComments, pieces_of_openingComment? hopening]
    simp [CommentSpan.ofComment, hstart, Piece.code]

/-- A comment stands at the place where it is found. -/
theorem exists_append_of_mem_commentsFrom {start : Nat} (p : Text)
    (h : (start, k) ∈ commentsFrom (byteSize p) (pieces r)) :
    ∃ q x, p ++ r = q ++ (k.source ++ x) ∧ byteSize q = start := by
  induction r using pieces_induction generalizing p with
  | nil => simp [pieces, commentsFrom] at h
  | char c r hopening ih =>
    rw [pieces_cons_of_none hopening] at h
    obtain ⟨q, x, hq⟩ := ih (p ++ [c]) (by rwa [byteSize_append])
    exact ⟨q, x, by simpa using hq⟩
  | comment r k' rest hopening ih =>
    rw [pieces_of_openingComment? hopening] at h
    rw [eq_append_of_openingComment? hopening]
    rcases List.mem_cons.1 h with heq | htail
    · obtain ⟨rfl, rfl⟩ := Prod.mk.inj heq
      exact ⟨p, rest, rfl, rfl⟩
    · obtain ⟨q, x, hq⟩ := ih (p ++ k'.source) (by rwa [byteSize_append])
      exact ⟨q, x, by simpa using hq⟩

/-- The doc block is the one at a span: its text stands there between its marks. -/
structure DocBlock.IsAt (t : Text) (s : CommentSpan) (b : DocBlock) : Prop where
  start : b.start = s.start
  stop : b.stop = s.stop
  source : slice? t b.start b.stop =
    some ("/**".toList ++ b.text ++ (if s.isClosed then "*/" else "").toList)

theorem forall₂_docBlocks (t : Text) :
    List.Forall₂ (DocBlock.IsAt t) ((commentSpans t).filter (·.isDoc)) (docBlocks t) := by
  have hstands : ∀ e ∈ comments t, ∃ q x, t = q ++ (e.2.source ++ x) ∧ byteSize q = e.1 :=
    fun e he => exists_append_of_mem_commentsFrom [] he
  rw [commentSpans, docBlocks]
  generalize comments t = es at hstands ⊢
  induction es with
  | nil => exact .nil
  | cons e es ih =>
    obtain ⟨start, k⟩ := e
    obtain ⟨⟨q, x, htext, hq⟩, hrest⟩ := List.forall_mem_cons.1 hstands
    rcases k with body | ⟨doc, body, closed⟩
    · exact ih hrest
    · cases doc with
      | false => exact ih hrest
      | true =>
        refine .cons ⟨rfl, rfl, slice?_eq_some_iff.2 ⟨q, x, htext, hq, rfl⟩⟩ (ih hrest)

/-- A doc block begins where its comment does. -/
theorem map_start_docBlocks (t : Text) :
    (docBlocks t).map (·.start) = ((commentSpans t).filter (·.isDoc)).map (·.start) := by
  have hblocks := forall₂_docBlocks t
  generalize (commentSpans t).filter (·.isDoc) = spans at hblocks ⊢
  generalize docBlocks t = blocks at hblocks ⊢
  induction hblocks with
  | nil => rfl
  | cons hblock _ ih => rw [List.map_cons, List.map_cons, ih, hblock.start]

/-- Doc blocks begin one behind the other. -/
theorem docBlocks_ordered (t : Text) : (docBlocks t).Pairwise (·.start < ·.start) := by
  have hlexed : LexedFrom t 0 (commentSpans t) := (lexedFrom_iff [] t _).2 rfl
  have hspans : (commentSpans t).Pairwise (·.start < ·.start) := by
    refine hlexed.ordered.imp_of_mem fun hs _ hle => ?_
    exact lt_of_lt_of_le (hlexed.fits _ hs).start_lt_stop hle
  rw [← List.pairwise_map (f := DocBlock.start) (R := (· < ·)), map_start_docBlocks,
    List.pairwise_map]
  exact hspans.filter _

/-- Where only the last item may have a property, it is found there. -/
theorem filter_eq_getLast? {α : Type} {f : α → Bool} {l : List α}
    (h : ∀ a ∈ l.dropLast, f a = false) : l.filter f = (l.getLast?.filter f).toList := by
  rcases List.eq_nil_or_concat' l with rfl | ⟨l, a, rfl⟩
  · rfl
  · rw [List.dropLast_concat] at h
    have hnil : l.filter f = [] := List.filter_eq_nil_iff.2 fun b hb => by simp [h b hb]
    rw [List.filter_append, hnil, List.nil_append, List.getLast?_concat]
    by_cases ha : f a = true <;> simp [Option.filter, ha]

/-- A comment that is not closed is reported where it begins. -/
theorem unclosedComments_eq (t : Text) :
    unclosedComments t = ((commentSpans t).filter (!·.isClosed)).map (·.start) := by
  rw [unclosedComments, commentSpans]
  induction comments t with
  | nil => rfl
  | cons e es ih =>
    obtain ⟨start, k⟩ := e
    rcases k with body | ⟨doc, body, closed⟩
    · exact ih
    · cases closed with
      | true => exact ih
      | false => exact congrArg (start :: ·) ih

/-- The comments of a text are determined by what comments look like and by where none opens.  Doc
blocks are read from their places, an open comment is reported at its place, and code is the text
with a space at each place. -/
theorem commentSpans_characterized (t : Text) :
    (∀ spans, LexedFrom t 0 spans ↔ spans = commentSpans t) ∧
    List.Forall₂ (DocBlock.IsAt t) ((commentSpans t).filter (·.isDoc)) (docBlocks t) ∧
    unclosedComments t =
      ((commentSpans t).getLast?.filter (!·.isClosed)).toList.map (·.start) ∧
    blankOut? t 0 (commentSpans t) = some (stripComments t) := by
  have hlexed : ∀ spans, LexedFrom t 0 spans ↔ spans = commentSpans t := lexedFrom_iff [] t
  refine ⟨hlexed, forall₂_docBlocks t, ?_, blankOut?_commentSpansFrom [] t⟩
  have hclosed := ((hlexed _).2 rfl).closed
  rw [unclosedComments_eq, filter_eq_getLast? fun s hs => by simp [hclosed s hs]]

end HeaderApi
