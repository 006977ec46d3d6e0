import HeaderApi.Proofs.Comment
import HeaderApi.Proofs.Text.Bytes

/-!
# Comments by their places

A comment takes up the bytes of a text from where it begins to where it ends, and a block comment
has a body between its marks.  `CommentSpan.Fits` says which choices of places are a comment of a
text.  Where a comment opens, one choice fits (`fits_iff`).
-/

namespace HeaderApi

open Text

inductive CommentShape where
  | line
  | block (doc : Bool) (bodyStart bodyStop : Nat) (closed : Bool)
deriving DecidableEq

structure CommentSpan where
  start : Nat
  stop : Nat
  shape : CommentShape
deriving DecidableEq

/-- What a block comment opens with. -/
def blockMark (doc : Bool) : Text := (if doc then "/**" else "/*").toList

namespace CommentSpan

def isDoc (s : CommentSpan) : Bool :=
  match s.shape with
  | .block doc _ _ _ => doc
  | .line => false

/-- Only block comments may be left open. -/
def isClosed (s : CommentSpan) : Bool :=
  match s.shape with
  | .block _ _ _ closed => closed
  | .line => true

/-- The places of a comment that begins at byte `start`. -/
def ofComment (start : Nat) (k : Comment) : CommentSpan where
  start
  stop := start + byteSize k.source
  shape :=
    match k with
    | .line _ => .line
    | .block doc body closed =>
      let bodyStart := start + byteSize (blockMark doc)
      .block doc bodyStart (bodyStart + byteSize body) closed

/-- A line comment runs to the end of its line. -/
structure FitsLine (t : Text) (start stop : Nat) : Prop where
  opens : StandsAt "//".toList t start
  line : ∃ line, slice? t start stop = some line ∧ '\n' ∉ line
  ends : stop = byteSize t ∨ StandsAt "\n".toList t stop

/-- A block comment runs to the first mark that closes it, or else to the end of the text. -/
structure FitsBlock (t : Text) (start stop : Nat) (doc : Bool) (bodyStart bodyStop : Nat)
    (closed : Bool) : Prop where
  opens : StandsAt "/*".toList t start
  doc_iff : doc = true ↔ StandsAt "/**".toList t start ∧ ¬ StandsAt "/**/".toList t start
  bodyStart_eq : bodyStart = start + byteSize (blockMark doc)
  body : ∃ body, slice? t bodyStart bodyStop = some body ∧ ¬ "*/".toList <:+: body
  ends : if closed then StandsAt "*/".toList t bodyStop ∧ stop = bodyStop + byteSize "*/".toList
    else bodyStop = byteSize t ∧ stop = byteSize t

/-- The places are those of a comment of the text. -/
def Fits (t : Text) (s : CommentSpan) : Prop :=
  match s.shape with
  | .line => FitsLine t s.start s.stop
  | .block doc bodyStart bodyStop closed => FitsBlock t s.start s.stop doc bodyStart bodyStop closed

end CommentSpan

/-! ## The comment that a text begins with -/

/-- The comment that a text begins with, and what follows it. -/
def openingComment? : Text → Option (Comment × Text)
  | '/' :: '/' :: t => some (.line (t.takeWhile (· ≠ '\n')), t.dropWhile (· ≠ '\n'))
  | '/' :: '*' :: t => some (blockComment t)
  | _ => none

variable {p r rest t : Text} {k : Comment} {s : CommentSpan}

theorem openingComment?_eq_none_iff :
    openingComment? t = none ↔ ¬ "/*".toList <+: t ∧ ¬ "//".toList <+: t := by
  unfold openingComment?
  split
  next t => simp
  next t => simp
  next hline hblock =>
    refine iff_of_true rfl ⟨?_, ?_⟩
    · rintro ⟨r, rfl⟩
      exact hblock r rfl
    · rintro ⟨r, rfl⟩
      exact hline r rfl

theorem eq_append_of_openingComment? (h : openingComment? t = some (k, rest)) :
    t = k.source ++ rest := by
  unfold openingComment? at h
  split at h
  next t =>
    obtain ⟨rfl, rfl⟩ := Prod.mk.inj (Option.some.inj h)
    simp [Comment.source]
  next t =>
    have hsource := source_blockComment t
    rw [Option.some.inj h] at hsource
    exact hsource.symm
  next => cases h

theorem pieces_of_openingComment? (h : openingComment? t = some (k, rest)) :
    pieces t = .comment k :: pieces rest := by
  unfold openingComment? at h
  split at h
  next t =>
    obtain ⟨rfl, rfl⟩ := Prod.mk.inj (Option.some.inj h)
    rw [pieces]
  next t =>
    rw [pieces, Option.some.inj h]
  next => cases h

theorem pieces_cons_of_none {c : Char} (h : openingComment? (c :: t) = none) :
    pieces (c :: t) = .char c :: pieces t := by
  rw [pieces]
  · rintro t rfl rfl
    simp [openingComment?] at h
  · rintro t rfl rfl
    simp [openingComment?] at h

/-- A text is read comment by comment, and character by character where no comment opens. -/
@[elab_as_elim]
theorem pieces_induction {motive : Text → Prop} (nil : motive [])
    (char : ∀ c t, openingComment? (c :: t) = none → motive t → motive (c :: t))
    (comment : ∀ t k rest, openingComment? t = some (k, rest) → motive rest → motive t)
    (t : Text) : motive t := by
  fun_induction pieces t with
  | case1 => exact nil
  | case2 t ih => exact comment _ _ _ rfl ih
  | case3 t ih => exact comment _ _ _ rfl ih
  | case4 c t hline hblock ih =>
    refine char c t (openingComment?_eq_none_iff.2 ⟨?_, ?_⟩) ih
    · rintro ⟨r, h⟩
      exact hblock r (List.cons.inj h).1.symm (List.cons.inj h).2.symm
    · rintro ⟨r, h⟩
      exact hline r (List.cons.inj h).1.symm (List.cons.inj h).2.symm

/-- A block comment is read by cutting what stands behind its first mark. -/
theorem exists_inner (t : Text) : ∃ doc inner, blockMark doc ++ inner = '/' :: '*' :: t ∧
    (doc = true ↔ "/**".toList <+: '/' :: '*' :: t ∧ ¬ "/**/".toList <+: '/' :: '*' :: t) ∧
    blockComment t =
      match cutAt "*/".toList inner with
      | some (body, rest) => (.block doc body true, rest)
      | none => (.block doc inner false, []) := by
  unfold blockComment
  split
  rename_i doc inner h
  refine ⟨doc, inner, ?_, ?_, rfl⟩
  · split at h <;> obtain ⟨rfl, rfl⟩ := Prod.mk.inj h <;> rfl
  · split at h
    next r => simp [← (Prod.mk.inj h).1]
    next r hr =>
      have hclose : ¬ ['/'] <+: r := by
        rintro ⟨x, rfl⟩
        exact hr x rfl
      simpa [← (Prod.mk.inj h).1] using hclose
    next hdoc =>
      have hstar : ¬ ['*'] <+: t := by
        rintro ⟨x, rfl⟩
        exact hdoc x rfl
      simp only [← (Prod.mk.inj h).1]
      simpa using fun h => absurd h hstar

/-! ## One choice of places fits -/

namespace CommentSpan

/-- The text of a line ends where a line feed follows, or nothing. -/
theorem eq_takeWhile {line x : Text} (hline : '\n' ∉ line) (hx : x = [] ∨ "\n".toList <+: x) :
    (line ++ x).takeWhile (· ≠ '\n') = line := by
  have hall : ∀ c ∈ line, decide (c ≠ '\n') = true := by
    intro c hc
    have hne : c ≠ '\n' := fun h => hline (h ▸ hc)
    simpa using hne
  rw [List.takeWhile_append_of_pos hall]
  rcases hx with rfl | ⟨y, rfl⟩ <;> simp

/-- Every text begins with a line. -/
theorem exists_line (t : Text) :
    ∃ line x, t = line ++ x ∧ '\n' ∉ line ∧ (x = [] ∨ "\n".toList <+: x) := by
  induction t with
  | nil => exact ⟨[], [], rfl, by simp, .inl rfl⟩
  | cons c t ih =>
    by_cases hc : c = '\n'
    · exact ⟨[], c :: t, rfl, by simp, .inr ⟨t, by rw [hc]; rfl⟩⟩
    · obtain ⟨line, x, rfl, hline, hx⟩ := ih
      exact ⟨c :: line, x, rfl, by simp [hline, Ne.symm hc], hx⟩

/-- The end of a text of which `line` is known up to a place, as the end of a line. -/
theorem lineEnds_iff {line x : Text} :
    (byteSize p + byteSize line = byteSize (p ++ (line ++ x)) ∨
      StandsAt "\n".toList (p ++ (line ++ x)) (byteSize p + byteSize line)) ↔
    x = [] ∨ "\n".toList <+: x := by
  rw [standsAt_append_append_iff, ← byteSize_eq_zero_iff]
  simp only [byteSize_append]
  exact or_congr (by omega) Iff.rfl

theorem fitsLine_iff {stop : Nat} : FitsLine (p ++ '/' :: '/' :: t) (byteSize p) stop ↔
    stop = byteSize p + byteSize (Comment.line (t.takeWhile (· ≠ '\n'))).source := by
  have hsource : (Comment.line (t.takeWhile (· ≠ '\n'))).source =
      ('/' :: '/' :: t).takeWhile (· ≠ '\n') := by
    simp [Comment.source]
  rw [hsource]
  obtain ⟨line, x, hcut, hline, hx⟩ := exists_line ('/' :: '/' :: t)
  rw [hcut, eq_takeWhile hline hx]
  constructor
  · rintro ⟨-, ⟨line', hslice, hline'⟩, hends⟩
    obtain ⟨x', heq, rfl⟩ := slice?_append_eq_some_iff.1 hslice
    rw [heq] at hends
    rw [← eq_takeWhile hline hx, heq, eq_takeWhile hline' (lineEnds_iff.1 hends)]
  · rintro rfl
    refine ⟨?_, ⟨line, slice?_append_eq_some_iff.2 ⟨x, rfl, rfl⟩, hline⟩, lineEnds_iff.2 hx⟩
    rw [standsAt_append_iff, ← hcut]
    exact ⟨t, rfl⟩

theorem not_infix_body {inner body x : Text} (h : cutAt "*/".toList inner = some (body, x)) :
    ¬ "*/".toList <:+: body := by
  have hfirst := first_of_cutAt (m := "*".toList) (z := '/') h
  exact fun hpart => hfirst (hpart.trans (List.prefix_append _ _).isInfix)

theorem slice?_inner_iff {doc : Bool} {inner body : Text} {bodyStop : Nat}
    (hopen : blockMark doc ++ inner = '/' :: '*' :: t) :
    slice? (p ++ '/' :: '*' :: t) (byteSize p + byteSize (blockMark doc)) bodyStop = some body ↔
      ∃ x, inner = body ++ x ∧
        bodyStop = byteSize p + byteSize (blockMark doc) + byteSize body := by
  rw [← hopen, ← List.append_assoc, ← byteSize_append, slice?_append_eq_some_iff]

/-- Places of a block comment that fit are those of the comment that is read. -/
theorem FitsBlock.eq_ofComment {doc closed : Bool} {stop bodyStart bodyStop : Nat}
    (h : FitsBlock (p ++ '/' :: '*' :: t) (byteSize p) stop doc bodyStart bodyStop closed) :
    ⟨byteSize p, stop, .block doc bodyStart bodyStop closed⟩ =
      ofComment (byteSize p) (blockComment t).1 := by
  obtain ⟨doc', inner, hopen, hdoc, hblock⟩ := exists_inner t
  obtain ⟨-, hdoc', rfl, ⟨body, hbody, hnot⟩, hends⟩ := h
  obtain rfl : doc = doc' := by
    rw [standsAt_append_iff, standsAt_append_iff, ← hdoc] at hdoc'
    exact Bool.eq_iff_iff.2 hdoc'
  obtain ⟨x, rfl, rfl⟩ := (slice?_inner_iff hopen).1 hbody
  rw [← hopen, ← List.append_assoc, ← byteSize_append] at hends
  cases closed with
  | true =>
    rw [if_pos rfl, standsAt_append_append_iff] at hends
    obtain ⟨⟨rest, rfl⟩, rfl⟩ := hends
    rw [hblock, cutAt_body hnot]
    simp [ofComment, Comment.source, blockMark, Nat.add_assoc]
  | false =>
    rw [if_neg Bool.false_ne_true] at hends
    obtain ⟨hend, rfl⟩ := hends
    obtain rfl : x = [] := by
      rw [← byteSize_eq_zero_iff]
      simp only [byteSize_append] at hend
      omega
    rw [List.append_nil] at hblock ⊢
    rw [hblock, cutAt_eq_none_iff.2 hnot]
    simp [ofComment, Comment.source, blockMark]

theorem fits_blockComment (p t : Text) :
    (ofComment (byteSize p) (blockComment t).1).Fits (p ++ '/' :: '*' :: t) := by
  obtain ⟨doc, inner, hopen, hdoc, hblock⟩ := exists_inner t
  have hopens : StandsAt "/*".toList (p ++ '/' :: '*' :: t) (byteSize p) :=
    standsAt_append_iff.2 ⟨t, rfl⟩
  have hdoc' : doc = true ↔ StandsAt "/**".toList (p ++ '/' :: '*' :: t) (byteSize p) ∧
      ¬ StandsAt "/**/".toList (p ++ '/' :: '*' :: t) (byteSize p) := by
    rw [standsAt_append_iff, standsAt_append_iff, hdoc]
  cases hcut : cutAt "*/".toList inner with
  | none =>
    rw [hblock, hcut]
    refine ⟨hopens, hdoc', rfl,
      ⟨inner, (slice?_inner_iff hopen).2 ⟨[], by simp, rfl⟩, cutAt_eq_none_iff.1 hcut⟩, ?_⟩
    rw [if_neg Bool.false_ne_true, ← hopen]
    simp [ofComment, Comment.source, blockMark, Nat.add_assoc]
  | some cut =>
    obtain ⟨body, rest⟩ := cut
    have hinner := eq_append_of_cutAt hcut
    rw [List.append_assoc] at hinner
    rw [hblock, hcut]
    refine ⟨hopens, hdoc', rfl,
      ⟨body, (slice?_inner_iff hopen).2 ⟨_, hinner, rfl⟩, not_infix_body hcut⟩, ?_⟩
    rw [if_pos rfl, ← hopen, hinner, ← List.append_assoc, ← byteSize_append,
      standsAt_append_append_iff]
    exact ⟨⟨rest, rfl⟩, by simp [ofComment, Comment.source, blockMark, Nat.add_assoc]⟩

theorem Fits.opens (h : s.Fits t) :
    StandsAt "/*".toList t s.start ∨ StandsAt "//".toList t s.start := by
  obtain ⟨start, stop, shape⟩ := s
  cases shape with
  | line => exact .inr (FitsLine.opens h)
  | block => exact .inl (FitsBlock.opens h)

/-- Where a comment opens, its places are the ones that fit. -/
theorem fits_iff (h : openingComment? r = some (k, rest)) (hs : s.start = byteSize p) :
    s.Fits (p ++ r) ↔ s = ofComment (byteSize p) k := by
  obtain ⟨start, stop, shape⟩ := s
  obtain rfl : start = byteSize p := hs
  unfold openingComment? at h
  split at h
  next t =>
    obtain ⟨rfl, rfl⟩ := Prod.mk.inj (Option.some.inj h)
    cases shape with
    | line =>
      refine fitsLine_iff.trans ?_
      simp [ofComment]
    | block =>
      refine iff_of_false (fun hfits => ?_) (by simp [ofComment])
      have hopens := standsAt_append_iff.1 (FitsBlock.opens hfits)
      simp at hopens
  next t =>
    cases shape with
    | line =>
      refine iff_of_false (fun hfits => ?_) ?_
      · have hopens := standsAt_append_iff.1 (FitsLine.opens hfits)
        simp at hopens
      · obtain ⟨doc, inner, -, -, hblock⟩ := exists_inner t
        rw [Option.some.inj h] at hblock
        split at hblock <;> simp [(Prod.mk.inj hblock).1, ofComment]
    | block =>
      constructor
      · intro hfits
        rw [FitsBlock.eq_ofComment hfits, Option.some.inj h]
      · intro heq
        have hfits := fits_blockComment p t
        rwa [Option.some.inj h, ← heq] at hfits
  next => cases h

/-- Places that fit are those of a comment that is read where they begin. -/
theorem Fits.exists_comment (h : s.Fits t) : ∃ p r k rest, t = p ++ r ∧
    openingComment? r = some (k, rest) ∧ s = ofComment (byteSize p) k := by
  obtain ⟨p, r, rfl, hp, hr⟩ : ∃ p r, t = p ++ r ∧ byteSize p = s.start ∧
      ("/*".toList <+: r ∨ "//".toList <+: r) := by
    rcases h.opens with hopens | hopens
    all_goals
      obtain ⟨p, r, rfl, hp⟩ := standsAt_iff.1 hopens
      refine ⟨p, _, rfl, hp, ?_⟩
    · exact .inl (List.prefix_append _ _)
    · exact .inr (List.prefix_append _ _)
  cases hopening : openingComment? r with
  | none =>
    obtain ⟨hblock, hline⟩ := openingComment?_eq_none_iff.1 hopening
    exact absurd hr (by simp only [hblock, hline, or_self, not_false_eq_true])
  | some cut => exact ⟨p, r, cut.1, cut.2, rfl, hopening, (fits_iff hopening hp.symm).1 h⟩

end CommentSpan

end HeaderApi
