import HeaderApi.Comment
import HeaderApi.Proofs.Text.Parts

/-!
# Reading comments one by one

Text without a slash is read character by character, and a closed doc block as one comment, whatever
stands behind the two.
-/

namespace HeaderApi

open Text

variable {c : Char} {x body : Text}

theorem pieces_cons (hc : c ≠ '/') (t : Text) : pieces (c :: t) = .char c :: pieces t := by
  rw [pieces]
  · rintro t rfl
    exact absurd rfl hc
  · rintro t rfl
    exact absurd rfl hc

/-- Outside comments nothing is changed. -/
theorem pieces_append (hx : '/' ∉ x) (t : Text) : pieces (x ++ t) = x.map .char ++ pieces t := by
  induction x with
  | nil => rfl
  | cons c x ih =>
    rw [List.mem_cons, not_or] at hx
    rw [List.cons_append, pieces_cons (Ne.symm hx.1), ih hx.2]
    rfl

/-- Behind a text without the mark that closes a comment, a first such mark is where it stands. -/
theorem cutAt_body (hbody : ¬ "*/".toList <:+: body) (t : Text) :
    cutAt "*/".toList (body ++ ("*/".toList ++ t)) = some (body, t) := by
  have hseam : ¬ "*".toList ++ ['/'] <:+: body ++ "*".toList := by
    rw [show body ++ "*".toList = body ++ ['*'] from rfl, List.infix_concat_iff, not_or]
    refine ⟨fun h => ?_, hbody⟩
    obtain ⟨a, ha⟩ := h
    have hlast := congrArg List.getLast? ha
    simp at hlast
  simpa using cutAt_append hseam t

/-- A doc block runs to the mark that closes it. -/
theorem blockComment_doc (hhead : body.head? ≠ some '/') (hbody : ¬ "*/".toList <:+: body)
    (t : Text) :
    blockComment ('*' :: (body ++ "*/".toList ++ t)) = (.block true body true, t) := by
  have hcut : cutAt "*/".toList (body ++ "*/".toList ++ t) = some (body, t) := by
    rw [List.append_assoc]
    exact cutAt_body hbody t
  have hne : ∀ r, body ++ "*/".toList ++ t ≠ '/' :: r := by
    intro r h
    cases body with
    | nil => simp at h
    | cons d body => exact hhead (by simpa using (List.cons.inj h).1)
  rw [blockComment, hcut]
  exact hne

/-- A doc block as it stands in a header. -/
def docComment (body : Text) : Text := "/**".toList ++ body ++ "*/".toList

theorem pieces_docComment (hhead : body.head? ≠ some '/') (hbody : ¬ "*/".toList <:+: body)
    (t : Text) :
    pieces (docComment body ++ t) = .comment (.block true body true) :: pieces t := by
  have hblock := blockComment_doc hhead hbody t
  rw [docComment, show "/**".toList ++ body ++ "*/".toList ++ t =
    '/' :: '*' :: '*' :: (body ++ "*/".toList ++ t) from rfl, pieces, hblock]

/-! ## Comments without their offsets -/

def Piece.comment? : Piece → Option Comment
  | .char _ => none
  | .comment k => some k

theorem map_snd_commentsFrom (offset : Nat) (ps : List Piece) :
    (commentsFrom offset ps).map Prod.snd = ps.filterMap Piece.comment? := by
  induction ps generalizing offset with
  | nil => rfl
  | cons p ps ih =>
    cases p with
    | char c => exact ih _
    | comment k => exact congrArg (k :: ·) (ih _)

def Comment.doc? : Comment → Option Text
  | .block true body _ => some body
  | _ => none

theorem map_text_docBlocks (t : Text) :
    (docBlocks t).map DocBlock.text =
      ((pieces t).filterMap Piece.comment?).filterMap Comment.doc? := by
  rw [docBlocks, List.map_filterMap, ← map_snd_commentsFrom 0, List.filterMap_map]
  refine List.filterMap_congr fun ⟨start, k⟩ _ => ?_
  rcases k with _ | ⟨_ | _, _, _⟩ <;> rfl

theorem unclosedComments_eq_nil {t : Text}
    (h : ∀ k ∈ (pieces t).filterMap Piece.comment?, ∃ body, k = .block true body true) :
    unclosedComments t = [] := by
  rw [unclosedComments, List.filterMap_eq_nil_iff]
  rintro ⟨start, k⟩ hk
  obtain ⟨body, rfl⟩ := h k (map_snd_commentsFrom 0 _ ▸ List.mem_map_of_mem hk)
  rfl

end HeaderApi
