import HeaderApi.Text.Basic

/-!
# Comments

A header is read as a sequence of pieces: characters outside comments, and comments.  Nothing is
lost by it (`flatMap_source_pieces`).  A block comment that opens with `/**` is a doc block, except
for the empty comment `/**/`.  A block comment that is never closed runs to the end of the text.
-/

namespace HeaderApi

inductive Comment where
  | line (body : Text)
  | block (doc : Bool) (body : Text) (closed : Bool)
deriving DecidableEq

namespace Comment

/-- The comment as it stands in the header. -/
def source : Comment → Text
  | .line body => "//".toList ++ body
  | .block doc body closed =>
    (if doc then "/**" else "/*").toList ++ body ++ (if closed then "*/" else "").toList

end Comment

inductive Piece where
  | char (c : Char)
  | comment (k : Comment)
deriving DecidableEq

namespace Piece

def source : Piece → Text
  | .char c => [c]
  | .comment k => k.source

/-- The piece as code: a comment separates what stands around it, as a space does. -/
def code : Piece → Char
  | .char c => c
  | .comment _ => ' '

end Piece

/-- A block comment, of which `t` is the text behind `/*`, with what follows it. -/
def blockComment (t : Text) : Comment × Text :=
  let (doc, inner) :=
    match t with
    | '*' :: '/' :: _ => (false, t)
    | '*' :: r => (true, r)
    | _ => (false, t)
  match Text.cutAt "*/".toList inner with
  | some (body, rest) => (.block doc body true, rest)
  | none => (.block doc inner false, [])

theorem source_blockComment (t : Text) :
    (blockComment t).1.source ++ (blockComment t).2 = '/' :: '*' :: t := by
  unfold blockComment
  split
  rename_i doc inner h
  have open_inner : (if doc then "/**" else "/*").toList ++ inner = '/' :: '*' :: t := by
    split at h <;> obtain ⟨rfl, rfl⟩ := Prod.mk.inj h <;> simp
  split
  next body rest hcut =>
    simpa [Comment.source, Text.eq_append_of_cutAt hcut] using open_inner
  next => simpa [Comment.source] using open_inner

theorem length_blockComment_lt (t : Text) : (blockComment t).2.length < t.length + 2 := by
  have h := congrArg List.length (source_blockComment t)
  have : 2 ≤ (blockComment t).1.source.length := by
    unfold blockComment
    split
    rename_i doc inner _
    split <;> cases doc <;> simp [Comment.source]
  simp only [List.length_append, List.length_cons] at h
  omega

/-- A text as characters and comments. -/
def pieces : Text → List Piece
  | [] => []
  | '/' :: '/' :: t =>
    .comment (.line (t.takeWhile (· ≠ '\n'))) :: pieces (t.dropWhile (· ≠ '\n'))
  | '/' :: '*' :: t => .comment (blockComment t).1 :: pieces (blockComment t).2
  | c :: t => .char c :: pieces t
termination_by t => t.length
decreasing_by
  · have := (List.dropWhile_suffix (p := (· ≠ '\n')) (l := t)).length_le
    simp only [List.length_cons]
    omega
  · exact length_blockComment_lt t
  · simp

theorem flatMap_source_pieces (t : Text) : (pieces t).flatMap Piece.source = t := by
  fun_induction pieces t with
  | case1 => rfl
  | case2 t ih =>
    rw [List.flatMap_cons, ih]
    simp [Piece.source, Comment.source]
  | case3 t ih => simpa [Piece.source, ih] using source_blockComment t
  | case4 c t _ _ ih => simp [Piece.source, ih]

/-- The comments among pieces that begin at byte `offset`, each with the byte where it begins. -/
def commentsFrom : (offset : Nat) → List Piece → List (Nat × Comment)
  | _, [] => []
  | offset, p :: ps =>
    let rest := commentsFrom (offset + Text.byteSize p.source) ps
    match p with
    | .char _ => rest
    | .comment k => (offset, k) :: rest

def comments (t : Text) : List (Nat × Comment) := commentsFrom 0 (pieces t)

/-- The inner text of a doc block, with the bytes where the block begins and ends. -/
structure DocBlock where
  start : Nat
  stop : Nat
  text : Text
deriving DecidableEq

/-- The doc blocks of a header, in order. -/
def docBlocks (t : Text) : List DocBlock :=
  (comments t).filterMap fun (start, k) =>
    match k with
    | .block true body _ => some ⟨start, start + Text.byteSize k.source, body⟩
    | _ => none

/-- Where the comments begin that are never closed. -/
def unclosedComments (t : Text) : List Nat :=
  (comments t).filterMap fun (start, k) =>
    match k with
    | .block _ _ false => some start
    | _ => none

/-- The code of a header, each comment replaced by one space. -/
def stripComments (t : Text) : Text := (pieces t).map Piece.code

end HeaderApi
