import HeaderApi.Text.Basic

/-!
# Glob patterns

Patterns for names of files: `?` stands for any character, `*` for any text, `[...]` for one of a
set of characters and `[!...]` for one that is not in the set.  As a whole component of a path, `**`
stands for any directories.
-/

namespace HeaderApi.Glob

/-- What is wrong with a pattern. -/
inductive Fault where
  | wildcards
  | recursive
  | range
deriving DecidableEq

/-- A fault with the number of characters before it. -/
structure PatternError where
  position : Nat
  fault : Fault
deriving DecidableEq

namespace PatternError

def message (e : PatternError) : Text :=
  "Pattern syntax error near position ".toList ++ Text.decimal e.position ++ ": ".toList ++
    match e.fault with
    | .wildcards => "wildcards are either regular `*` or recursive `**`".toList
    | .recursive => "recursive wildcards must form a single path component".toList
    | .range => "invalid range pattern".toList

end PatternError

/-- Closed ranges of characters. -/
abbrev CharSet := List (Char × Char)

namespace CharSet

def has (s : CharSet) (c : Char) : Bool := s.any fun r => r.1 ≤ c && c ≤ r.2

/-- Reads the inside of brackets, where `a-z` is a range. -/
def read : Text → CharSet
  | a :: '-' :: z :: t => (a, z) :: read t
  | a :: t => (a, a) :: read t
  | [] => []

end CharSet

inductive Token where
  | char (c : Char)
  | anyChar
  | anyText
  | anyDirectories
  | within (set : CharSet)
  | outside (set : CharSet)
deriving DecidableEq

namespace Token

/-- The characters that a token for one character stands for. -/
def admits : Token → Char → Bool
  | .char d, c => c == d
  | .anyChar, _ => true
  | .within set, c => set.has c
  | .outside set, c => !set.has c
  | .anyText, _ | .anyDirectories, _ => false

/-- Whether a token stands for text of any length. -/
def isStar : Token → Bool
  | .anyText | .anyDirectories => true
  | _ => false

end Token

/-- The inside of brackets and what follows them; the first character inside may be a bracket. -/
def closeBracket? : Text → Option (Text × Text)
  | [] => none
  | first :: t =>
    match t.dropWhile (· ≠ ']') with
    | [] => none
    | _ :: rest => some (first :: t.takeWhile (· ≠ ']'), rest)

theorem length_closeBracket?_lt {t inside rest : Text} (h : closeBracket? t = some (inside, rest)) :
    rest.length < t.length := by
  unfold closeBracket? at h
  split at h
  next => simp at h
  next first t =>
    split at h
    next => simp at h
    next _ rest' hd =>
      obtain ⟨-, rfl⟩ := Prod.mk.inj (Option.some.inj h)
      have := (List.dropWhile_suffix (p := (· ≠ ']')) (l := t)).length_le
      rw [hd] at this
      simp only [List.length_cons] at this ⊢
      omega

/-- Reads the token that a bracket opens, of which `t` is the text behind the bracket. -/
def bracket? (t : Text) : Option (Token × Text) :=
  match t with
  | '!' :: r => (closeBracket? r).map fun (inside, rest) => (.outside (.read inside), rest)
  | _ => (closeBracket? t).map fun (inside, rest) => (.within (.read inside), rest)

theorem length_bracket?_lt {t rest : Text} {token : Token} (h : bracket? t = some (token, rest)) :
    rest.length < t.length := by
  unfold bracket? at h
  split at h <;> obtain ⟨⟨inside, rest'⟩, hc, h⟩ := Option.map_eq_some_iff.1 h <;>
    obtain ⟨-, rfl⟩ := Prod.mk.inj h
  · have := length_closeBracket?_lt hc
    simp only [List.length_cons]
    omega
  · exact length_closeBracket?_lt hc

/-- Reads a pattern of which `position` characters are read; `before` is the last of them. -/
def tokensFrom (position : Nat) (before : Option Char) : Text → Except PatternError (List Token)
  | [] => .ok []
  | '?' :: t => (tokensFrom (position + 1) (some '?') t).map (.anyChar :: ·)
  | '*' :: '*' :: '*' :: _ => .error ⟨position + 2, .wildcards⟩
  | '*' :: '*' :: t =>
    if before.isSome && before != some '/' then .error ⟨position - 1, .recursive⟩
    else
      match t with
      | [] => .ok [.anyDirectories]
      | '/' :: r => (tokensFrom (position + 3) (some '/') r).map (.anyDirectories :: ·)
      | _ => .error ⟨position + 2, .recursive⟩
  | '*' :: t => (tokensFrom (position + 1) (some '*') t).map (.anyText :: ·)
  | '[' :: t =>
    match h : bracket? t with
    | none => .error ⟨position, .range⟩
    | some (token, rest) =>
      (tokensFrom (position + 1 + (t.length - rest.length)) (some ']') rest).map (token :: ·)
  | c :: t => (tokensFrom (position + 1) (some c) t).map (.char c :: ·)
termination_by t => t.length
decreasing_by
  all_goals simp only [List.length_cons]
  all_goals try omega
  have := length_bracket?_lt h
  omega

def tokens (pattern : Text) : Except PatternError (List Token) := tokensFrom 0 none pattern

/-- The text that tokens without wildcards stand for. -/
def literal? : List Token → Option Text
  | [] => some []
  | .char c :: ts => (literal? ts).map (c :: ·)
  | _ :: _ => none

/-- A step on the way from a directory to the files that a pattern names. -/
inductive Step where
  | child (name : Text)
  | children (name : List Token)
  /-- Files in the directory, or in directories below it. -/
  | descendants (name : List Token)
deriving DecidableEq

/-- The steps of a pattern from its components.  What ends in `**` stands for directories only, and
no steps lead to them. -/
def steps? : List (List Token) → Option (List Step)
  | [] => some []
  | [[.anyDirectories]] => none
  | [.anyDirectories] :: [.anyDirectories] :: rest => steps? ([.anyDirectories] :: rest)
  | [.anyDirectories] :: name :: rest => (steps? rest).map (.descendants name :: ·)
  | name :: rest =>
    let step := match literal? name with
      | some n => .child n
      | none => .children name
    (steps? rest).map (step :: ·)

end HeaderApi.Glob
