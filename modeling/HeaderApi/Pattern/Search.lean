import HeaderApi.Pattern.Basic
import HeaderApi.Text.Word

/-!
# Searching for patterns

`occurrences` goes through a text from left to right and takes the preferred match at each place
where there is one; the search goes on behind it, so that occurrences do not overlap.
-/

namespace HeaderApi.Pattern

/-- A match found in a text. -/
structure Occurrence where
  whole : Cut
  cuts : List Cut
deriving DecidableEq

/-- Where matches may start, by the character before. -/
abbrev Anchor := Option Char → Bool

def anywhere : Anchor := fun _ => true

/-- No word is running: the place is the start of the text or follows a character that is not a
word character. -/
def wordStart : Anchor := fun before => !before.any Text.isWord

/-- The preferred match at the start of a text. -/
def first? (p : Pattern) (t : Text) : Option Occurrence :=
  (p.reaches t).head?.map fun r => ⟨⟨t, r.rest⟩, r.cuts⟩

/-- The occurrences in the rest of a text, of which `busy` characters still belong to the last
match. -/
def occurrencesFrom (p : Pattern) (anchor : Anchor) :
    (busy : Nat) → (before : Option Char) → Text → List Occurrence
  | _, _, [] => []
  | busy + 1, _, c :: t => occurrencesFrom p anchor busy (some c) t
  | 0, before, c :: t =>
    match if anchor before then p.first? (c :: t) else none with
    | some o => o :: occurrencesFrom p anchor (o.whole.length - 1) (some c) t
    | none => occurrencesFrom p anchor 0 (some c) t

/-- The occurrences of a pattern that does not match the empty text. -/
def occurrences (p : Pattern) (anchor : Anchor) (t : Text) : List Occurrence :=
  occurrencesFrom p anchor 0 none t

/-- What each occurrence captured. -/
def captures (p : Pattern) (anchor : Anchor) (t : Text) : List (List Cut) :=
  (p.occurrences anchor t).map Occurrence.cuts

end HeaderApi.Pattern
