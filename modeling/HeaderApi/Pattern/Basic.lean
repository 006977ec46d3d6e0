import HeaderApi.Text.Basic

/-!
# Patterns

A small language of text patterns.  A pattern may match a text in several ways; `reaches` lists
them in order of preference: repetition and options take as much as they can first, and of two
alternatives the left one is tried first.
-/

namespace HeaderApi

inductive Pattern where
  | literal (word : Text)
  | one (allowed : Char → Bool)
  /-- Any number of allowed characters, none included. -/
  | many (allowed : Char → Bool)
  | optional (p : Pattern)
  | either (p q : Pattern)
  | andThen (p q : Pattern)
  /-- Matches as `p` does, and reports what `p` matched. -/
  | capture (p : Pattern)

namespace Pattern

instance : Coe String Pattern := ⟨fun s => .literal s.toList⟩

/-- At least one allowed character. -/
def many1 (allowed : Char → Bool) : Pattern := .andThen (.one allowed) (.many allowed)

def seq : List Pattern → Pattern
  | [] => .literal []
  | [p] => p
  | p :: q :: ps => .andThen p (seq (q :: ps))

end Pattern

/-- A stretch of text, given by the text from its start and the text from its end on. -/
structure Cut where
  start : Text
  stop : Text
deriving DecidableEq

namespace Cut

def length (c : Cut) : Nat := c.start.length - c.stop.length

def text (c : Cut) : Text := c.start.take c.length

theorem text_append {s : Text} (r : Text) : (Cut.mk (s ++ r) r).text = s := by
  simp [text, length]

end Cut

namespace Pattern

/-- One way to match: what was captured, in the order in which the captures open, and what is left
of the text. -/
structure Reach where
  cuts : List Cut
  rest : Text
deriving DecidableEq

/-- What is left after each run of allowed characters, the longest run first. -/
def runRests (allowed : Char → Bool) : (t : Text) → (shorter : List Text) → List Text
  | [], shorter => [] :: shorter
  | c :: t, shorter =>
    if allowed c then runRests allowed t ((c :: t) :: shorter) else (c :: t) :: shorter

/-- The ways to match a pattern at the start of a text, the preferred one first. -/
def reaches : Pattern → Text → List Reach
  | .literal word, t => ((Text.after? word t).map (Reach.mk [])).toList
  | .one _, [] => []
  | .one allowed, c :: t => if allowed c then [⟨[], t⟩] else []
  | .many allowed, t => (runRests allowed t []).map (Reach.mk [])
  | .optional p, t => reaches p t ++ [⟨[], t⟩]
  | .either p q, t => reaches p t ++ reaches q t
  | .andThen p q, t =>
    (reaches p t).flatMap fun a => (reaches q a.rest).map fun b => ⟨a.cuts ++ b.cuts, b.rest⟩
  | .capture p, t => (reaches p t).map fun a => ⟨⟨t, a.rest⟩ :: a.cuts, a.rest⟩

end Pattern

end HeaderApi
