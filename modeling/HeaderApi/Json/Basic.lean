import HeaderApi.Text.Basic

/-!
# JSON

JSON values without numbers, and the two ways to write them: on one line without any space, or with
each item on a line of its own.
-/

namespace HeaderApi

inductive Json where
  | bool (b : Bool)
  | str (s : Text)
  | arr (items : List Json)
  | obj (fields : List (Text × Json))

namespace Json

/-- How one character stands inside a string. -/
def escapedChar (c : Char) : Text :=
  if c = '"' then "\\\"".toList
  else if c = '\\' then "\\\\".toList
  else if c = '\x08' then "\\b".toList
  else if c = '\x0c' then "\\f".toList
  else if c = '\n' then "\\n".toList
  else if c = '\r' then "\\r".toList
  else if c = '\t' then "\\t".toList
  else if c.toNat < 16 then "\\u000".toList ++ Text.hexadecimal c.toNat
  else if c.toNat < 32 then "\\u00".toList ++ Text.hexadecimal c.toNat
  else [c]

def quote (s : Text) : Text := ['"'] ++ s.flatMap escapedChar ++ ['"']

/-- What stands between the tokens of a value. -/
structure Layout where
  /-- Begins a line at a level of nesting. -/
  newline : (level : Nat) → Text
  colon : Text

namespace Layout

def compact : Layout := ⟨fun _ => [], ":".toList⟩

def pretty (indent : Nat) : Layout :=
  ⟨fun level => '\n' :: List.replicate (indent * level) ' ', ": ".toList⟩

end Layout

mutual

/-- Writes a value that stands at a level of nesting. -/
def write (l : Layout) (level : Nat) : Json → Text
  | .bool b => (if b then "true" else "false").toList
  | .str s => quote s
  | .arr [] => "[]".toList
  | .arr (item :: items) =>
    "[".toList ++ l.newline (level + 1) ++ write l (level + 1) item ++
      writeItems l (level + 1) items ++ l.newline level ++ "]".toList
  | .obj [] => "\x7b\x7d".toList
  | .obj (field :: fields) =>
    "\x7b".toList ++ l.newline (level + 1) ++ writeField l (level + 1) field ++
      writeFields l (level + 1) fields ++ l.newline level ++ "\x7d".toList

/-- Writes the items behind the first one. -/
def writeItems (l : Layout) (level : Nat) : List Json → Text
  | [] => []
  | item :: items =>
    ",".toList ++ l.newline level ++ write l level item ++ writeItems l level items

def writeField (l : Layout) (level : Nat) : Text × Json → Text
  | (key, value) => quote key ++ l.colon ++ write l level value

/-- Writes the fields behind the first one. -/
def writeFields (l : Layout) (level : Nat) : List (Text × Json) → Text
  | [] => []
  | field :: fields =>
    ",".toList ++ l.newline level ++ writeField l level field ++ writeFields l level fields

end

/-- Writes a value with `indent` spaces for each level of nesting, or on one line if `indent` is
negative. -/
def render (indent : Int) (value : Json) : Text :=
  write (if indent < 0 then .compact else .pretty indent.toNat) 0 value

end Json

end HeaderApi
