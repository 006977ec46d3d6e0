import HeaderApi.Docstring.Tag
import HeaderApi.Pattern.Search
import HeaderApi.Text.Line

/-!
# Reading doc blocks

A line that begins with `@` opens the tags, and a blank line closes them; all other lines are prose.
Prose between blank lines is one paragraph of the description.
-/

namespace HeaderApi.Docstring

/-- A line of a doc block without its border: an asterisk that it may begin with, and blanks. -/
def lineContent (line : Text) : Text :=
  match Text.trimStart line with
  | '*' :: t => Text.trim t
  | t => Text.trimEnd t

inductive Line where
  | blank
  | prose (content : Text)
  | tag (content : Text)
deriving DecidableEq

namespace Line

def prose? : Line → Option Text
  | .prose t => some t
  | _ => none

def tag? : Line → Option Text
  | .tag t => some t
  | _ => none

/-- Sorts the contents of lines; `inTags` says whether a tag is still open. -/
def sort : (inTags : Bool) → List Text → List Line
  | _, [] => []
  | inTags, t :: ts =>
    if t = [] then .blank :: sort false ts
    else if inTags || t.head? == some '@' then .tag t :: sort true ts
    else .prose t :: sort false ts

def ofText (t : Text) : List Line := sort false ((Text.lines t).map lineContent)

end Line

/-- The paragraphs of prose among lines, each with its lines. -/
def paragraphs (lines : List Line) : List (List Text) :=
  ((lines.splitOn .blank).map fun part => part.filterMap Line.prose?).filter (· ≠ [])

def describe (lines : List Line) : Text :=
  Text.joinWith "\n\n".toList ((paragraphs lines).map (Text.joinWith "\n".toList))

/-- The lines of all tags as one text. -/
def tagSection (lines : List Line) : Text :=
  Text.joinWith "\n".toList (lines.filterMap Line.tag?)

/-- A tag is `@key: value`; the value goes on up to the next tag. -/
def tagPattern : Pattern :=
  .seq ["@", .capture (.many1 fun c => c ≠ ':' && c ≠ '@'), ":", .capture (.many (· ≠ '@'))]

/-- The keys and values of the tags in a text.  The key is the first word before the colon. -/
def tagPairs (t : Text) : List (Text × Text) :=
  (tagPattern.captures Pattern.anywhere t).filterMap fun
    | [key, value] => some ((Text.words key.text).headD [], Text.squeeze value.text)
    | _ => none

/-- What reading each tag of a doc block at byte `offset` gives. -/
def readTags (offset : Nat) (lines : List Line) : List (Except Diagnostic Tag) :=
  (tagPairs (tagSection lines)).map fun (key, value) => Tag.read offset key value

/-- The tags that could be read. -/
def accepted (tags : List (Except Diagnostic Tag)) : List Tag := tags.filterMap Except.toOption

/-- Why tags could not be read. -/
def rejected (tags : List (Except Diagnostic Tag)) : List Diagnostic :=
  tags.filterMap fun
    | .error d => some d
    | .ok _ => none

/-- Reads the inner text of the doc block at byte `offset`. -/
def parse (offset : Nat) (t : Text) : Docstring × List Diagnostic :=
  let lines := Line.ofText t
  let tags := readTags offset lines
  ((accepted tags).foldl add { description := describe lines }, rejected tags)

end HeaderApi.Docstring
