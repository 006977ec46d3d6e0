import HeaderApi.Comment
import HeaderApi.Text.Blank
import HeaderApi.Text.Line

/-!
# Normalized code

Declarations are looked for in the code of a header: its text without comments and preprocessor
directives, with every run of blanks squeezed to one space.
-/

namespace HeaderApi

/-- Whether a directive opens on this line. -/
def opensDirective (line : Text) : Bool := (Text.trimStart line).head? == some '#'

/-- Whether a directive goes on behind this line. -/
def continuesDirective (line : Text) : Bool := (Text.trimEnd line).getLast? == some '\\'

/-- The lines with directives blanked out; `inDirective` says whether the first line belongs to a
directive that opened before it.  Line feeds stay. -/
def blankDirectives : (inDirective : Bool) → List Text → List Text
  | _, [] => []
  | inDirective, line :: lines =>
    if inDirective || opensDirective line then
      line.filter (· = '\n') :: blankDirectives (continuesDirective line) lines
    else line :: blankDirectives false lines

def stripDirectives (t : Text) : Text := (blankDirectives false (Text.physicalLines t)).flatten

/-- The normalized code of a header. -/
def codeOf (t : Text) : Text := Text.squeeze (stripDirectives (stripComments t))

end HeaderApi
