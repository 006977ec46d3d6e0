import HeaderApi.Pattern.Search

/-! # Patterns that declarations are made of -/

namespace HeaderApi.Declaration

/-- A space that may be missing. -/
def gap : Pattern := .optional " "

def word : Pattern := .many1 Text.isWord

def stars : Pattern := .many1 (· = '*')

/-- A tag between a keyword and a brace; it may be missing. -/
def tag : Pattern := .optional (.seq [word, gap])

/-- What stands between braces, without braces of its own. -/
def braced : Pattern := .many fun c => c ≠ '\x7b' && c ≠ '\x7d'

/-- A parameter list and the end of the declaration.  The parameters run to the last closing
parenthesis before the semicolon, so that nested parentheses are seen and can be refused. -/
def params : Pattern := .seq ["(", .capture (.many (· ≠ ';')), ")", gap, ";"]

end HeaderApi.Declaration
