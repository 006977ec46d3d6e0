import HeaderApi.Text.Basic
import HeaderApi.Text.Ranges

/-!
# Blanks

A blank is a character with the Unicode property `White_Space`.  Trimming, splitting into words and
squeezing all go by this one class.
-/

namespace HeaderApi.Text

def blankRanges : CodeRanges :=
  [(0x9, 0xD), (0x20, 0x20), (0x85, 0x85), (0xA0, 0xA0), (0x1680, 0x1680), (0x2000, 0x200A),
   (0x2028, 0x2029), (0x202F, 0x202F), (0x205F, 0x205F), (0x3000, 0x3000)]

def isBlank (c : Char) : Bool := blankRanges.has c

def trimStart (t : Text) : Text := t.dropWhile isBlank

def trimEnd (t : Text) : Text := (t.reverse.dropWhile isBlank).reverse

/-- The text without the blanks at its ends. -/
def trim (t : Text) : Text := trimEnd (trimStart t)

/-- The maximal runs of characters that are not blank. -/
def words (t : Text) : List Text := (t.splitOnP isBlank).filter (· ≠ [])

/-- The words of a text with one space between neighbours. -/
def squeeze (t : Text) : Text := joinWith [' '] (words t)

/-- The trimmed parts between the commas of a text. -/
def commaParts (t : Text) : List Text := (t.splitOn ',').map trim

/-- As `commaParts`, without the empty ones. -/
def commaItems (t : Text) : List Text := (commaParts t).filter (· ≠ [])

end HeaderApi.Text
