import HeaderApi.Comment
import HeaderApi.Docstring.Parse
import HeaderApi.OrderedMap
import HeaderApi.Scan.Report

/-!
# The index of doc blocks

Doc blocks are found by the symbol that their `@name` stands for.  Of several blocks for one symbol
the last one counts.  Declarations claim the blocks of their symbols, and a block that none of them
has claimed is reported in the end.
-/

namespace HeaderApi

/-- A doc block that names a symbol. -/
structure IndexedDoc where
  offset : Nat
  name : QualifiedName
  doc : Docstring
deriving DecidableEq

abbrev DocIndex := OrderedMap Text IndexedDoc

namespace DocIndex

/-- Reads a doc block and puts it into the index. -/
def addBlock (index : DocIndex) (block : DocBlock) : Scan DocIndex := do
  let (doc, rejected) := Docstring.parse block.start block.text
  Scan.report rejected
  match doc.name with
  | some name =>
    Scan.note (.indexed name.symbol block.start block.stop)
    pure (index.insert name.symbol ⟨block.start, name, doc⟩)
  | none =>
    Scan.report [.missingName block.start]
    pure index

def ofText (t : Text) : Scan DocIndex := do
  Scan.report ((unclosedComments t).map .unterminatedComment)
  (docBlocks t).foldlM addBlock ∅

/-- A report for each symbol of the index that is not among some others. -/
def unused (index : DocIndex) (symbols : List Text) : List Diagnostic :=
  (index.entries.filter (·.1 ∉ symbols)).map fun (symbol, d) => .unusedDocstring symbol d.offset

end DocIndex

/-- An index, and the symbols whose doc blocks have been claimed so far. -/
structure Claims where
  index : DocIndex
  marked : List Text := []

namespace Claims

/-- Looks up the doc block of a symbol, and marks it if there is one. -/
def claim (c : Claims) (symbol : Text) : Option IndexedDoc × Claims :=
  match c.index.get? symbol with
  | none => (none, c)
  | some d => (some d, { c with marked := symbol :: c.marked })

def claimAll (c : Claims) (symbols : List Text) : Claims :=
  symbols.foldl (fun c symbol => (c.claim symbol).2) c

/-- A report for each doc block that is not marked. -/
def unused (c : Claims) : List Diagnostic := c.index.unused c.marked

end Claims

end HeaderApi
