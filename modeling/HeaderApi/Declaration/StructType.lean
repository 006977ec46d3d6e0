import HeaderApi.Declaration.Lexicon

/-!
# Struct types

A struct type is declared forward, `typedef struct tag name_t;`, or with its members,
`typedef struct tag { ... } name_t;`, where the tag may be missing.
-/

namespace HeaderApi.StructType

open Declaration

def typeName : Pattern := .capture (.seq [word, "_t"])

def forwardPattern : Pattern := .seq ["typedef struct ", word, " ", typeName, gap, ";"]

def bodyPattern : Pattern :=
  .seq ["typedef struct", gap, tag, "\x7b", braced, "\x7d", gap, typeName, gap, ";"]

/-- The names that a pattern captures, in order. -/
def namesBy (p : Pattern) (code : Text) : List Cut :=
  (p.captures Pattern.wordStart code).filterMap List.head?

/-- The names of both forms in order of appearance. -/
def nameCuts (code : Text) : List Cut :=
  (namesBy forwardPattern code).merge (namesBy bodyPattern code) fun a b =>
    b.start.length ≤ a.start.length

/-- The names of the struct types in code, in order of their first declarations. -/
def names (code : Text) : List Text := ((nameCuts code).map Cut.text).eraseDups

end HeaderApi.StructType
