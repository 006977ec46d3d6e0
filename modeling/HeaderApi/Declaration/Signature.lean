import HeaderApi.Declaration.Lexicon
import HeaderApi.Declaration.Parameter

/-!
# Function prototypes and delegates

A prototype is `type name (parameters);` and a delegate, a named type of functions, is
`typedef type (*name) (parameters);`.  Both are looked for in normalized code.
-/

namespace HeaderApi

/-- A signature as it is declared. -/
structure Signature where
  name : Text
  returnType : Text
  params : List Parameter
deriving DecidableEq

namespace Signature

open Declaration

def prototypePattern : Pattern :=
  .seq [.capture (.seq [.optional "const ", word, .either (.seq [gap, stars, gap]) " "]),
    .capture (.many1 Text.isLowerName), gap, Declaration.params]

def delegatePattern : Pattern :=
  .seq ["typedef ", .capture (.seq [.optional "const ", word, .optional (.seq [gap, stars])]), gap,
    "(", gap, "*", gap, .capture word, gap, ")", gap, Declaration.params]

/-- A signature before its parameters are read. -/
structure Raw where
  name : Text
  returnType : Text
  params : Text
deriving DecidableEq

def Raw.ofCuts? : List Cut → Option Raw
  | [returnType, name, params] => some ⟨name.text, Text.trim returnType.text, params.text⟩
  | _ => none

def Raw.read (r : Raw) : Except ScanError Signature :=
  (Parameter.readList r.params).map (⟨r.name, r.returnType, ·⟩)

/-- Reads the signatures up to the first one with a malformed parameter. -/
def readAll : List Raw → Except ScanError (List Signature)
  | [] => .ok []
  | r :: rs =>
    match r.read with
    | .error e => .error e
    | .ok s => (readAll rs).map (s :: ·)

/-- The prototypes in code.  What seems to return a `typedef` is a delegate. -/
def rawPrototypes (code : Text) : List Raw :=
  ((prototypePattern.captures Pattern.wordStart code).filterMap Raw.ofCuts?).filter
    (·.returnType ≠ "typedef".toList)

def rawDelegates (code : Text) : List Raw :=
  (delegatePattern.captures Pattern.wordStart code).filterMap Raw.ofCuts?

def prototypes (code : Text) : Except ScanError (List Signature) := readAll (rawPrototypes code)

def delegates (code : Text) : Except ScanError (List Signature) := readAll (rawDelegates code)

end Signature

end HeaderApi
