import HeaderApi.Text.Quoted

/-!
# Diagnostics

What a scan reports without giving up.  Offsets are bytes of the header: where the comment begins
that the report is about.
-/

namespace HeaderApi

inductive Diagnostic where
  | unterminatedComment (offset : Nat)
  | unknownTag (tag : Text) (offset : Nat)
  | invalidTag (tag value : Text) (offset : Nat)
  | missingName (offset : Nat)
  | undocumentedFunction (name : Text)
  /-- The name is qualified by the module. -/
  | undocumentedDelegate (name : Text)
  | unknownParameter (symbol param : Text)
  | duplicateConstructor (owner previous current : Text)
  | duplicateDestructor (owner previous current : Text)
  | moduleCollision (moduleName : Text)
  | unusedDocstring (name : Text) (offset : Nat)
deriving DecidableEq

namespace Diagnostic

/-- The comment that a diagnostic is about. -/
def offset? : Diagnostic → Option Nat
  | .unterminatedComment o | .unknownTag _ o | .invalidTag _ _ o | .missingName o
  | .unusedDocstring _ o => some o
  | _ => none

def message : Diagnostic → Text
  | .unterminatedComment o =>
    "unterminated comment at byte ".toList ++ Text.decimal o ++ ", truncated".toList
  | .unknownTag tag o =>
    "unknown tag @".toList ++ tag ++ " in doc block at byte ".toList ++ Text.decimal o
  | .invalidTag tag value o =>
    "invalid value for @".toList ++ tag ++ " in doc block at byte ".toList ++ Text.decimal o ++
      ": ".toList ++ Text.quoted value
  | .missingName o =>
    "doc block at byte ".toList ++ Text.decimal o ++ " has no @name, ignored".toList
  | .undocumentedFunction name =>
    "refusing to add function ".toList ++ name ++ " without a docstring".toList
  | .undocumentedDelegate name =>
    "refusing to add delegate ".toList ++ name ++ " without a docstring".toList
  | .unknownParameter symbol param =>
    symbol ++ " documents unknown parameter ".toList ++ param
  | .duplicateConstructor owner previous current =>
    owner ++ " already has constructor ".toList ++ previous ++ ", replaced by ".toList ++ current
  | .duplicateDestructor owner previous current =>
    owner ++ " already has destructor ".toList ++ previous ++ ", replaced by ".toList ++ current
  | .moduleCollision name =>
    "module ".toList ++ name ++ " scanned twice, keeping the last one".toList
  | .unusedDocstring name o =>
    "doc block ".toList ++ name ++ " at byte ".toList ++ Text.decimal o ++
      " matches no declaration".toList

end Diagnostic

end HeaderApi
