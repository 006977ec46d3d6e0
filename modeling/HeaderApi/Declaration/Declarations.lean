import HeaderApi.Declaration.Enum
import HeaderApi.Declaration.Signature
import HeaderApi.Declaration.StructType

/-! # All that code declares -/

namespace HeaderApi

/-- The name of a type without its suffix `_t`. -/
def withoutSuffix (cname : Text) : Text := (Text.before? "_t".toList cname).getD cname

theorem withoutSuffix_append (base : Text) : withoutSuffix (base ++ "_t".toList) = base := by
  rw [withoutSuffix, Text.before?_eq_some_iff.2 rfl]
  rfl

/-- What code declares, by kind and in order. -/
structure Declarations where
  enums : List Enum
  types : List Text
  functions : List Signature
  delegates : List Signature
deriving DecidableEq

namespace Declarations

/-- Finds the declarations in normalized code.  A malformed prototype counts before a malformed
delegate, wherever the two stand. -/
def ofCode (code : Text) : Except ScanError Declarations := do
  let functions ← Signature.prototypes code
  let delegates ← Signature.delegates code
  pure { enums := Enum.all code, types := StructType.names code, functions, delegates }

end Declarations

end HeaderApi
