import HeaderApi.Declaration.Lexicon
import HeaderApi.Text.Blank

/-!
# Enums

An enum is `typedef enum tag { ... } name;`, where `typedef` and the tag may be missing.  It is a
set of flags when one of its initializers shifts.
-/

namespace HeaderApi

structure Enum where
  name : Text
  isFlags : Bool
  entries : List Text
deriving DecidableEq

namespace Enum

open Declaration

def pattern : Pattern :=
  .seq [.optional "typedef ", "enum", gap, tag, "\x7b", .capture braced, "\x7d", gap, .capture word,
    gap, ";"]

/-- An enumerator without its initializer. -/
def bareEntry (entry : Text) : Text := Text.trim (entry.takeWhile (· ≠ '='))

/-- The enum with a given name and text between the braces.  Flags are listed without their
initializers. -/
def ofBody (name body : Text) : Enum :=
  let isFlags := Text.has "<<".toList body
  let entries := Text.commaItems body
  { name, isFlags, entries := if isFlags then entries.map bareEntry else entries }

/-- The enums in code, in order. -/
def all (code : Text) : List Enum :=
  (pattern.captures Pattern.wordStart code).filterMap fun
    | [body, name] => some (ofBody name.text body.text)
    | _ => none

end Enum

end HeaderApi
