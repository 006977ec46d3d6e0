import HeaderApi.ScanError
import HeaderApi.Text.Blank
import HeaderApi.Text.Word

/-!
# Parameters

A parameter is `...`, or a type and a name, where the name is the last word and follows a space or
an asterisk.  No parameter holds a parenthesis, so a parameter list can be split at its commas.
-/

namespace HeaderApi

structure NamedParameter where
  name : Text
  type : Text
  modifiers : List Text := []
  doc : Text := []
deriving DecidableEq

inductive Parameter where
  | variadic
  | named (p : NamedParameter)
deriving DecidableEq

namespace Parameter

def name? : Parameter → Option Text
  | .variadic => none
  | .named p => some p.name

/-- The parameter that a trimmed item stands for. -/
def read? (item : Text) : Option Parameter :=
  if item = "...".toList then some .variadic
  else if '(' ∈ item ∨ ')' ∈ item then none
  else
    let (head, name) := Text.splitLastWord item
    match head.getLast? with
    | some c =>
      if name ≠ [] ∧ (c = ' ' ∨ c = '*') ∧ head.dropLast ≠ [] ∧ '\n' ∉ head.dropLast then
        some (.named { name, type := Text.trim head })
      else none
    | none => none

/-- Reads the items of the parameter list `params`, up to the first one that is malformed. -/
def readItems (params : Text) : List Text → Except ScanError (List Parameter)
  | [] => .ok []
  | item :: items =>
    match read? item with
    | none => .error (.malformedParameter item params)
    | some p => (readItems params items).map (p :: ·)

/-- Reads a parameter list.  `void` alone stands for no parameters, and so does nothing at all. -/
def readList (params : Text) : Except ScanError (List Parameter) :=
  let t := Text.trim params
  if t = [] ∨ t = "void".toList then .ok [] else readItems t (Text.commaParts t)

end Parameter

end HeaderApi
