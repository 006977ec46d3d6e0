import HeaderApi.Diagnostic
import HeaderApi.Docstring.Basic
import HeaderApi.Text.Blank

/-! # Reading tags -/

namespace HeaderApi

namespace QualifiedName

/-- Reads `owner::name` or `name`. -/
def read (value : Text) : QualifiedName :=
  match Text.cutAt "::".toList (Text.trim value) with
  | some (owner, name) => ⟨Text.trim name, some (Text.trim owner)⟩
  | none => bare (Text.trim value)

end QualifiedName

/-- What stands behind the first opening parenthesis, all closing ones dropped. -/
def withoutClosing (inner : Text) : Text := inner.filter (· ≠ ')')

namespace ParamDoc

/-- Reads `name (modifier, ...): doc`, where the modifiers and the doc may be missing. -/
def read (value : Text) : ParamDoc :=
  let (head, doc) := (Text.cutAt ":".toList value).getD (value, [])
  match Text.cutAt "(".toList head with
  | some (name, inner) => ⟨Text.trim name, Text.commaItems (withoutClosing inner), Text.trim doc⟩
  | none => ⟨Text.trim head, [], Text.trim doc⟩

end ParamDoc

namespace ReturnDoc

/-- Reads `type (contained)` or `type`. -/
def read (value : Text) : ReturnDoc :=
  match Text.cutAt "(".toList value with
  | some (type, inner) =>
    let contained := Text.trim (withoutClosing inner)
    ⟨Text.trim type, if contained = [] then none else some contained⟩
  | none => ⟨Text.trim value, none⟩

end ReturnDoc

namespace Tag

/-- The keys of tags. -/
inductive Key where
  | name
  | type
  | param
  | raises
  | see
  | super
  | since
  | returns
deriving DecidableEq

/-- The spellings of keys. -/
def Key.spellings : List (Text × Key) :=
  [("name".toList, .name), ("type".toList, .type), ("param".toList, .param),
   ("raise".toList, .raises), ("raises".toList, .raises), ("see".toList, .see),
   ("super".toList, .super), ("since".toList, .since), ("return".toList, .returns),
   ("returns".toList, .returns)]

def Key.ofText? (key : Text) : Option Key := Key.spellings.lookup key

/-- Reads the tag `@key: value` of the doc block at byte `offset`. -/
def read (offset : Nat) (key value : Text) : Except Diagnostic Tag :=
  match Key.ofText? key with
  | none => .error (.unknownTag key offset)
  | some .name => .ok (.name (.read value))
  | some .type =>
    match DocKind.ofKeyword? (Text.trim value) with
    | some k => .ok (.kind k)
    | none => .error (.invalidTag key (Text.trim value) offset)
  | some .param => .ok (.param (.read value))
  | some .raises => .ok (.raises (Text.commaItems value))
  | some .see => .ok (.see (Text.commaItems value))
  | some .super => .ok (.super (Text.trim value))
  | some .since => .ok (.since (Text.trim value))
  | some .returns => .ok (.returns (.read value))

end Tag

end HeaderApi
