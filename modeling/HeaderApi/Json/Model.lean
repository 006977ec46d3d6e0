import HeaderApi.Json.Basic
import HeaderApi.Model

/-!
# The model as JSON

Objects have their fields in a fixed order.  Fields that hold nothing are left out, apart from a few
that are always there.
-/

namespace HeaderApi

namespace Json

def strs (texts : List Text) : Json := .arr (texts.map .str)

def field (key : String) (value : Json) : List (Text × Json) := [(key.toList, value)]

def optField (key : String) (value : Option Text) : List (Text × Json) :=
  (value.map fun t => (key.toList, .str t)).toList

/-- A list that is left out when it is empty. -/
def listField (key : String) (items : List Json) : List (Text × Json) :=
  if items.isEmpty then [] else field key (.arr items)

/-- A map as an object, in the order of its keys. -/
def ofMap {β : Type} (encode : β → Json) (m : OrderedMap Text β) : Json :=
  .obj (m.entries.map fun (k, v) => (k, encode v))

end Json

open Json

def QualifiedName.toJson (n : QualifiedName) : Json :=
  .obj (field "name" (.str n.name) ++ optField "class" n.owner)

def ReturnDoc.toJson (r : ReturnDoc) : Json :=
  .obj (field "type" (.str r.type) ++ optField "containing" r.containing)

def Parameter.toJson : Parameter → Json
  | .variadic => .obj (field "variadic" (.bool true))
  | .named p =>
    .obj (field "name" (.str p.name) ++ field "type" (.str p.type) ++
      listField "modifiers" (p.modifiers.map .str) ++
      optField "doc" (if p.doc = [] then none else some p.doc))

def Enum.toJson (e : Enum) : Json :=
  .obj (field "name" (.str e.name) ++ field "isflags" (.bool e.isFlags) ++
    field "entries" (strs e.entries))

def DocFields.toFields (d : DocFields) : List (Text × Json) :=
  field "description" (.str d.description) ++ listField "raise" (d.raises.map .str) ++
    listField "see" (d.see.map .str) ++ optField "super" d.super ++ optField "since" d.since ++
    (d.returns.map fun r => ("return".toList, r.toJson)).toList

def FunctionEntry.toJson (f : FunctionEntry) : Json :=
  .obj (field "name" f.name.toJson ++ field "cname" (.str f.cname) ++
    field "type" (.str f.kind.keyword) ++ field "rtype" (.str f.returnType) ++
    field "params" (.arr (f.params.map Parameter.toJson)) ++ f.doc.toFields)

def DelegateEntry.toJson (d : DelegateEntry) : Json :=
  .obj (field "name" (.str d.name) ++ field "cname" (.str d.cname) ++
    field "rtype" (.str d.returnType) ++ field "params" (.arr (d.params.map Parameter.toJson)) ++
    d.doc.toFields)

def ClassEntry.toJson (c : ClassEntry) : Json :=
  .obj (field "cname" (.str c.cname) ++ c.doc.toFields ++
    (c.constructor.map fun f => ("constructor".toList, f.toJson)).toList ++
    (c.destructor.map fun f => ("destructor".toList, f.toJson)).toList ++
    listField "initializers" (c.initializers.map FunctionEntry.toJson) ++
    field "methods" (.arr (c.methods.map FunctionEntry.toJson)))

def ApiModule.toJson (m : ApiModule) : Json :=
  .obj (field "name" (.str m.name) ++ field "enums" (.arr (m.enums.map Enum.toJson)) ++
    field "types" (ofMap ClassEntry.toJson m.types) ++
    field "functions" (.arr (m.functions.map FunctionEntry.toJson)) ++
    field "delegates" (ofMap DelegateEntry.toJson m.delegates))

/-- The modules of headers as JSON text. -/
def renderModules (indent : Int) (modules : OrderedMap Text ApiModule) : Text :=
  (ofMap ApiModule.toJson modules).render indent

end HeaderApi
