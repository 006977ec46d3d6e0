import HeaderApi.Declaration.Enum
import HeaderApi.Declaration.Parameter
import HeaderApi.Docstring.Basic
import HeaderApi.OrderedMap

/-!
# The model of a header

A module holds what one header declares, with what its doc blocks say: enums, struct types with the
functions that belong to them, free functions and delegates.
-/

namespace HeaderApi

/-- What documentation says about a symbol, apart from its name and parameters. -/
structure DocFields where
  description : Text := []
  raises : List Text := []
  see : List Text := []
  super : Option Text := none
  since : Option Text := none
  returns : Option ReturnDoc := none
deriving DecidableEq

def Docstring.fields (d : Docstring) : DocFields where
  description := d.description
  raises := d.raises
  see := d.see
  super := d.super
  since := d.since
  returns := d.returns

inductive FunctionKind where
  | constructor
  | destructor
  | initializer
  | getter
  | setter
  | method
deriving DecidableEq

namespace FunctionKind

/-- A function is a method unless its doc block names another kind of function. -/
def ofDoc : Option DocKind → FunctionKind
  | some .constructor => .constructor
  | some .destructor => .destructor
  | some .initializer => .initializer
  | some .getter => .getter
  | some .setter => .setter
  | _ => .method

def keyword : FunctionKind → Text
  | .constructor => DocKind.constructor.keyword
  | .destructor => DocKind.destructor.keyword
  | .initializer => DocKind.initializer.keyword
  | .getter => DocKind.getter.keyword
  | .setter => DocKind.setter.keyword
  | .method => DocKind.method.keyword

end FunctionKind

/-- A documented function.  `cname` is the name that the code declares. -/
structure FunctionEntry where
  name : QualifiedName
  cname : Text
  kind : FunctionKind
  returnType : Text
  params : List Parameter
  doc : DocFields
deriving DecidableEq

structure DelegateEntry where
  name : Text
  cname : Text
  returnType : Text
  params : List Parameter
  doc : DocFields
deriving DecidableEq

structure ClassEntry where
  cname : Text
  doc : DocFields := {}
  constructor : Option FunctionEntry := none
  destructor : Option FunctionEntry := none
  initializers : List FunctionEntry := []
  methods : List FunctionEntry := []
deriving DecidableEq

structure ApiModule where
  name : Text
  enums : List Enum := []
  types : OrderedMap Text ClassEntry := ∅
  functions : List FunctionEntry := []
  delegates : OrderedMap Text DelegateEntry := ∅
deriving DecidableEq

end HeaderApi
