import HeaderApi.Text.Basic

/-!
# Docstrings

What a doc block says about one symbol: a description, and tags.
-/

namespace HeaderApi

/-- A symbol, or a symbol of an owner. -/
structure QualifiedName where
  name : Text
  owner : Option Text
deriving DecidableEq

namespace QualifiedName

def bare (name : Text) : QualifiedName := ⟨name, none⟩

/-- The symbol under which the name is declared: the functions of an owner begin with its name. -/
def symbol : QualifiedName → Text
  | ⟨name, none⟩ => name
  | ⟨name, some owner⟩ => owner ++ "_".toList ++ name

def render : QualifiedName → Text
  | ⟨name, none⟩ => name
  | ⟨name, some owner⟩ => owner ++ "::".toList ++ name

end QualifiedName

/-- What kind of symbol a doc block describes. -/
inductive DocKind where
  | classType
  | enumType
  | delegate
  | constructor
  | destructor
  | initializer
  | getter
  | setter
  | method
deriving DecidableEq

namespace DocKind

def all : List DocKind :=
  [.classType, .enumType, .delegate, .constructor, .destructor, .initializer, .getter, .setter,
   .method]

def keyword : DocKind → Text
  | .classType => "class".toList
  | .enumType => "enum".toList
  | .delegate => "delegate".toList
  | .constructor => "constructor".toList
  | .destructor => "destructor".toList
  | .initializer => "initializer".toList
  | .getter => "getter".toList
  | .setter => "setter".toList
  | .method => "method".toList

def ofKeyword? (word : Text) : Option DocKind := all.find? (·.keyword == word)

theorem ofKeyword?_keyword (k : DocKind) : ofKeyword? k.keyword = some k := by
  cases k <;> decide

theorem keyword_of_ofKeyword? {word : Text} {k : DocKind} (h : ofKeyword? word = some k) :
    k.keyword = word := by
  simpa using List.find?_some h

end DocKind

structure ParamDoc where
  name : Text
  modifiers : List Text
  doc : Text
deriving DecidableEq

/-- A returned type; for a container also the type of what it contains. -/
structure ReturnDoc where
  type : Text
  containing : Option Text
deriving DecidableEq

/-- One tag of a doc block. -/
inductive Tag where
  | name (value : QualifiedName)
  | kind (value : DocKind)
  | param (value : ParamDoc)
  | raises (values : List Text)
  | see (values : List Text)
  | super (value : Text)
  | since (value : Text)
  | returns (value : ReturnDoc)
deriving DecidableEq

structure Docstring where
  description : Text := []
  name : Option QualifiedName := none
  kind : Option DocKind := none
  params : List ParamDoc := []
  raises : List Text := []
  see : List Text := []
  super : Option Text := none
  since : Option Text := none
  returns : Option ReturnDoc := none
deriving DecidableEq

namespace Docstring

/-- Parameters accumulate; any other tag takes the place of an earlier one of its kind. -/
def add (d : Docstring) : Tag → Docstring
  | .name v => { d with name := some v }
  | .kind v => { d with kind := some v }
  | .param v => { d with params := d.params ++ [v] }
  | .raises v => { d with raises := v }
  | .see v => { d with see := v }
  | .super v => { d with super := some v }
  | .since v => { d with since := some v }
  | .returns v => { d with returns := some v }

/-- The first entry for a parameter. -/
def param? (d : Docstring) (name : Text) : Option ParamDoc := d.params.find? (·.name == name)

end Docstring

end HeaderApi
