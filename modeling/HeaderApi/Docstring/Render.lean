import HeaderApi.Docstring.Basic
import HeaderApi.Text.Line

/-! # Writing doc blocks -/

namespace HeaderApi

namespace ParamDoc

def render (p : ParamDoc) : Text :=
  p.name ++
    (if p.modifiers = [] then [] else
      " (".toList ++ Text.joinWith ", ".toList p.modifiers ++ ")".toList) ++
    (if p.doc = [] then [] else ": ".toList ++ p.doc)

end ParamDoc

namespace ReturnDoc

def render : ReturnDoc → Text
  | ⟨type, none⟩ => type
  | ⟨type, some contained⟩ => type ++ " (".toList ++ contained ++ ")".toList

end ReturnDoc

namespace Docstring

def tagLine (key value : Text) : Text := "@".toList ++ key ++ ": ".toList ++ value

def listLine (key : Text) (values : List Text) : List Text :=
  if values = [] then [] else [tagLine key (Text.joinWith ", ".toList values)]

/-- The tags of a docstring, a line each. -/
def tagLines (d : Docstring) : List Text :=
  (d.name.map fun n => tagLine "name".toList n.render).toList ++
  (d.kind.map fun k => tagLine "type".toList k.keyword).toList ++
  (d.params.map fun p => tagLine "param".toList p.render) ++
  listLine "raise".toList d.raises ++
  listLine "see".toList d.see ++
  (d.super.map (tagLine "super".toList)).toList ++
  (d.since.map (tagLine "since".toList)).toList ++
  (d.returns.map fun r => tagLine "return".toList r.render).toList

/-- The description behind a blank line. -/
def descriptionLines (d : Docstring) : List Text :=
  if d.description = [] then [] else [] :: Text.lines d.description

/-- A line with the border that doc blocks have on their left. -/
def bordered (line : Text) : Text :=
  (if line = [] then " *".toList else " * ".toList ++ line) ++ "\n".toList

/-- The inner text of a doc block that says what `d` says. -/
def render (d : Docstring) : Text :=
  "\n".toList ++ (d.tagLines ++ d.descriptionLines).flatMap bordered ++ " ".toList

end Docstring

end HeaderApi
