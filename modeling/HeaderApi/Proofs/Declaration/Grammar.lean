import HeaderApi.Declaration.Declarations
import HeaderApi.Proofs.Text.Parts
import HeaderApi.Proofs.Text.Word

/-!
# The grammar of declarations

The declarations that a header may hold, as they stand in normalized code.  A declaration carries
the proofs that its words are words and that nothing in it is taken for something else; `text` is
what it looks like.
-/

namespace HeaderApi.Grammar

open Text

/-! ## Words -/

def keywords : List Text := ["typedef".toList, "struct".toList, "enum".toList, "const".toList]

/-- A word of the characters that names of functions are made of. -/
structure LowerWord where
  text : Text
  ne_nil : text ≠ []
  lower : ∀ c ∈ text, isLowerName c = true

structure Name extends LowerWord where
  notKeyword : text ∉ keywords

/-- The tag of a struct with members.  It does not begin like an enum. -/
structure StructTag extends Name where
  notEnum : ¬ "enum".toList <+: text

/-- A tag and the space behind it. -/
def tagText (tag : Option Text) : Text := tag.elim [] (· ++ [' '])

/-- The stars of a pointer type behind a space. -/
def starsText (stars : Nat) : Text := if stars = 0 then [] else ' ' :: List.replicate stars '*'

/-! ## Parameters -/

inductive TypeWord where
  | const
  | name (n : Name)

def TypeWord.text : TypeWord → Text
  | .const => "const".toList
  | .name n => n.text

structure ParamType where
  words : List TypeWord
  ne_nil : words ≠ []
  stars : Nat

def ParamType.text (t : ParamType) : Text :=
  joinWith " ".toList (t.words.map TypeWord.text) ++ starsText t.stars

inductive Param where
  | variadic
  | named (type : ParamType) (name : LowerWord)

namespace Param

def text : Param → Text
  | .variadic => "...".toList
  | .named type name => type.text ++ ' ' :: name.text

def parameter : Param → Parameter
  | .variadic => .variadic
  | .named type name => .named { name := name.text, type := type.text }

end Param

def paramsText (ps : List Param) : Text :=
  if ps = [] then "void".toList else joinWith ", ".toList (ps.map Param.text)

/-! ## Returned types -/

structure ReturnType where
  isConst : Bool
  word : Name
  stars : Nat

def ReturnType.text (t : ReturnType) : Text :=
  (if t.isConst then "const ".toList else []) ++ t.word.text ++ starsText t.stars

/-! ## Members and enumerators -/

structure Members where
  text : Text
  semicolon : text.getLast? = some ';'
  plain : ∀ c ∈ "\x7b\x7d()".toList, c ∉ text
  noTypedef : ¬ "typedef".toList <:+: text

/-- The text of an enumerator. -/
def enumeratorText (name : Text) (init : Option Text) : Text :=
  name ++ init.elim [] (" = ".toList ++ ·)

structure Initializer where
  text : Text
  ne_nil : text ≠ []
  trimmed : Trimmed text
  plain : ∀ c ∈ ",;\x7b\x7d".toList, c ∉ text

structure Enumerator where
  name : Text
  ne_nil : name ≠ []
  word : ∀ c ∈ name, isWord c = true
  init : Option Initializer

namespace Enumerator

def text (e : Enumerator) : Text :=
  e.name ++ e.init.elim [] fun i => " = ".toList ++ i.text

/-- Whether the initializer shifts. -/
def shifts (e : Enumerator) : Bool := e.init.any fun i => has "<<".toList i.text

theorem text_eq (e : Enumerator) : e.text = enumeratorText e.name (e.init.map (·.text)) := by
  rw [text, enumeratorText]
  cases e.init <;> rfl

end Enumerator

/-! ## Declarations -/

inductive Decl where
  | forward (tag name : Name)
  | struct (tag : Option StructTag) (members : Members) (name : Name)
  | enum (isTypedef : Bool) (tag : Option Name) (entries : List Enumerator) (name : Name)
  | prototype (type : ReturnType) (name : Name) (params : List Param)
  /-- A constant type is returned by its address only. -/
  | delegate (type : ReturnType) (address : type.isConst = true → type.stars ≠ 0) (name : Name)
      (params : List Param)

/-! The texts of declarations, made of the texts of their parts. -/

def forwardText (tag name : Text) : Text :=
  "typedef struct ".toList ++ tag ++ " ".toList ++ name ++ "_t;".toList

def structText (tag : Option Text) (members name : Text) : Text :=
  "typedef struct ".toList ++ tagText tag ++ "\x7b ".toList ++ members ++ " \x7d ".toList ++ name ++
    "_t;".toList

def enumText (isTypedef : Bool) (tag : Option Text) (body name : Text) : Text :=
  (if isTypedef then "typedef ".toList else []) ++ "enum ".toList ++ tagText tag ++
    "\x7b ".toList ++ body ++ " \x7d ".toList ++ name ++ ";".toList

def prototypeText (type name params : Text) : Text :=
  type ++ " ".toList ++ name ++ " (".toList ++ params ++ ");".toList

def delegateText (type name params : Text) : Text :=
  "typedef ".toList ++ type ++ " (*".toList ++ name ++ ") (".toList ++ params ++ ");".toList

namespace Decl

def text : Decl → Text
  | .forward tag name => forwardText tag.text name.text
  | .struct tag members name => structText (tag.map (·.text)) members.text name.text
  | .enum isTypedef tag entries name =>
    enumText isTypedef (tag.map (·.text)) (joinWith ", ".toList (entries.map Enumerator.text))
      name.text
  | .prototype type name params => prototypeText type.text name.text (paramsText params)
  | .delegate type _ name params => delegateText type.text name.text (paramsText params)

/-- The name of a struct type that is declared. -/
def typeName? : Decl → Option Text
  | .forward _ name | .struct _ _ name => some (name.text ++ "_t".toList)
  | _ => none

/-- The enum that is declared.  If an initializer shifts, it is a set of flags, and only the names
of its enumerators are kept. -/
def enum? : Decl → Option Enum
  | .enum _ _ entries name =>
    let isFlags := entries.any Enumerator.shifts
    some { name := name.text, isFlags,
           entries := entries.map fun e => if isFlags then e.name else e.text }
  | _ => none

def prototype? : Decl → Option Signature
  | .prototype type name params => some ⟨name.text, type.text, params.map Param.parameter⟩
  | _ => none

def delegate? : Decl → Option Signature
  | .delegate type _ name params => some ⟨name.text, type.text, params.map Param.parameter⟩
  | _ => none

end Decl

/-! ## Characters -/

/-- Each character is one of a name or one of the marks. -/
def Over (marks t : Text) : Prop := ∀ c ∈ t, isLowerName c = true ∨ c ∈ marks

instance (marks t : Text) : Decidable (Over marks t) :=
  inferInstanceAs (Decidable (∀ c ∈ t, isLowerName c = true ∨ c ∈ marks))

variable {c : Char} {a b marks marks' : Text}

namespace Over

theorem append (ha : Over marks a) (hb : Over marks b) : Over marks (a ++ b) := fun c hc =>
  (List.mem_append.1 hc).elim (ha c) (hb c)

theorem mono (ha : Over marks a) (h : marks ⊆ marks') : Over marks' a := fun c hc =>
  (ha c hc).imp_right fun hc => h hc

theorem notMem (ha : Over marks a) (hc : ¬ (isLowerName c = true ∨ c ∈ marks)) : c ∉ a :=
  fun h => hc (ha c h)

theorem joinWith {items : List Text} (ha : Over marks a) (h : ∀ t ∈ items, Over marks t) :
    Over marks (Text.joinWith a items) := fun c hc => by
  rcases mem_of_mem_joinWith hc with hc | ⟨t, ht, hc⟩
  · exact ha c hc
  · exact h t ht c hc

end Over

namespace LowerWord

theorem isOver (w : LowerWord) (marks : Text) : Over marks w.text := fun c hc => .inl (w.lower c hc)

theorem notMem (w : LowerWord) (hc : isLowerName c = false) : c ∉ w.text :=
  fun h => absurd (w.lower c h) (by simp [hc])

theorem word (w : LowerWord) : ∀ c ∈ w.text, isWord c = true :=
  fun c hc => isWord_of_isLowerName (w.lower c hc)

end LowerWord

theorem over_starsText (stars : Nat) : Over " *".toList (starsText stars) := by
  rw [starsText]
  split
  next => exact fun _ h => absurd h List.not_mem_nil
  next =>
    intro c hc
    rcases List.mem_cons.1 hc with rfl | hc
    · exact .inr (by decide)
    · rw [List.eq_of_mem_replicate hc]
      exact .inr (by decide)

def TypeWord.lowerWord : TypeWord → LowerWord
  | .const => ⟨"const".toList, by decide, by decide⟩
  | .name n => n.toLowerWord

theorem TypeWord.text_lowerWord (w : TypeWord) : w.lowerWord.text = w.text := by cases w <;> rfl

theorem ParamType.over_text (t : ParamType) : Over " *".toList t.text := by
  refine Over.append (Over.joinWith (by decide) ?_) (over_starsText t.stars)
  rw [List.forall_mem_map]
  exact fun w _ => w.text_lowerWord ▸ w.lowerWord.isOver _

theorem Param.over_text (p : Param) : Over " *.".toList p.text := by
  cases p with
  | variadic => exact (by decide : Over " *.".toList "...".toList)
  | named type name =>
    have htype : Over " *.".toList type.text := type.over_text.mono (by decide)
    exact htype.append (.append (a := [' ']) (by decide) (name.isOver _))

theorem over_paramsText (ps : List Param) : Over " *.,".toList (paramsText ps) := by
  rw [paramsText]
  split
  next => decide
  next =>
    refine Over.joinWith (by decide) ?_
    rw [List.forall_mem_map]
    exact fun p _ => p.over_text.mono (by decide)

theorem notMem_paramsText (hc : ¬ (isLowerName c = true ∨ c ∈ " *.,".toList)) (ps : List Param) :
    c ∉ paramsText ps := (over_paramsText ps).notMem hc

theorem ReturnType.over_text (t : ReturnType) : Over " *".toList t.text := by
  refine Over.append (Over.append ?_ (t.word.isOver _)) (over_starsText t.stars)
  split
  next => decide
  next => exact fun _ h => absurd h List.not_mem_nil

end HeaderApi.Grammar
