import HeaderApi.Proofs.Code
import HeaderApi.Proofs.Comment
import HeaderApi.Proofs.Declaration.Recognition
import HeaderApi.Proofs.Declaration.Spacing
import HeaderApi.Proofs.Docstring.Stability
import HeaderApi.Scan.Module

/-!
# Documented declarations

A header as it may be written out: struct types and functions, each behind a doc block that names
it.  `text` is the header; its code is the declarations, and its doc blocks are the rendered
docstrings.
-/

namespace HeaderApi

open Grammar Text

/-- A docstring that a doc block can hold without loss.  It is what reading a doc block gives. -/
structure Docstring.Faithful (d : Docstring) : Prop where
  reread : ∃ offset, (parse offset d.render).1 = d
  noClose : ¬ "*/".toList <:+: d.render

/-- It is read again from every place, and nothing is reported. -/
theorem Docstring.Faithful.parse_render {d : Docstring} (h : d.Faithful) (offset : Nat) :
    parse offset d.render = (d, []) := by
  obtain ⟨o, hread⟩ := h.reread
  have hprose := prose_paragraphs d.render
  have hdescription := description_parse o d.render
  have htags : ∀ tag ∈ (parse o d.render).1.tags, tag.Writable := fun _ => mem_tags_parse
  rw [hread] at hdescription htags
  rw [Docstring.parse_render hprose hdescription htags] at hread ⊢
  rw [show d.reread = d from hread]

namespace Header

/-- A struct type that is declared forward. -/
structure TypeItem where
  tag : Name
  name : Name
  doc : Docstring
  faithful : doc.Faithful
  named : doc.name = some (.bare name.text)

/-- A function, free or of a class, whose declared name is the symbol of its documented name. -/
structure FunctionItem where
  type : ReturnType
  cname : Name
  params : List Param
  name : QualifiedName
  doc : Docstring
  faithful : doc.Faithful
  named : doc.name = some name
  symbol : name.symbol = cname.text
  notReserved : name.owner.isSome → name.name ≠ ApiModule.reservedMethod

inductive Item where
  | type (t : TypeItem)
  | function (f : FunctionItem)

namespace Item

def type? : Item → Option TypeItem
  | .type t => some t
  | .function _ => none

def function? : Item → Option FunctionItem
  | .type _ => none
  | .function f => some f

/-- The symbol that is declared. -/
def key : Item → Text
  | .type t => t.name.text
  | .function f => f.cname.text

/-- What the documentation calls it. -/
def name : Item → QualifiedName
  | .type t => .bare t.name.text
  | .function f => f.name

def doc : Item → Docstring
  | .type t => t.doc
  | .function f => f.doc

def decl : Item → Decl
  | .type t => .forward t.tag t.name
  | .function f => .prototype f.type f.cname f.params

/-- The doc block and the declaration, each on its own line. -/
def text (i : Item) : Text := docComment i.doc.render ++ "\n".toList ++ i.decl.text ++ "\n".toList

end Item

def text (items : List Item) : Text := items.flatMap Item.text

def types (items : List Item) : List TypeItem := items.filterMap Item.type?

def functions (items : List Item) : List FunctionItem := items.filterMap Item.function?

/-! ## Items -/

variable (i : Item) (items : List Item)

namespace Item

theorem faithful : i.doc.Faithful := by
  cases i with
  | type t => exact t.faithful
  | function f => exact f.faithful

theorem named : i.doc.name = some i.name := by
  cases i with
  | type t => exact t.named
  | function f => exact f.named

theorem symbol_name : i.name.symbol = i.key := by
  cases i with
  | type t => rfl
  | function f => exact f.symbol

theorem over_text_decl : Over " *.,();".toList i.decl.text := by
  cases i with
  | type t => exact (Decl.over_text_forward t.tag t.name).mono (by decide)
  | function f => exact Decl.over_text_prototype f.type f.cname f.params

theorem neat_text_decl : i.decl.text ≠ [] ∧ Neat i.decl.text := by
  refine ⟨fun h => by simpa [h] using i.decl.text_semicolon, ?_⟩
  cases i with
  | type t => exact Decl.neat_text_forward t.tag t.name
  | function f => exact Decl.neat_text_prototype f.type f.cname f.params

end Item

/-! ## Comments and code of a header -/

theorem text_cons : text (i :: items) =
    docComment i.doc.render ++ (("\n".toList ++ i.decl.text ++ "\n".toList) ++ text items) := by
  simp [text, Item.text]

theorem pieces_text : pieces (text items) = items.flatMap fun i =>
    .comment (.block true i.doc.render true) ::
      ("\n".toList ++ i.decl.text ++ "\n".toList).map .char := by
  induction items with
  | nil => simp [text, pieces]
  | cons i items ih =>
    have hslash : '/' ∉ "\n".toList ++ i.decl.text ++ "\n".toList := by
      have := i.over_text_decl.notMem (c := '/') (by decide)
      simpa using this
    rw [text_cons, pieces_docComment (by simp [Docstring.render]) i.faithful.noClose,
      pieces_append hslash, ih]
    rfl

/-- The comments of a header are its doc blocks. -/
theorem comments_text : (pieces (text items)).filterMap Piece.comment? =
    items.map fun i => .block true i.doc.render true := by
  have hchars : ∀ x : Text, (x.map Piece.char).filterMap Piece.comment? = [] := fun x => by
    rw [List.filterMap_map, List.filterMap_eq_nil_iff]
    exact fun _ _ => rfl
  rw [pieces_text]
  induction items with
  | nil => rfl
  | cons i items ih =>
    rw [List.flatMap_cons, List.filterMap_append, ih, List.filterMap_cons, hchars]
    rfl

theorem docBlocks_text :
    (docBlocks (text items)).map DocBlock.text = items.map fun i => i.doc.render := by
  rw [map_text_docBlocks, comments_text, List.filterMap_map]
  exact congrFun List.filterMap_eq_map items

theorem unclosedComments_text : unclosedComments (text items) = [] := by
  refine unclosedComments_eq_nil fun k hk => ?_
  rw [comments_text] at hk
  obtain ⟨i, -, rfl⟩ := List.mem_map.1 hk
  exact ⟨_, rfl⟩

theorem stripComments_text :
    stripComments (text items) = (items.map fun i => i.decl.text).flatMap onLine := by
  rw [stripComments, pieces_text, List.map_flatMap, List.flatMap_map]
  refine List.flatMap_congr fun i _ => ?_
  rw [List.map_cons, List.map_map, show Piece.code ∘ Piece.char = id from rfl, List.map_id]
  rfl

/-- The code of a header is its declarations. -/
theorem codeOf_text : codeOf (text items) = codeText (items.map Item.decl) := by
  have hdecl : ∀ t ∈ items.map fun i => i.decl.text, t ≠ [] ∧ Neat t := by
    rw [List.forall_mem_map]
    exact fun i _ => i.neat_text_decl
  have hhash : '#' ∉ (items.map fun i => i.decl.text).flatMap onLine := by
    rw [List.mem_flatMap]
    rintro ⟨t, ht, hc⟩
    obtain ⟨i, -, rfl⟩ := List.mem_map.1 ht
    have := i.over_text_decl.notMem (c := '#') (by decide)
    simp [onLine, this] at hc
  rw [codeOf, stripComments_text, stripDirectives_of_notMem hhash, squeeze_flatMap_onLine hdecl,
    codeText, List.map_map]
  rfl

end Header

end HeaderApi
