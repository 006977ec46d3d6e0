import Mathlib.Data.Option.Basic
import HeaderApi.Proofs.Declaration.Parameter
import HeaderApi.Proofs.Declaration.Separation

/-!
# Code of the grammar is read as it was written

Each declaration of the grammar is closed, so it is read on its own, wherever it stands, and on its
own it is found by the pattern of its kind only.
-/

namespace HeaderApi.Grammar

open Declaration Pattern Text

/-- Declarations as normalized code holds them. -/
def codeText (ds : List Decl) : Text := joinWith " ".toList (ds.map Decl.text)

namespace Decl

variable (d : Decl)

/-! ## What is found, before parameters are read -/

def rawPrototype? : Decl → Option Signature.Raw
  | .prototype type name params => some ⟨name.text, type.text, paramsText params⟩
  | _ => none

def rawDelegate? : Decl → Option Signature.Raw
  | .delegate type _ name params => some ⟨name.text, type.text, paramsText params⟩
  | _ => none

/-! ## Characters of the parts -/

theorem over_signature (type : ReturnType) (name : Name) (params : List Param) :
    Over " *.,()".toList
      (type.text ++ " ".toList ++ name.text ++ " (".toList ++ paramsText params) := by
  have htype : Over " *.,()".toList type.text := type.over_text.mono (by decide)
  have hparams : Over " *.,()".toList (paramsText params) :=
    (over_paramsText params).mono (by decide)
  exact (((htype.append (by decide)).append (name.isOver _)).append (by decide)).append hparams

theorem over_delegate (type : ReturnType) (name : Name) (params : List Param) :
    Over " *.,()".toList
      ("typedef ".toList ++ type.text ++ " (*".toList ++ name.text ++ ") (".toList ++
        paramsText params) := by
  have htypedef : Over " *.,()".toList "typedef ".toList := by decide
  have htype : Over " *.,()".toList type.text := type.over_text.mono (by decide)
  have hparams : Over " *.,()".toList (paramsText params) :=
    (over_paramsText params).mono (by decide)
  exact ((((htypedef.append htype).append (by decide)).append (name.isOver _)).append
    (by decide)).append hparams

theorem over_text_forward (tag name : Name) : Over " ;".toList (forward tag name).text := by
  have hfront : Over " ;".toList "typedef struct ".toList := by decide
  have hblank : Over " ;".toList " ".toList := by decide
  have hnames := ((hfront.append (tag.isOver _)).append hblank).append (name.isOver _)
  exact hnames.append (by decide)

theorem over_text_prototype (type : ReturnType) (name : Name) (params : List Param) :
    Over " *.,();".toList (prototype type name params).text :=
  ((over_signature type name params).mono (by decide)).append (by decide)

theorem over_text_delegate (type : ReturnType) (address : type.isConst = true → type.stars ≠ 0)
    (name : Name) (params : List Param) :
    Over " *.,();".toList (delegate type address name params).text :=
  ((over_delegate type name params).mono (by decide)).append (by decide)

theorem notMem_entries {c : Char} (entries : List Enumerator) (hc : c ∈ ";\x7b\x7d".toList) :
    c ∉ joinWith ", ".toList (entries.map Enumerator.text) := by
  have hgap : ∀ c ∈ ";\x7b\x7d".toList, c ∉ ", ".toList := by decide
  have hplain : ";\x7b\x7d".toList ⊆ ",;\x7b\x7d".toList := by decide
  exact notMem_joinWith (hgap c hc)
    (List.forall_mem_map.2 fun e _ => Enum.notMem_text_of_plain e (hplain hc))

/-! ## Each declaration by itself -/

theorem wordOf (n : Name) : n.text ≠ [] ∧ ∀ c ∈ n.text, isWord c = true := ⟨n.ne_nil, n.word⟩

theorem words_tag (tag : Option Name) :
    ∀ w ∈ tag.map (·.text), w ≠ [] ∧ ∀ c ∈ w, isWord c = true :=
  Option.forall_mem_map.2 fun n _ => wordOf n

theorem nameCuts_text : (StructType.nameCuts d.text).map Cut.text = d.typeName?.toList := by
  cases d with
  | forward tag name => exact StructType.names_forwardText (wordOf tag) (wordOf name)
  | struct tag members name =>
    exact StructType.names_structText (Option.forall_mem_map.2 fun tag _ => wordOf tag.toName)
      ⟨members.plain _ (by decide), members.plain _ (by decide)⟩ members.noTypedef (wordOf name)
  | enum isTypedef tag entries name =>
    exact StructType.names_enumText isTypedef (words_tag tag) (fun _ => notMem_entries entries)
      name.word
  | prototype type name params =>
    have h := over_signature type name params
    exact StructType.names_signature (h.notMem (by decide)) (h.notMem (by decide))
  | delegate type _ name params =>
    have h := over_delegate type name params
    exact StructType.names_signature (h.notMem (by decide)) (h.notMem (by decide))

theorem all_text : Enum.all d.text = d.enum?.toList := by
  cases d with
  | forward tag name =>
    exact Enum.all_of_notMem ((over_text_forward tag name).notMem (by decide))
  | struct tag members name =>
    exact Enum.all_structText (members.plain _ (by decide)) name.word
      (Option.forall_mem_map.2 fun tag _ => ⟨tag.notEnum, tag.word⟩)
  | enum isTypedef tag entries name =>
    have hbody := fun c => notMem_entries (c := c) entries
    rw [text, Enum.all_enumText isTypedef (words_tag tag)
      ⟨hbody _ (by decide), hbody _ (by decide)⟩ (wordOf name), Enum.ofBody_entries]
    rfl
  | prototype type name params =>
    exact Enum.all_of_notMem ((over_text_prototype type name params).notMem (by decide))
  | delegate type address name params =>
    exact Enum.all_of_notMem ((over_text_delegate type address name params).notMem (by decide))

theorem raw_text : Signature.rawPrototypes d.text = d.rawPrototype?.toList ∧
    Signature.rawDelegates d.text = d.rawDelegate?.toList := by
  cases d with
  | forward tag name =>
    exact Signature.raw_eq_nil_of_notMem ((over_text_forward tag name).notMem (by decide))
  | struct tag members name =>
    refine Signature.raw_eq_nil_of_notMem ?_
    have hmembers := members.plain '(' (by decide)
    have htag : '(' ∉ tagText (tag.map (·.text)) := by
      cases tag with
      | none => simp [tagText]
      | some tag => simp [tagText, tag.notMem, isLowerName]
    simp [text, Enum.structText_eq, htag, hmembers, name.notMem, isLowerName]
  | enum isTypedef tag entries name =>
    have hfront := (Enum.opening_frontText isTypedef (words_tag tag)).notMem_of_avoids
      (c := ';') (by decide) (by decide)
    have hbody := notMem_entries (c := ';') entries (by decide)
    have htext : (enum isTypedef tag entries name).text =
        (Enum.frontText isTypedef (tag.map (·.text)) ++ '\x7b' ::
          (' ' :: joinWith ", ".toList (entries.map Enumerator.text) ++ " \x7d ".toList) ++
          name.text) ++ [';'] := by
      rw [text, Enum.enumText_eq]
      simp
    rw [htext]
    refine Signature.raw_eq_nil_of_last ?_ ?_
    · generalize joinWith ", ".toList (entries.map Enumerator.text) = body at hbody
      simp [hfront, hbody, name.notMem, isLowerName]
    · rw [List.getLast?_append_of_ne_nil _ name.ne_nil]
      exact fun c hc => name.word c (List.mem_of_getLast? hc)
  | prototype type name params =>
    exact ⟨Signature.rawPrototypes_prototype type name params,
      Signature.rawDelegates_prototype type name params⟩
  | delegate type address name params =>
    exact ⟨Signature.rawPrototypes_delegate type address name params,
      Signature.rawDelegates_delegate type name params⟩

/-! ## Declarations are closed -/

theorem lastBrace?_of_notMem {t : Text} (ht : '\x7b' ∉ t) : lastBrace? t ≠ some '\x7b' := fun h =>
  ht (List.mem_of_mem_filter (List.mem_of_getLast? h))

theorem lastBrace?_append_close {rest : Text} (hrest : '\x7b' ∉ rest) (front : Text) :
    lastBrace? (front ++ '\x7d' :: rest) ≠ some '\x7b' := by
  have hclose : '\x7b' ∉ '\x7d' :: rest := by simpa using hrest
  have hne : ('\x7d' :: rest).filter isBrace ≠ [] := by simp [isBrace]
  rw [lastBrace?, List.filter_append, List.getLast?_append_of_ne_nil _ hne]
  exact lastBrace?_of_notMem hclose

theorem text_semicolon : d.text.getLast? = some ';' := by
  have hlast : ∀ (front : Text) {tail : Text}, tail.getLast? = some ';' →
      (front ++ tail).getLast? = some ';' := fun front tail h => by
    rw [List.getLast?_append, h, Option.some_or]
  cases d with
  | forward | struct | enum | prototype | delegate => exact hlast _ (by decide)

theorem closed_text : Closed d.text := by
  refine ⟨d.text_semicolon, ?_⟩
  cases d with
  | forward tag name =>
    exact lastBrace?_of_notMem ((over_text_forward tag name).notMem (by decide))
  | struct tag members name =>
    rw [text, Enum.structText_eq, List.append_cons, ← List.append_assoc]
    refine lastBrace?_append_close ?_ _
    simp [name.notMem, isLowerName]
  | enum isTypedef tag entries name =>
    rw [text, Enum.enumText_eq, List.append_cons, ← List.append_assoc]
    refine lastBrace?_append_close ?_ _
    simp [name.notMem, isLowerName]
  | prototype type name params =>
    exact lastBrace?_of_notMem ((over_text_prototype type name params).notMem (by decide))
  | delegate type address name params =>
    exact lastBrace?_of_notMem ((over_text_delegate type address name params).notMem (by decide))

end Decl

/-! ## All declarations -/

section

variable (ds : List Decl)

/-- What is read from each closed text by itself, and does not look at the space in front of the
next one, is read from code declaration by declaration. -/
theorem read_codeText {α : Type} {f : Text → List α} {g : Decl → Option α} (hnil : f [] = [])
    (hspace : ∀ y, f (' ' :: y) = f y)
    (happend : ∀ x, x = [] ∨ Closed x → ∀ y, f (x ++ y) = f x ++ f y)
    (htext : ∀ d : Decl, f d.text = (g d).toList) : f (codeText ds) = ds.filterMap g := by
  induction ds with
  | nil => exact hnil
  | cons d ds ih =>
    have hfilter : (d :: ds).filterMap g = (g d).toList ++ ds.filterMap g := by
      rw [List.filterMap_cons]
      cases g d <;> rfl
    rw [hfilter, ← ih, ← htext]
    by_cases hds : ds = []
    · subst hds
      rw [show codeText [] = [] from rfl, hnil, List.append_nil]
      exact congrArg f (joinWith_singleton _ _)
    · have hcode : codeText (d :: ds) = d.text ++ ' ' :: codeText ds := by
        rw [codeText, List.map_cons, joinWith_cons _ _ (by simpa using hds)]
        simp [codeText]
      rw [hcode, happend _ (.inr d.closed_text), hspace]

theorem captures_space {p : Pattern} (hp : p.opensWith ' ' = false) (hp' : p.nullable = false)
    (t : Text) : p.captures wordStart (' ' :: t) = p.captures wordStart t :=
  captures_cons (by decide) hp hp' t

theorem all_codeText : Enum.all (codeText ds) = ds.filterMap Decl.enum? := by
  refine read_codeText ds ?_ (fun y => ?_) (fun x => Enum.all_append) Decl.all_text
  · rw [Enum.all, captures_nil, List.filterMap_nil]
  · rw [Enum.all, captures_space (by decide) (by decide), Enum.all]

theorem rawPrototypes_codeText :
    Signature.rawPrototypes (codeText ds) = ds.filterMap Decl.rawPrototype? := by
  refine read_codeText ds ?_ (fun y => ?_)
    (fun x hx => Signature.rawPrototypes_append (hx.imp_right Closed.semicolon))
    fun d => d.raw_text.1
  · rw [Signature.rawPrototypes, captures_nil, List.filterMap_nil, List.filter_nil]
  · rw [Signature.rawPrototypes, captures_space (by decide) (by decide), Signature.rawPrototypes]

theorem rawDelegates_codeText :
    Signature.rawDelegates (codeText ds) = ds.filterMap Decl.rawDelegate? := by
  refine read_codeText ds ?_ (fun y => ?_)
    (fun x hx => Signature.rawDelegates_append (hx.imp_right Closed.semicolon))
    fun d => d.raw_text.2
  · rw [Signature.rawDelegates, captures_nil, List.filterMap_nil]
  · rw [Signature.rawDelegates, captures_space (by decide) (by decide), Signature.rawDelegates]

theorem nameCuts_codeText :
    (StructType.nameCuts (codeText ds)).map Cut.text = ds.filterMap Decl.typeName? := by
  refine read_codeText (f := fun t => (StructType.nameCuts t).map Cut.text) ds ?_ (fun y => ?_)
    (fun x hx y => ?_) Decl.nameCuts_text
  · simp [StructType.nameCuts, StructType.namesBy]
  · rw [StructType.nameCuts, StructType.namesBy, StructType.namesBy,
      captures_space (by decide) (by decide), captures_space (by decide) (by decide)]
    rfl
  · simp [StructType.nameCuts_append hx y, Function.comp_def]

/-- The parameters of the grammar are read. -/
theorem readAll_raw {raw? : Decl → Option Signature.Raw} {signature? : Decl → Option Signature}
    (h : ∀ d : Decl, (raw? d = none ∧ signature? d = none) ∨
      ∃ name type params, raw? d = some ⟨name, type, paramsText params⟩ ∧
        signature? d = some ⟨name, type, params.map Param.parameter⟩) :
    Signature.readAll (ds.filterMap raw?) = .ok (ds.filterMap signature?) := by
  induction ds with
  | nil => rfl
  | cons d ds ih =>
    rcases h d with ⟨hraw, hsig⟩ | ⟨name, type, params, hraw, hsig⟩
    · rw [List.filterMap_cons_none hraw, List.filterMap_cons_none hsig, ih]
    · rw [List.filterMap_cons_some hraw, List.filterMap_cons_some hsig, Signature.readAll,
        Signature.Raw.read, readList_paramsText, ih]
      rfl

theorem prototypes_codeText :
    Signature.prototypes (codeText ds) = .ok (ds.filterMap Decl.prototype?) := by
  rw [Signature.prototypes, rawPrototypes_codeText]
  refine readAll_raw ds fun d => ?_
  cases d with
  | prototype type name params => exact .inr ⟨_, _, params, rfl, rfl⟩
  | forward | struct | enum | delegate => exact .inl ⟨rfl, rfl⟩

theorem delegates_codeText :
    Signature.delegates (codeText ds) = .ok (ds.filterMap Decl.delegate?) := by
  rw [Signature.delegates, rawDelegates_codeText]
  refine readAll_raw ds fun d => ?_
  cases d with
  | delegate type _ name params => exact .inr ⟨_, _, params, rfl, rfl⟩
  | forward | struct | enum | prototype => exact .inl ⟨rfl, rfl⟩

theorem names_codeText :
    StructType.names (codeText ds) = (ds.filterMap Decl.typeName?).eraseDups := by
  rw [StructType.names, nameCuts_codeText]

/-- Declarations of the grammar, in any order and of any number, are all found, each by the
recognizer of its kind, in order and as they were written. -/
theorem declarations_codeText :
    Enum.all (codeText ds) = ds.filterMap Decl.enum? ∧
    StructType.names (codeText ds) = (ds.filterMap Decl.typeName?).eraseDups ∧
    Signature.prototypes (codeText ds) = .ok (ds.filterMap Decl.prototype?) ∧
    Signature.delegates (codeText ds) = .ok (ds.filterMap Decl.delegate?) :=
  ⟨all_codeText ds, names_codeText ds, prototypes_codeText ds, delegates_codeText ds⟩

end

end HeaderApi.Grammar
