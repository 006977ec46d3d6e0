import HeaderApi.Proofs.Declaration.Spacing
import Mathlib.Data.List.Forall2

/-!
# Reading parameter lists

A list is read item by item, up to the first item that is no parameter (`readItems_eq_ok_iff`,
`readItems_eq_error_iff`).  So lists of the grammar are read, and lists with a parenthesis of their
own are not.
-/

namespace HeaderApi.Parameter

open Text

variable {params item : Text} {items : List Text} {ps : List Parameter} {e : ScanError}
  {c : Char}

/-! ## Items -/

theorem readItems_eq_ok_iff : readItems params items = .ok ps ↔
    List.Forall₂ (fun item p => read? item = some p) items ps := by
  induction items generalizing ps with
  | nil => simp [readItems, eq_comm]
  | cons item items ih =>
    rw [readItems, List.forall₂_cons_left_iff]
    cases read? item with
    | none => simp
    | some p =>
      simp only [← ih]
      cases readItems params items <;> simp [Except.map, eq_comm]

/-- A list is refused for the first of its items that is not a parameter. -/
theorem readItems_eq_error_iff : readItems params items = .error e ↔
    ∃ before item after, items = before ++ item :: after ∧ (∀ i ∈ before, ∃ p, read? i = some p) ∧
      read? item = none ∧ e = .malformedParameter item params := by
  induction items with
  | nil => simp [readItems]
  | cons item items ih =>
    rw [readItems, exists_first_cons_iff, ← ih]
    cases read? item with
    | none => simp [eq_comm]
    | some p => cases readItems params items <;> simp [Except.map]

/-! ## Lists that are joined from items -/

/-- What stands between the commas of a list, where it is not `void`. -/
structure IsItem (t : Text) : Prop where
  trimmed : Trimmed t
  comma : ',' ∉ t
  void : ∃ c ∈ t, c ∉ "void".toList

theorem IsItem.ne_nil (h : IsItem item) : item ≠ [] := by
  obtain ⟨c, hc, -⟩ := h.void
  exact List.ne_nil_of_mem hc

/-- A list that is joined from items is read item by item. -/
theorem readList_joinWith (hne : items ≠ []) (h : ∀ item ∈ items, IsItem item) :
    readList (joinWith ", ".toList items) = readItems (joinWith ", ".toList items) items := by
  have htrim : trim (joinWith ", ".toList items) = joinWith ", ".toList items :=
    (trimmed_joinWith fun t ht => ⟨(h t ht).ne_nil, (h t ht).trimmed⟩).trim_eq
  have hvoid : ¬ (joinWith ", ".toList items = [] ∨
      joinWith ", ".toList items = "void".toList) := by
    rintro (hnil | hvoid)
    · exact joinWith_ne_nil hne (fun t ht => (h t ht).ne_nil) hnil
    · obtain ⟨item, rest, rfl⟩ := List.exists_cons_of_ne_nil hne
      obtain ⟨c, hc, hc'⟩ := (h item List.mem_cons_self).void
      have hpart : item <:+: joinWith ", ".toList (item :: rest) :=
        infix_intercalate_of_mem List.mem_cons_self
      exact hc' (hvoid ▸ hpart.mem hc)
  rw [readList]
  simp only [htrim]
  rw [if_neg hvoid, commaParts_joinWith hne fun t ht => ⟨(h t ht).trimmed, (h t ht).comma⟩]

/-! ## Lists with a parenthesis -/

theorem readItems_eq_error (h : ∃ item ∈ items, read? item = none) :
    ∃ item, readItems params items = .error (.malformedParameter item params) := by
  obtain ⟨bad, hbad, hnone⟩ := h
  cases hread : readItems params items with
  | ok ps =>
    have hall : List.Forall₂ (fun item p => read? item ≠ none ∧ read? item = some p) items ps :=
      (readItems_eq_ok_iff.1 hread).imp fun item p hp => ⟨by simp [hp], hp⟩
    exact absurd hnone (((List.forall₂_and_left items ps).1 hall).1 bad hbad)
  | error e =>
    obtain ⟨_, item, _, -, -, -, rfl⟩ := readItems_eq_error_iff.1 hread
    exact ⟨item, rfl⟩

theorem readList_eq_error (hc : c = '(' ∨ c = ')') (h : c ∈ params) :
    ∃ item, readList params = .error (.malformedParameter item (trim params)) := by
  have hblank : isBlank c = false := by rcases hc with rfl | rfl <;> decide
  have hcomma : c ≠ ',' := by rcases hc with rfl | rfl <;> decide
  have hmem : c ∈ trim params := mem_trim_of_mem hblank h
  have hlist : ¬ (trim params = [] ∨ trim params = "void".toList) := by
    rintro (h | h)
    · simp [h] at hmem
    · rw [h] at hmem
      rcases hc with rfl | rfl <;> exact absurd hmem (by decide)
  obtain ⟨item, hitem, hmem'⟩ := exists_mem_commaParts hblank hcomma hmem
  have hdots : item ≠ "...".toList := by
    rintro rfl
    rcases hc with rfl | rfl <;> exact absurd hmem' (by decide)
  have hparen : '(' ∈ item ∨ ')' ∈ item := by
    rcases hc with rfl | rfl
    · exact .inl hmem'
    · exact .inr hmem'
  have hread : read? item = none := by rw [read?, if_neg hdots, if_pos hparen]
  rw [readList, if_neg hlist]
  exact readItems_eq_error ⟨item, hitem, hread⟩

end HeaderApi.Parameter

namespace HeaderApi.Grammar

open Text

namespace Param

/-- No parameter looks like a part of `void`. -/
theorem isItem_text (p : Param) : Parameter.IsItem p.text where
  trimmed := p.neat_text.2.toTrimmed
  comma := p.over_text.notMem (by decide)
  void := by
    cases p with
    | variadic => exact ⟨'.', by decide, by decide⟩
    | named => exact ⟨' ', by simp [text], by decide⟩

theorem read?_text (p : Param) : Parameter.read? p.text = some p.parameter := by
  cases p with
  | variadic => decide
  | named type name =>
    have hspace : ' ' ∈ (named type name).text := by simp [text]
    have hdots : (named type name).text ≠ "...".toList := fun h => by
      rw [h] at hspace
      revert hspace
      decide
    have hparens : ¬ ('(' ∈ (named type name).text ∨ ')' ∈ (named type name).text) := by
      rw [not_or]
      have hover := (named type name).over_text
      exact ⟨hover.notMem (by decide), hover.notMem (by decide)⟩
    have hsplit : splitLastWord (named type name).text = (type.text ++ [' '], name.text) := by
      have hsplit := splitLastWord_eq name.word (show ∀ c ∈ (type.text ++ [' ']).getLast?,
        isWord c = false by simp; decide)
      simpa [text] using hsplit
    have hfeed : '\n' ∉ type.text := type.over_text.notMem (by decide)
    have htrim : trim (type.text ++ [' ']) = type.text := by
      rw [trim_concat_of_blank (by decide), type.neat_text.2.trim_eq]
    rw [Parameter.read?, if_neg hdots, if_neg hparens, hsplit]
    simp only [List.getLast?_concat, List.dropLast_concat, htrim]
    rw [if_pos ⟨name.ne_nil, .inl trivial, type.neat_text.1, hfeed⟩]
    rfl

end Param

theorem readItems_map (params : Text) (ps : List Param) :
    Parameter.readItems params (ps.map Param.text) = .ok (ps.map Param.parameter) := by
  rw [Parameter.readItems_eq_ok_iff, List.forall₂_map_left_iff, List.forall₂_map_right_iff,
    List.forall₂_same]
  exact fun p _ => p.read?_text

/-- Reading a parameter list gives its parameters. -/
theorem readList_paramsText (ps : List Param) :
    Parameter.readList (paramsText ps) = .ok (ps.map Param.parameter) := by
  rw [paramsText]
  split
  next h =>
    rw [h]
    decide
  next hne =>
    have hitems : ∀ item ∈ ps.map Param.text, Parameter.IsItem item := by
      rw [List.forall_mem_map]
      exact fun p _ => p.isItem_text
    rw [Parameter.readList_joinWith (by simpa using hne) hitems, readItems_map]

end HeaderApi.Grammar
