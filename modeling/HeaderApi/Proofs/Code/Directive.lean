import HeaderApi.Proofs.Code.Words
import HeaderApi.Proofs.Comment.Seam

/-!
# Directives in code

A directive opens with `#` and goes on behind each line that ends with a backslash.  Where none is
open, its lines leave no words in the code and none is open behind them.
-/

namespace HeaderApi

open Text

variable {line : Text}

/-! ## Lines -/

theorem opensDirective_iff : opensDirective line = true ↔ "#".toList <+: trimStart line := by
  rw [opensDirective, beq_iff_eq, List.head?_eq_some_iff]
  exact exists_congr fun _ => eq_comm

theorem continuesDirective_iff :
    continuesDirective line = true ↔ "\\".toList <:+ trimEnd line := by
  rw [continuesDirective, beq_iff_eq, List.getLast?_eq_some_iff]
  exact exists_congr fun _ => eq_comm

/-- Only blanks may stand in front of what a directive opens with. -/
theorem opensDirective_append (a b : Text) : opensDirective (a ++ b) =
    (opensDirective a || (trimStart a).isEmpty && opensDirective b) := by
  rw [opensDirective, trimStart, List.dropWhile_append, ← trimStart.eq_1 a, ← trimStart.eq_1 b]
  cases h : trimStart a with
  | nil => simp [opensDirective, h]
  | cons c t => simp [opensDirective, h]

theorem opensDirective_cons_of_blank {c : Char} (hc : isBlank c = true) (t : Text) :
    opensDirective (c :: t) = opensDirective t := by
  rw [opensDirective, trimStart_cons_of_blank hc, opensDirective]

theorem continuesDirective_lineFeed (line : Text) :
    continuesDirective (line ++ ['\n']) = continuesDirective line := by
  rw [continuesDirective, continuesDirective, trimEnd_concat_of_blank isBlank_lineFeed]

/-! ## Behind lines -/

/-- The lines to which a directive goes on have no words. -/
theorem codeWords_continued {continued : List Text}
    (h : ∀ line ∈ continued, continuesDirective line = true) (last : Text) :
    codeWords true (continued ++ [last]) = [] := by
  induction continued with
  | nil => rfl
  | cons line continued ih =>
    rw [List.forall_mem_cons] at h
    rw [List.cons_append, codeWords, Bool.true_or, if_pos rfl, h.1, ih h.2]

/-- A directive has no words: behind the line on which it opens it goes on. -/
theorem codeWords_directive {continued : List Text} {last : Text}
    (hopens : ∀ line ∈ (continued ++ [last]).head?, opensDirective line = true)
    (hcontinued : ∀ line ∈ continued, continuesDirective line = true) :
    codeWords false (continued ++ [last]) = [] := by
  cases continued with
  | nil =>
    rw [List.nil_append, codeWords, hopens last rfl]
    rfl
  | cons line continued =>
    rw [List.forall_mem_cons] at hcontinued
    rw [List.cons_append, codeWords, hopens line rfl, Bool.or_true, if_pos rfl, hcontinued.1]
    exact codeWords_continued hcontinued.2 last

theorem inDirectiveAfter_concat (h : continuesDirective line = false) (inDirective : Bool)
    (lines : List Text) : inDirectiveAfter inDirective (lines ++ [line]) = false := by
  rw [inDirectiveAfter, List.foldl_concat, h, Bool.and_false]

/-! ## Directives -/

/-- A preprocessor directive, given by its lines without their line feeds. -/
structure Directive where
  continued : List Text
  last : Text
  opens : ∀ line ∈ (continued ++ [last]).head?, "#".toList <+: trimStart line
  continues : ∀ line ∈ continued, "\\".toList <:+ trimEnd line
  ends : ¬ "\\".toList <:+ trimEnd last
  oneLine : ∀ line ∈ continued ++ [last], '\n' ∉ line

namespace Directive

variable (d : Directive)

/-- The lines as they stand in a header. -/
def lines : List Text := (d.continued ++ [d.last]).map (· ++ ['\n'])

def source : Text := d.lines.flatten

theorem codeWords_lines : codeWords false d.lines = [] := by
  have hcontinued : ∀ line ∈ d.continued.map (· ++ ['\n']), continuesDirective line = true := by
    rw [List.forall_mem_map]
    intro line hline
    rw [continuesDirective_lineFeed]
    exact continuesDirective_iff.2 (d.continues line hline)
  have hopens : ∀ line ∈ d.lines.head?, opensDirective line = true := by
    intro line hline
    rw [lines, List.head?_map] at hline
    obtain ⟨first, hfirst, rfl⟩ := Option.map_eq_some_iff.1 hline
    rw [opensDirective_append, opensDirective_iff.2 (d.opens first hfirst), Bool.true_or]
  rw [lines, List.map_append, List.map_singleton] at hopens ⊢
  exact codeWords_directive hopens hcontinued

theorem inDirectiveAfter_lines (inDirective : Bool) :
    inDirectiveAfter inDirective d.lines = false := by
  have hends : continuesDirective (d.last ++ ['\n']) = false := by
    rw [continuesDirective_lineFeed, ← Bool.not_eq_true, continuesDirective_iff]
    exact d.ends
  rw [lines, List.map_append, List.map_singleton]
  exact inDirectiveAfter_concat hends _ _

theorem physicalLines_source_append (t : Text) :
    physicalLines (d.source ++ t) = d.lines ++ physicalLines t :=
  physicalLines_flatten_append d.oneLine t

/-- A directive that is put between lines, where none is open, does not change the words. -/
theorem codeWords_insert {before : List Text} (h : inDirectiveAfter false before = false)
    (behind : List Text) :
    codeWords false (before ++ (d.lines ++ behind)) = codeWords false (before ++ behind) := by
  rw [codeWords_append, codeWords_append, codeWords_append, h, d.codeWords_lines,
    d.inDirectiveAfter_lines, List.nil_append]

end Directive

end HeaderApi
