import HeaderApi.Code
import HeaderApi.Proofs.Text.Parts

/-!
# Code without directives

Where no directive opens, code is squeezed only: texts that stand on lines of their own end up next
to each other, with one space between them.
-/

namespace HeaderApi

open Text

variable {t : Text}

theorem not_opensDirective {line : Text} (h : '#' ∉ line) : opensDirective line = false := by
  rw [opensDirective, beq_eq_false_iff_ne]
  exact fun hhead => h ((trimStart_suffix line).subset (List.mem_of_head? hhead))

theorem blankDirectives_of_notMem {lines : List Text} (h : ∀ line ∈ lines, '#' ∉ line) :
    blankDirectives false lines = lines := by
  induction lines with
  | nil => rfl
  | cons line lines ih =>
    rw [List.forall_mem_cons] at h
    rw [blankDirectives, not_opensDirective h.1, ih h.2]
    rfl

theorem stripDirectives_of_notMem (h : '#' ∉ t) : stripDirectives t = t := by
  have hlines : ∀ line ∈ physicalLines t, '#' ∉ line := fun line hline hmem => by
    have hflat : '#' ∈ (physicalLines t).flatten := List.mem_flatten_of_mem hline hmem
    exact h (flatten_physicalLines t ▸ hflat)
  rw [stripDirectives, blankDirectives_of_notMem hlines, flatten_physicalLines]

/-- The code of a declaration behind a comment and a line feed, and of the line feed behind it. -/
def onLine (t : Text) : Text := " \n".toList ++ t ++ "\n".toList

theorem words_flatMap_onLine (ts : List Text) : words (ts.flatMap onLine) = ts.flatMap words := by
  induction ts with
  | nil => simp
  | cons t ts ih =>
    have hline : onLine t ++ ts.flatMap onLine =
        ' ' :: '\n' :: (t ++ '\n' :: ts.flatMap onLine) := by
      simp [onLine]
    rw [List.flatMap_cons, List.flatMap_cons, hline, words_cons_of_blank isBlank_space,
      words_cons_of_blank isBlank_lineFeed, words_append_cons isBlank_lineFeed, ih]

theorem squeeze_flatMap_onLine {ts : List Text} (h : ∀ t ∈ ts, t ≠ [] ∧ Neat t) :
    squeeze (ts.flatMap onLine) = joinWith " ".toList ts := by
  have hwords : ∀ t ∈ ts, words t ≠ [] := fun t ht => words_ne_nil (h t ht).2 (h t ht).1
  have hneat : ts.map (fun t => joinWith [' '] (words t)) = ts :=
    map_eq_self_iff.2 fun t ht => (h t ht).2.squeeze_eq
  rw [squeeze, words_flatMap_onLine, joinWith_flatMap _ hwords, hneat]
  rfl

end HeaderApi
