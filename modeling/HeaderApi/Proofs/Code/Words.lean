import HeaderApi.Code
import HeaderApi.Proofs.Text.Line

/-!
# Code as words

Normalized code is made of the words on the lines that belong to no directive (`codeOf_eq`).  Of a
line it takes its words, whether a directive opens on it, and whether a directive goes on behind it.
-/

namespace HeaderApi

open Text

/-- The words on the lines that belong to no directive; `inDirective` says whether the first line
belongs to one that opened before it. -/
def codeWords : (inDirective : Bool) → List Text → List Text
  | _, [] => []
  | inDirective, line :: lines =>
    if inDirective || opensDirective line then codeWords (continuesDirective line) lines
    else words line ++ codeWords false lines

/-- Whether a directive goes on behind some lines. -/
def inDirectiveAfter (inDirective : Bool) (lines : List Text) : Bool :=
  lines.foldl (fun inside line => (inside || opensDirective line) && continuesDirective line)
    inDirective

variable {a t : Text} {lines : List Text}

theorem filter_lineFeed (ha : '\n' ∉ a) : a.filter (· = '\n') = [] := by
  rw [List.filter_eq_nil_iff]
  intro c hc
  simpa using fun heq : c = '\n' => ha (heq ▸ hc)

/-- A text without the directives on its lines; `inDirective` says whether it begins inside one. -/
def stripDirectivesFrom (inDirective : Bool) (t : Text) : Text :=
  (blankDirectives inDirective (physicalLines t)).flatten

/-- The last line. -/
theorem stripDirectivesFrom_of_notMem (ha : '\n' ∉ a) (inDirective : Bool) :
    stripDirectivesFrom inDirective a = if inDirective || opensDirective a then [] else a := by
  by_cases hne : a = []
  · subst hne
    rw [ite_self]
    rfl
  · rw [stripDirectivesFrom, physicalLines_eq_singleton ha hne, blankDirectives]
    split
    · rw [filter_lineFeed ha]
      rfl
    · exact List.append_nil a

/-- A line and what stands behind it: the line feed stays. -/
theorem stripDirectivesFrom_append (ha : '\n' ∉ a) (inDirective : Bool) (t : Text) :
    stripDirectivesFrom inDirective (a ++ '\n' :: t) =
      (if inDirective || opensDirective (a ++ ['\n']) then [] else a) ++
        '\n' :: stripDirectivesFrom ((inDirective || opensDirective (a ++ ['\n'])) &&
          continuesDirective (a ++ ['\n'])) t := by
  have hfeed : (a ++ ['\n']).filter (· = '\n') = ['\n'] := by
    rw [List.filter_append, filter_lineFeed ha]
    rfl
  rw [stripDirectivesFrom, physicalLines_append_lineFeed ha, blankDirectives]
  by_cases h : (inDirective || opensDirective (a ++ ['\n'])) = true
  · rw [if_pos h, if_pos h, h, hfeed, Bool.true_and]
    rfl
  · rw [if_neg h, if_neg h, eq_false_of_ne_true h, Bool.false_and, List.flatten_cons,
      List.append_assoc, List.singleton_append]
    rfl

/-- Blanking out directives leaves the words of the other lines. -/
theorem words_stripDirectivesFrom (inDirective : Bool) (t : Text) :
    words (stripDirectivesFrom inDirective t) = codeWords inDirective (physicalLines t) := by
  induction t using lines_induction generalizing inDirective with
  | last a ha =>
    rw [stripDirectivesFrom_of_notMem ha]
    by_cases hne : a = []
    · simp [hne, physicalLines, codeWords]
    · rw [physicalLines_eq_singleton ha hne, codeWords]
      split <;> simp [codeWords]
  | line a t ha ih =>
    rw [stripDirectivesFrom_append ha, words_append_cons isBlank_lineFeed, ih,
      physicalLines_append_lineFeed ha, codeWords]
    split
    next h => rw [h, Bool.true_and, words_nil, List.nil_append]
    next h =>
      rw [eq_false_of_ne_true h, Bool.false_and, words_append_cons isBlank_lineFeed, words_nil,
        List.append_nil]

theorem codeOf_eq (t : Text) :
    codeOf t = joinWith " ".toList (codeWords false (physicalLines (stripComments t))) := by
  rw [codeOf, squeeze, stripDirectives, ← stripDirectivesFrom, words_stripDirectivesFrom]
  rfl

theorem codeWords_append (inDirective : Bool) (lines lines' : List Text) :
    codeWords inDirective (lines ++ lines') =
      codeWords inDirective lines ++ codeWords (inDirectiveAfter inDirective lines) lines' := by
  induction lines generalizing inDirective with
  | nil => rfl
  | cons line lines ih =>
    rw [List.cons_append, codeWords, codeWords, inDirectiveAfter, List.foldl_cons]
    by_cases h : (inDirective || opensDirective line) = true
    · rw [if_pos h, if_pos h, ih, h, Bool.true_and]
      rfl
    · rw [if_neg h, if_neg h, ih, List.append_assoc, eq_false_of_ne_true h,
        Bool.false_and]
      rfl

end HeaderApi
