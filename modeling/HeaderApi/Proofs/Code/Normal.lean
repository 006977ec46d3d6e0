import HeaderApi.Proofs.Code.Directive

/-!
# Normalized code

Code has no mark that opens a comment, begins with no directive, and has single spaces between its
words (`normalized_codeOf`).  No stage brings back what an earlier one has taken out, because none
brings two characters of the text together that stood apart: a comment leaves a space behind, a
directive leaves its line feeds, and a run of blanks leaves a space.  The texts that look like code
are those that are their own code (`normalized_iff`).
-/

namespace HeaderApi

open Text

variable {a m t : Text} {c : Char}

/-! ## Code without comments -/

/-- What stands first in the code stands first in the text, but for the space of a comment. -/
theorem head?_of_head?_stripComments (hc : c ≠ ' ') (h : (stripComments t).head? = some c) :
    t.head? = some c := by
  cases t using pieces_induction with
  | nil => simp [stripComments, pieces] at h
  | char d t hopening =>
    rw [stripComments, pieces_cons_of_none hopening] at h
    exact h
  | comment t k rest hopening =>
    rw [stripComments, pieces_of_openingComment? hopening] at h
    exact absurd (Option.some.inj h).symm hc

/-- A mark that the code begins with, the text begins with. -/
theorem prefix_of_prefix_cons_stripComments {d : Char} (hd : d ≠ ' ')
    (h : [c, d] <+: c :: stripComments t) : [c, d] <+: c :: t := by
  obtain ⟨rest, hrest⟩ := (List.cons_prefix_cons.1 h).2
  have hhead := head?_of_head?_stripComments hd (congrArg List.head? hrest).symm
  obtain ⟨t, rfl⟩ := List.head?_eq_some_iff.1 hhead
  exact ⟨t, rfl⟩

/-- Without its comments a text has no mark that opens one. -/
theorem not_infix_stripComments (t : Text) :
    ¬ "/*".toList <:+: stripComments t ∧ ¬ "//".toList <:+: stripComments t := by
  induction t using pieces_induction with
  | nil => simp [stripComments, pieces]
  | char c t hopening ih =>
    have hpieces := pieces_cons_of_none hopening
    rw [openingComment?_eq_none_iff] at hopening
    rw [stripComments, hpieces, List.map_cons, ← stripComments.eq_1]
    simp only [List.infix_cons_iff, not_or]
    refine ⟨⟨fun h => hopening.1 ?_, ih.1⟩, fun h => hopening.2 ?_, ih.2⟩
    · obtain rfl : '/' = c := (List.cons_prefix_cons.1 h).1
      exact prefix_of_prefix_cons_stripComments (by decide) h
    · obtain rfl : '/' = c := (List.cons_prefix_cons.1 h).1
      exact prefix_of_prefix_cons_stripComments (by decide) h
  | comment t k rest hopening ih =>
    rw [stripComments, pieces_of_openingComment? hopening, List.map_cons, ← stripComments.eq_1]
    simpa [List.infix_cons_iff, Piece.code] using ih

/-! ## Code without directives -/

/-- Blanking out directives brings no characters together. -/
theorem infix_of_infix_stripDirectivesFrom (hm : '\n' ∉ m) {inDirective : Bool}
    (h : m <:+: stripDirectivesFrom inDirective t) : m <:+: t := by
  have hline : ∀ {b : Bool} {a : Text}, m <:+: (if b then [] else a) → m <:+: a := by
    intro b a h
    split at h
    · exact List.infix_nil.1 h ▸ List.nil_infix
    · exact h
  induction t using lines_induction generalizing inDirective with
  | last a ha =>
    rw [stripDirectivesFrom_of_notMem ha] at h
    exact hline h
  | line a t ha ih =>
    rw [stripDirectivesFrom_append ha, infix_append_cons_iff hm] at h
    rw [infix_append_cons_iff hm]
    exact h.imp hline ih

theorem infix_of_infix_codeOf (hm : ∀ c ∈ m, isBlank c = false) (h : m <:+: codeOf t) :
    m <:+: stripComments t := by
  have hfeed : '\n' ∉ m := by
    intro hmem
    exact absurd isBlank_lineFeed (by simp [hm _ hmem])
  exact infix_of_infix_stripDirectivesFrom hfeed (infix_of_infix_squeeze hm h)

/-- No directive opens where those of a text are taken out. -/
theorem opensDirective_stripDirectivesFrom (inDirective : Bool) (t : Text) :
    opensDirective (stripDirectivesFrom inDirective t) = false := by
  induction t using lines_induction generalizing inDirective with
  | last a ha =>
    rw [stripDirectivesFrom_of_notMem ha]
    split
    next => rfl
    next h =>
      rw [Bool.not_eq_true, Bool.or_eq_false_iff] at h
      exact h.2
  | line a t ha ih =>
    have hline : opensDirective
        (if inDirective || opensDirective (a ++ ['\n']) then [] else a) = false := by
      split
      next => rfl
      next h =>
        rw [opensDirective_append, Bool.not_eq_true, Bool.or_eq_false_iff, Bool.or_eq_false_iff] at h
        exact h.2.1
    rw [stripDirectivesFrom_append ha, opensDirective_append, hline,
      opensDirective_cons_of_blank isBlank_lineFeed, ih, Bool.and_false, Bool.or_false]

/-! ## Code that is its own code -/

/-- What code looks like: no comment and no directive opens, and blanks are single spaces between
words. -/
structure Normalized (t : Text) : Prop extends Neat t where
  noBlock : ¬ "/*".toList <:+: t
  noLine : ¬ "//".toList <:+: t
  noDirective : ¬ "#".toList <+: t

theorem normalized_codeOf (t : Text) : Normalized (codeOf t) := by
  have hmarks := not_infix_stripComments t
  refine ⟨neat_squeeze _, fun h => hmarks.1 ?_, fun h => hmarks.2 ?_, fun h => ?_⟩
  · exact infix_of_infix_codeOf (by decide) h
  · exact infix_of_infix_codeOf (by decide) h
  · have hopens := opensDirective_stripDirectivesFrom false (stripComments t)
    obtain ⟨rest, hrest⟩ := h
    rw [opensDirective, ← head?_squeeze, stripDirectivesFrom, ← stripDirectives, ← codeOf,
      ← hrest] at hopens
    simp at hopens

namespace Normalized

theorem notMem_lineFeed (h : Normalized t) : '\n' ∉ t := by
  intro hmem
  exact absurd (h.space '\n' hmem isBlank_lineFeed) (by decide)

theorem stripComments_eq (h : Normalized t) : stripComments t = t := by
  rw [stripComments, pieces_of_noMarks h.noBlock h.noLine, List.map_map]
  exact List.map_id t

theorem stripDirectives_eq (h : Normalized t) : stripDirectives t = t := by
  have hopens : opensDirective t = false := by
    rw [← Bool.not_eq_true, opensDirective_iff, h.trimStart_eq]
    exact h.noDirective
  have hlines := stripDirectivesFrom_of_notMem h.notMem_lineFeed false
  rw [hopens] at hlines
  exact hlines

theorem codeOf_eq (h : Normalized t) : codeOf t = t := by
  rw [codeOf, h.stripComments_eq, h.stripDirectives_eq, h.toNeat.squeeze_eq]

end Normalized

/-- The texts that look like code are those that are their own code. -/
theorem normalized_iff : Normalized t ↔ codeOf t = t :=
  ⟨Normalized.codeOf_eq, fun h => h ▸ normalized_codeOf t⟩

/-- Normalizing once is enough: the code of a text looks like code, and is its own code. -/
theorem codeOf_codeOf (t : Text) : Normalized (codeOf t) ∧ codeOf (codeOf t) = codeOf t := by
  have h := normalized_codeOf t
  exact ⟨h, h.codeOf_eq⟩

end HeaderApi
