import HeaderApi.Proofs.Text.Trim

/-!
# Squeezing

Squeezing goes by words, and so does not commute with cutting a text.  `collapse` does: it writes
every run of blanks as one space and keeps it, at the ends of the text too, so that it acts on
either side of a character that is not blank by itself (`collapse_append_cons`).  Squeezing is
collapsing and then trimming (`squeeze_eq_trim_collapse`).
-/

namespace HeaderApi.Text

variable {a b m t : Text} {c d : Char}

theorem isBlank_space : isBlank ' ' = true := by decide

theorem isBlank_lineFeed : isBlank '\n' = true := by decide

theorem isBlank_carriageReturn : isBlank '\r' = true := by decide

/-! ## Words -/

theorem words_append_cons (hc : isBlank c = true) (a b : Text) :
    words (a ++ c :: b) = words a ++ words b := by
  rw [words, List.splitOnP_append_cons a b hc, List.filter_append, words, words]

@[simp] theorem words_nil : words [] = [] := by simp [words]

theorem words_cons_of_blank (hc : isBlank c = true) (t : Text) : words (c :: t) = words t := by
  simpa using words_append_cons hc [] t

theorem words_of_noBlank (hne : t ≠ []) (ht : ∀ c ∈ t, isBlank c = false) : words t = [t] := by
  rw [words, List.splitOnP_eq_singleton ht]
  simp [hne]

theorem words_singleton (hc : isBlank c = false) : words [c] = [[c]] :=
  words_of_noBlank (List.cons_ne_nil c []) (List.forall_mem_singleton.2 hc)

theorem words_cons_cons (hc : isBlank c = false) (hd : isBlank d = false) (t : Text) :
    words (c :: d :: t) = (words (d :: t)).modifyHead (c :: ·) := by
  have hne := List.splitOnP_ne_nil isBlank t
  cases h : t.splitOnP isBlank with
  | nil => exact absurd h hne
  | cons w ws => simp [words, List.splitOnP_cons_eq_if_modifyHead, hc, hd, h]

theorem nil_notMem_words (t : Text) : [] ∉ words t := by simp [words]

/-! ## Squeezing, character by character -/

@[simp] theorem squeeze_nil : squeeze [] = [] := by simp [squeeze, joinWith]

theorem squeeze_cons_of_blank (hc : isBlank c = true) (t : Text) :
    squeeze (c :: t) = squeeze t := by rw [squeeze, words_cons_of_blank hc, squeeze]

theorem squeeze_concat_of_blank (hc : isBlank c = true) (t : Text) :
    squeeze (t ++ [c]) = squeeze t := by
  rw [squeeze, words_append_cons hc, words_nil, List.append_nil, squeeze]

theorem squeeze_eq_nil_iff : squeeze t = [] ↔ words t = [] := by
  have hnil := nil_notMem_words t
  rw [squeeze, joinWith]
  cases h : words t with
  | nil => simp
  | cons w ws =>
    rw [h] at hnil
    have hw : w ≠ [] := fun e => hnil (e ▸ List.mem_cons_self)
    cases ws <;> simp [hw]

theorem squeeze_cons_cons (hc : isBlank c = false) (hd : isBlank d = false) (t : Text) :
    squeeze (c :: d :: t) = c :: squeeze (d :: t) := by
  rw [squeeze, squeeze, words_cons_cons hc hd, joinWith, joinWith]
  have hne : words (d :: t) ≠ [] := by
    intro h
    have hd' := congrArg List.isEmpty h
    cases hs : t.splitOnP isBlank with
    | nil => exact List.splitOnP_ne_nil isBlank t hs
    | cons w ws => simp [words, List.splitOnP_cons_eq_if_modifyHead, hd, hs] at hd'
  cases h : words (d :: t) with
  | nil => exact absurd h hne
  | cons w ws => simp

theorem squeeze_cons_blank (hc : isBlank c = false) (hd : isBlank d = true) (t : Text) :
    squeeze (c :: d :: t) =
      if squeeze (d :: t) = [] then [c] else c :: ' ' :: squeeze (d :: t) := by
  have hwords : words (c :: d :: t) = [c] :: words (d :: t) := by
    rw [show c :: d :: t = [c] ++ d :: t from rfl, words_append_cons hd, words_singleton hc,
      words_cons_of_blank hd, List.singleton_append]
  by_cases h : words (d :: t) = []
  · rw [if_pos (squeeze_eq_nil_iff.2 h), squeeze, hwords, h]
    simp [joinWith]
  · rw [if_neg (mt squeeze_eq_nil_iff.1 h), squeeze, hwords, joinWith,
      List.intercalate_cons_of_ne_nil h]
    simp [squeeze, joinWith]

/-! ## Collapsing -/

/-- The text with every run of blanks as one space. -/
def collapse : Text → Text
  | [] => []
  | c :: t =>
    if isBlank c then if t.head?.any isBlank then collapse t else ' ' :: collapse t
    else c :: collapse t

@[simp] theorem collapse_nil : collapse [] = [] := rfl

@[simp] theorem collapse_cons_of_not_blank (hc : isBlank c = false) (t : Text) :
    collapse (c :: t) = c :: collapse t := by simp [collapse, hc]

theorem collapse_cons_of_blank (hc : isBlank c = true) (t : Text) :
    collapse (c :: t) = ' ' :: collapse (trimStart t) := by
  induction t generalizing c with
  | nil => simp [collapse, hc, trimStart]
  | cons d t ih =>
    by_cases hd : isBlank d = true
    · rw [trimStart_cons_of_blank hd, ← ih hd, collapse]
      simp [hc, hd]
    · rw [trimStart, List.dropWhile_cons_of_neg hd, collapse]
      simp [hc, hd]

theorem collapse_append_cons (hc : isBlank c = false) (a b : Text) :
    collapse (a ++ c :: b) = collapse a ++ c :: collapse b := by
  induction a with
  | nil => simp [hc]
  | cons d a ih =>
    by_cases hd : isBlank d = true
    · cases a with
      | nil => simp [collapse, hc, hd]
      | cons e a => by_cases he : isBlank e = true <;> simp_all [collapse]
    · rw [Bool.not_eq_true] at hd
      rw [List.cons_append, collapse_cons_of_not_blank hd, ih, collapse_cons_of_not_blank hd,
        List.cons_append]

theorem trimStart_eq_nil_or (t : Text) :
    trimStart t = [] ∨ ∃ d s, isBlank d = false ∧ trimStart t = d :: s := by
  cases h : trimStart t with
  | nil => exact .inl rfl
  | cons d s => exact .inr ⟨d, s, head_trimStart (t := t) (by rw [h]; rfl), rfl⟩

theorem trim_cons_of_not_blank (hc : isBlank c = false) (t : Text) :
    trim (c :: t) = c :: trimEnd t := trim_append_cons hc [] t

theorem trimEnd_cons_of_not_blank (hc : isBlank c = false) (t : Text) :
    trimEnd (c :: t) = c :: trimEnd t := trimEnd_append_cons hc [] t

/-- A collapsed run of blanks in front of something is one space. -/
theorem trimEnd_space_collapse (t : Text) :
    trimEnd (' ' :: collapse (trimStart t)) =
      if trim (collapse (trimStart t)) = [] then [] else ' ' :: trim (collapse (trimStart t)) := by
  rcases trimStart_eq_nil_or t with h | ⟨d, s, hd, h⟩
  · rw [h]
    decide
  · rw [h, collapse_cons_of_not_blank hd, trim_cons_of_not_blank hd, if_neg (List.cons_ne_nil _ _)]
    exact trimEnd_append_cons hd [' '] (collapse s)

theorem squeeze_eq_trim_collapse (t : Text) : squeeze t = trim (collapse t) := by
  induction t with
  | nil => simp [trim, trimStart, trimEnd]
  | cons c t ih =>
    by_cases hc : isBlank c = true
    · rw [squeeze_cons_of_blank hc, ih, collapse, if_pos hc]
      by_cases ht : t.head?.any isBlank = true
      · rw [if_pos ht]
      · rw [if_neg ht, trim_cons_of_blank isBlank_space]
    · rw [Bool.not_eq_true] at hc
      rw [collapse_cons_of_not_blank hc, trim_cons_of_not_blank hc]
      rcases t with _ | ⟨d, t⟩
      · simp [squeeze, words_singleton hc, joinWith, trimEnd]
      by_cases hd : isBlank d = true
      · rw [squeeze_cons_blank hc hd, ih, collapse_cons_of_blank hd,
          trim_cons_of_blank isBlank_space, trimEnd_space_collapse]
        split <;> rfl
      · rw [Bool.not_eq_true] at hd
        rw [squeeze_cons_cons hc hd, ih, collapse_cons_of_not_blank hd,
          trim_cons_of_not_blank hd, trimEnd_cons_of_not_blank hd]

theorem squeeze_append_cons (hc : isBlank c = false) (a b : Text) :
    squeeze (a ++ c :: b) = trimStart (collapse a) ++ c :: trimEnd (collapse b) := by
  rw [squeeze_eq_trim_collapse, collapse_append_cons hc, trim_append_cons hc]

theorem squeeze_trimEnd (t : Text) : squeeze (trimEnd t) = squeeze t := by
  induction t using List.reverseRecOn with
  | nil => rfl
  | append_singleton t c ih =>
    by_cases hc : isBlank c = true
    · rw [trimEnd_concat_of_blank hc, ih, squeeze_concat_of_blank hc]
    · rw [trimEnd_append_cons (by simpa using hc)]
      rfl

theorem mem_of_mem_collapse (h : c ∈ collapse t) : c = ' ' ∨ c ∈ t := by
  induction t with
  | nil => simp at h
  | cons d t ih =>
    rw [collapse] at h
    split at h
    next =>
      split at h
      next => exact (ih h).imp_right (List.mem_cons_of_mem d)
      next =>
        rcases List.mem_cons.1 h with h | h
        · exact .inl h
        · exact (ih h).imp_right (List.mem_cons_of_mem d)
    next =>
      rcases List.mem_cons.1 h with rfl | h
      · exact .inr List.mem_cons_self
      · exact (ih h).imp_right (List.mem_cons_of_mem d)

theorem mem_of_mem_squeeze (h : c ∈ squeeze t) : c = ' ' ∨ c ∈ t := by
  rw [squeeze_eq_trim_collapse] at h
  exact mem_of_mem_collapse (mem_of_mem_trim h)

theorem head?_squeeze (t : Text) : (squeeze t).head? = (trimStart t).head? := by
  induction t with
  | nil => rw [squeeze_nil, trimStart, List.dropWhile_nil]
  | cons c t ih =>
    by_cases hc : isBlank c = true
    · rw [squeeze_cons_of_blank hc, ih, trimStart_cons_of_blank hc]
    · rw [Bool.not_eq_true] at hc
      rw [squeeze_eq_trim_collapse, collapse_cons_of_not_blank hc, trim_cons_of_not_blank hc,
        trimStart, List.dropWhile_cons_of_neg (by simp [hc]), List.head?_cons, List.head?_cons]

theorem prefix_of_prefix_collapse (hm : ∀ c ∈ m, isBlank c = false) (h : m <+: collapse t) :
    m <+: t := by
  induction t generalizing m with
  | nil => exact h
  | cons c t ih =>
    cases m with
    | nil => exact List.nil_prefix
    | cons d m =>
      rw [List.forall_mem_cons] at hm
      by_cases hc : isBlank c = true
      · rw [collapse_cons_of_blank hc, List.cons_prefix_cons] at h
        obtain ⟨rfl, -⟩ := h
        exact absurd isBlank_space (by simp [hm.1])
      · rw [Bool.not_eq_true] at hc
        rw [collapse_cons_of_not_blank hc, List.cons_prefix_cons] at h
        exact List.cons_prefix_cons.2 ⟨h.1, ih hm.2 h.2⟩

/-- Squeezing brings no characters together that are not blank. -/
theorem infix_of_infix_squeeze (hm : ∀ c ∈ m, isBlank c = false) (h : m <:+: squeeze t) :
    m <:+: t := by
  rw [squeeze_eq_trim_collapse] at h
  replace h := h.trans (trim_isInfix _)
  induction t with
  | nil => exact h
  | cons c t ih =>
    rw [collapse] at h
    split at h
    next hc =>
      split at h
      next => exact List.infix_cons (ih h)
      next =>
        rcases List.infix_cons_iff.1 h with hprefix | hrest
        · cases m with
          | nil => exact List.nil_infix
          | cons d m =>
            obtain ⟨rfl, -⟩ := List.cons_prefix_cons.1 hprefix
            exact absurd isBlank_space (by simp [hm])
        · exact List.infix_cons (ih hrest)
    next hc =>
      rcases List.infix_cons_iff.1 h with hprefix | hrest
      · rw [← collapse_cons_of_not_blank (by simpa using hc)] at hprefix
        exact (prefix_of_prefix_collapse hm hprefix).isInfix
      · exact List.infix_cons (ih hrest)

theorem collapse_ne_nil (ht : t ≠ []) : collapse t ≠ [] := by
  obtain ⟨c, t, rfl⟩ := List.exists_cons_of_ne_nil ht
  by_cases hc : isBlank c = true
  · simp [collapse_cons_of_blank hc]
  · simp [collapse_cons_of_not_blank (by simpa using hc)]

theorem trimmed_collapse (ht : Trimmed t) : Trimmed (collapse t) := by
  refine ⟨?_, ?_⟩
  · cases t with
    | nil => simp
    | cons c t =>
      have hc := ht.head c rfl
      simpa [collapse_cons_of_not_blank hc] using hc
  · cases t using List.reverseRecOn with
    | nil => simp
    | append_singleton t c =>
      have hc := ht.last c (by simp)
      simpa [collapse_append_cons hc] using hc

/-! ## Single spaces -/

/-- Blanks stand between words only, and are single spaces; the ends may be blank. -/
structure Spaced (t : Text) : Prop where
  space : ∀ c ∈ t, isBlank c = true → c = ' '
  single : ¬ "  ".toList <:+: t

namespace Spaced

theorem of_isInfix (ht : Spaced t) (h : a <:+: t) : Spaced a :=
  ⟨fun c hc => ht.space c (h.mem hc), fun hs => ht.single (hs.trans h)⟩

theorem collapse_eq (ht : Spaced t) : collapse t = t := by
  induction t with
  | nil => rfl
  | cons c t ih =>
    have ih := ih (ht.of_isInfix (List.suffix_cons c t).isInfix)
    by_cases hc : isBlank c = true
    · obtain rfl := ht.space c List.mem_cons_self hc
      cases t with
      | nil => rfl
      | cons d t =>
        by_cases hd : isBlank d = true
        · obtain rfl := ht.space d (by simp) hd
          exact absurd (List.infix_cons_iff.2 (.inl ⟨t, rfl⟩)) ht.single
        · rw [collapse_cons_of_blank hc, trimStart, List.dropWhile_cons_of_neg hd, ih]
    · rw [Bool.not_eq_true] at hc
      rw [collapse_cons_of_not_blank hc, ih]

end Spaced

theorem eq_space_of_mem_collapse (h : c ∈ collapse t) (hc : isBlank c = true) : c = ' ' := by
  induction t with
  | nil => simp at h
  | cons d t ih =>
    by_cases hd : isBlank d = true
    · by_cases ht : t.head?.any isBlank = true
      · exact ih (by simpa [collapse, hd, ht] using h)
      · simp only [collapse, hd, ht, if_true, Bool.false_eq_true, if_false, List.mem_cons] at h
        exact h.elim id ih
    · rw [Bool.not_eq_true] at hd
      rw [collapse_cons_of_not_blank hd] at h
      rcases List.mem_cons.1 h with rfl | h
      · simp [hc] at hd
      · exact ih h

theorem spaced_collapse (t : Text) : Spaced (collapse t) := by
  refine ⟨fun c h hc => eq_space_of_mem_collapse h hc, ?_⟩
  induction t with
  | nil => decide
  | cons c t ih =>
    by_cases hc : isBlank c = true
    · by_cases ht : t.head?.any isBlank = true
      · simpa [collapse, hc, ht] using ih
      · rw [collapse, if_pos hc, if_neg ht]
        intro h
        rcases List.infix_cons_iff.1 h with h | h
        · cases t with
          | nil => revert h; decide
          | cons d t =>
            have hd : isBlank d = false := by simpa using ht
            rw [collapse_cons_of_not_blank hd] at h
            obtain ⟨rest, h⟩ := h
            obtain rfl : ' ' = d := (List.cons.inj (List.cons.inj h).2).1
            exact absurd isBlank_space (by simp [hd])
        · exact ih h
    · rw [Bool.not_eq_true] at hc
      rw [collapse_cons_of_not_blank hc]
      intro h
      rcases List.infix_cons_iff.1 h with ⟨rest, h⟩ | h
      · obtain rfl : ' ' = c := (List.cons.inj h).1
        exact absurd isBlank_space (by simp [hc])
      · exact ih h

/-- Text of words with single spaces between them. -/
structure Neat (t : Text) : Prop extends Spaced t, Trimmed t

theorem neat_nil : Neat [] := ⟨⟨by simp, by decide⟩, trimmed_nil⟩

theorem neat_squeeze (t : Text) : Neat (squeeze t) := by
  rw [squeeze_eq_trim_collapse]
  exact ⟨(spaced_collapse t).of_isInfix (trim_isInfix _), trimmed_trim _⟩

namespace Neat

theorem squeeze_eq (ht : Neat t) : squeeze t = t := by
  rw [squeeze_eq_trim_collapse, ht.toSpaced.collapse_eq, ht.toTrimmed.trim_eq]

theorem trim_of_isInfix (ht : Neat t) (h : a <:+: t) : Neat (trim a) :=
  ⟨ht.toSpaced.of_isInfix ((trim_isInfix a).trans h), trimmed_trim a⟩

end Neat

theorem neat_iff : Neat t ↔ squeeze t = t := ⟨Neat.squeeze_eq, fun h => h ▸ neat_squeeze t⟩

end HeaderApi.Text
