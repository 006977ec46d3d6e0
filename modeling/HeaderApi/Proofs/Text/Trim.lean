import HeaderApi.Text.Blank
import Mathlib.Data.List.DropRight

/-! # Trimming -/

namespace HeaderApi.Text

variable {a b t : Text} {c : Char}

/-! What is said about each character of a text is decided by going through the text, and not
through all characters that there are. -/

instance (priority := high) decidableForallMem (p : Char → Prop) [DecidablePred p] (t : Text) :
    Decidable (∀ c ∈ t, p c) := List.decidableBAll p t

instance (priority := high) decidableForallMemOption (p : Char → Prop) [DecidablePred p]
    (o : Option Char) : Decidable (∀ c ∈ o, p c) := Option.decidableForallMem o

/-- The text has no blank at its ends. -/
structure Trimmed (t : Text) : Prop where
  head : ∀ c ∈ t.head?, isBlank c = false
  last : ∀ c ∈ t.getLast?, isBlank c = false

theorem trimmed_nil : Trimmed [] := ⟨by simp, by simp⟩

theorem trimEnd_eq_rdropWhile (t : Text) : trimEnd t = t.rdropWhile isBlank := rfl

theorem trimStart_suffix (t : Text) : trimStart t <:+ t := List.dropWhile_suffix isBlank

theorem trimEnd_isPrefix (t : Text) : trimEnd t <+: t := List.rdropWhile_prefix isBlank t

theorem trim_isInfix (t : Text) : trim t <:+: t :=
  (trimEnd_isPrefix _).isInfix.trans (trimStart_suffix t).isInfix

theorem mem_of_mem_trim (h : c ∈ trim t) : c ∈ t := (trim_isInfix t).mem h

theorem trimStart_append_cons (hc : isBlank c = false) (a b : Text) :
    trimStart (a ++ c :: b) = trimStart a ++ c :: b := by
  rw [trimStart, List.dropWhile_append]
  split
  next h =>
    rw [trimStart, List.isEmpty_iff.1 h, List.nil_append, List.dropWhile_cons_of_neg (by simp [hc])]
  next => rfl

theorem trimEnd_append_cons (hc : isBlank c = false) (a b : Text) :
    trimEnd (a ++ c :: b) = a ++ c :: trimEnd b := by
  have h := trimStart_append_cons hc b.reverse a.reverse
  simp only [trimStart] at h
  simp [trimEnd, h]

/-- Trimming happens on either side of a character that is not blank. -/
theorem trim_append_cons (hc : isBlank c = false) (a b : Text) :
    trim (a ++ c :: b) = trimStart a ++ c :: trimEnd b := by
  rw [trim, trimStart_append_cons hc, trimEnd_append_cons hc]

theorem mem_trim_of_mem (hc : isBlank c = false) (h : c ∈ t) : c ∈ trim t := by
  obtain ⟨a, b, rfl⟩ := List.append_of_mem h
  rw [trim_append_cons hc]
  exact List.mem_append_right _ List.mem_cons_self

theorem trimStart_append_of_blank (ha : ∀ c ∈ a, isBlank c = true) (t : Text) :
    trimStart (a ++ t) = trimStart t := List.dropWhile_append_of_pos ha

theorem trim_append_of_blank (ha : ∀ c ∈ a, isBlank c = true) (t : Text) :
    trim (a ++ t) = trim t := by
  rw [trim, trim, trimStart_append_of_blank ha]

theorem trimStart_cons_of_blank (hc : isBlank c = true) (t : Text) :
    trimStart (c :: t) = trimStart t := List.dropWhile_cons_of_pos hc

/-- A blank behind a text is kept, unless there are only blanks in front of it. -/
theorem trimStart_concat_of_blank (hc : isBlank c = true) (t : Text) :
    trimStart (t ++ [c]) = if trimStart t = [] then [] else trimStart t ++ [c] := by
  rw [trimStart, List.dropWhile_append, ← trimStart.eq_1 t]
  by_cases h : trimStart t = []
  · rw [if_pos h, if_pos (List.isEmpty_iff.2 h)]
    exact List.dropWhile_cons_of_pos hc
  · rw [if_neg h, if_neg (mt List.isEmpty_iff.1 h)]

theorem head?_trimStart_concat (hc : isBlank c = true) (t : Text) :
    (trimStart (t ++ [c])).head? = (trimStart t).head? := by
  rw [trimStart_concat_of_blank hc]
  split
  next h => rw [h]
  next h => rw [List.head?_append_of_ne_nil _ h]

theorem trimEnd_concat_of_blank (hc : isBlank c = true) (t : Text) :
    trimEnd (t ++ [c]) = trimEnd t := List.rdropWhile_concat_pos _ _ _ hc

theorem trim_cons_of_blank (hc : isBlank c = true) (t : Text) : trim (c :: t) = trim t := by
  rw [trim, trim, trimStart_cons_of_blank hc]

theorem trim_concat_of_blank (hc : isBlank c = true) (t : Text) : trim (t ++ [c]) = trim t := by
  rw [trim, trim, trimStart, trimStart, List.dropWhile_append]
  split
  next h => simp [List.isEmpty_iff.1 h, hc, trimEnd]
  next => exact trimEnd_concat_of_blank hc _

namespace Trimmed

theorem trimStart_eq (h : Trimmed t) : trimStart t = t := by
  cases t with
  | nil => rfl
  | cons c t => exact List.dropWhile_cons_of_neg (by simp [h.head c rfl])

theorem trimEnd_eq (h : Trimmed t) : trimEnd t = t := by
  rw [trimEnd_eq_rdropWhile, List.rdropWhile_eq_self_iff]
  intro hne
  simp [h.last _ (List.getLast?_eq_some_getLast hne)]

theorem trim_eq (h : Trimmed t) : trim t = t := by rw [trim, h.trimStart_eq, h.trimEnd_eq]

theorem append (ha : Trimmed a) (hb : Trimmed b) (hane : a ≠ []) (hbne : b ≠ []) (gap : Text) :
    Trimmed (a ++ gap ++ b) := by
  refine ⟨fun c hc => ha.head c ?_, fun c hc => hb.last c ?_⟩
  · rwa [List.append_assoc, List.head?_append_of_ne_nil a hane] at hc
  · rwa [List.getLast?_append_of_ne_nil _ hbne] at hc

end Trimmed

theorem head_trimStart (hc : c ∈ (trimStart t).head?) : isBlank c = false := by
  have h := List.head?_dropWhile_not isBlank t
  rw [trimStart] at hc
  rw [hc] at h
  simpa using h

theorem last_trimEnd (hc : c ∈ (trimEnd t).getLast?) : isBlank c = false := by
  rw [trimEnd, List.getLast?_reverse] at hc
  exact head_trimStart hc

theorem trimmed_trim (t : Text) : Trimmed (trim t) := by
  refine ⟨fun c hc => head_trimStart (t := t) ?_, fun c hc => last_trimEnd hc⟩
  obtain ⟨rest, hrest⟩ := trimEnd_isPrefix (trimStart t)
  rw [← hrest, List.head?_append]
  simp only [Option.mem_def] at hc ⊢
  rw [trim] at hc
  rw [hc, Option.some_or]

theorem trimmed_iff : Trimmed t ↔ trim t = t :=
  ⟨Trimmed.trim_eq, fun h => h ▸ trimmed_trim t⟩

@[simp] theorem trim_trimStart (t : Text) : trim (trimStart t) = trim t := by
  rw [trim, trim, trimStart, trimStart, List.dropWhile_idempotent]

@[simp] theorem trim_trimEnd (t : Text) : trim (trimEnd t) = trim t := by
  induction t using List.reverseRecOn with
  | nil => rfl
  | append_singleton t c ih =>
    by_cases hc : isBlank c = true
    · rw [trimEnd_concat_of_blank hc, ih, trim_concat_of_blank hc]
    · rw [trimEnd_append_cons (by simpa using hc)]
      rfl

end HeaderApi.Text
