import HeaderApi.Proofs.Text.Trim
import HeaderApi.Text.Word

/-! # Word characters and blanks -/

namespace HeaderApi.Text

variable {c : Char} {head t word : Text}

theorem toNat_lt_of_isLowerName (h : isLowerName c = true) : c.toNat < 128 := by
  rw [isLowerName, Bool.or_eq_true, Bool.or_eq_true, decide_eq_true_eq] at h
  rcases h with (h | h) | rfl
  · change (decide (c.val ≥ 'a'.val) && decide (c.val ≤ 'z'.val)) = true at h
    rw [Bool.and_eq_true, decide_eq_true_eq, decide_eq_true_eq] at h
    exact Nat.lt_of_le_of_lt h.2 (by decide)
  · change (decide (c.val ≥ '0'.val) && decide (c.val ≤ '9'.val)) = true at h
    rw [Bool.and_eq_true, decide_eq_true_eq, decide_eq_true_eq] at h
    exact Nat.lt_of_le_of_lt h.2 (by decide)
  · decide

theorem isWord_of_isLowerName (h : isLowerName c = true) : isWord c = true := by
  rw [isWord, if_pos (toNat_lt_of_isLowerName h)]
  rw [isLowerName, Bool.or_eq_true, Bool.or_eq_true] at h
  change ((c.isUpper || c.isLower) || c.isDigit || decide (c = '_')) = true
  simp only [Bool.or_eq_true]
  tauto

/-- No range of blanks meets a range of word characters. -/
theorem isBlank_of_isWord (h : isWord c = true) : isBlank c = false := by
  have hascii : ∀ n < 128, isWord (Char.ofNat n) = true → isBlank (Char.ofNat n) = false := by
    decide +kernel
  have hdisjoint : ∀ r ∈ blankRanges, ∀ w ∈ wordRanges, r.2 < w.1 ∨ w.2 < r.1 := by
    decide +kernel
  by_cases hc : c.toNat < 128
  · have := hascii c.toNat hc
    rw [Char.ofNat_toNat] at this
    exact this h
  · rw [isWord, if_neg hc, CodeRanges.has_iff] at h
    obtain ⟨w, hw, hword⟩ := h
    rw [isBlank, Bool.eq_false_iff]
    intro hblank
    obtain ⟨r, hr, hblank⟩ := CodeRanges.has_iff.1 hblank
    have := hdisjoint r hr w hw
    omega

/-! ## The last run of a text -/

variable {a b u v : Text} {p : Char → Bool}

theorem rdropWhile_append (hu : ∀ c ∈ u, p c = true) (ha : ∀ c ∈ a.getLast?, p c = false) :
    (a ++ u).rdropWhile p = a := by
  induction u using List.reverseRecOn with
  | nil =>
    rw [List.append_nil, List.rdropWhile_eq_self_iff]
    intro hne
    simp [ha _ (List.getLast?_eq_some_getLast hne)]
  | append_singleton u c ih =>
    rw [List.forall_mem_append] at hu
    rw [← List.append_assoc, List.rdropWhile_concat_pos _ _ _ (hu.2 c (by simp)), ih hu.1]

/-- A text has one last run of characters of a kind. -/
theorem last_unique (hu : ∀ c ∈ u, p c = true) (hv : ∀ c ∈ v, p c = true)
    (ha : ∀ c ∈ a.getLast?, p c = false) (hb : ∀ c ∈ b.getLast?, p c = false)
    (h : a ++ u = b ++ v) : a = b ∧ u = v := by
  have hab : a = b := by rw [← rdropWhile_append hu ha, h, rdropWhile_append hv hb]
  exact ⟨hab, List.append_cancel_left (hab ▸ h)⟩

theorem splitLastWord_eq (hword : ∀ c ∈ word, isWord c = true)
    (hhead : ∀ c ∈ head.getLast?, isWord c = false) :
    splitLastWord (head ++ word) = (head, word) := by
  have hrev : ∀ c ∈ word.reverse, isWord c = true := by simpa using hword
  have hhead' : ∀ c ∈ head.reverse.head?, isWord c = false := by simpa using hhead
  rw [splitLastWord, List.reverse_append, List.dropWhile_append_of_pos hrev,
    List.takeWhile_append_of_pos hrev]
  cases hr : head.reverse with
  | nil => simp_all
  | cons d r =>
    have hd : isWord d = false := hhead' d (by simp [hr])
    have : head = (d :: r).reverse := by rw [← hr, List.reverse_reverse]
    simp [hd, this]

end HeaderApi.Text
