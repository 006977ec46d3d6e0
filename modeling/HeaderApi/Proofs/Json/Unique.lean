import HeaderApi.Proofs.Json.Layout

/-!
# Unique reading

A value that is written on one line can be read back in one way only, whatever follows it.  Strings
end at the first quote mark that is not escaped, lists end at the first bracket in the place of a
comma, and the first character of a value tells its kind.
-/

namespace HeaderApi

namespace Json

variable {α β : Type}

/-- Whatever follows, what begins with `f a` begins with no other `f b`. -/
def ReadsAs (f : α → Text) (a : α) : Prop :=
  ∀ ⦃b r s⦄, f a ++ r = f b ++ s → a = b ∧ r = s

/-- No `f a` is empty or begins with `c`. -/
def Avoids (c : Char) (f : α → Text) : Prop :=
  ∀ a r s, f a ++ r ≠ c :: s

theorem Avoids.of_eq_cons {c : Char} {f : α → Text} (h : ∀ a, ∃ d t, f a = d :: t ∧ d ≠ c) :
    Avoids c f := by
  intro a r s heq
  obtain ⟨d, t, hcons, hne⟩ := h a
  rw [hcons, List.cons_append] at heq
  exact hne (List.cons.inj heq).1

namespace ReadsAs

variable {f : α → Text} {g : β → Text} {a : α} {b : β} {items : List α} {closing : Char}

theorem append (hf : ReadsAs f a) (hg : ReadsAs g b) :
    ReadsAs (fun p : α × β => f p.1 ++ g p.2) (a, b) := by
  rintro ⟨a', b'⟩ r s h
  simp only [List.append_assoc] at h
  obtain ⟨rfl, hrest⟩ := hf h
  obtain ⟨rfl, rfl⟩ := hg hrest
  exact ⟨rfl, rfl⟩

theorem lead (lead : Text) (hf : ReadsAs f a) : ReadsAs (fun a => lead ++ f a) a := by
  intro a' r s h
  simp only [List.append_assoc] at h
  exact hf (List.append_cancel_left h)

/-- A list ends where its closing mark stands in the place of an item. -/
theorem flatMap (h : ∀ a ∈ items, ReadsAs f a) (hclosing : Avoids closing f) :
    ReadsAs (fun items => items.flatMap f ++ [closing]) items := by
  intro others r s heq
  simp only [List.append_assoc, List.singleton_append] at heq
  induction items generalizing others with
  | nil =>
    cases others with
    | nil => exact ⟨rfl, (List.cons.inj heq).2⟩
    | cons b others =>
      rw [List.flatMap_cons, List.append_assoc] at heq
      exact absurd heq.symm (hclosing b _ _)
  | cons a items ih =>
    rw [List.forall_mem_cons] at h
    rw [List.flatMap_cons, List.append_assoc] at heq
    cases others with
    | nil => exact absurd heq (hclosing a _ _)
    | cons b others =>
      rw [List.flatMap_cons, List.append_assoc] at heq
      obtain ⟨rfl, hrest⟩ := h.1 heq
      obtain ⟨rfl, rfl⟩ := ih h.2 hrest
      exact ⟨rfl, rfl⟩

theorem listing (h : ∀ a ∈ items, ReadsAs f a) (hclosing : Avoids closing f)
    (hcomma : ',' ≠ closing) : ReadsAs (fun items => listing f items ++ [closing]) items := by
  intro others r s heq
  cases items with
  | nil =>
    cases others with
    | nil => exact ⟨rfl, (List.cons.inj heq).2⟩
    | cons b others =>
      simp only [Json.listing, List.append_assoc] at heq
      exact absurd heq.symm (hclosing b _ _)
  | cons a items =>
    rw [List.forall_mem_cons] at h
    cases others with
    | nil =>
      simp only [Json.listing, List.append_assoc] at heq
      exact absurd heq (hclosing a _ _)
    | cons b others =>
      have hitems : ReadsAs (fun items => (items.flatMap fun b => ",".toList ++ f b) ++ [closing])
          items :=
        flatMap (fun a ha => (h.2 a ha).lead _) (.of_eq_cons fun a => ⟨',', f a, rfl, hcomma⟩)
      simp only [Json.listing, List.append_assoc] at heq
      obtain ⟨rfl, hrest⟩ := h.1 heq
      obtain ⟨rfl, rfl⟩ := hitems (by simpa only [List.append_assoc] using hrest)
      exact ⟨rfl, rfl⟩

end ReadsAs

/-! ## Strings -/

theorem escapedChar_eq_cons (c : Char) :
    ∃ d t, escapedChar c = d :: t ∧ d ≠ '"' ∧ (d = '\\' ↔ c ∈ marks) := by
  by_cases h : c ∈ marks
  · have : ∀ d ∈ marks, (escapedChar d).head? = some '\\' := by decide +kernel
    obtain ⟨t, ht⟩ := List.head?_eq_some_iff.1 (this c h)
    exact ⟨'\\', t, ht, by decide, by simp [h]⟩
  · refine ⟨c, [], escapedChar_of_notMem_marks h, ?_, ?_⟩
    · rintro rfl
      exact h (by decide)
    · refine ⟨?_, fun hc => absurd hc h⟩
      rintro rfl
      exact absurd (by decide) h

/-- No escape begins another one. -/
theorem readsAs_escapedChar (c : Char) : ReadsAs escapedChar c := by
  intro d r s h
  have heads : c ∈ marks ↔ d ∈ marks := by
    obtain ⟨x, t, hc, -, hx⟩ := escapedChar_eq_cons c
    obtain ⟨y, u, hd, -, hy⟩ := escapedChar_eq_cons d
    rw [hc, hd, List.cons_append, List.cons_append] at h
    rw [← hx, ← hy, (List.cons.inj h).1]
  by_cases hc : c ∈ marks
  · have codes : ∀ x ∈ marks, ∀ y ∈ marks, escapedChar x <+: escapedChar y → x = y := by
      decide +kernel
    have hd := heads.1 hc
    have hcd : c = d := by
      have hprefix : escapedChar c <+: escapedChar d ++ s := h ▸ List.prefix_append _ _
      rcases List.prefix_or_prefix_of_prefix hprefix (List.prefix_append _ _) with hp | hp
      · exact codes c hc d hd hp
      · exact (codes d hd c hc hp).symm
    subst hcd
    exact ⟨rfl, List.append_cancel_left h⟩
  · have hd : d ∉ marks := mt heads.2 hc
    rw [escapedChar_of_notMem_marks hc, escapedChar_of_notMem_marks hd] at h
    exact List.cons.inj h

theorem readsAs_quote (t : Text) : ReadsAs quote t := by
  have hitems : ReadsAs (fun s : Text => s.flatMap escapedChar ++ ['"']) t :=
    .flatMap (fun c _ => readsAs_escapedChar c) <| .of_eq_cons fun c =>
      have ⟨d, u, hcons, hne, _⟩ := escapedChar_eq_cons c
      ⟨d, u, hcons, hne⟩
  intro t' r s h
  exact hitems.lead ['"'] (by simpa [quote] using h)

/-! ## Values -/

/-- The character that a value begins with. -/
def firstChar : Json → Char
  | .bool b => if b then 't' else 'f'
  | .str _ => '"'
  | .arr _ => '['
  | .obj _ => '\x7b'

theorem write_eq_cons (l : Layout) (n : Nat) (v : Json) : ∃ t, write l n v = v.firstChar :: t := by
  cases v with
  | bool b => cases b <;> exact ⟨_, rfl⟩
  | str s => exact ⟨_, rfl⟩
  | arr items => cases items <;> exact ⟨_, rfl⟩
  | obj fields => cases fields <;> exact ⟨_, rfl⟩

theorem firstChar_eq_of_write_append {l : Layout} {n : Nat} {v w : Json} {r s : Text}
    (h : write l n v ++ r = write l n w ++ s) : v.firstChar = w.firstChar := by
  obtain ⟨t, ht⟩ := write_eq_cons l n v
  obtain ⟨u, hu⟩ := write_eq_cons l n w
  rw [ht, hu, List.cons_append, List.cons_append] at h
  exact (List.cons.inj h).1

theorem firstChar_ne_bracket (v : Json) : v.firstChar ≠ ']' := by
  cases v <;> grind [firstChar]

theorem avoids_write (l : Layout) (n : Nat) : Avoids ']' (write l n) :=
  .of_eq_cons fun v =>
    have ⟨t, ht⟩ := write_eq_cons l n v
    ⟨v.firstChar, t, ht, v.firstChar_ne_bracket⟩

theorem avoids_writeField (l : Layout) (n : Nat) : Avoids '\x7d' (writeField l n) :=
  .of_eq_cons fun (key, v) => ⟨'"', _, rfl, by decide⟩

theorem readsAs_writeField {n : Nat} {v : Json} (h : ReadsAs (write .compact n) v) (key : Text) :
    ReadsAs (writeField .compact n) (key, v) := by
  rintro ⟨key', w⟩ r s heq
  have hfield := (readsAs_quote key).append (h.lead ":".toList)
  exact hfield (by simpa [writeField, Layout.compact] using heq)

/-- A value on one line is read back in one way, whatever follows it. -/
theorem readsAs_write (n : Nat) (v : Json) : ReadsAs (write .compact n) v := by
  induction v generalizing n with
  | bool b =>
    intro w r s h
    have hfirst := firstChar_eq_of_write_append h
    cases w with
    | bool c =>
      obtain rfl : b = c := by grind [firstChar]
      exact ⟨rfl, List.append_cancel_left h⟩
    | str _ | arr _ | obj _ => grind [firstChar]
  | str t =>
    intro w r s h
    have hfirst := firstChar_eq_of_write_append h
    cases w with
    | str u =>
      obtain ⟨rfl, rfl⟩ := readsAs_quote t h
      exact ⟨rfl, rfl⟩
    | bool _ | arr _ | obj _ => grind [firstChar]
  | arr items ih =>
    intro w r s h
    have hfirst := firstChar_eq_of_write_append h
    cases w with
    | arr others =>
      have hitem : ∀ v ∈ items, ReadsAs (write .compact (n + 1)) v := fun v hv => ih v hv _
      have hitems := (ReadsAs.listing hitem (avoids_write _ _) (by decide)).lead "[".toList
      rw [write_compact_arr, write_compact_arr] at h
      obtain ⟨rfl, rfl⟩ := hitems (by simpa using h)
      exact ⟨rfl, rfl⟩
    | bool _ | str _ | obj _ => grind [firstChar]
  | obj fields ih =>
    intro w r s h
    have hfirst := firstChar_eq_of_write_append h
    cases w with
    | obj others =>
      have hfield : ∀ f ∈ fields, ReadsAs (writeField .compact (n + 1)) f := fun (key, _) hf =>
        readsAs_writeField (ih _ hf _) key
      have hfields := (ReadsAs.listing hfield (avoids_writeField _ _) (by decide)).lead
        "\x7b".toList
      rw [write_compact_obj, write_compact_obj] at h
      obtain ⟨rfl, rfl⟩ := hfields (by simpa using h)
      exact ⟨rfl, rfl⟩
    | bool _ | str _ | arr _ => grind [firstChar]

/-- Two values that are rendered alike, with any indentations, are the same value. -/
theorem eq_of_render_eq {i j : Int} {v w : Json} (h : v.render i = w.render j) : v = w := by
  have hcompact : write .compact 0 v ++ [] = write .compact 0 w ++ [] := by
    rw [← dropSpacing_render i v, ← dropSpacing_render j w, h]
  exact (readsAs_write 0 v hcompact).1

end Json

end HeaderApi
