import HeaderApi.Proofs.Declaration.Grammar
import HeaderApi.Proofs.Pattern.Spelling

/-!
# What the parts of declarations spell

Where a text is cut into such parts in two ways, the characters that the parts leave out make the
two ways one.
-/

namespace HeaderApi.Declaration

open Pattern Text

variable {a b g s t u v w : Text} {c d : Char} {texts : List Text} {p q : Pattern}

/-- A space or nothing. -/
def IsGap (g : Text) : Prop := g = [] ∨ g = [' ']

theorem IsGap.eq_space_of_mem (hg : IsGap g) (hc : c ∈ g) : c = ' ' := by
  rcases hg with rfl | rfl <;> simp_all

theorem IsGap.notMem (hg : IsGap g) (hc : c ≠ ' ') : c ∉ g := fun h => hc (hg.eq_space_of_mem h)

theorem spells_gap : Spells gap s [] ↔ IsGap s := by
  constructor
  · rintro (⟨rfl, -⟩ | ⟨rfl, -⟩)
    · exact .inr rfl
    · exact .inl rfl
  · rintro (rfl | rfl)
    · exact .inr ⟨rfl, rfl⟩
    · exact .inl ⟨rfl, rfl⟩

theorem spells_many1 {allowed : Char → Bool} :
    Spells (.many1 allowed) s [] ↔ s ≠ [] ∧ ∀ c ∈ s, allowed c = true := by
  constructor
  · rintro ⟨_, b, rfl, _, _, -, ⟨⟨c, hc, rfl⟩, rfl⟩, ⟨hb, rfl⟩⟩
    exact ⟨by simp, List.forall_mem_cons.2 ⟨hc, hb⟩⟩
  · rintro ⟨hne, hs⟩
    obtain ⟨c, b, rfl⟩ := List.exists_cons_of_ne_nil hne
    rw [List.forall_mem_cons] at hs
    exact ⟨[c], b, rfl, [], [], rfl, ⟨⟨c, hs.1, rfl⟩, rfl⟩, ⟨hs.2, rfl⟩⟩

/-! ## Parameter lists -/

theorem spells_params : Spells params s texts ↔
    ∃ inner g, IsGap g ∧ ';' ∉ inner ∧ s = '(' :: inner ++ ')' :: g ++ [';'] ∧ texts = [inner] := by
  constructor
  · intro h
    obtain ⟨_, rfl, h₁⟩ := spells_literal_andThen.1 h
    obtain ⟨inner, _, _, rfl, rfl, hinner, h₂⟩ := (spells_capture_andThen rfl).1 h₁
    obtain ⟨_, rfl, h₃⟩ := spells_literal_andThen.1 h₂
    obtain ⟨g, _, rfl, hg, ⟨rfl, rfl⟩⟩ := (spells_silent_andThen rfl).1 h₃
    exact ⟨inner, g, spells_gap.1 hg, fun hmem => by simpa using hinner.1 _ hmem, by simp, rfl⟩
  · rintro ⟨inner, g, hg, hinner, rfl, rfl⟩
    refine ⟨['('], inner ++ ')' :: g ++ [';'], by simp, [], _, rfl, ⟨rfl, rfl⟩, ?_⟩
    refine (spells_capture_andThen rfl).2 ⟨inner, ')' :: g ++ [';'], [], by simp, rfl, ?_, ?_⟩
    · refine ⟨fun c hc => ?_, rfl⟩
      rw [decide_eq_true_eq]
      rintro rfl
      exact hinner hc
    · refine spells_literal_andThen.2 ⟨g ++ [';'], rfl, ?_⟩
      exact (spells_silent_andThen rfl).2 ⟨g, [';'], rfl, spells_gap.2 hg, rfl, rfl⟩

theorem IsGap.last (hg : IsGap g) : ∀ c ∈ g.getLast?, isWord c = false := fun c hc => by
  rw [hg.eq_space_of_mem (List.mem_of_getLast? hc)]
  decide

theorem last_word (hw : w ≠ [] ∧ ∀ c ∈ w, isWord c = true) (a : Text) :
    ∀ c ∈ (a ++ w).getLast?, c ≠ ' ' := by
  rw [List.getLast?_append_of_ne_nil a hw.1]
  rintro c hc rfl
  exact absurd (hw.2 _ (List.mem_of_getLast? hc)) (by decide)

/-- Where something else than a space stands in front of a gap, the gap can be told. -/
theorem gap_unique {g' : Text} (hg : IsGap g) (hg' : IsGap g') (ha : ∀ c ∈ a.getLast?, c ≠ ' ')
    (hb : ∀ c ∈ b.getLast?, c ≠ ' ') (h : a ++ g = b ++ g') : a = b ∧ g = g' := by
  have hspaces {g : Text} (hg : IsGap g) : ∀ c ∈ g, decide (c = ' ') = true := fun c hc =>
    decide_eq_true (hg.eq_space_of_mem hc)
  exact last_unique (hspaces hg) (hspaces hg') (fun c hc => decide_eq_false (ha c hc))
    (fun c hc => decide_eq_false (hb c hc)) h

/-- The parameters run to the parenthesis right before the first semicolon. -/
theorem params_unique {inner inner' g' : Text} (hinner : ';' ∉ inner) (hinner' : ';' ∉ inner')
    (hg : IsGap g) (hg' : IsGap g')
    (h : inner ++ ')' :: g ++ ';' :: t = inner' ++ ')' :: g' ++ ';' :: u) :
    inner = inner' ∧ t = u := by
  have hfirst {inner g : Text} (hinner : ';' ∉ inner) (hg : IsGap g) :
      ';' ∉ inner ++ ')' :: g := by
    simpa using ⟨hinner, hg.notMem (by decide)⟩
  obtain ⟨hcut, rfl⟩ := first_unique (hfirst hinner hg) (hfirst hinner' hg') h
  have hclose : ∀ inner : Text, ∀ c ∈ (inner ++ [')']).getLast?, c ≠ ' ' := by simp
  obtain ⟨heq, -⟩ := gap_unique hg hg' (hclose inner) (hclose inner') (by simpa using hcut)
  exact ⟨List.append_cancel_right heq, rfl⟩

/-! ## Tags, braces and names -/

theorem spells_tag : Spells tag s [] ↔ s = [] ∨
    ∃ w g, (w ≠ [] ∧ ∀ c ∈ w, isWord c = true) ∧ IsGap g ∧ s = w ++ g := by
  constructor
  · rintro (h | ⟨rfl, -⟩)
    · obtain ⟨w, g, rfl, hw, hg⟩ := (spells_silent_andThen rfl).1 h
      exact .inr ⟨w, g, spells_many1.1 hw, spells_gap.1 hg, rfl⟩
    · exact .inl rfl
  · rintro (rfl | ⟨w, g, hw, hg, rfl⟩)
    · exact .inr ⟨rfl, rfl⟩
    · exact .inl ((spells_silent_andThen rfl).2 ⟨w, g, rfl, spells_many1.2 hw, spells_gap.2 hg⟩)

theorem spells_braced : Spells braced s [] ↔ '\x7b' ∉ s ∧ '\x7d' ∉ s := by
  constructor
  · intro h
    exact ⟨h.notMem_of_avoids (by decide), h.notMem_of_avoids (by decide)⟩
  · rintro ⟨hopen, hclose⟩
    refine ⟨fun c hc => ?_, rfl⟩
    simp only [Bool.and_eq_true, decide_eq_true_eq]
    exact ⟨fun h => hopen (h ▸ hc), fun h => hclose (h ▸ hc)⟩

/-- Text with one pair of braces can be cut at it in one way only. -/
theorem braces_unique {front front' inner inner' rest rest' : Text} (hfront : '\x7b' ∉ front)
    (hfront' : '\x7b' ∉ front') (hinner : '\x7d' ∉ inner) (hinner' : '\x7d' ∉ inner')
    (h : front ++ '\x7b' :: (inner ++ '\x7d' :: rest) =
      front' ++ '\x7b' :: (inner' ++ '\x7d' :: rest')) :
    front = front' ∧ inner = inner' ∧ rest = rest' := by
  obtain ⟨hfront, h⟩ := first_unique hfront hfront' h
  exact ⟨hfront, first_unique hinner hinner' h⟩

theorem isWord_typeName {name : Text} (hname : ∀ c ∈ name, isWord c = true) :
    ∀ c ∈ name ++ "_t".toList, isWord c = true := by
  intro c hc
  rcases List.mem_append.1 hc with hc | hc
  · exact hname c hc
  · exact (show ∀ c ∈ "_t".toList, isWord c = true by decide) c hc

/-- The name at the end of a declaration. -/
theorem name_unique {name n g' : Text} (hname : ∀ c ∈ name, isWord c = true)
    (hn : n ≠ [] ∧ ∀ c ∈ n, isWord c = true) (hg : IsGap g) (hg' : IsGap g')
    (h : ' ' :: name ++ [';'] = g ++ n ++ g' ++ ';' :: u) : name = n ∧ u = [] := by
  have hsemi : ';' ∉ ' ' :: name := by
    have : ';' ∉ name := fun h => absurd (hname _ h) (by decide)
    simpa using this
  have hsemi' : ';' ∉ g ++ n ++ g' := by
    have : ';' ∉ n := fun h => absurd (hn.2 _ h) (by decide)
    simp [this, hg.notMem, hg'.notMem]
  obtain ⟨heq, rfl⟩ := first_unique hsemi hsemi' h
  have hspace : ' ' ∉ name := fun h => absurd (hname _ h) (by decide)
  rcases hg with rfl | rfl
  · obtain ⟨c, n, rfl⟩ := List.exists_cons_of_ne_nil hn.1
    have hc : isWord c = true := hn.2 c (by simp)
    rw [← (List.cons.inj heq).1] at hc
    exact absurd hc (by decide)
  · rcases hg' with rfl | rfl
    · simpa using heq
    · exfalso
      rw [(List.cons.inj heq).2] at hspace
      simp at hspace

/-! ## Where a match can start -/

/-- A match that cannot take a character, and must take one that stands behind it only, starts
behind it. -/
theorem behind_of_avoids {x y : Text} (hs : Spells p s texts) (hc : p.avoids c = true)
    (hd : p.demands d = true) (hdx : d ∉ x) (h : x ++ c :: y = a ++ s ++ u) :
    ∃ b, y = b ++ s ++ u := by
  rw [List.append_assoc] at h
  rcases append_eq_append_cons h.symm with ⟨z, rfl, hz⟩ | ⟨b, -, rfl⟩
  · rcases append_eq_append_cons hz with ⟨w, rfl, -⟩ | ⟨w, rfl, -⟩
    · exact absurd (hs.mem_of_demands hd) (by simp_all)
    · exact absurd (hs.notMem_of_avoids hc) (by simp)
  · exact ⟨b, by rw [List.append_assoc]⟩

/-- A text of one word and a space starts with the word or not at all. -/
theorem tag_cases {tag : Option Text} (htag : ∀ w ∈ tag, ∀ c ∈ w, isWord c = true)
    (ha : wordStart a.getLast? = true) (hs : s ≠ []) (h : Grammar.tagText tag = a ++ s) :
    ∃ w ∈ tag, s = w ++ [' '] := by
  cases tag with
  | none => exact absurd (List.append_eq_nil_iff.1 h.symm).2 hs
  | some w =>
    rcases wordStart_cases (htag w rfl) ha h with rfl | ⟨x, -, hx, -⟩
    · exact ⟨w, rfl, h.symm⟩
    · exact absurd (List.append_eq_nil_iff.1 hx.symm).2 hs

/-- Two words and a tag, each with a space behind it, have three places where matches may start. -/
theorem front_cases {k : Text} {tag : Option Text} (hk : ∀ c ∈ k, isWord c = true)
    (hw : ∀ c ∈ w, isWord c = true) (htag : ∀ w ∈ tag, ∀ c ∈ w, isWord c = true)
    (ha : wordStart a.getLast? = true) (hs : s ≠ [])
    (h : k ++ ' ' :: (w ++ ' ' :: Grammar.tagText tag) = a ++ s) :
    s = k ++ ' ' :: (w ++ ' ' :: Grammar.tagText tag) ∨ s = w ++ ' ' :: Grammar.tagText tag ∨
      ∃ v ∈ tag, s = v ++ [' '] := by
  rcases wordStart_cases hk ha h with rfl | ⟨x, -, hx, hxa⟩
  · exact .inl h.symm
  · rcases wordStart_cases hw hxa hx with rfl | ⟨y, -, hy, hya⟩
    · exact .inr (.inl hx.symm)
    · exact .inr (.inr (tag_cases htag hya hs hy))

end HeaderApi.Declaration
