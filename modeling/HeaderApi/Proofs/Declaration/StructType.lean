import HeaderApi.Proofs.Declaration.Enum

/-!
# Struct types of the grammar are found

A forward declaration has no brace, and one with members has one pair of braces, behind its tag.
-/

namespace HeaderApi.StructType

open Declaration Grammar Pattern Text

variable {a g s t u : Text} {c : Char} {texts : List Text}

/-! ## The patterns -/

theorem spells_typeName {q : Pattern} : Spells (.andThen typeName q) s texts ↔
    ∃ n b bs, (n ≠ [] ∧ ∀ c ∈ n, isWord c = true) ∧ s = n ++ "_t".toList ++ b ∧
      texts = (n ++ "_t".toList) :: bs ∧ Spells q b bs := by
  constructor
  · intro h
    obtain ⟨_, b, bs, rfl, rfl, hname, hb⟩ := (spells_capture_andThen rfl).1 h
    obtain ⟨n, _, rfl, hn, ⟨rfl, -⟩⟩ := (spells_silent_andThen rfl).1 hname
    exact ⟨n, b, bs, spells_many1.1 hn, rfl, rfl, hb⟩
  · rintro ⟨n, b, bs, hn, rfl, rfl, hb⟩
    refine (spells_capture_andThen rfl).2 ⟨_, b, bs, rfl, rfl, ?_, hb⟩
    exact (spells_silent_andThen rfl).2 ⟨n, _, rfl, spells_many1.2 hn, ⟨rfl, rfl⟩⟩

theorem spells_forwardPattern : Spells forwardPattern s texts ↔
    ∃ w n g, (w ≠ [] ∧ ∀ c ∈ w, isWord c = true) ∧ (n ≠ [] ∧ ∀ c ∈ n, isWord c = true) ∧
      IsGap g ∧ s = "typedef struct ".toList ++ w ++ ' ' :: (n ++ "_t".toList ++ g ++ [';']) ∧
      texts = [n ++ "_t".toList] := by
  constructor
  · intro h
    obtain ⟨_, rfl, h₁⟩ := spells_literal_andThen.1 h
    obtain ⟨w, _, rfl, hw, h₂⟩ := (spells_silent_andThen rfl).1 h₁
    obtain ⟨_, rfl, h₃⟩ := spells_literal_andThen.1 h₂
    obtain ⟨n, _, _, hn, rfl, rfl, h₄⟩ := spells_typeName.1 h₃
    obtain ⟨g, _, rfl, hg, ⟨rfl, rfl⟩⟩ := (spells_silent_andThen rfl).1 h₄
    exact ⟨w, n, g, spells_many1.1 hw, hn, spells_gap.1 hg, by simp, rfl⟩
  · rintro ⟨w, n, g, hw, hn, hg, rfl, rfl⟩
    have h₀ : Spells (.literal ";".toList) [';'] [] := ⟨rfl, rfl⟩
    have h₁ := (spells_silent_andThen (p := gap) rfl).2 ⟨g, _, rfl, spells_gap.2 hg, h₀⟩
    have h₂ := spells_typeName.2 ⟨n, _, _, hn, rfl, rfl, h₁⟩
    have h₃ := spells_literal_andThen.2 ⟨_, (rfl : _ = " ".toList ++ _), h₂⟩
    have h₄ := (spells_silent_andThen (p := word) rfl).2 ⟨w, _, rfl, spells_many1.2 hw, h₃⟩
    have h₅ := spells_literal_andThen.2 ⟨_, (rfl : _ = "typedef struct ".toList ++ _), h₄⟩
    exact (congrArg (Spells forwardPattern · [n ++ "_t".toList]) (by simp)).mpr h₅

/-- What stands in front of the braces of a struct. -/
def Opening (s : Text) : Prop :=
  ∃ g t, IsGap g ∧ Spells tag t [] ∧ s = "typedef struct".toList ++ g ++ t

theorem Opening.notMem (h : Opening s) : '\x7b' ∉ s := by
  obtain ⟨g, t, hg, ht, rfl⟩ := h
  have htag : '\x7b' ∉ t := ht.notMem_of_avoids (by decide)
  simp only [List.mem_append, not_or]
  exact ⟨⟨by decide, hg.notMem (by decide)⟩, htag⟩

theorem spells_bodyPattern : Spells bodyPattern s texts ↔
    ∃ front body g n g', Opening front ∧ ('\x7b' ∉ body ∧ '\x7d' ∉ body) ∧ IsGap g ∧
      (n ≠ [] ∧ ∀ c ∈ n, isWord c = true) ∧ IsGap g' ∧
      s = front ++ '\x7b' :: (body ++ '\x7d' :: (g ++ (n ++ "_t".toList) ++ g' ++ [';'])) ∧
      texts = [n ++ "_t".toList] := by
  constructor
  · intro h
    obtain ⟨_, rfl, h₁⟩ := spells_literal_andThen.1 h
    obtain ⟨g₀, _, rfl, hg₀, h₂⟩ := (spells_silent_andThen rfl).1 h₁
    obtain ⟨t, _, rfl, ht, h₃⟩ := (spells_silent_andThen rfl).1 h₂
    obtain ⟨_, rfl, h₄⟩ := spells_literal_andThen.1 h₃
    obtain ⟨body, _, rfl, hbody, h₅⟩ := (spells_silent_andThen rfl).1 h₄
    obtain ⟨_, rfl, h₆⟩ := spells_literal_andThen.1 h₅
    obtain ⟨g, _, rfl, hg, h₇⟩ := (spells_silent_andThen rfl).1 h₆
    obtain ⟨n, _, _, hn, rfl, rfl, h₈⟩ := spells_typeName.1 h₇
    obtain ⟨g', _, rfl, hg', ⟨rfl, rfl⟩⟩ := (spells_silent_andThen rfl).1 h₈
    exact ⟨"typedef struct".toList ++ g₀ ++ t, body, g, n, g', ⟨g₀, t, spells_gap.1 hg₀, ht, rfl⟩,
      spells_braced.1 hbody, spells_gap.1 hg, hn, spells_gap.1 hg', by simp, rfl⟩
  · rintro ⟨_, body, g, n, g', ⟨g₀, t, hg₀, ht, rfl⟩, hbody, hg, hn, hg', rfl, rfl⟩
    have h₀ : Spells (.literal ";".toList) [';'] [] := ⟨rfl, rfl⟩
    have h₁ := (spells_silent_andThen (p := gap) rfl).2 ⟨g', _, rfl, spells_gap.2 hg', h₀⟩
    have h₂ := spells_typeName.2 ⟨n, _, _, hn, rfl, rfl, h₁⟩
    have h₃ := (spells_silent_andThen (p := gap) rfl).2 ⟨g, _, rfl, spells_gap.2 hg, h₂⟩
    have h₄ := spells_literal_andThen.2 ⟨_, (rfl : _ = "\x7d".toList ++ _), h₃⟩
    have h₅ := (spells_silent_andThen (p := braced) rfl).2 ⟨body, _, rfl, spells_braced.2 hbody, h₄⟩
    have h₆ := spells_literal_andThen.2 ⟨_, (rfl : _ = "\x7b".toList ++ _), h₅⟩
    have h₇ := (spells_silent_andThen (p := tag) rfl).2 ⟨t, _, rfl, ht, h₆⟩
    have h₈ := (spells_silent_andThen (p := gap) rfl).2 ⟨g₀, _, rfl, spells_gap.2 hg₀, h₇⟩
    have h₉ := spells_literal_andThen.2 ⟨_, (rfl : _ = "typedef struct".toList ++ _), h₈⟩
    exact (congrArg (Spells bodyPattern · [n ++ "_t".toList]) (by simp)).mpr h₉

/-! ## Names -/

/-- A text in which one of the two patterns occurs once, and the other one not at all, declares one
name. -/
theorem names_eq_singleton {cuts : List Cut} {name : Text} (htexts : cuts.map Cut.text = [name])
    (h : (forwardPattern.captures wordStart t = [cuts] ∧ bodyPattern.captures wordStart t = []) ∨
      (forwardPattern.captures wordStart t = [] ∧ bodyPattern.captures wordStart t = [cuts])) :
    (nameCuts t).map Cut.text = [name] := by
  obtain ⟨c, rfl⟩ : ∃ c, cuts = [c] := by
    rcases cuts with _ | ⟨c, _ | _⟩ <;> simp_all
  rcases h with ⟨hf, hb⟩ | ⟨hf, hb⟩ <;>
  · rw [nameCuts, namesBy, namesBy, hf, hb]
    simpa using htexts

theorem names_eq_nil (hf : forwardPattern.captures wordStart t = [])
    (hb : bodyPattern.captures wordStart t = []) : (nameCuts t).map Cut.text = [] := by
  rw [nameCuts, namesBy, namesBy, hf, hb]
  simp

theorem bodyPattern_of_notMem (ht : '\x7b' ∉ t) : bodyPattern.captures wordStart t = [] :=
  captures_eq_nil_of_notMem (c := '\x7b') (by decide) ht

/-- Code without braces has no other struct types than those of its forward declarations. -/
theorem names_of_notMem (ht : '\x7b' ∉ t) :
    names t = ((namesBy forwardPattern t).map Cut.text).eraseDups := by
  have hbody : namesBy bodyPattern t = [] := by
    rw [namesBy, bodyPattern_of_notMem ht]
    rfl
  rw [names, nameCuts, hbody, List.merge_right]

/-- There is no room for a declaration behind the braces of another one. -/
theorem not_infix_tail {name : Text} (hname : ∀ c ∈ name, isWord c = true)
    (hs : Spells forwardPattern s texts) : ¬ s <:+: ' ' :: name ++ [';'] := by
  obtain ⟨w, n, g, -, -, -, rfl, -⟩ := spells_forwardPattern.1 hs
  have hspace : ' ' ∉ name ++ [';'] := by
    have : ' ' ∉ name := fun h => absurd (hname _ h) (by decide)
    simpa using this
  rintro ⟨b, u, h⟩
  cases b with
  | nil => simp at h
  | cons c b =>
    have hrest : b ++ ("typedef struct ".toList ++ w ++ ' ' :: (n ++ "_t".toList ++ g ++ [';'])) ++
        u = name ++ [';'] := (List.cons.inj h).2
    rw [← hrest] at hspace
    simp at hspace

/-! ## Forward declarations -/

theorem forwardText_eq (tag name : Text) : forwardText tag name =
    "typedef struct ".toList ++ (tag ++ ' ' :: ((name ++ "_t".toList) ++ [';'])) := by
  unfold forwardText
  simp

theorem typeName_unique {name n g' : Text} (hname : ∀ c ∈ name, isWord c = true)
    (hn : ∀ c ∈ n, isWord c = true) (hg : IsGap g) (hg' : IsGap g')
    (h : ' ' :: (name ++ "_t".toList) ++ [';'] = g ++ (n ++ "_t".toList) ++ g' ++ ';' :: u) :
    name ++ "_t".toList = n ++ "_t".toList ∧ u = [] :=
  name_unique (isWord_typeName hname) ⟨by simp, isWord_typeName hn⟩ hg hg' h

theorem wordStart_typeName (a : Text) :
    wordStart (a ++ "_t;".toList).getLast? = wordStart none := by
  rw [List.getLast?_append_of_ne_nil _ (by decide)]
  decide

theorem names_forwardText {tag name : Text} (htag : tag ≠ [] ∧ ∀ c ∈ tag, isWord c = true)
    (hname : name ≠ [] ∧ ∀ c ∈ name, isWord c = true) :
    (nameCuts (forwardText tag name)).map Cut.text = [name ++ "_t".toList] := by
  have hspace : ∀ {w : Text}, (∀ c ∈ w, isWord c = true) → ' ' ∉ w := fun hw h =>
    absurd (hw _ h) (by decide)
  have hspells : Spells forwardPattern (forwardText tag name) [name ++ "_t".toList] :=
    spells_forwardPattern.2 ⟨tag, name, [], htag, hname, .inl rfl, by simp [forwardText_eq], rfl⟩
  have hne : forwardText tag name ≠ [] := by simp [forwardText_eq]
  obtain ⟨cuts, hcaptures, htexts⟩ := exists_captures_eq_singleton hne rfl (wordStart_typeName _)
    hspells fun s u texts h hs => by
      obtain ⟨w, n, g, hw, hn, hg, rfl, rfl⟩ := spells_forwardPattern.1 hs
      rw [forwardText_eq] at h
      have hrest : tag ++ ' ' :: ((name ++ "_t".toList) ++ [';']) =
          w ++ ' ' :: ((n ++ "_t".toList) ++ g ++ ';' :: u) := by
        simpa using h
      obtain ⟨rfl, hname'⟩ := first_unique (hspace htag.2) (hspace hw.2) hrest
      obtain ⟨heq, rfl⟩ := typeName_unique (g := [' ']) hname.2 hn.2 (.inr rfl) hg
        (by simpa using hname')
      exact ⟨rfl, by rw [heq]⟩
  refine names_eq_singleton htexts (.inl ⟨hcaptures, bodyPattern_of_notMem ?_⟩)
  have hopen : ∀ {w : Text}, (∀ c ∈ w, isWord c = true) → '\x7b' ∉ w := fun hw h =>
    absurd (hw _ h) (by decide)
  simp [forwardText_eq, hopen htag.2, hopen hname.2]

/-! ## Structs with members -/

theorem opening_tagText {tag : Option Text}
    (htag : ∀ w ∈ tag, w ≠ [] ∧ ∀ c ∈ w, isWord c = true) :
    Opening ("typedef struct ".toList ++ tagText tag) := by
  refine ⟨[' '], tagText tag, .inr rfl, ?_, by simp⟩
  rw [spells_tag]
  cases tag with
  | none => exact .inl rfl
  | some w => exact .inr ⟨w, [' '], htag w rfl, .inr rfl, rfl⟩

theorem captures_forwardPattern_structText {tag : Option Text} {members name : Text}
    (htag : ∀ w ∈ tag, w ≠ [] ∧ ∀ c ∈ w, isWord c = true)
    (hmembers : ¬ "typedef".toList <:+: members) (hname : ∀ c ∈ name, isWord c = true) :
    forwardPattern.captures wordStart (structText tag members name) = [] := by
  have hfront : ';' ∉ "typedef struct ".toList ++ tagText tag := by
    cases tag with
    | none => decide
    | some w =>
      have : ';' ∉ w := fun h => absurd ((htag w rfl).2 _ h) (by decide)
      simp [tagText, this]
  refine captures_eq_nil_of_not_spells ?_
  rintro a s u h - texts hs
  rw [Enum.structText_eq] at h
  obtain ⟨b, hb⟩ := behind_of_avoids hs (c := '\x7b') (d := ';') (by decide) (by decide) hfront h
  have hclose : '\x7d' ∉ s := hs.notMem_of_avoids (by decide)
  have hinfix : s <:+: (' ' :: members ++ [' ']) ++
      '\x7d' :: (' ' :: (name ++ "_t".toList) ++ [';']) := ⟨b, u, hb.symm⟩
  rcases (infix_append_cons_iff hclose).1 hinfix with hinside | hbehind
  · obtain ⟨w, n, g, -, -, -, rfl, -⟩ := spells_forwardPattern.1 hs
    have htypedef : "typedef".toList <:+: [] ++ ' ' :: (members ++ ' ' :: []) := by
      refine List.IsInfix.trans
        ⟨[], " struct ".toList ++ w ++ ' ' :: (n ++ "_t".toList ++ g ++ [';']), ?_⟩ hinside
      simp
    rw [infix_append_cons_iff (by decide), infix_append_cons_iff (by decide)] at htypedef
    rcases htypedef with hnil | hmem | hnil
    · exact absurd hnil (by decide)
    · exact hmembers hmem
    · exact absurd hnil (by decide)
  · exact not_infix_tail (isWord_typeName hname) hs hbehind

theorem names_structText {tag : Option Text} {members name : Text}
    (htag : ∀ w ∈ tag, w ≠ [] ∧ ∀ c ∈ w, isWord c = true)
    (hmembers : '\x7b' ∉ members ∧ '\x7d' ∉ members) (htypedef : ¬ "typedef".toList <:+: members)
    (hname : name ≠ [] ∧ ∀ c ∈ name, isWord c = true) :
    (nameCuts (structText tag members name)).map Cut.text = [name ++ "_t".toList] := by
  have hopening := opening_tagText htag
  have hmembers' : '\x7b' ∉ ' ' :: members ++ [' '] ∧ '\x7d' ∉ ' ' :: members ++ [' '] := by
    simpa using hmembers
  have hspells : Spells bodyPattern (structText tag members name) [name ++ "_t".toList] :=
    spells_bodyPattern.2 ⟨_, _, [' '], name, [], hopening, hmembers', .inr rfl, hname, .inl rfl,
      by rw [Enum.structText_eq]; simp, rfl⟩
  have hne : structText tag members name ≠ [] := by simp [Enum.structText_eq]
  obtain ⟨cuts, hcaptures, htexts⟩ := exists_captures_eq_singleton hne rfl (wordStart_typeName _)
    hspells fun s u texts h hs => by
      obtain ⟨front, body, g, n, g', hopening', hbody, hg, hn, hg', rfl, rfl⟩ :=
        spells_bodyPattern.1 hs
      have hcut : structText tag members name =
          front ++ '\x7b' :: (body ++ '\x7d' :: (g ++ (n ++ "_t".toList) ++ g' ++ ';' :: u)) := by
        simpa using h
      rw [Enum.structText_eq] at hcut
      obtain ⟨-, -, hrest⟩ :=
        braces_unique hopening.notMem hopening'.notMem hmembers'.2 hbody.2 hcut
      obtain ⟨heq, rfl⟩ := typeName_unique (u := u) hname.2 hn.2 hg hg' (by simpa using hrest)
      exact ⟨rfl, by rw [heq]⟩
  exact names_eq_singleton htexts
    (.inr ⟨captures_forwardPattern_structText htag htypedef hname.2, hcaptures⟩)

/-! ## Enums and signatures -/

theorem enum_front_cases {isTypedef : Bool} {tag : Option Text}
    (htag : ∀ w ∈ tag, ∀ c ∈ w, isWord c = true) (ha : wordStart a.getLast? = true) (hs : s ≠ [])
    (h : Enum.frontText isTypedef tag = a ++ s) :
    s = "typedef enum ".toList ++ tagText tag ∨ s = "enum ".toList ++ tagText tag ∨
      ∃ w ∈ tag, s = w ++ [' '] := by
  cases isTypedef with
  | true =>
    refine (front_cases (k := "typedef".toList) (w := "enum".toList) (by decide) (by decide) htag ha
      hs (by simpa [Enum.frontText] using h)).imp (fun h => ?_) (Or.imp_left fun h => ?_)
    · simp [h]
    · simp [h]
  | false =>
    have h : "enum".toList ++ ' ' :: tagText tag = a ++ s := by
      simpa [Enum.frontText] using h
    rcases wordStart_cases (by decide) ha h with rfl | ⟨x, -, hx, hxa⟩
    · exact .inr (.inl (by simpa using h.symm))
    · exact .inr (.inr (tag_cases htag hxa hs hx))

/-- No struct opens in front of the braces of an enum. -/
theorem not_opening_of_append {isTypedef : Bool} {tag : Option Text}
    (htag : ∀ w ∈ tag, ∀ c ∈ w, isWord c = true) (ha : wordStart a.getLast? = true)
    (h : Enum.frontText isTypedef tag = a ++ s) : ¬ Opening s := by
  rintro ⟨g, t, -, -, rfl⟩
  rcases enum_front_cases htag ha (by simp) h with h | h | ⟨w, hw, h⟩
  · simp at h
  · simp at h
  · have hspace : ' ' ∉ w := fun h => absurd (htag w hw _ h) (by decide)
    have := first_unique (a := "typedef".toList) (l := "struct".toList ++ g ++ t) (r := [])
      (by decide) hspace (by simpa using h)
    simp at this

theorem names_enumText (isTypedef : Bool) {tag : Option Text} {body name : Text}
    (htag : ∀ w ∈ tag, w ≠ [] ∧ ∀ c ∈ w, isWord c = true)
    (hbody : ∀ c ∈ ";\x7b\x7d".toList, c ∉ body) (hname : ∀ c ∈ name, isWord c = true) :
    (nameCuts (enumText isTypedef tag body name)).map Cut.text = [] := by
  have hopening := Enum.opening_frontText isTypedef htag
  have hname' : ∀ {c}, isWord c = false → c ∉ name := fun hc h => by simp [hname _ h] at hc
  refine names_eq_nil (captures_eq_nil_of_not_spells ?_) (captures_eq_nil_of_not_spells ?_)
  · rintro a s u h - texts hs
    rw [Enum.enumText_eq, List.append_cons, ← List.append_assoc] at h
    have hsemi : ';' ∉ Enum.frontText isTypedef tag ++ ['\x7b'] ++ (' ' :: body ++ [' ']) := by
      have := hbody ';' (by decide)
      have hfront : ';' ∉ Enum.frontText isTypedef tag :=
        hopening.notMem_of_avoids (by decide) (by decide)
      simp [this, hfront]
    -- A forward declaration has a semicolon and no brace, so it would stand behind the braces.
    obtain ⟨b, hb⟩ := behind_of_avoids hs (c := '\x7d') (d := ';') (by decide) (by decide) hsemi h
    exact not_infix_tail hname hs ⟨b, u, hb.symm⟩
  · rintro a s u h ha texts hs
    obtain ⟨front, body', g, n, g', hopening', -, -, -, -, rfl, -⟩ := spells_bodyPattern.1 hs
    have hrest : '\x7b' ∉ (' ' :: body ++ [' ']) ++ '\x7d' :: (' ' :: name ++ [';']) := by
      have hbody' := hbody '\x7b' (by decide)
      simp [hbody', hname' (c := '\x7b') (by decide)]
    have hcut : enumText isTypedef tag body name = (a ++ front) ++
        '\x7b' :: (body' ++ '\x7d' :: (g ++ (n ++ "_t".toList) ++ g' ++ ';' :: u)) := by
      simpa using h
    rw [Enum.enumText_eq, List.append_cons_inj_of_notMem hopening.notMem hrest] at hcut
    exact not_opening_of_append (fun w hw => (htag w hw).2) ha hcut.1 hopening'

theorem names_signature {front : Text} (hopen : '\x7b' ∉ front) (hsemi : ';' ∉ front) :
    (nameCuts (front ++ ");".toList)).map Cut.text = [] := by
  refine names_eq_nil ?_ (bodyPattern_of_notMem (by simpa using hopen))
  refine captures_eq_nil_of_not_spells ?_
  rintro a s u h - texts hs
  obtain ⟨b, hb⟩ := behind_of_avoids (y := [';']) hs (c := ')') (d := ';') (by decide) (by decide)
    hsemi h
  obtain ⟨w, n, g, -, -, -, rfl, -⟩ := spells_forwardPattern.1 hs
  have := congrArg List.length hb
  simp at this
  omega

end HeaderApi.StructType
