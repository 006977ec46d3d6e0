import HeaderApi.Proofs.Declaration.Lexicon
import HeaderApi.Proofs.Declaration.Locality
import HeaderApi.Proofs.Declaration.Parameter

/-!
# Signatures of the grammar are found

A prototype holds one opening parenthesis and a delegate two, and the text of every other
declaration does not end with a parameter list.  This tells the declarations apart, except that a
delegate whose type is one word is also found as a prototype, which returns a `typedef`.
-/

namespace HeaderApi.Signature

open Declaration Grammar Pattern Text

variable {a b g n n' r s t u : Text} {c : Char} {texts texts' : List Text}

/-! ## Returned types -/

/-- What stands in front of the name in a prototype. -/
def prototypeType : Pattern :=
  .seq [.optional "const ", word, .either (.seq [gap, stars, gap]) " "]

/-- What stands in front of the name in a delegate. -/
def delegateType : Pattern := .seq [.optional "const ", word, .optional (.seq [gap, stars])]

theorem spells_constant (isConst : Bool) :
    Spells (.optional "const ") (if isConst then "const ".toList else []) [] := by
  cases isConst with
  | false => exact .inr ⟨rfl, rfl⟩
  | true => exact .inl ⟨rfl, rfl⟩

theorem spells_stars {n : Nat} (hn : n ≠ 0) : Spells stars (List.replicate n '*') [] :=
  spells_many1.2 ⟨by simpa using hn, fun c hc => by simpa using (List.mem_replicate.1 hc).2⟩

theorem spells_prototypeType (type : ReturnType) :
    Spells prototypeType (type.text ++ " ".toList) [] := by
  refine (spells_silent_andThen rfl).2 ⟨_, type.word.text ++ (starsText type.stars ++ " ".toList),
    by simp only [ReturnType.text, List.append_assoc], spells_constant type.isConst, ?_⟩
  refine (spells_silent_andThen rfl).2 ⟨_, _, rfl,
    spells_many1.2 ⟨type.word.ne_nil, type.word.word⟩, ?_⟩
  rw [starsText]
  split
  next => exact .inr ⟨rfl, rfl⟩
  next hn =>
    refine .inl ((spells_silent_andThen rfl).2 ⟨[' '], _, rfl, spells_gap.2 (.inr rfl), ?_⟩)
    exact (spells_silent_andThen rfl).2 ⟨_, _, rfl, spells_stars hn, spells_gap.2 (.inr rfl)⟩

theorem spells_prototypeType_word {w : Text} (hne : w ≠ []) (hw : ∀ c ∈ w, isWord c = true) :
    Spells prototypeType (w ++ [' ']) [] := by
  refine (spells_silent_andThen rfl).2 ⟨[], w ++ [' '], rfl, .inr ⟨rfl, rfl⟩, ?_⟩
  exact (spells_silent_andThen rfl).2 ⟨w, [' '], rfl, spells_many1.2 ⟨hne, hw⟩, .inr ⟨rfl, rfl⟩⟩

theorem spells_delegateType (type : ReturnType) : Spells delegateType type.text [] := by
  refine (spells_silent_andThen rfl).2 ⟨_, type.word.text ++ starsText type.stars,
    by simp only [ReturnType.text, List.append_assoc], spells_constant type.isConst, ?_⟩
  refine (spells_silent_andThen rfl).2 ⟨_, _, rfl,
    spells_many1.2 ⟨type.word.ne_nil, type.word.word⟩, ?_⟩
  rw [starsText]
  split
  next => exact .inr ⟨rfl, rfl⟩
  next hn =>
    exact .inl ((spells_silent_andThen rfl).2 ⟨[' '], _, rfl, spells_gap.2 (.inr rfl),
      spells_stars hn⟩)

theorem ends_stars {st : Text} (h : Spells stars st []) : ∃ b, st = b ++ ['*'] := by
  obtain ⟨hne, hall⟩ := spells_many1.1 h
  obtain ⟨b, c, rfl⟩ := exists_concat hne
  obtain rfl : c = '*' := by simpa using hall c (by simp)
  exact ⟨b, rfl⟩

theorem prototypeType_cases (h : Spells prototypeType r []) :
    ∃ k w t, (k = "const ".toList ∨ k = []) ∧ (w ≠ [] ∧ ∀ c ∈ w, isWord c = true) ∧
      (t = [' '] ∨ ∃ m g, IsGap g ∧ t = m ++ '*' :: g) ∧ r = k ++ w ++ t := by
  obtain ⟨k, _, rfl, hk, h₁⟩ := (spells_silent_andThen rfl).1 h
  obtain ⟨w, t, rfl, hw, h₂⟩ := (spells_silent_andThen rfl).1 h₁
  refine ⟨k, w, t, hk.imp And.left And.left, spells_many1.1 hw, ?_, by simp⟩
  rcases h₂ with h₂ | ⟨rfl, -⟩
  · obtain ⟨g, _, rfl, -, h₃⟩ := (spells_silent_andThen rfl).1 h₂
    obtain ⟨st, g', rfl, hst, hg'⟩ := (spells_silent_andThen rfl).1 h₃
    obtain ⟨b, rfl⟩ := ends_stars hst
    exact .inr ⟨g ++ b, g', spells_gap.1 hg', by simp⟩
  · exact .inl rfl

theorem delegateType_cases (h : Spells delegateType r []) :
    ∃ k w t, (k = "const ".toList ∨ k = []) ∧ (w ≠ [] ∧ ∀ c ∈ w, isWord c = true) ∧
      (t = [] ∨ ∃ m, t = m ++ ['*']) ∧ r = k ++ w ++ t := by
  obtain ⟨k, _, rfl, hk, h₁⟩ := (spells_silent_andThen rfl).1 h
  obtain ⟨w, t, rfl, hw, h₂⟩ := (spells_silent_andThen rfl).1 h₁
  refine ⟨k, w, t, hk.imp And.left And.left, spells_many1.1 hw, ?_, by simp⟩
  rcases h₂ with h₂ | ⟨rfl, -⟩
  · obtain ⟨g, st, rfl, -, hst⟩ := (spells_silent_andThen rfl).1 h₂
    obtain ⟨b, rfl⟩ := ends_stars hst
    exact .inr ⟨g ++ b, by simp⟩
  · exact .inl rfl

/-- The name of a prototype does not begin early. -/
theorem last_prototypeType (h : Spells prototypeType r []) :
    r ≠ [] ∧ ∀ c ∈ r.getLast?, isWord c = false := by
  have hspace : isWord ' ' = false := by decide
  have hstar : isWord '*' = false := by decide
  obtain ⟨k, w, t, -, -, rfl | ⟨m, g, rfl | rfl, rfl⟩, rfl⟩ := prototypeType_cases h
  · exact ⟨by simp, by simpa using hspace⟩
  · exact ⟨by simp, by simpa using hstar⟩
  · exact ⟨by simp, by simpa using hspace⟩

theorem trimmed_delegateType (h : Spells delegateType r []) : Trimmed r := by
  obtain ⟨k, w, t, hk, ⟨hne, hw⟩, ht, rfl⟩ := delegateType_cases h
  constructor
  · obtain ⟨c, w, rfl⟩ := List.exists_cons_of_ne_nil hne
    rcases hk with rfl | rfl
    · exact fun d hd => Option.some.inj hd ▸ by decide
    · exact fun d hd => isBlank_of_isWord (hw d (Option.some.inj hd ▸ List.mem_cons_self))
  · rcases ht with rfl | ⟨m, rfl⟩
    · rw [List.append_nil, List.getLast?_append_of_ne_nil k hne]
      exact fun c hc => isBlank_of_isWord (hw c (List.mem_of_getLast? hc))
    · have hstar : isBlank '*' = false := by decide
      simpa using hstar

/-! ## Patterns -/

theorem spells_prototypePattern : Spells prototypePattern s texts ↔
    ∃ r n g inner g', Spells prototypeType r [] ∧ (n ≠ [] ∧ ∀ c ∈ n, isLowerName c = true) ∧
      IsGap g ∧ IsGap g' ∧ ';' ∉ inner ∧
      s = r ++ n ++ g ++ '(' :: inner ++ ')' :: g' ++ [';'] ∧ texts = [r, n, inner] := by
  constructor
  · intro h
    obtain ⟨r, _, _, rfl, rfl, hr, h₁⟩ := (spells_capture_andThen rfl).1 h
    obtain ⟨n, _, _, rfl, rfl, hn, h₂⟩ := (spells_capture_andThen rfl).1 h₁
    obtain ⟨g, _, rfl, hg, h₃⟩ := (spells_silent_andThen rfl).1 h₂
    obtain ⟨inner, g', hg', hinner, rfl, rfl⟩ := spells_params.1 h₃
    exact ⟨r, n, g, inner, g', hr, spells_many1.1 hn, spells_gap.1 hg, hg', hinner, by simp, rfl⟩
  · rintro ⟨r, n, g, inner, g', hr, hn, hg, hg', hinner, rfl, rfl⟩
    have hparams : Spells Declaration.params ('(' :: inner ++ ')' :: g' ++ [';']) [inner] :=
      spells_params.2 ⟨inner, g', hg', hinner, rfl, rfl⟩
    refine (spells_capture_andThen rfl).2 ⟨r, n ++ (g ++ ('(' :: inner ++ ')' :: g' ++ [';'])),
      [n, inner], by simp, rfl, hr, ?_⟩
    refine (spells_capture_andThen rfl).2 ⟨n, _, [inner], rfl, rfl, spells_many1.2 hn, ?_⟩
    exact (spells_silent_andThen rfl).2 ⟨g, _, rfl, spells_gap.2 hg, hparams⟩

theorem spells_delegatePattern : Spells delegatePattern s texts ↔
    ∃ r g g₁ g₂ n g₃ g₄ inner g', Spells delegateType r [] ∧ (n ≠ [] ∧ ∀ c ∈ n, isWord c = true) ∧
      IsGap g ∧ IsGap g₁ ∧ IsGap g₂ ∧ IsGap g₃ ∧ IsGap g₄ ∧ IsGap g' ∧ ';' ∉ inner ∧
      s = "typedef ".toList ++ r ++ g ++ '(' :: (g₁ ++ '*' :: (g₂ ++ n ++ g₃ ++ ')' ::
        (g₄ ++ '(' :: (inner ++ ')' :: g' ++ [';'])))) ∧
      texts = [r, n, inner] := by
  constructor
  · intro h
    obtain ⟨_, rfl, h₁⟩ := spells_literal_andThen.1 h
    obtain ⟨r, _, _, rfl, rfl, hr, h₂⟩ := (spells_capture_andThen rfl).1 h₁
    obtain ⟨g, _, rfl, hg, h₃⟩ := (spells_silent_andThen rfl).1 h₂
    obtain ⟨_, rfl, h₄⟩ := spells_literal_andThen.1 h₃
    obtain ⟨g₁, _, rfl, hg₁, h₅⟩ := (spells_silent_andThen rfl).1 h₄
    obtain ⟨_, rfl, h₆⟩ := spells_literal_andThen.1 h₅
    obtain ⟨g₂, _, rfl, hg₂, h₇⟩ := (spells_silent_andThen rfl).1 h₆
    obtain ⟨n, _, _, rfl, rfl, hn, h₈⟩ := (spells_capture_andThen rfl).1 h₇
    obtain ⟨g₃, _, rfl, hg₃, h₉⟩ := (spells_silent_andThen rfl).1 h₈
    obtain ⟨_, rfl, h₁₀⟩ := spells_literal_andThen.1 h₉
    obtain ⟨g₄, _, rfl, hg₄, h₁₁⟩ := (spells_silent_andThen rfl).1 h₁₀
    obtain ⟨inner, g', hg', hinner, rfl, rfl⟩ := spells_params.1 h₁₁
    exact ⟨r, g, g₁, g₂, n, g₃, g₄, inner, g', hr, spells_many1.1 hn, spells_gap.1 hg,
      spells_gap.1 hg₁, spells_gap.1 hg₂, spells_gap.1 hg₃, spells_gap.1 hg₄, hg', hinner,
      by simp, rfl⟩
  · rintro ⟨r, g, g₁, g₂, n, g₃, g₄, inner, g', hr, hn, hg, hg₁, hg₂, hg₃, hg₄, hg', hinner,
      rfl, rfl⟩
    have hparams : Spells Declaration.params ('(' :: inner ++ ')' :: g' ++ [';']) [inner] :=
      spells_params.2 ⟨inner, g', hg', hinner, rfl, rfl⟩
    have h₁ := (spells_silent_andThen (p := gap) rfl).2 ⟨g₄, _, rfl, spells_gap.2 hg₄, hparams⟩
    have h₂ := spells_literal_andThen.2 ⟨_, (rfl : _ = ")".toList ++ _), h₁⟩
    have h₃ := (spells_silent_andThen (p := gap) rfl).2 ⟨g₃, _, rfl, spells_gap.2 hg₃, h₂⟩
    have h₄ := (spells_capture_andThen rfl).2 ⟨n, _, _, rfl, rfl, spells_many1.2 hn, h₃⟩
    have h₅ := (spells_silent_andThen (p := gap) rfl).2 ⟨g₂, _, rfl, spells_gap.2 hg₂, h₄⟩
    have h₆ := spells_literal_andThen.2 ⟨_, (rfl : _ = "*".toList ++ _), h₅⟩
    have h₇ := (spells_silent_andThen (p := gap) rfl).2 ⟨g₁, _, rfl, spells_gap.2 hg₁, h₆⟩
    have h₈ := spells_literal_andThen.2 ⟨_, (rfl : _ = "(".toList ++ _), h₇⟩
    have h₉ := (spells_silent_andThen (p := gap) rfl).2 ⟨g, _, rfl, spells_gap.2 hg, h₈⟩
    have h₁₀ := (spells_capture_andThen rfl).2 ⟨r, _, _, rfl, rfl, hr, h₉⟩
    have h₁₁ := spells_literal_andThen.2 ⟨_, (rfl : _ = "typedef ".toList ++ _), h₁₀⟩
    exact (congrArg (Spells delegatePattern · [r, n, inner]) (by simp)).mpr h₁₁

theorem ends_of_spells_prototypePattern (hs : Spells prototypePattern s texts) :
    ∃ x g, IsGap g ∧ s = x ++ ')' :: g ++ [';'] := by
  obtain ⟨r, n, g, inner, g', -, -, -, hg', -, rfl, -⟩ := spells_prototypePattern.1 hs
  exact ⟨r ++ n ++ g ++ '(' :: inner, g', hg', by simp⟩

theorem ends_of_spells_delegatePattern (hs : Spells delegatePattern s texts) :
    ∃ x g, IsGap g ∧ s = x ++ ')' :: g ++ [';'] := by
  obtain ⟨r, g, g₁, g₂, n, g₃, g₄, inner, g', -, -, -, -, -, -, -, hg', -, rfl, -⟩ :=
    spells_delegatePattern.1 hs
  exact ⟨"typedef ".toList ++ r ++ g ++ '(' :: (g₁ ++ '*' :: (g₂ ++ n ++ g₃ ++ ')' ::
    (g₄ ++ '(' :: inner))), g', hg', by simp⟩

/-- A text that ends with a parameter list, and that the pattern can take as a whole only, is one
occurrence. -/
theorem exists_captures_of_unique {p : Pattern}
    (hends : ∃ x g, IsGap g ∧ t = x ++ ')' :: g ++ [';']) (h : Spells p t texts)
    (hunique : ∀ s u texts', t = s ++ u → Spells p s texts' → u = [] ∧ texts' = texts) :
    ∃ cuts, p.captures wordStart t = [cuts] ∧ cuts.map Cut.text = texts := by
  obtain ⟨x, g, -, rfl⟩ := hends
  refine exists_captures_eq_singleton (by simp) rfl ?_ h hunique
  rw [List.getLast?_concat]
  decide

/-! ## Prototypes -/

theorem ofCuts?_eq_some {cuts : List Cut} {type name params : Text}
    (h : cuts.map Cut.text = [type, name, params]) :
    Raw.ofCuts? cuts = some ⟨name, trim type, params⟩ := by
  obtain ⟨c₁, c₂, c₃, rfl⟩ : ∃ c₁ c₂ c₃, cuts = [c₁, c₂, c₃] := by
    rcases cuts with _ | ⟨c₁, _ | ⟨c₂, _ | ⟨c₃, _ | _⟩⟩⟩ <;> simp_all
  simp_all [Raw.ofCuts?]

theorem word_of_lower (hn : n ≠ [] ∧ ∀ c ∈ n, isLowerName c = true) :
    n ≠ [] ∧ ∀ c ∈ n, isWord c = true :=
  ⟨hn.1, fun c hc => isWord_of_isLowerName (hn.2 c hc)⟩

theorem notMem_gap_name (hn : ∀ c ∈ n, isLowerName c = true) (hg : IsGap g)
    (hr : Spells prototypeType r []) : '(' ∉ r ++ n ++ g := by
  rw [List.mem_append, List.mem_append, not_or, not_or]
  refine ⟨⟨hr.notMem_of_avoids (by decide), fun h => ?_⟩, hg.notMem (by decide)⟩
  exact absurd (hn _ h) (by decide)

/-- The pattern for prototypes takes all of the text that it can take, and cuts it in one way. -/
theorem prototype_unique (h : Spells prototypePattern (s ++ u) texts)
    (hs : Spells prototypePattern s texts') : u = [] ∧ texts' = texts := by
  obtain ⟨r, n, g, inner, g', hr, hn, hg, hg', hinner, heq, rfl⟩ := spells_prototypePattern.1 h
  obtain ⟨r', n', g₁, inner', g₁', hr', hn', hg₁, hg₁', hinner', rfl, rfl⟩ :=
    spells_prototypePattern.1 hs
  obtain ⟨hfront, hrest⟩ := first_unique (l := inner ++ ')' :: g' ++ [';'])
    (r := inner' ++ ')' :: g₁' ++ ';' :: u) (notMem_gap_name hn.2 hg hr)
    (notMem_gap_name hn'.2 hg₁ hr') (by simpa using heq.symm)
  obtain ⟨hname, -⟩ := gap_unique hg hg₁ (last_word (word_of_lower hn) r)
    (last_word (word_of_lower hn') r') hfront
  obtain ⟨rfl, rfl⟩ := last_unique (word_of_lower hn).2 (word_of_lower hn').2
    (last_prototypeType hr).2 (last_prototypeType hr').2 hname
  obtain ⟨rfl, rfl⟩ := params_unique hinner hinner' hg' hg₁' hrest
  exact ⟨rfl, rfl⟩

theorem exists_captures_prototype (h : Spells prototypePattern t texts) :
    ∃ cuts, prototypePattern.captures wordStart t = [cuts] ∧ cuts.map Cut.text = texts := by
  refine exists_captures_of_unique (ends_of_spells_prototypePattern h) h ?_
  rintro s u texts' rfl hs
  exact prototype_unique h hs

variable (type : ReturnType) (name : Name) (params : List Param)

theorem prototypeText_eq (type name params : Text) : prototypeText type name params =
    type ++ [' '] ++ name ++ [' '] ++ '(' :: (params ++ ");".toList) := by
  simp [prototypeText]

theorem spells_prototypeText {type name inner : Text}
    (htype : Spells prototypeType (type ++ [' ']) [])
    (hname : name ≠ [] ∧ ∀ c ∈ name, isLowerName c = true) (hinner : ';' ∉ inner) :
    Spells prototypePattern (prototypeText type name inner) [type ++ [' '], name, inner] :=
  spells_prototypePattern.2 ⟨_, name, [' '], inner, [], htype, hname, .inr rfl, .inl rfl, hinner,
    by simp [prototypeText], rfl⟩

theorem text_ne_typedef : type.text ≠ "typedef".toList := by
  intro h
  have hstars : starsText type.stars = [] := by
    rw [starsText]
    split
    next => rfl
    next hn =>
      have hspace : ' ' ∈ type.text := List.mem_append_right _ (by simp [starsText, hn])
      rw [h] at hspace
      exact absurd hspace (by decide)
  rw [ReturnType.text, hstars, List.append_nil] at h
  cases hconst : type.isConst with
  | false =>
    have hword : type.word.text = "typedef".toList := by simpa [hconst] using h
    exact type.word.notKeyword (by rw [hword]; decide)
  | true => simp [hconst] at h

theorem rawPrototypes_prototype :
    rawPrototypes (prototypeText type.text name.text (paramsText params)) =
      [⟨name.text, type.text, paramsText params⟩] := by
  have hinner : ';' ∉ paramsText params := notMem_paramsText (by decide) params
  obtain ⟨cuts, hcaptures, htexts⟩ := exists_captures_prototype
    (spells_prototypeText (spells_prototypeType type) ⟨name.ne_nil, name.lower⟩ hinner)
  have hread := ofCuts?_eq_some htexts
  rw [trim_concat_of_blank isBlank_space, type.neat_text.2.trim_eq] at hread
  rw [rawPrototypes, hcaptures, List.filterMap_cons_some hread, List.filterMap_nil,
    List.filter_eq_self, List.forall_mem_singleton]
  exact decide_eq_true (text_ne_typedef type)

/-! ## Delegates -/

theorem delegateText_eq (type name params : Text) : delegateText type name params =
    "typedef ".toList ++ type ++ [' '] ++
      '(' :: '*' :: (name ++ ')' :: ' ' :: '(' :: (params ++ ");".toList)) := by
  unfold delegateText
  simp

theorem notMem_gap_type (hg : IsGap g) (hr : Spells delegateType r []) :
    '(' ∉ "typedef ".toList ++ r ++ g := by
  rw [List.mem_append, List.mem_append, not_or, not_or]
  exact ⟨⟨by decide, hr.notMem_of_avoids (by decide)⟩, hg.notMem (by decide)⟩

/-- The text between the parentheses around the name of a delegate can be cut in one way only. -/
theorem pointer_unique {g₁ g₁' g₂ g₂' g₃ g₃' rest rest' : Text} (hg₁ : IsGap g₁) (hg₁' : IsGap g₁')
    (hg₂ : IsGap g₂) (hg₂' : IsGap g₂') (hg₃ : IsGap g₃) (hg₃' : IsGap g₃')
    (hn : n ≠ [] ∧ ∀ c ∈ n, isWord c = true) (hn' : n' ≠ [] ∧ ∀ c ∈ n', isWord c = true)
    (h : g₁ ++ '*' :: (g₂ ++ n ++ g₃ ++ ')' :: rest) =
      g₁' ++ '*' :: (g₂' ++ n' ++ g₃' ++ ')' :: rest')) : n = n' ∧ rest = rest' := by
  have hclose {g₂ n g₃ : Text} (hg₂ : IsGap g₂) (hg₃ : IsGap g₃)
      (hn : n ≠ [] ∧ ∀ c ∈ n, isWord c = true) : ')' ∉ g₂ ++ n ++ g₃ := by
    have : ')' ∉ n := fun h => absurd (hn.2 _ h) (by decide)
    simp [this, hg₂.notMem, hg₃.notMem]
  obtain ⟨-, hstar⟩ := first_unique (hg₁.notMem (by decide)) (hg₁'.notMem (by decide)) h
  obtain ⟨hname, rfl⟩ := first_unique (hclose hg₂ hg₃ hn) (hclose hg₂' hg₃' hn') hstar
  obtain ⟨hname', -⟩ := gap_unique hg₃ hg₃' (last_word hn g₂) (last_word hn' g₂') hname
  exact ⟨(last_unique hn.2 hn'.2 hg₂.last hg₂'.last hname').2, rfl⟩

/-- The pattern for delegates takes all of the text that it can take, and cuts it in one way. -/
theorem delegate_unique (h : Spells delegatePattern (s ++ u) texts)
    (hs : Spells delegatePattern s texts') : u = [] ∧ texts' = texts := by
  obtain ⟨r, g, g₁, g₂, n, g₃, g₄, inner, g', hr, hn, hg, hg₁, hg₂, hg₃, hg₄, hg', hinner, heq,
    rfl⟩ := spells_delegatePattern.1 h
  obtain ⟨r', k, k₁, k₂, n', k₃, k₄, inner', k', hr', hn', hk, hk₁, hk₂, hk₃, hk₄, hk', hinner',
    rfl, rfl⟩ := spells_delegatePattern.1 hs
  obtain ⟨hfront, hrest⟩ := first_unique
    (l := g₁ ++ '*' :: (g₂ ++ n ++ g₃ ++ ')' :: (g₄ ++ '(' :: (inner ++ ')' :: g' ++ [';']))))
    (r := k₁ ++ '*' :: (k₂ ++ n' ++ k₃ ++ ')' :: (k₄ ++ '(' :: (inner' ++ ')' :: k' ++ ';' :: u))))
    (notMem_gap_type hg hr) (notMem_gap_type hk hr') (by simpa using heq.symm)
  have hlast {r : Text} (hr : Spells delegateType r []) : ∀ c ∈ r.getLast?, c ≠ ' ' := by
    rintro c hc rfl
    exact absurd ((trimmed_delegateType hr).last _ hc) (by decide)
  rw [List.append_assoc, List.append_assoc] at hfront
  obtain ⟨rfl, -⟩ := gap_unique hg hk (hlast hr) (hlast hr') (List.append_cancel_left hfront)
  obtain ⟨rfl, hparams⟩ := pointer_unique hg₁ hk₁ hg₂ hk₂ hg₃ hk₃ hn hn' hrest
  obtain ⟨-, hparams⟩ := first_unique (hg₄.notMem (by decide)) (hk₄.notMem (by decide)) hparams
  obtain ⟨rfl, rfl⟩ := params_unique hinner hinner' hg' hk' hparams
  exact ⟨rfl, rfl⟩

theorem exists_captures_delegate (h : Spells delegatePattern t texts) :
    ∃ cuts, delegatePattern.captures wordStart t = [cuts] ∧ cuts.map Cut.text = texts := by
  refine exists_captures_of_unique (ends_of_spells_delegatePattern h) h ?_
  rintro s u texts' rfl hs
  exact delegate_unique h hs

theorem spells_delegateText {type name inner : Text} (htype : Spells delegateType type [])
    (hname : name ≠ [] ∧ ∀ c ∈ name, isLowerName c = true) (hinner : ';' ∉ inner) :
    Spells delegatePattern (delegateText type name inner) [type, name, inner] :=
  spells_delegatePattern.2 ⟨type, [' '], [], [], name, [], [' '], inner, [], htype,
    word_of_lower hname, .inr rfl, .inl rfl, .inl rfl, .inl rfl, .inr rfl, .inl rfl, hinner,
    by simp [delegateText_eq], rfl⟩

theorem rawDelegates_delegate :
    rawDelegates (delegateText type.text name.text (paramsText params)) =
      [⟨name.text, type.text, paramsText params⟩] := by
  have hinner : ';' ∉ paramsText params := notMem_paramsText (by decide) params
  obtain ⟨cuts, hcaptures, htexts⟩ := exists_captures_delegate
    (spells_delegateText (spells_delegateType type) ⟨name.ne_nil, name.lower⟩ hinner)
  have hread := ofCuts?_eq_some htexts
  rw [type.neat_text.2.trim_eq] at hread
  rw [rawDelegates, hcaptures, List.filterMap_cons_some hread, List.filterMap_nil]

/-! ## Texts that hold no signature -/

theorem rawDelegates_prototype :
    rawDelegates (prototypeText type.text name.text (paramsText params)) = [] := by
  have hfront : '(' ∉ type.text ++ [' '] ++ name.text ++ [' '] :=
    notMem_gap_name name.lower (.inr rfl) (spells_prototypeType type)
  have hrest : '(' ∉ paramsText params ++ ");".toList := by
    simpa using notMem_paramsText (by decide) params
  rw [rawDelegates, captures_eq_nil_of_not_spells, List.filterMap_nil]
  rintro a s u h - texts hs
  obtain ⟨r, g, g₁, g₂, n, g₃, g₄, inner, g', -, -, -, -, -, -, -, -, -, rfl, -⟩ :=
    spells_delegatePattern.1 hs
  have hcut : prototypeText type.text name.text (paramsText params) =
      (a ++ ("typedef ".toList ++ r ++ g)) ++ '(' :: (g₁ ++ '*' :: (g₂ ++ n ++ g₃ ++ ')' ::
        (g₄ ++ '(' :: (inner ++ ')' :: g' ++ ';' :: u)))) := by
    simpa using h
  rw [prototypeText_eq, List.append_cons_inj_of_notMem hfront hrest] at hcut
  rw [hcut.2.2] at hrest
  simp at hrest

/-- What does not end with a parameter list is no signature. -/
theorem captures_eq_nil_of_last {p : Pattern} {front : Text}
    (hp : ∀ s texts, Spells p s texts → ∃ x g, IsGap g ∧ s = x ++ ')' :: g ++ [';'])
    (hsemi : ';' ∉ front) (hlast : ∀ c ∈ front.getLast?, isWord c = true) :
    p.captures wordStart (front ++ [';']) = [] := by
  refine captures_eq_nil_of_not_spells ?_
  rintro a s u h - texts hs
  obtain ⟨x, g, hg, rfl⟩ := hp s texts hs
  have hcut : front ++ [';'] = (a ++ x ++ ')' :: g) ++ ';' :: u := by simpa using h
  rw [List.append_cons_inj_of_notMem hsemi List.not_mem_nil] at hcut
  obtain ⟨rfl, -⟩ := hcut
  rcases hg with rfl | rfl
  · exact absurd (hlast ')' (by simp)) (by decide)
  · exact absurd (hlast ' ' (by simp)) (by decide)

theorem raw_eq_nil_of_notMem (ht : '(' ∉ t) : rawPrototypes t = [] ∧ rawDelegates t = [] := by
  rw [rawPrototypes, rawDelegates, captures_eq_nil_of_notMem (c := '(') (by decide) ht,
    captures_eq_nil_of_notMem (c := '(') (by decide) ht]
  exact ⟨rfl, rfl⟩

theorem raw_eq_nil_of_last {front : Text} (hsemi : ';' ∉ front)
    (hlast : ∀ c ∈ front.getLast?, isWord c = true) :
    rawPrototypes (front ++ [';']) = [] ∧ rawDelegates (front ++ [';']) = [] := by
  rw [rawPrototypes, rawDelegates,
    captures_eq_nil_of_last (fun _ _ => ends_of_spells_prototypePattern) hsemi hlast,
    captures_eq_nil_of_last (fun _ _ => ends_of_spells_delegatePattern) hsemi hlast]
  exact ⟨rfl, rfl⟩

end HeaderApi.Signature
