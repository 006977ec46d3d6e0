import HeaderApi.Code
import HeaderApi.Proofs.Declaration.Signature
import HeaderApi.Proofs.Declaration.StructType

/-!
# Where one declaration is taken for another

The recognizers do not look at each other, so a text may be found by several of them.  Two such
confusions are there.  A prototype is also found in a delegate, at the word in front of its first
parenthesis: it seems to return a `typedef`, and is passed over for that, unless the delegate
returns a `const` word, when it seems to return a `const` and its parameters are malformed.  And a
struct with members is also found as an enum when its tag begins with `enum`, since the pattern for
enums does not ask where that word ends.
-/

namespace HeaderApi.Signature

open Declaration Grammar Pattern Text

variable {a code g g' inner inner' n n' r r' s u : Text} {texts : List Text} {o : Occurrence}
  {d : Signature}

/-! ## Prototypes in delegates -/

/-- A returned type that is `const` and one word, made of the characters of names. -/
def ConstantWord (type : Text) : Prop :=
  ∃ w, (w ≠ [] ∧ ∀ c ∈ w, isLowerName c = true) ∧ type = "const ".toList ++ w

/-- A name and nothing else stands right in front of the parenthesis of a prototype. -/
theorem not_name_gap {c : Char} (hn : n ≠ [] ∧ ∀ c ∈ n, isLowerName c = true) (hg : IsGap g)
    (hg' : IsGap g') (hc : isLowerName c = false) (hc' : c ≠ ' ') (a b : Text) :
    a ++ n ++ g ≠ b ++ [c] ++ g' := by
  intro h
  obtain ⟨heq, -⟩ := gap_unique hg hg' (last_word (word_of_lower hn) a) (by simpa using hc') h
  obtain ⟨m, d, rfl⟩ := exists_concat hn.1
  have hlast := congrArg List.getLast? heq
  simp only [← List.append_assoc, List.getLast?_concat] at hlast
  rw [← Option.some.inj hlast, hn.2 d (by simp)] at hc
  exact absurd hc (by decide)

/-- A prototype that ends at the first parenthesis of a delegate is named by the word of the type,
behind which there are no stars. -/
theorem name_of_front (hr : Spells delegateType r []) (hg : IsGap g)
    (hr' : Spells prototypeType r' []) (hn' : n' ≠ [] ∧ ∀ c ∈ n', isLowerName c = true)
    (hg' : IsGap g') (h : a ++ r' ++ n' ++ g' = "typedef ".toList ++ r ++ g) :
    ∃ k, (k = "const ".toList ∨ k = []) ∧ r = k ++ n' ∧ a ++ r' = "typedef ".toList ++ k := by
  obtain ⟨k, w, t, hk, hw, rfl | ⟨m, rfl⟩, rfl⟩ := delegateType_cases hr
  · obtain ⟨hfront, -⟩ := gap_unique hg' hg (last_word (word_of_lower hn') _)
      (last_word hw ("typedef ".toList ++ k)) (h.trans (by simp))
    have htype : ∀ c ∈ (a ++ r').getLast?, isWord c = false := by
      rw [List.getLast?_append_of_ne_nil a (last_prototypeType hr').1]
      exact (last_prototypeType hr').2
    have hkeyword : ∀ c ∈ ("typedef ".toList ++ k).getLast?, isWord c = false := by
      rcases hk with rfl | rfl <;> decide
    obtain ⟨heq, rfl⟩ := last_unique (word_of_lower hn').2 hw.2 htype hkeyword hfront
    exact ⟨k, hk, by simp, heq⟩
  · refine absurd ?_ (not_name_gap hn' hg' hg (c := '*') (by decide) (by decide) (a ++ r')
      ("typedef ".toList ++ (k ++ w ++ m)))
    simpa using h

/-- Of the words in front of the first parenthesis, those before the name are the type of the
prototype. -/
theorem type_of_front {k : Text} (hk : k = "const ".toList ∨ k = [])
    (ha : wordStart a.getLast? = true) (hr' : Spells prototypeType r' [])
    (h : a ++ r' = "typedef ".toList ++ k) :
    (a = [] ∧ k = [] ∧ r' = "typedef ".toList) ∨
      (a = "typedef ".toList ∧ k = "const ".toList ∧ r' = "const ".toList) := by
  have hne : r' ≠ [] := (last_prototypeType hr').1
  rcases hk with rfl | rfl
  · have hwords : "typedef".toList ++ ' ' :: ("const".toList ++ ' ' :: tagText none) = a ++ r' :=
      h.symm
    rcases front_cases (by decide) (by decide) (by simp) ha hne hwords with rfl | rfl | ⟨v, hv, -⟩
    · -- Both words do not make up a type, since the first one is not `const`.
      obtain ⟨k, w, t, rfl | rfl, hw, rfl | ⟨m, g, -, rfl⟩, heq⟩ := prototypeType_cases hr'
      · simp at heq
      · simp at heq
      · have hspace : ' ' ∉ w := fun h => absurd (hw.2 _ h) (by decide)
        obtain ⟨-, hrest⟩ := first_unique (a := "typedef".toList) (r := []) (by decide) hspace heq
        simp at hrest
      · have hstar : '*' ∈ [] ++ w ++ (m ++ '*' :: g) := by simp
        rw [← heq] at hstar
        exact absurd hstar (by decide)
    · refine .inr ⟨?_, rfl, rfl⟩
      exact List.append_cancel_right h
    · simp at hv
  · rcases wordStart_cases (w := "typedef".toList) (by decide) ha (t := []) h.symm with
      rfl | ⟨x, -, hx, -⟩
    · exact .inl ⟨rfl, rfl, by simpa using h⟩
    · exact absurd (List.append_eq_nil_iff.1 hx.symm).2 hne

/-- A prototype is found in a delegate in two ways, as a name behind `typedef` and as one behind
`const`. -/
theorem prototype_in_delegate (h : Spells delegatePattern (a ++ s ++ u) [r, n, inner])
    (hinner : '(' ∉ inner) (ha : wordStart a.getLast? = true) (hs : Spells prototypePattern s texts) :
    ∃ r' n' params, texts = [r', n', params] ∧ (n' ≠ [] ∧ ∀ c ∈ n', isLowerName c = true) ∧
      ((a = [] ∧ r' = "typedef ".toList ∧ r = n') ∨
        (a = "typedef ".toList ∧ r' = "const ".toList ∧ r = "const ".toList ++ n')) := by
  obtain ⟨_, g, g₁, g₂, _, g₃, g₄, _, g', hr, hn, hg, hg₁, hg₂, hg₃, hg₄, hg', -, heq, htexts⟩ :=
    spells_delegatePattern.1 h
  simp only [List.cons.injEq, and_true] at htexts
  obtain ⟨rfl, rfl, rfl⟩ := htexts
  obtain ⟨r', n', g₅, params, g₆, hr', hn', hg₅, -, -, rfl, rfl⟩ := spells_prototypePattern.1 hs
  refine ⟨r', n', params, rfl, hn', ?_⟩
  have hfront : '(' ∉ "typedef ".toList ++ r ++ g := notMem_gap_type hg hr
  have hmid : '(' ∉ g₁ ++ '*' :: (g₂ ++ n ++ g₃ ++ [')'] ++ g₄) := by
    have hname : '(' ∉ n := fun h => absurd (hn.2 _ h) (by decide)
    simp [hname, hg₁.notMem, hg₂.notMem, hg₃.notMem, hg₄.notMem]
  have htail : '(' ∉ inner ++ ')' :: g' ++ [';'] := by
    simp [hinner, hg'.notMem]
  have hcut : (a ++ r' ++ n' ++ g₅) ++ '(' :: (params ++ ')' :: g₆ ++ ';' :: u) =
      ("typedef ".toList ++ r ++ g) ++ '(' :: ((g₁ ++ '*' :: (g₂ ++ n ++ g₃ ++ [')'] ++ g₄)) ++
        '(' :: (inner ++ ')' :: g' ++ [';'])) := by
    simpa using heq
  -- The prototype opens at the first parenthesis of the delegate or at the second one.
  rcases cut_cases hfront hmid htail hcut with hx | hx
  · obtain ⟨k, hk, rfl, hfront'⟩ := name_of_front hr hg hr' hn' hg₅ hx
    rcases type_of_front hk ha hr' hfront' with ⟨ha, rfl, hr'⟩ | ⟨ha, rfl, hr'⟩
    · exact .inl ⟨ha, hr', rfl⟩
    · exact .inr ⟨ha, hr', rfl⟩
  · -- In front of the second one there is the parenthesis that closes the first one.
    refine absurd ?_ (not_name_gap hn' hg₅ hg₄ (c := ')') (by decide) (by decide) (a ++ r')
      ("typedef ".toList ++ r ++ g ++ '(' :: (g₁ ++ '*' :: (g₂ ++ n ++ g₃))))
    simpa using hx

/-- A delegate that does not return a `const` word holds no prototype. -/
theorem rawPrototypes_eq_nil_of_delegate (h : Spells delegatePattern code [r, n, inner])
    (hinner : '(' ∉ inner) (hr : ¬ ConstantWord r) : rawPrototypes code = [] := by
  rw [rawPrototypes, List.filter_eq_nil_iff]
  intro raw hraw
  obtain ⟨cuts, hcuts, hread⟩ := List.mem_filterMap.1 hraw
  obtain ⟨a, _, u, rfl, ha, hm⟩ := exists_matches_of_mem_captures hcuts
  obtain ⟨s, rfl, hs⟩ := spells_of_matches hm
  rw [← List.append_assoc] at h
  obtain ⟨r', n', params, htexts, hn', ⟨-, rfl, -⟩ | ⟨-, -, rfl⟩⟩ :=
    prototype_in_delegate h hinner ha hs
  · rw [ofCuts?_eq_some htexts] at hread
    obtain rfl := Option.some.inj hread
    simp only [decide_eq_true_eq, ne_eq, not_not]
    decide
  · exact absurd ⟨n', hn', rfl⟩ hr

section

variable {w : Text} (h : Spells delegatePattern code ["const ".toList ++ w, n, inner])
  (hw : w ≠ [] ∧ ∀ c ∈ w, isLowerName c = true)

include h hw

/-- Behind its `typedef` a delegate that returns a `const` word looks like a prototype of that
word, whose parameters are all that stands behind the first parenthesis. -/
theorem exists_spells_of_constantWord : ∃ s params, ')' ∈ params ∧
    Spells prototypePattern s ["const ".toList, w, params] ∧ code = "typedef ".toList ++ s := by
  obtain ⟨_, g, g₁, g₂, _, g₃, g₄, _, g', -, hn, hg, hg₁, hg₂, hg₃, hg₄, hg', hsemi, rfl, htexts⟩ :=
    spells_delegatePattern.1 h
  simp only [List.cons.injEq, and_true] at htexts
  obtain ⟨rfl, rfl, rfl⟩ := htexts
  have htype : Spells prototypeType "const ".toList [] :=
    spells_prototypeType_word (w := "const".toList) (by decide) (by decide)
  have hparams : ';' ∉ g₁ ++ '*' :: (g₂ ++ n ++ g₃ ++ ')' :: (g₄ ++ '(' :: inner)) := by
    have hname : ';' ∉ n := fun h => absurd (hn.2 _ h) (by decide)
    simp [hsemi, hname, hg₁.notMem, hg₂.notMem, hg₃.notMem, hg₄.notMem]
  refine ⟨"const ".toList ++ w ++ g ++
      '(' :: (g₁ ++ '*' :: (g₂ ++ n ++ g₃ ++ ')' :: (g₄ ++ '(' :: inner))) ++ ')' :: g' ++ [';'],
    g₁ ++ '*' :: (g₂ ++ n ++ g₃ ++ ')' :: (g₄ ++ '(' :: inner)), by simp, ?_, by simp⟩
  exact spells_prototypePattern.2 ⟨_, w, g, _, g', htype, hw, hg, hg', hparams, rfl, rfl⟩

/-- It is found as that prototype. -/
theorem rawPrototypes_of_constantWord (hinner : '(' ∉ inner) :
    ∃ params, ')' ∈ params ∧ rawPrototypes code = [⟨w, "const".toList, params⟩] := by
  obtain ⟨s, params, hclose, hs, rfl⟩ := exists_spells_of_constantWord h hw
  refine ⟨params, hclose, ?_⟩
  have hanchor : wordStart "typedef ".toList.getLast? = true := by decide
  have hne : s ≠ [] := by
    rintro rfl
    exact absurd (hs.mem_of_demands (c := ';') (by decide)) List.not_mem_nil
  obtain ⟨cuts, hcaptures, htexts⟩ := exists_captures_of_start hanchor hne hs
    (fun b s' u texts heq hb hs' => by
      rw [heq] at h
      obtain ⟨r', n', -, -, hn', ⟨-, -, hword⟩ | ⟨hb, -, -⟩⟩ :=
        prototype_in_delegate h hinner hb hs'
      · -- No match stands at the `typedef`, since the name would be two words.
        have hspace : ' ' ∈ n' := by simp [← hword]
        exact absurd (hn'.2 _ hspace) (by decide)
      · exact hb)
    fun s' u texts heq hs' => (prototype_unique (heq ▸ hs) hs').2
  have hread := ofCuts?_eq_some htexts
  rw [show trim "const ".toList = "const".toList by decide] at hread
  rw [rawPrototypes, hcaptures, List.filterMap_cons_some hread, List.filterMap_nil,
    List.filter_eq_self, List.forall_mem_singleton]
  change decide ("const".toList ≠ "typedef".toList) = true
  decide

end

section

variable (type : ReturnType) (address : type.isConst = true → type.stars ≠ 0)

include address

/-- The grammar has `const` types in delegates with stars only. -/
theorem not_constantWord_text : ¬ ConstantWord type.text := by
  rintro ⟨w, hw, htype⟩
  by_cases hstars : type.stars = 0
  · have hconst : type.isConst = false := by
      rw [Bool.eq_false_iff]
      exact fun h => address h hstars
    have hword : type.word.text = "const ".toList ++ w := by
      simpa [ReturnType.text, starsText, hconst, hstars] using htype
    have hspace : ' ' ∈ type.word.text := by simp [hword]
    exact absurd (type.word.lower _ hspace) (by decide)
  · have hstar : '*' ∈ type.text := by
      refine List.mem_append_right _ ?_
      simp [starsText, hstars]
    rw [htype] at hstar
    rcases List.mem_append.1 hstar with h | h
    · exact absurd h (by decide)
    · exact absurd (hw.2 _ h) (by decide)

theorem rawPrototypes_delegate (name : Name) (params : List Param) :
    rawPrototypes (delegateText type.text name.text (paramsText params)) = [] := by
  have hspells := spells_delegateText (spells_delegateType type) ⟨name.ne_nil, name.lower⟩
    (notMem_paramsText (c := ';') (by decide) params)
  exact rawPrototypes_eq_nil_of_delegate hspells (notMem_paramsText (by decide) params)
    (not_constantWord_text type address)

end

/-! ## Delegates and the functions of their text -/

theorem readAll_singleton (raw : Raw) : readAll [raw] = raw.read.map ([·]) := by
  rw [readAll]
  cases raw.read <;> rfl

/-- A text that is one delegate is spelled as its pattern says. -/
theorem exists_spells_of_delegates (hone : delegatePattern.occurrences wordStart code = [o])
    (hwhole : o.whole = ⟨code, []⟩) (hread : delegates code = .ok [d]) :
    ∃ inner, Spells delegatePattern code [d.returnType, d.name, inner] ∧ '(' ∉ inner := by
  obtain ⟨a, -, -, hm⟩ := matches_of_mem_occurrencesFrom (hone ▸ List.mem_singleton_self o)
  rw [hwhole] at hm
  obtain ⟨s, hs, hspells⟩ := spells_of_matches hm
  obtain rfl : code = s := by simpa using hs
  obtain ⟨r, -, -, -, n, -, -, inner, -, hr, -, -, -, -, -, -, -, -, -, htexts⟩ :=
    spells_delegatePattern.1 hspells
  have hraw := ofCuts?_eq_some htexts
  rw [(trimmed_delegateType hr).trim_eq] at hraw
  rw [delegates, rawDelegates, captures, hone, List.map_singleton, List.filterMap_cons_some hraw,
    List.filterMap_nil, readAll_singleton, Raw.read] at hread
  cases hlist : Parameter.readList inner with
  | error e => simp [hlist, Except.map] at hread
  | ok params =>
    obtain rfl : ⟨n, r, params⟩ = d := by simpa [hlist, Except.map] using hread
    refine ⟨inner, htexts ▸ hspells, fun hmem => ?_⟩
    obtain ⟨item, herror⟩ := Parameter.readList_eq_error (.inl rfl) hmem
    simp [hlist] at herror

/-- A text that is one delegate holds no function, unless the delegate returns a `const` word.  Then
the function of that word is found in it, and reading fails, since its parameters have parentheses
of their own. -/
theorem prototypes_of_delegate (hone : delegatePattern.occurrences wordStart code = [o])
    (hwhole : o.whole = ⟨code, []⟩) (hread : delegates code = .ok [d]) :
    (prototypes code = .ok [] ↔ ¬ ConstantWord d.returnType) ∧
    (ConstantWord d.returnType →
      ∃ item params, prototypes code = .error (.malformedParameter item params)) := by
  obtain ⟨inner, hspells, hinner⟩ := exists_spells_of_delegates hone hwhole hread
  have hplain (htype : ¬ ConstantWord d.returnType) : prototypes code = .ok [] := by
    rw [prototypes, rawPrototypes_eq_nil_of_delegate hspells hinner htype]
    rfl
  have hconstant (htype : ConstantWord d.returnType) :
      ∃ item params, prototypes code = .error (.malformedParameter item params) := by
    obtain ⟨w, hw, htype⟩ := htype
    rw [htype] at hspells
    obtain ⟨params, hclose, hraw⟩ := rawPrototypes_of_constantWord hspells hw hinner
    obtain ⟨item, herror⟩ := Parameter.readList_eq_error (.inr rfl) hclose
    refine ⟨item, trim params, ?_⟩
    rw [prototypes, hraw, readAll_singleton, Raw.read, herror]
    rfl
  refine ⟨⟨fun h htype => ?_, hplain⟩, hconstant⟩
  obtain ⟨item, params, herror⟩ := hconstant htype
  rw [h] at herror
  cases herror

/-- A delegate that returns a word alone. -/
theorem prototypes_of_delegate_word :
    delegatePattern.occurrences wordStart "typedef int (*ta_cb_t) (int a);".toList =
      [⟨⟨"typedef int (*ta_cb_t) (int a);".toList, []⟩,
        [⟨"int (*ta_cb_t) (int a);".toList, " (*ta_cb_t) (int a);".toList⟩,
          ⟨"ta_cb_t) (int a);".toList, ") (int a);".toList⟩,
          ⟨"int a);".toList, ");".toList⟩]⟩] ∧
    delegates "typedef int (*ta_cb_t) (int a);".toList =
      .ok [⟨"ta_cb_t".toList, "int".toList,
        [.named { name := "a".toList, type := "int".toList }]⟩] ∧
    prototypes "typedef int (*ta_cb_t) (int a);".toList = .ok [] := by
  have hone : delegatePattern.occurrences wordStart "typedef int (*ta_cb_t) (int a);".toList =
      [⟨⟨"typedef int (*ta_cb_t) (int a);".toList, []⟩,
        [⟨"int (*ta_cb_t) (int a);".toList, " (*ta_cb_t) (int a);".toList⟩,
          ⟨"ta_cb_t) (int a);".toList, ") (int a);".toList⟩,
          ⟨"int a);".toList, ");".toList⟩]⟩] := by
    decide +kernel
  have hread : delegates "typedef int (*ta_cb_t) (int a);".toList =
      .ok [⟨"ta_cb_t".toList, "int".toList,
        [.named { name := "a".toList, type := "int".toList }]⟩] := by
    decide +kernel
  refine ⟨hone, hread, (prototypes_of_delegate hone rfl hread).1.2 ?_⟩
  rintro ⟨w, -, htype⟩
  simp at htype

/-- A delegate of normalized code that is read as a function. -/
theorem exists_delegate_read_as_function : ∃ code o d, codeOf code = code ∧
    delegatePattern.occurrences wordStart code = [o] ∧ o.whole = ⟨code, []⟩ ∧
    delegates code = .ok [d] ∧ prototypes code ≠ .ok [] :=
  ⟨"typedef const char (*ta_cb_t) (int a);".toList,
    ⟨⟨"typedef const char (*ta_cb_t) (int a);".toList, []⟩,
      [⟨"const char (*ta_cb_t) (int a);".toList, " (*ta_cb_t) (int a);".toList⟩,
        ⟨"ta_cb_t) (int a);".toList, ") (int a);".toList⟩,
        ⟨"int a);".toList, ");".toList⟩]⟩,
    ⟨"ta_cb_t".toList, "const char".toList,
      [.named { name := "a".toList, type := "int".toList }]⟩,
    by decide +kernel, by decide +kernel, rfl, by decide +kernel, by decide +kernel⟩

end HeaderApi.Signature

namespace HeaderApi

open Grammar Text

/-! ## Structs with members -/

/-- A struct with members is one struct type and holds no function and no delegate.  It holds no
enum either, unless its tag begins with `enum`. -/
theorem declarations_struct (tag : Name) (members : Members) (name : Name) :
    StructType.names (structText (some tag.text) members.text name.text) =
      [name.text ++ "_t".toList] ∧
    Signature.prototypes (structText (some tag.text) members.text name.text) = .ok [] ∧
    Signature.delegates (structText (some tag.text) members.text name.text) = .ok [] ∧
    Enum.all (structText (some tag.text) members.text name.text) =
      if "enum".toList <+: tag.text then
        [Enum.ofBody (name.text ++ "_t".toList) (' ' :: members.text ++ [' '])]
      else [] := by
  have hopen : '\x7b' ∉ members.text := members.plain _ (by decide)
  have hclose : '\x7d' ∉ members.text := members.plain _ (by decide)
  have hparen : '(' ∉ structText (some tag.text) members.text name.text := by
    have hmembers := members.plain '(' (by decide)
    simp [Enum.structText_eq, tagText, hmembers, tag.notMem, name.notMem, isLowerName]
  obtain ⟨hprototypes, hdelegates⟩ := Signature.raw_eq_nil_of_notMem hparen
  refine ⟨?_, ?_, ?_, ?_⟩
  · rw [StructType.names, StructType.names_structText (fun w hw => Option.some.inj hw ▸ ?_)
      ⟨hopen, hclose⟩ members.noTypedef ⟨name.ne_nil, name.word⟩]
    · rfl
    · exact ⟨tag.ne_nil, tag.word⟩
  · rw [Signature.prototypes, hprototypes]
    rfl
  · rw [Signature.delegates, hdelegates]
    rfl
  · split
    next henum => exact Enum.all_structText_of_isPrefix hopen name.word henum tag.word hclose
    next henum =>
      refine Enum.all_structText hopen name.word fun w hw => ?_
      obtain rfl := Option.some.inj hw
      exact ⟨henum, tag.word⟩

/-- A struct of normalized code that is read as an enum. -/
theorem exists_struct_read_as_enum : ∃ (tag : Name) (members : Members) (name : Name),
    codeOf (structText (some tag.text) members.text name.text) =
      structText (some tag.text) members.text name.text ∧
    Enum.all (structText (some tag.text) members.text name.text) ≠ [] :=
  ⟨⟨⟨"enumx".toList, by decide, by decide⟩, by decide⟩,
    ⟨"int a;".toList, by decide, by decide, by decide⟩,
    ⟨⟨"b".toList, by decide, by decide⟩, by decide⟩, by decide +kernel, by decide +kernel⟩

end HeaderApi
