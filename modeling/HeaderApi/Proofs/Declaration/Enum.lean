import Mathlib.Data.Option.Basic
import HeaderApi.Proofs.Declaration.Lexicon
import HeaderApi.Proofs.Declaration.Locality

/-!
# Enums of the grammar are found

An enum is found by its braces: the keyword and the tag stand right in front of them.  A struct with
members has braces too, and is told apart by what stands there.
-/

namespace HeaderApi.Enum

open Declaration Grammar Pattern Text

variable {a g s t u : Text} {c : Char} {texts : List Text}

/-! ## The pattern -/

/-- What stands in front of the braces of an enum. -/
def Opening (s : Text) : Prop :=
  ∃ k g t, (k = "typedef ".toList ∨ k = []) ∧ IsGap g ∧ Spells tag t [] ∧
    s = k ++ "enum".toList ++ g ++ t

theorem spells_pattern : Spells pattern s texts ↔
    ∃ front body g n g', Opening front ∧ ('\x7b' ∉ body ∧ '\x7d' ∉ body) ∧ IsGap g ∧
      (n ≠ [] ∧ ∀ c ∈ n, isWord c = true) ∧ IsGap g' ∧
      s = front ++ '\x7b' :: (body ++ '\x7d' :: (g ++ n ++ g' ++ [';'])) ∧ texts = [body, n] := by
  constructor
  · intro h
    obtain ⟨k, _, rfl, hk, h₁⟩ := (spells_silent_andThen rfl).1 h
    obtain ⟨_, rfl, h₂⟩ := spells_literal_andThen.1 h₁
    obtain ⟨g₀, _, rfl, hg₀, h₃⟩ := (spells_silent_andThen rfl).1 h₂
    obtain ⟨t, _, rfl, ht, h₄⟩ := (spells_silent_andThen rfl).1 h₃
    obtain ⟨_, rfl, h₅⟩ := spells_literal_andThen.1 h₄
    obtain ⟨body, _, _, rfl, rfl, hbody, h₆⟩ := (spells_capture_andThen rfl).1 h₅
    obtain ⟨_, rfl, h₇⟩ := spells_literal_andThen.1 h₆
    obtain ⟨g, _, rfl, hg, h₈⟩ := (spells_silent_andThen rfl).1 h₇
    obtain ⟨n, _, _, rfl, rfl, hn, h₉⟩ := (spells_capture_andThen rfl).1 h₈
    obtain ⟨g', _, rfl, hg', ⟨rfl, rfl⟩⟩ := (spells_silent_andThen rfl).1 h₉
    have hk' : k = "typedef ".toList ∨ k = [] := hk.imp And.left And.left
    exact ⟨k ++ "enum".toList ++ g₀ ++ t, body, g, n, g',
      ⟨k, g₀, t, hk', spells_gap.1 hg₀, ht, rfl⟩,
      spells_braced.1 hbody, spells_gap.1 hg, spells_many1.1 hn, spells_gap.1 hg', by simp, rfl⟩
  · rintro ⟨_, body, g, n, g', ⟨k, g₀, t, hk, hg₀, ht, rfl⟩, hbody, hg, hn, hg', rfl, rfl⟩
    have h₀ : Spells (.literal ";".toList) [';'] [] := ⟨rfl, rfl⟩
    have h₁ := (spells_silent_andThen (p := gap) rfl).2 ⟨g', _, rfl, spells_gap.2 hg', h₀⟩
    have h₂ := (spells_capture_andThen rfl).2 ⟨n, _, _, rfl, rfl, spells_many1.2 hn, h₁⟩
    have h₃ := (spells_silent_andThen (p := gap) rfl).2 ⟨g, _, rfl, spells_gap.2 hg, h₂⟩
    have h₄ := spells_literal_andThen.2 ⟨_, (rfl : _ = "\x7d".toList ++ _), h₃⟩
    have h₅ := (spells_capture_andThen rfl).2 ⟨body, _, _, rfl, rfl, spells_braced.2 hbody, h₄⟩
    have h₆ := spells_literal_andThen.2 ⟨_, (rfl : _ = "\x7b".toList ++ _), h₅⟩
    have h₇ := (spells_silent_andThen (p := tag) rfl).2 ⟨t, _, rfl, ht, h₆⟩
    have h₈ := (spells_silent_andThen (p := gap) rfl).2 ⟨g₀, _, rfl, spells_gap.2 hg₀, h₇⟩
    have h₉ := spells_literal_andThen.2 ⟨_, (rfl : _ = "enum".toList ++ _), h₈⟩
    have hk' : Spells (.optional "typedef ") k [] :=
      hk.imp (fun h => ⟨h, rfl⟩) fun h => ⟨h, rfl⟩
    have h₁₀ := (spells_silent_andThen (p := .optional "typedef ") rfl).2 ⟨k, _, rfl, hk', h₉⟩
    exact (congrArg (Spells pattern · [body, n]) (by simp)).mpr h₁₀

theorem Opening.notMem_of_avoids (h : Opening s) (hc : tag.avoids c = true)
    (hc' : c ∉ "typedef enum ".toList) : c ∉ s := by
  obtain ⟨k, g, t, hk, hg, ht, rfl⟩ := h
  have hkeyword : c ∉ k := by
    rcases hk with rfl | rfl
    · exact fun h => hc' ((show "typedef ".toList ⊆ "typedef enum ".toList by decide) h)
    · exact List.not_mem_nil
  have henum : c ∉ "enum".toList := fun h =>
    hc' ((show "enum".toList ⊆ "typedef enum ".toList by decide) h)
  have hspace : c ≠ ' ' := by
    rintro rfl
    exact hc' (by decide)
  simp only [List.mem_append, not_or]
  exact ⟨⟨⟨hkeyword, henum⟩, hg.notMem hspace⟩, ht.notMem_of_avoids hc⟩

theorem Opening.notMem (h : Opening s) : '\x7b' ∉ s := h.notMem_of_avoids (by decide) (by decide)

theorem all_of_captures {cuts : List Cut} {body name : Text}
    (hcaptures : pattern.captures wordStart t = [cuts]) (htexts : cuts.map Cut.text = [body, name]) :
    all t = [ofBody name body] := by
  obtain ⟨c₁, c₂, rfl⟩ : ∃ c₁ c₂, cuts = [c₁, c₂] := by
    rcases cuts with _ | ⟨c₁, _ | ⟨c₂, _ | _⟩⟩ <;> simp_all
  rw [all, hcaptures]
  simp_all

/-! ## Enums -/

/-- The text of an enum in front of its braces. -/
def frontText (isTypedef : Bool) (tag : Option Text) : Text :=
  (if isTypedef then "typedef ".toList else []) ++ "enum".toList ++ [' '] ++ tagText tag

theorem enumText_eq (isTypedef : Bool) (tag : Option Text) (body name : Text) :
    enumText isTypedef tag body name = frontText isTypedef tag ++
      '\x7b' :: ((' ' :: body ++ [' ']) ++ '\x7d' :: (' ' :: name ++ [';'])) := by
  unfold enumText frontText
  generalize (if isTypedef then "typedef ".toList else []) = k
  simp

theorem opening_frontText (isTypedef : Bool) {tag : Option Text}
    (htag : ∀ w ∈ tag, w ≠ [] ∧ ∀ c ∈ w, isWord c = true) : Opening (frontText isTypedef tag) := by
  refine ⟨_, [' '], tagText tag, ?_, .inr rfl, ?_, rfl⟩
  · cases isTypedef with
    | false => exact .inr rfl
    | true => exact .inl rfl
  · rw [spells_tag]
    cases tag with
    | none => exact .inl rfl
    | some w => exact .inr ⟨w, [' '], htag w rfl, .inr rfl, rfl⟩

/-- An enum is found as it was written. -/
theorem all_enumText (isTypedef : Bool) {tag : Option Text} {body name : Text}
    (htag : ∀ w ∈ tag, w ≠ [] ∧ ∀ c ∈ w, isWord c = true)
    (hbody : '\x7b' ∉ body ∧ '\x7d' ∉ body) (hname : name ≠ [] ∧ ∀ c ∈ name, isWord c = true) :
    all (enumText isTypedef tag body name) = [ofBody name (' ' :: body ++ [' '])] := by
  have hfront := opening_frontText isTypedef htag
  have hbody' : '\x7b' ∉ ' ' :: body ++ [' '] ∧ '\x7d' ∉ ' ' :: body ++ [' '] := by
    simpa using hbody
  have hspells : Spells pattern (enumText isTypedef tag body name)
      [' ' :: body ++ [' '], name] :=
    spells_pattern.2 ⟨_, _, [' '], name, [], hfront, hbody', .inr rfl, hname, .inl rfl,
      by rw [enumText_eq]; simp, rfl⟩
  have hseam : wordStart (enumText isTypedef tag body name).getLast? = wordStart none := by
    rw [show enumText isTypedef tag body name = _ ++ ";".toList from rfl,
      List.getLast?_append_of_ne_nil _ (by decide)]
    decide
  obtain ⟨cuts, hcaptures, htexts⟩ := exists_captures_eq_singleton (by simp [enumText_eq]) rfl hseam
    hspells fun s u texts h hs => by
      obtain ⟨front, body', g, n, g', hopening, hbody'', hg, hn, hg', rfl, rfl⟩ :=
        spells_pattern.1 hs
      have hcut : enumText isTypedef tag body name =
          front ++ '\x7b' :: (body' ++ '\x7d' :: (g ++ n ++ g' ++ ';' :: u)) := by
        simpa using h
      rw [enumText_eq] at hcut
      obtain ⟨-, rfl, hrest⟩ := braces_unique hfront.notMem hopening.notMem hbody'.2 hbody''.2 hcut
      obtain ⟨rfl, rfl⟩ := name_unique hname.2 hn hg hg' hrest
      exact ⟨rfl, rfl⟩
  exact all_of_captures hcaptures htexts

/-! ## Enumerators -/

section

variable {name : Text} {init : Option Text} (hname : ∀ c ∈ name, isWord c = true)

include hname

theorem notMem_enumeratorText (hc : isWord c = false) (hmark : c ∉ " = ".toList)
    (hinit : ∀ i ∈ init, c ∉ i) : c ∉ enumeratorText name init := by
  have hname : c ∉ name := fun h => by simp [hname c h] at hc
  rw [enumeratorText, List.mem_append, not_or]
  refine ⟨hname, ?_⟩
  cases init with
  | none => simp
  | some i =>
    change c ∉ " = ".toList ++ i
    rw [List.mem_append, not_or]
    exact ⟨hmark, hinit i rfl⟩

theorem trimmed_name : Trimmed name :=
  ⟨fun c hc => isBlank_of_isWord (hname c (List.mem_of_head? hc)),
    fun c hc => isBlank_of_isWord (hname c (List.mem_of_getLast? hc))⟩

theorem trimmed_enumeratorText (hne : name ≠ []) (hinit : ∀ i ∈ init, i ≠ [] ∧ Trimmed i) :
    Trimmed (enumeratorText name init) := by
  rw [enumeratorText]
  cases init with
  | none => simpa using trimmed_name hname
  | some i =>
    have := (trimmed_name hname).append (hinit i rfl).2 hne (hinit i rfl).1 " = ".toList
    simpa using this

/-- Without its initializer an enumerator is its name. -/
theorem bareEntry_enumeratorText : bareEntry (enumeratorText name init) = name := by
  have hall : ∀ c ∈ name, decide (c ≠ '=') = true := by
    intro c hc
    rw [decide_eq_true_eq]
    rintro rfl
    exact absurd (hname _ hc) (by decide)
  rw [bareEntry, enumeratorText, List.takeWhile_append_of_pos hall]
  cases init with
  | none => simpa using (trimmed_name hname).trim_eq
  | some i =>
    change trim (name ++ [' ']) = name
    rw [trim_concat_of_blank isBlank_space, (trimmed_name hname).trim_eq]

/-- An enumerator shifts in its initializer only. -/
theorem has_shift_enumeratorText :
    Text.has "<<".toList (enumeratorText name init) = init.any (Text.has "<<".toList) := by
  have hname : ¬ "<<".toList <:+: name := fun h =>
    absurd (hname '<' (h.mem (by decide))) (by decide)
  rw [Bool.eq_iff_iff, has_eq_true_iff, enumeratorText]
  cases init with
  | none => simpa using hname
  | some i =>
    change "<<".toList <:+: name ++ ' ' :: ([] ++ '=' :: ([] ++ ' ' :: i)) ↔ _
    have hnil : ¬ "<<".toList <:+: [] := by decide
    rw [infix_append_cons_iff (by decide), infix_append_cons_iff (by decide),
      infix_append_cons_iff (by decide), or_iff_right hname, or_iff_right hnil, or_iff_right hnil]
    rw [Option.any_some, has_eq_true_iff]

end

/-- The body of an enum is cut at its commas, whatever stands between them. -/
theorem ofBody_joinWith (name : Text) (items : List Text) :
    ofBody name (' ' :: joinWith ", ".toList items ++ [' ']) =
      { name, isFlags := items.any (Text.has "<<".toList),
        entries := (items.flatMap commaItems).map fun t =>
          if items.any (Text.has "<<".toList) then bareEntry t else t } := by
  have hflags : Text.has "<<".toList (' ' :: joinWith ", ".toList items ++ [' ']) =
      items.any (Text.has "<<".toList) := by
    have hnil : ¬ "<<".toList <:+: [] := by decide
    rw [Bool.eq_iff_iff, has_eq_true_iff, List.cons_append, ← List.nil_append (' ' :: _),
      infix_append_cons_iff (by decide), infix_append_cons_iff (by decide), or_iff_right hnil,
      or_iff_left hnil, infix_joinWith_commaSpace_iff (by decide) (by decide) (by decide)]
    simp [has_eq_true_iff]
  have hitems : commaItems (' ' :: joinWith ", ".toList items ++ [' ']) =
      items.flatMap commaItems := by
    rw [commaItems_concat_of_blank isBlank_space, commaItems_cons_of_blank isBlank_space,
      commaItems_joinWith_eq_flatMap]
  rw [ofBody]
  simp only [hflags, hitems]
  split
  next => rfl
  next => rw [List.map_id']

variable (e : Enumerator) (entries : List Enumerator)

theorem notMem_text_of_plain (hc : c ∈ ",;\x7b\x7d".toList) : c ∉ e.text := by
  have hplain : ∀ c ∈ ",;\x7b\x7d".toList, isWord c = false ∧ c ∉ " = ".toList := by decide
  rw [e.text_eq]
  refine notMem_enumeratorText e.word (hplain c hc).1 (hplain c hc).2 ?_
  exact Option.forall_mem_map.2 fun i _ => i.plain c hc

theorem text_ok : e.text ≠ [] ∧ Trimmed e.text ∧ ',' ∉ e.text := by
  refine ⟨List.append_ne_nil_of_left_ne_nil e.ne_nil _, ?_, notMem_text_of_plain e (by decide)⟩
  rw [e.text_eq]
  exact trimmed_enumeratorText e.word e.ne_nil
    (Option.forall_mem_map.2 fun i _ => ⟨i.ne_nil, i.trimmed⟩)

theorem has_shift_text : Text.has "<<".toList e.text = e.shifts := by
  rw [e.text_eq, has_shift_enumeratorText e.word, Option.any_map]
  rfl

theorem ofBody_entries (name : Text) :
    ofBody name (' ' :: joinWith ", ".toList (entries.map Enumerator.text) ++ [' ']) =
      { name, isFlags := entries.any Enumerator.shifts,
        entries := entries.map fun e =>
          if entries.any Enumerator.shifts then e.name else e.text } := by
  have hitems : (entries.map Enumerator.text).flatMap commaItems = entries.map Enumerator.text :=
    flatMap_commaItems (List.forall_mem_map.2 fun e _ => text_ok e)
  have hbare : ∀ e : Enumerator, bareEntry e.text = e.name := fun e => by
    rw [e.text_eq, bareEntry_enumeratorText e.word]
  rw [ofBody_joinWith, hitems, List.map_map]
  simp only [List.any_map, Function.comp_def, has_shift_text, hbare]

/-! ## Structs with members -/

theorem Opening.starts (h : Opening s) : "typedef enum".toList <+: s ∨ "enum".toList <+: s := by
  obtain ⟨k, g, t, rfl | rfl, -, -, rfl⟩ := h
  · exact .inl ⟨g ++ t, by simp⟩
  · exact .inr ⟨g ++ t, by simp⟩

/-- A tag that begins like an enum opens one. -/
theorem opening_of_isPrefix {w : Text} (h : "enum".toList <+: w) (hw : ∀ c ∈ w, isWord c = true) :
    Opening (w ++ [' ']) := by
  obtain ⟨v, rfl⟩ := h
  have hv : ∀ c ∈ v, isWord c = true := fun c hc => hw c (List.mem_append_right _ hc)
  by_cases hne : v = []
  · exact ⟨[], [' '], [], .inr rfl, .inr rfl, spells_tag.2 (.inl rfl), by simp [hne]⟩
  · exact ⟨[], [], v ++ [' '], .inr rfl, .inl rfl,
      spells_tag.2 (.inr ⟨v, [' '], ⟨hne, hv⟩, .inr rfl, rfl⟩), by simp⟩

/-- What opens an enum in front of the braces of a struct is the tag, if it begins like one. -/
theorem opening_cases {tag : Option Text} (htag : ∀ w ∈ tag, ∀ c ∈ w, isWord c = true)
    (ha : wordStart a.getLast? = true) (h : "typedef struct ".toList ++ tagText tag = a ++ s)
    (hs : Opening s) : ∃ w ∈ tag, "enum".toList <+: w ∧ s = w ++ [' '] := by
  have hne : s ≠ [] := by
    rintro rfl
    rcases hs.starts with h | h <;> simp at h
  rcases front_cases (k := "typedef".toList) (w := "struct".toList) (by decide) (by decide)
    htag ha hne (by simpa using h) with rfl | rfl | ⟨w, hw, rfl⟩
  · rcases hs.starts with ⟨r, hr⟩ | ⟨r, hr⟩ <;> simp at hr
  · rcases hs.starts with ⟨r, hr⟩ | ⟨r, hr⟩ <;> simp at hr
  · refine ⟨w, hw, ?_, rfl⟩
    have hspace : ' ' ∉ w := fun h => absurd (htag w hw _ h) (by decide)
    rcases hs.starts with ⟨r, hr⟩ | hstarts
    · have := first_unique (a := "typedef".toList) (l := "enum".toList ++ r) (by decide) hspace
        (by simpa using hr)
      simp at this
    · exact prefix_of_prefix_append_cons (by decide) hstarts

theorem structText_eq (tag : Option Text) (members name : Text) :
    structText tag members name =
      ("typedef struct ".toList ++ tagText tag) ++
        '\x7b' :: ((' ' :: members ++ [' ']) ++
          '\x7d' :: (' ' :: (name ++ "_t".toList) ++ [';'])) := by
  unfold structText
  simp

section

variable {tag : Option Text} {members name : Text} (hmembers : '\x7b' ∉ members)
  (hname : ∀ c ∈ name, isWord c = true)

include hmembers hname in
/-- A struct has one opening brace, so what opens an enum in it ends there. -/
theorem structText_cut {front inner rest : Text} (htag : ∀ w ∈ tag, ∀ c ∈ w, isWord c = true)
    (h : structText tag members name = a ++ front ++ '\x7b' :: (inner ++ '\x7d' :: rest)) :
    "typedef struct ".toList ++ tagText tag = a ++ front ∧
      (' ' :: members ++ [' ']) ++ '\x7d' :: (' ' :: (name ++ "_t".toList) ++ [';']) =
        inner ++ '\x7d' :: rest := by
  have hfront : '\x7b' ∉ "typedef struct ".toList ++ tagText tag := by
    cases tag with
    | none => decide
    | some w =>
      have : '\x7b' ∉ w := fun h => absurd (htag w rfl _ h) (by decide)
      simp [tagText, this]
  have hrest : '\x7b' ∉ (' ' :: members ++ [' ']) ++
      '\x7d' :: (' ' :: (name ++ "_t".toList) ++ [';']) := by
    have : '\x7b' ∉ name := fun h => absurd (hname _ h) (by decide)
    simp [hmembers, this]
  rw [structText_eq] at h
  obtain ⟨hcut, -, hbehind⟩ := (List.append_cons_inj_of_notMem hfront hrest).1 h
  exact ⟨hcut, hbehind⟩

include hmembers hname in
/-- A struct whose tag does not begin like an enum holds none. -/
theorem all_structText (htag : ∀ w ∈ tag, ¬ "enum".toList <+: w ∧ ∀ c ∈ w, isWord c = true) :
    all (structText tag members name) = [] := by
  have hword : ∀ w ∈ tag, ∀ c ∈ w, isWord c = true := fun w hw => (htag w hw).2
  rw [all, captures_eq_nil_of_not_spells, List.filterMap_nil]
  rintro a s u h ha texts hs
  obtain ⟨front, body, g, n, g', hopening, -, -, -, -, rfl, -⟩ := spells_pattern.1 hs
  have hbraces : structText tag members name =
      a ++ front ++ '\x7b' :: (body ++ '\x7d' :: (g ++ n ++ g' ++ ';' :: u)) := by
    simpa using h
  obtain ⟨hcut, -⟩ := structText_cut hmembers hname hword hbraces
  obtain ⟨w, hw, henum, -⟩ := opening_cases hword ha hcut hopening
  exact (htag w hw).1 henum

include hmembers hname in
/-- A struct whose tag begins like an enum is read as one. -/
theorem all_structText_of_isPrefix {w : Text} (henum : "enum".toList <+: w)
    (hw : ∀ c ∈ w, isWord c = true) (hclose : '\x7d' ∉ members) :
    all (structText (some w) members name) =
      [ofBody (name ++ "_t".toList) (' ' :: members ++ [' '])] := by
  have hword : ∀ v ∈ some w, ∀ c ∈ v, isWord c = true := fun v hv => Option.some.inj hv ▸ hw
  have hclose' : '\x7d' ∉ ' ' :: members ++ [' '] := by simpa using hclose
  have hname' := isWord_typeName hname
  have htext : structText (some w) members name = "typedef struct ".toList ++
      ((w ++ [' ']) ++ '\x7b' :: ((' ' :: members ++ [' ']) ++
        '\x7d' :: ([' '] ++ (name ++ "_t".toList) ++ [] ++ [';']))) := by
    simp [structText_eq, tagText]
  have hspells : Spells pattern ((w ++ [' ']) ++ '\x7b' :: ((' ' :: members ++ [' ']) ++
      '\x7d' :: ([' '] ++ (name ++ "_t".toList) ++ [] ++ [';'])))
      [' ' :: members ++ [' '], name ++ "_t".toList] :=
    spells_pattern.2 ⟨w ++ [' '], _, [' '], _, [], opening_of_isPrefix henum hw,
      ⟨by simpa using hmembers, hclose'⟩, .inr rfl, ⟨by simp, hname'⟩, .inl rfl, rfl, rfl⟩
  -- Every match stands behind the two keywords and takes all that is left.
  have honly {b s' u : Text} {texts : List Text} (ha : wordStart b.getLast? = true)
      (h : structText (some w) members name = b ++ s' ++ u) (hs : Spells pattern s' texts) :
      b = "typedef struct ".toList ∧ texts = [' ' :: members ++ [' '], name ++ "_t".toList] := by
    obtain ⟨front, body, g, n, g', hopening, hbody, hg, hn, hg', rfl, rfl⟩ := spells_pattern.1 hs
    have hbraces : structText (some w) members name =
        b ++ front ++ '\x7b' :: (body ++ '\x7d' :: (g ++ n ++ g' ++ ';' :: u)) := by
      simpa using h
    obtain ⟨hcut, hrest⟩ := structText_cut hmembers hname hword hbraces
    obtain ⟨v, hv, -, rfl⟩ := opening_cases hword ha hcut hopening
    obtain rfl := Option.some.inj hv
    obtain ⟨rfl, hbehind⟩ := first_unique hclose' hbody.2 hrest
    obtain ⟨rfl, -⟩ := name_unique hname' hn hg hg' hbehind
    exact ⟨(List.append_cancel_right hcut).symm, rfl⟩
  have hanchor : wordStart "typedef struct ".toList.getLast? = true := by decide
  obtain ⟨cuts, hcaptures, htexts⟩ := exists_captures_of_start hanchor (by simp) hspells
    (fun b s' u texts h ha hs => (honly ha (htext.trans h) hs).1)
    fun s' u texts h hs => (honly hanchor (by rw [htext, h, List.append_assoc]) hs).2
  rw [← htext] at hcaptures
  exact all_of_captures hcaptures htexts

end

theorem all_of_notMem (ht : '\x7b' ∉ t) : all t = [] := by
  rw [all, captures_eq_nil_of_notMem (c := '\x7b') (by decide) ht, List.filterMap_nil]

end HeaderApi.Enum
