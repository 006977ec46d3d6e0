import HeaderApi.Proofs.Declaration.Lexicon
import HeaderApi.Proofs.Declaration.Parameter

/-!
# Parameter lists

`StandsFor` says which items are parameters, and which ones they are: those that the pattern of a
type and a name takes as a whole (`read?_eq_captures?`).  A list is read if all of its items are
parameters, and otherwise it is refused for the first one that is not.  The parameters that were
read can be written out as a list that is read again (`readList_exact`).
-/

namespace HeaderApi

namespace Text

variable {c : Char} {front word t : Text}

/-- The longest end of a text that is made of word characters. -/
structure IsLastWord (word t : Text) : Prop where
  suffix : word <:+ t
  chars : ∀ c ∈ word, isWord c = true
  longest : ∀ s, s <:+ t → (∀ c ∈ s, isWord c = true) → s <:+ word

/-- No run of word characters goes on in front of another character. -/
theorem isLastWord_append_cons (hc : isWord c = false) (front : Text)
    (hword : ∀ c ∈ word, isWord c = true) : IsLastWord word (front ++ c :: word) where
  suffix := (List.suffix_cons c word).trans (List.suffix_append front _)
  chars := hword
  longest s hs hchars := by
    have hbehind : s <:+ c :: word := by
      refine (List.suffix_or_suffix_of_suffix hs (List.suffix_append front _)).resolve_right ?_
      intro hsuffix
      have := hchars c (hsuffix.subset List.mem_cons_self)
      simp [hc] at this
    rcases List.suffix_cons_iff.1 hbehind with rfl | hsuffix
    · have := hchars c List.mem_cons_self
      simp [hc] at this
    · exact hsuffix

/-- So the text is split there. -/
theorem splitLastWord_append_cons (hc : isWord c = false) (front : Text)
    (hword : ∀ c ∈ word, isWord c = true) :
    splitLastWord (front ++ c :: word) = (front ++ [c], word) := by
  have hsplit := splitLastWord_eq hword (show ∀ d ∈ (front ++ [c]).getLast?, isWord d = false by
    simpa using hc)
  simpa using hsplit

theorem isWord_of_mem_splitLastWord (h : c ∈ (splitLastWord t).2) : isWord c = true := by
  rw [splitLastWord, List.mem_reverse] at h
  exact List.mem_takeWhile_imp h

end Text

namespace Parameter

open Text Pattern

variable {params item : Text} {items texts texts' : List Text} {p q : Parameter}
  {ps : List Parameter} {e : ScanError} {c : Char}

/-! ## Items -/

/-- The parameter that a trimmed item is: `...`, or a type, which ends with a space or an asterisk,
and a name. -/
inductive StandsFor : Text → Parameter → Prop where
  | variadic : StandsFor "...".toList .variadic
  | named {front name : Text} {c : Char} (hopen : '(' ∉ front ++ c :: name)
    (hclose : ')' ∉ front ++ c :: name) (hc : c = ' ' ∨ c = '*')
    (hname : IsLastWord name (front ++ c :: name)) (hne : name ≠ []) (hfront : front ≠ [])
    (hfeed : '\n' ∉ front) :
    StandsFor (front ++ c :: name) (.named { name, type := trim (front ++ [c]) })

theorem isWord_eq_false (hc : c = ' ' ∨ c = '*') : isWord c = false := by
  rcases hc with rfl | rfl <;> decide

theorem read?_eq_some_iff : read? item = some p ↔ StandsFor item p := by
  constructor
  · intro h
    rw [read?] at h
    split at h
    next hdots =>
      cases h
      exact hdots ▸ .variadic
    next =>
      split at h
      next => cases h
      next hparens =>
        rw [not_or] at hparens
        have happend := splitLastWord_append item
        have hchars := fun c => isWord_of_mem_splitLastWord (c := c) (t := item)
        revert h happend hchars
        obtain ⟨head, name⟩ := splitLastWord item
        intro h happend hchars
        dsimp only at h happend hchars
        split at h
        next c hlast =>
          split at h
          next hgood =>
            obtain ⟨hne, hc, hfront, hfeed⟩ := hgood
            obtain ⟨front, rfl⟩ := List.getLast?_eq_some_iff.1 hlast
            rw [List.dropLast_concat] at hfront hfeed
            rw [List.append_assoc, List.singleton_append] at happend
            subst happend
            cases h
            exact .named hparens.1 hparens.2 hc
              (isLastWord_append_cons (isWord_eq_false hc) front hchars) hne hfront hfeed
          next => cases h
        next => cases h
  · intro h
    cases h with
    | variadic => rfl
    | @named front name c hopen hclose hc hname hne hfront hfeed =>
      have hdots : front ++ c :: name ≠ "...".toList := by
        intro hdots
        have hmem : c ∈ "...".toList := hdots ▸ List.mem_append_right front List.mem_cons_self
        rcases hc with rfl | rfl <;> exact absurd hmem (by decide)
      rw [read?, if_neg hdots, if_neg (not_or.2 ⟨hopen, hclose⟩),
        splitLastWord_append_cons (isWord_eq_false hc) front hname.chars]
      simp [hne, hc, hfront, hfeed]

theorem read?_eq_none_iff : read? item = none ↔ ¬ ∃ p, StandsFor item p := by
  simp only [Option.eq_none_iff_forall_ne_some, ne_eq, read?_eq_some_iff, not_exists]

/-- An item is one parameter at most, however it is split. -/
theorem StandsFor.unique (hp : StandsFor item p) (hq : StandsFor item q) : p = q :=
  Option.some.inj ((read?_eq_some_iff.2 hp).symm.trans (read?_eq_some_iff.2 hq))

/-! ## Items as matches -/

/-- A type, which ends with a space or an asterisk, and a name. -/
def pattern : Pattern :=
  .seq [.capture (.seq [.many1 (· ≠ '\n'), .one fun c => c = ' ' || c = '*']),
    .capture Declaration.word]

/-- What is captured by the first match that takes all of an item. -/
def captures? (item : Text) : Option (List Text) :=
  ((pattern.reaches item).find? (·.rest = [])).map (·.cuts.map Cut.text)

theorem spells_pattern_iff : Spells pattern item texts ↔
    ∃ front c name, item = front ++ c :: name ∧ texts = [front ++ [c], name] ∧ front ≠ [] ∧
      '\n' ∉ front ∧ (c = ' ' ∨ c = '*') ∧ name ≠ [] ∧ ∀ d ∈ name, isWord d = true := by
  have hfeed (front : Text) :
      (∀ d ∈ front, decide (d ≠ '\n') = true) ↔ '\n' ∉ front := by
    simp only [decide_eq_true_eq]
    exact ⟨fun h hmem => h _ hmem rfl, fun h d hd heq => h (heq ▸ hd)⟩
  constructor
  · intro h
    obtain ⟨_, _, _, rfl, rfl, htype, ⟨inner, rfl, hname⟩⟩ := (spells_capture_andThen rfl).1 h
    obtain ⟨front, _, rfl, hfront, ⟨c, hc, rfl⟩, -⟩ := (spells_silent_andThen rfl).1 htype
    obtain rfl := hname.eq_nil_of_silent rfl
    obtain ⟨hne, hword⟩ := Declaration.spells_many1.1 hname
    obtain ⟨hfrontNe, hchars⟩ := Declaration.spells_many1.1 hfront
    exact ⟨front, c, _, by simp, rfl, hfrontNe, (hfeed front).1 hchars, by simpa using hc, hne,
      hword⟩
  · rintro ⟨front, c, name, rfl, rfl, hfrontNe, hchars, hc, hne, hword⟩
    have hfront : Spells (.many1 (· ≠ '\n')) front [] :=
      Declaration.spells_many1.2 ⟨hfrontNe, (hfeed front).2 hchars⟩
    refine (spells_capture_andThen rfl).2 ⟨front ++ [c], name, [name], by simp, rfl, ?_, ?_⟩
    · exact (spells_silent_andThen rfl).2 ⟨front, [c], rfl, hfront, ⟨c, by simpa using hc, rfl⟩, rfl⟩
    · exact ⟨[], rfl, Declaration.spells_many1.2 ⟨hne, hword⟩⟩

/-- The name is the last word, so it makes no difference which match is preferred. -/
theorem spells_pattern_unique (h : Spells pattern item texts) (h' : Spells pattern item texts') :
    texts = texts' := by
  obtain ⟨front, c, name, rfl, rfl, -, -, hc, -, hword⟩ := spells_pattern_iff.1 h
  obtain ⟨front', c', name', heq, rfl, -, -, hc', -, hword'⟩ := spells_pattern_iff.1 h'
  have hsplit := splitLastWord_append_cons (isWord_eq_false hc) front hword
  rw [heq, splitLastWord_append_cons (isWord_eq_false hc') front' hword'] at hsplit
  obtain ⟨htype, hname⟩ := Prod.mk.inj hsplit
  rw [htype, hname]

theorem captures?_eq_some_iff : captures? item = some texts ↔ Spells pattern item texts := by
  have hspells {r : Reach} (hr : (pattern.reaches item).find? (·.rest = []) = some r) :
      Spells pattern item (r.cuts.map Cut.text) := by
    have hrest : r.rest = [] := by simpa using List.find?_some hr
    obtain ⟨s, hs, hspells⟩ :=
      spells_of_matches (matches_of_mem_reaches (List.mem_of_find?_eq_some hr))
    rw [hrest, List.append_nil] at hs
    exact hs ▸ hspells
  rw [captures?, Option.map_eq_some_iff]
  constructor
  · rintro ⟨r, hr, rfl⟩
    exact hspells hr
  · intro h
    obtain ⟨cuts, hmatch, -⟩ := matches_of_spells h []
    rw [List.append_nil] at hmatch
    have hsome : ((pattern.reaches item).find? (·.rest = [])).isSome :=
      List.find?_isSome.2 ⟨_, hmatch.mem_reaches, by simp⟩
    obtain ⟨r, hr⟩ := Option.isSome_iff_exists.1 hsome
    exact ⟨r, hr, spells_pattern_unique (hspells hr) h⟩

/-- An item that is no `...` and has no parentheses is read as the pattern captures it. -/
theorem read?_eq_captures? (item : Text) : read? item =
    if item = "...".toList then some .variadic
    else if '(' ∈ item ∨ ')' ∈ item then none
    else
      match captures? item with
      | some [type, name] => some (.named { name, type := trim type })
      | _ => none := by
  split
  next hdots => rw [read?, if_pos hdots]
  next hdots =>
    split
    next hparens => rw [read?, if_neg hdots, if_pos hparens]
    next hparens =>
      rw [not_or] at hparens
      cases hcaptures : captures? item with
      | some texts =>
        obtain ⟨front, c, name, rfl, rfl, hfront, hfeed, hc, hne, hword⟩ :=
          spells_pattern_iff.1 (captures?_eq_some_iff.1 hcaptures)
        have hname := isLastWord_append_cons (isWord_eq_false hc) front hword
        exact read?_eq_some_iff.2 (.named hparens.1 hparens.2 hc hname hne hfront hfeed)
      | none =>
        refine read?_eq_none_iff.2 ?_
        rintro ⟨p, hp⟩
        cases hp with
        | variadic => exact hdots rfl
        | @named front name c hopen hclose hc hname hne hfront hfeed =>
          have hspells := spells_pattern_iff.2
            ⟨front, c, name, rfl, rfl, hfront, hfeed, hc, hne, hname.chars⟩
          rw [captures?_eq_some_iff.2 hspells] at hcaptures
          cases hcaptures

/-! ## Lists of items -/

theorem readItems_eq_ok_iff_standsFor :
    readItems params items = .ok ps ↔ List.Forall₂ StandsFor items ps := by
  simp only [readItems_eq_ok_iff, read?_eq_some_iff]

theorem readItems_eq_error_iff_standsFor : readItems params items = .error e ↔
    ∃ before item after, items = before ++ item :: after ∧ (∀ i ∈ before, ∃ p, StandsFor i p) ∧
      (¬ ∃ p, StandsFor item p) ∧ e = .malformedParameter item params := by
  simp only [readItems_eq_error_iff, read?_eq_some_iff, read?_eq_none_iff]

/-! ## Lists that are written out -/

/-- A parameter, written with one space between its type and its name. -/
def text : Parameter → Text
  | .variadic => "...".toList
  | .named p => p.type ++ ' ' :: p.name

def listText (ps : List Parameter) : Text := joinWith ", ".toList (ps.map text)

/-- What was read from an item is written as an item that is the same parameter. -/
theorem StandsFor.text (h : StandsFor item p) (htrimmed : Trimmed item) (hcomma : ',' ∉ item) :
    StandsFor p.text p ∧ IsItem p.text := by
  cases h with
  | variadic => exact ⟨.variadic, ⟨by decide, by decide⟩, by decide, '.', by decide, by decide⟩
  | @named front name c hopen hclose hc hname hne hfront hfeed =>
    have htype : trim (front ++ [c]) ≠ [] := by
      obtain ⟨d, rest, rfl⟩ := List.exists_cons_of_ne_nil hfront
      have hd : isBlank d = false := htrimmed.head d rfl
      have hmem : d ∈ trim (d :: rest ++ [c]) := mem_trim_of_mem hd List.mem_cons_self
      exact List.ne_nil_of_mem hmem
    have hmem : ∀ {d}, d ≠ ' ' → d ∈ trim (front ++ [c]) ++ ' ' :: name →
        d ∈ front ++ c :: name := by
      intro d hspace hd
      rw [List.append_cons]
      rcases List.mem_append.1 hd with hd | hd
      · exact List.mem_append_left name (mem_of_mem_trim hd)
      · exact List.mem_append_right _ ((List.mem_cons.1 hd).resolve_left hspace)
    have htrim : trim (trim (front ++ [c]) ++ [' ']) = trim (front ++ [c]) := by
      rw [trim_concat_of_blank isBlank_space, (trimmed_trim _).trim_eq]
    have hfeed' : '\n' ∉ trim (front ++ [c]) := by
      intro h
      have := mem_of_mem_trim h
      rcases hc with rfl | rfl <;> simp [hfeed] at this
    have htrimmedName : Trimmed name := by
      have hblank := fun d hd => isBlank_of_isWord (hname.chars d hd)
      exact ⟨fun d hd => hblank d (List.mem_of_mem_head? hd),
        fun d hd => hblank d (List.mem_of_mem_getLast? hd)⟩
    refine ⟨?_, ?_, mt (hmem (by decide)) hcomma, ' ', ?_, by decide⟩
    · have hlastWord : IsLastWord name (trim (front ++ [c]) ++ ' ' :: name) :=
        isLastWord_append_cons (isWord_eq_false (.inl rfl)) _ hname.chars
      have hparameter := StandsFor.named (mt (hmem (by decide)) hopen)
        (mt (hmem (by decide)) hclose) (.inl rfl) hlastWord hne htype hfeed'
      rwa [htrim] at hparameter
    · have htext := (trimmed_trim (front ++ [c])).append htrimmedName htype hne [' ']
      simpa [Parameter.text] using htext
    · simp [Parameter.text]

theorem forall₂_text (h : List.Forall₂ StandsFor items ps)
    (hitems : ∀ item ∈ items, Trimmed item ∧ ',' ∉ item) :
    List.Forall₂ StandsFor (ps.map text) ps ∧ ∀ item ∈ ps.map text, IsItem item := by
  induction h with
  | nil => simp
  | @cons item p items ps hitem _ ih =>
    rw [List.forall_mem_cons] at hitems
    obtain ⟨hp, htext⟩ := hitem.text hitems.1.1 hitems.1.2
    obtain ⟨hps, htexts⟩ := ih hitems.2
    rw [List.map_cons]
    exact ⟨.cons hp hps, List.forall_mem_cons.2 ⟨htext, htexts⟩⟩

/-- What was read from a list is read from the list that it is written as. -/
theorem readList_listText (h : readList params = .ok ps) : readList (listText ps) = .ok ps := by
  by_cases hps : ps = []
  · rw [hps]
    rfl
  · rw [readList] at h
    split at h
    next =>
      cases h
      exact absurd rfl hps
    next =>
      have hparts : ∀ item ∈ commaParts (trim params), Trimmed item ∧ ',' ∉ item := by
        rw [commaParts, List.forall_mem_map]
        exact fun s hs => ⟨trimmed_trim s, mt mem_of_mem_trim (notMem_of_mem_splitOn hs)⟩
      obtain ⟨hread, hitems⟩ := forall₂_text (readItems_eq_ok_iff_standsFor.1 h) hparts
      rw [listText, readList_joinWith (by simpa using hps) hitems]
      exact readItems_eq_ok_iff_standsFor.2 hread

/-! ## Lists -/

/-- A list that is blank or `void` has no parameters.  Any other list has one parameter an item, if
each of its items is one, and is refused for the first one that is not.  The parameters that were
read are read again from the list that they are written as. -/
theorem readList_exact (params : Text) :
    (trim params = [] ∨ trim params = "void".toList → readList params = .ok []) ∧
    (trim params ≠ [] → trim params ≠ "void".toList →
      ((∀ item ∈ commaParts (trim params), ∃ p, StandsFor item p) →
        ∃ ps, readList params = .ok ps) ∧
      (∀ ps, readList params = .ok ps ↔
        List.Forall₂ StandsFor (commaParts (trim params)) ps) ∧
      ∀ e, readList params = .error e ↔ ∃ before item after,
        commaParts (trim params) = before ++ item :: after ∧
        (∀ i ∈ before, ∃ p, StandsFor i p) ∧ (¬ ∃ p, StandsFor item p) ∧
        e = .malformedParameter item (trim params)) ∧
    ∀ ps, readList params = .ok ps → readList (listText ps) = .ok ps := by
  refine ⟨fun h => by rw [readList, if_pos h], fun hne hvoid => ?_, fun ps => readList_listText⟩
  have hread : readList params = readItems (trim params) (commaParts (trim params)) := by
    rw [readList, if_neg (not_or.2 ⟨hne, hvoid⟩)]
  rw [hread]
  refine ⟨fun hall => ?_, fun ps => readItems_eq_ok_iff_standsFor,
    fun e => readItems_eq_error_iff_standsFor⟩
  cases hresult : readItems (trim params) (commaParts (trim params)) with
  | ok ps => exact ⟨ps, rfl⟩
  | error e =>
    obtain ⟨before, item, after, hitems, -, hbad, -⟩ := readItems_eq_error_iff_standsFor.1 hresult
    exact absurd (hall item (by rw [hitems]; simp)) hbad

/-- The parameters of a function that formats text. -/
def formatParams : List Parameter :=
  [.named ⟨"format".toList, "const char *".toList, [], []⟩, .variadic,
    .named ⟨"n".toList, "int".toList, [], []⟩]

/-- However a list is spaced, it is read to the same parameters, and it is refused where a parameter
has no name. -/
theorem readList_exact_formatParams :
    readList " const char *format ,...,int  n".toList = .ok formatParams ∧
    listText formatParams = "const char * format, ..., int n".toList ∧
    readList "const char * format, ..., int n".toList = .ok formatParams ∧
    readList "int n, char, void".toList =
      .error (.malformedParameter "char".toList "int n, char, void".toList) := by
  obtain ⟨-, hread, hagain⟩ := readList_exact " const char *format ,...,int  n".toList
  obtain ⟨-, haccepted, -⟩ := hread (by decide) (by decide)
  have hparts : commaParts (trim " const char *format ,...,int  n".toList) =
      ["const char *format".toList, "...".toList, "int  n".toList] := by decide
  have hok := (haccepted formatParams).2 (by
    rw [hparts]
    refine .cons ?_ (.cons ?_ (.cons ?_ .nil)) <;> exact read?_eq_some_iff.1 (by decide))
  obtain ⟨-, hread, -⟩ := readList_exact "int n, char, void".toList
  obtain ⟨-, -, hrefused⟩ := hread (by decide) (by decide)
  refine ⟨hok, by decide, hagain _ hok, (hrefused _).2 ?_⟩
  refine ⟨["int n".toList], "char".toList, ["void".toList], by decide, ?_, ?_, by decide⟩
  · have hn : StandsFor "int n".toList (.named ⟨"n".toList, "int".toList, [], []⟩) :=
      read?_eq_some_iff.1 (by decide)
    exact List.forall_mem_singleton.2 ⟨_, hn⟩
  · exact read?_eq_none_iff.1 (by decide)

end Parameter

end HeaderApi
