import HeaderApi.Proofs.Docstring.Layout
import HeaderApi.Proofs.Docstring.TagSection
import HeaderApi.Proofs.Docstring.Value

/-!
# Rendering a docstring and reading it again

A docstring is its description and its tags (`foldl_add_tags`).  Reading the rendered docstring
finds the same description and reads each tag again, without any diagnostic (`parse_render`).  What
a tag loses in that is said by `Tag.reread`; `Stable` says when nothing is lost.
-/

namespace HeaderApi

open Text

namespace Tag

/-- The line of a tag in a rendered doc block. -/
def line (tag : Tag) : Text := Docstring.tagLine tag.spelling tag.render

theorem trim_line (tag : Tag) :
    trim tag.line = '@' :: tag.spelling ++ ':' :: trimEnd (' ' :: tag.render) := by
  have hline : tag.line = '@' :: tag.spelling ++ ':' :: (' ' :: tag.render) := by
    simp [line, Docstring.tagLine]
  rw [hline, List.cons_append, trim_cons_of_not_blank (by decide), trimEnd_append_cons (by decide),
    List.cons_append]

/-- A key is one word, and holds no character that ends it. -/
structure IsKey (word : Text) : Prop where
  ne_nil : word ≠ []
  noMark : ∀ c ∈ word, c ≠ ':' ∧ c ≠ '@'
  noBlank : ∀ c ∈ word, isBlank c = false

theorem isKey_spelling (tag : Tag) : IsKey tag.spelling := by
  have hall : ∀ word ∈ Key.spellings.map Prod.fst, word ≠ [] ∧ (∀ c ∈ word, c ≠ ':' ∧ c ≠ '@') ∧
      ∀ c ∈ word, isBlank c = false := by decide +kernel
  have hkey : tag.spelling ∈ Key.spellings.map Prod.fst := by
    cases tag <;> exact List.elem_iff.1 rfl
  obtain ⟨hne, hmark, hblank⟩ := hall tag.spelling hkey
  exact ⟨hne, hmark, hblank⟩

theorem IsKey.words_eq {word : Text} (h : IsKey word) : (words word).headD [] = word := by
  rw [words_of_noBlank h.ne_nil h.noBlank, List.headD_cons]

/-- Tags that a doc block can hold. -/
structure Writable (tag : Tag) : Prop where
  readable : Readable tag
  noTag : '@' ∉ tag.render
  space : ∀ c ∈ tag.render, isBlank c = true → c = ' '

variable {tag : Tag}

theorem Writable.oneLine_line (h : Writable tag) : OneLine tag.line := by
  have hspace : ∀ c ∈ tag.line, isBlank c = true → c = ' ' := by
    intro c hc hblank
    simp only [line, Docstring.tagLine, List.mem_append] at hc
    rcases hc with ((hc | hc) | hc) | hc
    · exact (show ∀ c ∈ "@".toList, isBlank c = true → c = ' ' by decide) c hc hblank
    · simp [tag.isKey_spelling.noBlank c hc] at hblank
    · exact (show ∀ c ∈ ": ".toList, isBlank c = true → c = ' ' by decide) c hc hblank
    · exact h.space c hc hblank
  refine ⟨fun hc => ?_, fun hc => ?_⟩
  · exact absurd (hspace _ hc isBlank_lineFeed) (by decide)
  · exact absurd (hspace _ (List.mem_of_getLast? hc) (by decide)) (by decide)

theorem head_line (tag : Tag) : tag.line.head? = some '@' := rfl

end Tag

namespace Docstring

variable {c : Char} {d : Docstring} {offset : Nat} {t : Text} {tag tag' : Tag}

/-! ## The tags of a docstring -/

/-- The tags that a docstring is made of, in the order in which they are rendered. -/
def tags (d : Docstring) : List Tag :=
  (d.name.map .name).toList ++ (d.kind.map .kind).toList ++ d.params.map .param ++
  (if d.raises = [] then [] else [.raises d.raises]) ++ (if d.see = [] then [] else [.see d.see]) ++
  (d.super.map .super).toList ++ (d.since.map .since).toList ++ (d.returns.map .returns).toList

theorem tagLines_eq (d : Docstring) : d.tagLines = d.tags.map Tag.line := by
  have option {α : Type} (o : Option α) (f : α → Tag) :
      (o.map fun a => (f a).line).toList = (o.map f).toList.map Tag.line := by cases o <;> rfl
  have list (key : Text) (ts : List Text) (f : List Text → Tag)
      (h : (f ts).line = tagLine key (joinWith ", ".toList ts)) :
      listLine key ts = (if ts = [] then [] else [f ts]).map Tag.line := by
    rw [listLine]
    split <;> simp [h]
  simp only [tags, List.map_append, ← option, List.map_map,
    ← list "raise".toList d.raises Tag.raises rfl, ← list "see".toList d.see Tag.see rfl]
  rfl

theorem foldl_add_params (d : Docstring) (ps : List ParamDoc) :
    (ps.map Tag.param).foldl add d = { d with params := d.params ++ ps } := by
  induction ps generalizing d with
  | nil => simp
  | cons p ps ih =>
    rw [List.map_cons, List.foldl_cons, ih]
    simp [add]

/-- A docstring is its description and its tags. -/
theorem foldl_add_tags (d : Docstring) :
    d.tags.foldl add { description := d.description } = d := by
  obtain ⟨description, name, kind, params, raises, see, super, since, returns⟩ := d
  have hname : (name.map Tag.name).toList.foldl add { description } = { description, name } := by
    cases name <;> rfl
  have hkind : (kind.map Tag.kind).toList.foldl add { description, name } =
      { description, name, kind } := by
    cases kind <;> rfl
  have hparams : (params.map Tag.param).foldl add { description, name, kind } =
      { description, name, kind, params } := foldl_add_params _ params
  have hraises : (if raises = [] then [] else [Tag.raises raises]).foldl add
      { description, name, kind, params } = { description, name, kind, params, raises } := by
    split
    next h => rw [h, List.foldl_nil]
    next => rfl
  have hsee : (if see = [] then [] else [Tag.see see]).foldl add
      { description, name, kind, params, raises } =
        { description, name, kind, params, raises, see } := by
    split
    next h => rw [h, List.foldl_nil]
    next => rfl
  have hsuper : (super.map Tag.super).toList.foldl add
      { description, name, kind, params, raises, see } =
        { description, name, kind, params, raises, see, super } := by
    cases super <;> rfl
  have hsince : (since.map Tag.since).toList.foldl add
      { description, name, kind, params, raises, see, super } =
        { description, name, kind, params, raises, see, super, since } := by
    cases since <;> rfl
  simp only [tags, List.foldl_append, hname, hkind, hparams, hraises, hsee, hsuper, hsince]
  cases returns <;> rfl

theorem mem_tags : tag ∈ d.tags ↔ match tag with
    | .name n => d.name = some n
    | .kind k => d.kind = some k
    | .param p => p ∈ d.params
    | .raises ts => d.raises ≠ [] ∧ ts = d.raises
    | .see ts => d.see ≠ [] ∧ ts = d.see
    | .super t => d.super = some t
    | .since t => d.since = some t
    | .returns r => d.returns = some r := by
  cases tag <;> simp [tags, eq_comm]

theorem mem_tags_add (h : tag ∈ (d.add tag').tags) : tag ∈ d.tags ∨ tag = tag' := by
  rw [mem_tags] at h ⊢
  cases tag' <;> cases tag <;> simp_all [add]

/-- Every tag of a docstring that was put together is one of those that it was made of. -/
theorem mem_tags_foldl_add {tags : List Tag} (h : tag ∈ (tags.foldl add d).tags) :
    tag ∈ d.tags ∨ tag ∈ tags := by
  induction tags generalizing d with
  | nil => exact .inl h
  | cons tag' tags ih =>
    rcases ih h with h | h
    · exact (mem_tags_add h).imp_right fun h => by simp [h]
    · exact .inr (List.mem_cons_of_mem _ h)

theorem description_foldl_add (d : Docstring) (tags : List Tag) :
    (tags.foldl add d).description = d.description := by
  induction tags generalizing d with
  | nil => rfl
  | cons tag tags ih =>
    rw [List.foldl_cons, ih]
    cases tag <;> rfl

/-! ## What reading gives -/

theorem mem_tags_parse (h : tag ∈ (parse offset t).1.tags) :
    tag.Writable := by
  rcases mem_tags_foldl_add h with h | h
  · rw [mem_tags] at h
    cases tag <;> simp at h
  · obtain ⟨read, hread, hok⟩ := List.mem_filterMap.1 h
    obtain ⟨⟨key, value⟩, hpair, rfl⟩ := List.mem_map.1 hread
    obtain ⟨v, rfl, hat⟩ := mem_tagPairs hpair
    have hneat := neat_squeeze v
    have hok : Tag.read offset key (squeeze v) = .ok tag := by
      cases hr : Tag.read offset key (squeeze v) with
      | error => simp [hr, Except.toOption] at hok
      | ok => simpa [hr, Except.toOption] using hok
    refine ⟨Tag.readable_of_read hok hneat, fun h => ?_, fun c h hblank => ?_⟩
    · refine (Tag.mem_render hok h).elim (fun h => ?_) (by decide)
      exact (mem_of_mem_squeeze h).elim (by decide) hat
    · refine (Tag.mem_render hok h).elim (fun h => hneat.space c h hblank) fun h => ?_
      exact (show ∀ c ∈ " (,):".toList, isBlank c = true → c = ' ' by decide) c h hblank

theorem description_parse (offset : Nat) (t : Text) :
    (parse offset t).1.description = proseText (paragraphs (Line.ofText t)) :=
  description_foldl_add _ _

/-! ## Reading again -/

/-- What reading a rendered docstring gives. -/
def reread (d : Docstring) : Docstring :=
  { d with
    name := d.name.map fun n => .read n.render
    params := d.params.map ParamDoc.reread
    returns := d.returns.map ReturnDoc.reread }

theorem tags_reread (d : Docstring) : d.reread.tags = d.tags.map Tag.reread := by
  have hkind : Tag.reread ∘ Tag.kind = Tag.kind := rfl
  simp only [tags, reread, List.map_append, List.map_map, ← Option.toList_map, Option.map_map,
    apply_ite (List.map Tag.reread), List.map_nil, List.map_singleton]
  rfl

/-- Reading a rendered docstring reads the description and each tag again, and reports nothing. -/
theorem parse_render {ps : List (List Text)} (hps : Prose ps) (hd : d.description = proseText ps)
    (htags : ∀ tag ∈ d.tags, tag.Writable)
    (offset : Nat) : parse offset d.render = (d.reread, []) := by
  have hlines : ∀ l ∈ d.tagLines, OneLine l ∧ l.head? = some '@' := by
    rw [tagLines_eq, List.forall_mem_map]
    exact fun tag h => ⟨(htags tag h).oneLine_line, tag.head_line⟩
  have hpairs : tagPairs (tagSection (Line.ofText d.render)) =
      d.tags.map fun tag => (tag.spelling, squeeze tag.render) := by
    have hvalue : ∀ tag ∈ d.tags, '@' ∉ trimEnd (' ' :: tag.render) := fun tag h hat =>
      (htags tag h).noTag (by simpa using (trimEnd_isPrefix _).subset hat)
    have hkey : ∀ tag ∈ d.tags, tag.spelling ≠ [] ∧ ∀ c ∈ tag.spelling, c ≠ ':' ∧ c ≠ '@' :=
      fun tag _ => ⟨tag.isKey_spelling.ne_nil, tag.isKey_spelling.noMark⟩
    have hline : trim ∘ Tag.line = fun tag =>
        '@' :: tag.spelling ++ ':' :: trimEnd (' ' :: tag.render) := funext Tag.trim_line
    rw [tagSection_ofText_render hps hd hlines, tagLines_eq, List.map_map, hline,
      tagPairs_joinWith _ _ hkey hvalue]
    refine List.map_congr_left fun tag _ => ?_
    rw [tag.isKey_spelling.words_eq, squeeze_trimEnd, squeeze_cons_of_blank isBlank_space]
  have hread : readTags offset (Line.ofText d.render) = d.tags.map fun tag => .ok tag.reread := by
    rw [readTags, hpairs, List.map_map]
    exact List.map_congr_left fun tag h => Tag.read_render (htags tag h).readable offset
  have haccepted : accepted (readTags offset (Line.ofText d.render)) = d.reread.tags := by
    rw [hread, accepted, List.filterMap_map, tags_reread]
    exact congrFun List.filterMap_eq_map d.tags
  have hrejected : rejected (readTags offset (Line.ofText d.render)) = [] := by
    rw [hread, rejected, List.filterMap_map, List.filterMap_eq_nil_iff]
    exact fun _ _ => rfl
  rw [parse, haccepted, hrejected, describe_ofText_render hps hd hlines]
  exact congrArg (·, []) (foldl_add_tags d.reread)

/-! ## Stability -/

/-- Nothing in the docstring is lost when it is rendered and read again. -/
structure Stable (d : Docstring) : Prop where
  owner : ∀ n ∈ d.name, ∀ o ∈ n.owner, o.getLast? ≠ some ':'
  modifiers : ∀ p ∈ d.params, ∀ m ∈ p.modifiers, ¬ "  ".toList <:+: m
  containing : ∀ r ∈ d.returns, ∀ t ∈ r.containing, ¬ "  ".toList <:+: t

theorem reread_eq_iff (htags : ∀ tag ∈ d.tags, tag.Readable) : d.reread = d ↔ Stable d := by
  have hname : d.name.map (fun n => .read n.render) = d.name ↔
      ∀ n ∈ d.name, ∀ o ∈ n.owner, o.getLast? ≠ some ':' := by
    rw [option_map_eq_self_iff]
    refine forall₂_congr fun n hn => ?_
    cases htags (.name n) (mem_tags.2 hn) with
    | name h => exact QualifiedName.read_render_iff h
  have hparams : d.params.map ParamDoc.reread = d.params ↔
      ∀ p ∈ d.params, ∀ m ∈ p.modifiers, ¬ "  ".toList <:+: m := by
    rw [map_eq_self_iff]
    refine forall₂_congr fun p hp => ?_
    cases htags (.param p) (mem_tags.2 hp) with
    | param h => exact ParamDoc.reread_eq_iff h
  have hreturns : d.returns.map ReturnDoc.reread = d.returns ↔
      ∀ r ∈ d.returns, ∀ t ∈ r.containing, ¬ "  ".toList <:+: t := by
    rw [option_map_eq_self_iff]
    refine forall₂_congr fun r hr => ?_
    cases htags (.returns r) (mem_tags.2 hr) with
    | returns h => exact ReturnDoc.reread_eq_iff h
  constructor
  · intro h
    exact ⟨hname.1 (congrArg name h), hparams.1 (congrArg params h),
      hreturns.1 (congrArg returns h)⟩
  · rintro ⟨howner, hmodifiers, hcontaining⟩
    rw [reread, hname.2 howner, hparams.2 hmodifiers, hreturns.2 hcontaining]

/-- A docstring that was read and rendered is read again without any diagnostic, and to the same
docstring exactly if it is stable. -/
theorem parse_render_parse (offset : Nat) (t : Text) :
    ((parse offset (render (parse offset t).1)).1 = (parse offset t).1 ↔
      Stable (parse offset t).1) ∧
    (parse offset (render (parse offset t).1)).2 = [] := by
  rw [parse_render (prose_paragraphs t) (description_parse offset t) fun _ => mem_tags_parse]
  exact ⟨reread_eq_iff fun _ h => (mem_tags_parse h).readable, rfl⟩

end Docstring

end HeaderApi
