import HeaderApi.Proofs.Docstring.TagSection
import Mathlib.Data.List.Induction

/-!
# What the tags say

The tags of a doc block are the pieces of its tag section between one `@` and the next, as far as
they have a key and a colon (`tagPairs_eq`).  Each field of a docstring is what the last tag for it
says, and the parameters are what all tags for them say, in order (`parse_reads`).
-/

namespace HeaderApi

open Text Pattern

/-! ## Keys -/

namespace Tag.Key

/-- How a key may be spelled. -/
def spelled : Key → List Text
  | .name => ["name".toList]
  | .type => ["type".toList]
  | .param => ["param".toList]
  | .raises => ["raise".toList, "raises".toList]
  | .see => ["see".toList]
  | .super => ["super".toList]
  | .since => ["since".toList]
  | .returns => ["return".toList, "returns".toList]

variable {word : Text} {k : Key}

theorem ofText?_eq_some_iff : ofText? word = some k ↔ word ∈ k.spelled := by
  constructor
  · intro h
    have htable : ∀ e ∈ spellings, e.1 ∈ e.2.spelled := by decide
    obtain ⟨before, after, hmem, -⟩ := List.lookup_eq_some_iff.1 h
    exact htable (word, k) (by rw [hmem]; simp)
  · intro h
    have htable : ∀ k, ∀ word ∈ k.spelled, ofText? word = some k := by
      intro k
      cases k <;> decide
    exact htable k word h

theorem isSome_ofText? : (ofText? word).isSome = (spellings.map Prod.fst).contains word := by
  have hnone : ofText? word = none ↔ word ∉ spellings.map Prod.fst := by
    rw [ofText?, List.lookup_eq_none_iff, List.mem_map]
    push Not
    refine forall₂_congr fun e _ => ?_
    rw [bne_iff_ne, ne_comm]
  rw [Bool.eq_iff_iff, List.contains_iff_mem, Option.isSome_iff_ne_none, Ne, hnone, not_not]

end Tag.Key

/-- The key of a tag that was read. -/
def Tag.key : Tag → Key
  | .name _ => .name
  | .kind _ => .type
  | .param _ => .param
  | .raises _ => .raises
  | .see _ => .see
  | .super _ => .super
  | .since _ => .since
  | .returns _ => .returns

/-- Reads a tag, given its key and its value. -/
def Tag.ofKey? (value : Text) : Key → Option Tag
  | .name => some (.name (.read value))
  | .type => (DocKind.ofKeyword? (trim value)).map .kind
  | .param => some (.param (.read value))
  | .raises => some (.raises (commaItems value))
  | .see => some (.see (commaItems value))
  | .super => some (.super (trim value))
  | .since => some (.since (trim value))
  | .returns => some (.returns (.read value))

theorem Tag.toOption_read (offset : Nat) (key value : Text) :
    (read offset key value).toOption = (Key.ofText? key).bind (ofKey? value) := by
  unfold read
  cases Key.ofText? key with
  | none => rfl
  | some k =>
    cases k with
    | type =>
      rw [Option.bind_some, ofKey?]
      cases DocKind.ofKeyword? (trim value) <;> rfl
    | _ => rfl

theorem Tag.key_of_ofKey? {value : Text} {k : Key} {tag : Tag} (h : ofKey? value k = some tag) :
    tag.key = k := by
  cases k with
  | type =>
    obtain ⟨kind, -, rfl⟩ := Option.map_eq_some_iff.1 h
    rfl
  | _ =>
    cases h
    rfl

theorem Tag.filter_ofKey? (value : Text) (k k' : Key) :
    (ofKey? value k').filter (·.key = k) = if k' = k then ofKey? value k else none := by
  cases h : ofKey? value k' with
  | none =>
    split
    next hk => rw [← hk, h]; rfl
    next => rfl
  | some tag =>
    rw [Option.filter_some, key_of_ofKey? h]
    split
    next hk => rw [← of_decide_eq_true hk, h, if_pos rfl]
    next hk => rw [if_neg (by simpa using hk)]

namespace Docstring

variable {offset : Nat} {key value piece rest t : Text} {d : Docstring} {tags : List (Text × Text)}

/-! ## Pieces -/

/-- The key and the value of a tag, given what stands behind its `@`.  The key is the first word in
front of the colon. -/
def pairOf? (piece : Text) : Option (Text × Text) :=
  match cutAt ":".toList piece with
  | some (key, value) => if key = [] then none else some ((words key).headD [], squeeze value)
  | none => none

/-- The tags in a text. -/
def tagsOf (t : Text) : List (Text × Text) := (t.splitOn '@').tail.filterMap pairOf?

theorem exists_of_pairOf? {pair : Text × Text} (h : pairOf? piece = some pair) :
    ∃ key value, piece = key ++ ':' :: value ∧ key ≠ [] ∧ ':' ∉ key ∧
      pair = ((words key).headD [], squeeze value) := by
  unfold pairOf? at h
  split at h
  next key value hcut =>
    split at h
    next => cases h
    next hne =>
      obtain rfl := eq_append_of_cutAt hcut
      exact ⟨key, value, by simp, hne, notMem_of_cutAt hcut, (Option.some.inj h).symm⟩
  next => cases h

theorem pairOf?_append (hne : key ≠ []) (hkey : ':' ∉ key) (value : Text) :
    pairOf? (key ++ ':' :: value) = some ((words key).headD [], squeeze value) := by
  have hcut : cutAt ":".toList (key ++ ':' :: value) = some (key, value) :=
    cutAt_singleton hkey value
  simp only [pairOf?, hcut, if_neg hne]

theorem tagPairs_nil : tagPairs [] = [] := by simp [tagPairs]

theorem tagPairs_skip {a : Text} (ha : '@' ∉ a) (t : Text) : tagPairs (a ++ t) = tagPairs t := by
  rw [tagPairs, captures_skip, tagPairs]
  intro b c hbc hc cuts r hm
  obtain ⟨key, value, -, -, -, hstart, -⟩ := cuts_of_matches_tagPattern hm
  obtain ⟨d, c, rfl⟩ := List.exists_cons_of_ne_nil hc
  obtain ⟨rfl, -⟩ := List.cons.inj hstart
  simp [hbc] at ha

/-- A piece without a key and a colon is no tag. -/
theorem tagPairs_of_pairOf?_eq_none (hpiece : '@' ∉ piece) (hrest : ∀ c ∈ rest.head?, c = '@')
    (h : pairOf? piece = none) : tagPairs ('@' :: piece ++ rest) = tagPairs rest := by
  rw [tagPairs, captures_skip, tagPairs]
  intro b c hbc hc cuts r hm
  obtain ⟨key, value, hne, hmarks, -, hstart, -⟩ := cuts_of_matches_tagPattern hm
  obtain ⟨d, c, rfl⟩ := List.exists_cons_of_ne_nil hc
  obtain ⟨rfl, hstart⟩ := List.cons.inj hstart
  have hbc : [] ++ '@' :: piece = b ++ '@' :: c := hbc
  obtain ⟨-, -, rfl⟩ := (List.append_cons_inj_of_notMem (by simp) hpiece).1 hbc
  -- A key and a colon in front of the next `@` would stand in the piece.
  have hprefix : key ++ [':'] <+: piece := by
    have hwhole : key ++ [':'] <+: piece ++ rest := ⟨value ++ r, by simpa using hstart.symm⟩
    cases rest with
    | nil => simpa using hwhole
    | cons d rest =>
      obtain rfl := hrest d rfl
      refine prefix_of_prefix_append_cons ?_ hwhole
      simpa using fun hat => (hmarks _ hat).2 rfl
  obtain ⟨value', rfl⟩ := hprefix
  have hpair := pairOf?_append hne (fun hcolon => (hmarks _ hcolon).1 rfl) value'
  simp [hpair] at h

/-- The first piece of a text. -/
theorem tagPairs_piece (hpiece : '@' ∉ piece) (hrest : ∀ c ∈ rest.head?, c = '@') :
    tagPairs ('@' :: piece ++ rest) = (pairOf? piece).toList ++ tagPairs rest := by
  cases h : pairOf? piece with
  | none => exact tagPairs_of_pairOf?_eq_none hpiece hrest h
  | some pair =>
    obtain ⟨key, value, rfl, hne, hkey, rfl⟩ := exists_of_pairOf? h
    have hmarks : ∀ c ∈ key, c ≠ ':' ∧ c ≠ '@' := by
      refine fun c hc => ⟨?_, ?_⟩
      · rintro rfl
        exact hkey hc
      · rintro rfl
        simp [hc] at hpiece
    have hvalue : '@' ∉ value := fun hat => hpiece (by simp [hat])
    simpa using tagPairs_append hmarks hne hvalue hrest

/-- A search for tags finds them by pieces, and loses none. -/
theorem tagPairs_eq (t : Text) : tagPairs t = tagsOf t := by
  have hsingle (p : Text) : [p].filterMap pairOf? = (pairOf? p).toList := by
    cases h : pairOf? p <;> simp [h]
  have hpieces (t : Text) : tagPairs ('@' :: t) = (t.splitOn '@').filterMap pairOf? := by
    induction t using separator_induction '@' with
    | last p hp =>
      have hlast : ∀ c ∈ ([] : Text).head?, c = '@' := by simp
      have h := tagPairs_piece hp hlast
      rw [List.append_nil, tagPairs_nil, List.append_nil] at h
      rw [h, List.splitOn_eq_singleton hp, hsingle]
    | part p t hp ih =>
      have hnext : ∀ c ∈ ('@' :: t).head?, c = '@' := by simp
      rw [← List.cons_append, tagPairs_piece hp hnext, ih, List.splitOn_append_cons_self,
        List.splitOn_eq_singleton hp, List.filterMap_append, hsingle]
  induction t using separator_induction '@' with
  | last a ha =>
    have h := tagPairs_skip ha []
    rw [List.append_nil, tagPairs_nil] at h
    rw [h, tagsOf, List.splitOn_eq_singleton ha]
    rfl
  | part a t ha _ =>
    rw [tagPairs_skip ha, hpieces, tagsOf, List.splitOn_append_cons_self,
      List.splitOn_eq_singleton ha]
    rfl

/-! ## Fields -/

/-- The values of the tags with a key, whatever its spelling. -/
def valuesOf (k : Tag.Key) (tags : List (Text × Text)) : List Text :=
  (tags.filter fun tag => k.spelled.contains tag.1).map Prod.snd

/-- Why a tag of the doc block at byte `offset` is refused, if it is. -/
def refusal? (offset : Nat) (tag : Text × Text) : Option Diagnostic :=
  if (Tag.Key.spellings.map Prod.fst).contains tag.1 then
    if tag.1 = "type".toList ∧ DocKind.ofKeyword? (trim tag.2) = none then
      some (.invalidTag tag.1 (trim tag.2) offset)
    else none
  else some (.unknownTag tag.1 offset)

/-- What the tags of the doc block at byte `offset` say. -/
structure Says (offset : Nat) (tags : List (Text × Text)) (d : Docstring)
    (refused : List Diagnostic) : Prop where
  name : d.name = (valuesOf .name tags).getLast?.map .read
  kind : d.kind = ((valuesOf .type tags).filterMap fun v => DocKind.ofKeyword? (trim v)).getLast?
  params : d.params = (valuesOf .param tags).map .read
  raises : d.raises = ((valuesOf .raises tags).getLast?.map commaItems).getD []
  see : d.see = ((valuesOf .see tags).getLast?.map commaItems).getD []
  super : d.super = (valuesOf .super tags).getLast?.map trim
  since : d.since = (valuesOf .since tags).getLast?.map trim
  returns : d.returns = (valuesOf .returns tags).getLast?.map .read
  refused : refused = tags.filterMap (refusal? offset)

/-- Tags with one key set the field, each of them anew. -/
def SetBy {β : Type} (k : Tag.Key) (field : Docstring → β) : Prop :=
  ∀ d tag, field (d.add tag) = if tag.key = k then field (add {} tag) else field d

section SetBy

variable {β : Type} {k : Tag.Key} {field : Docstring → β}

/-- The last tag that sets a field counts. -/
theorem SetBy.foldl_add (h : SetBy k field) (tags : List Tag) (d : Docstring) :
    field (tags.foldl add d) =
      ((tags.filter (·.key = k)).getLast?.map fun tag => field (add {} tag)).getD (field d) := by
  induction tags using List.reverseRecOn with
  | nil => rfl
  | append_singleton tags tag ih =>
    rw [List.foldl_concat, h, List.filter_append]
    by_cases hkey : tag.key = k
    · simp [hkey]
    · simp [hkey, ih]

/-- The tags with one key that can be read. -/
theorem filter_accepted (k : Tag.Key) (offset : Nat) (tags : List (Text × Text)) :
    (accepted (tags.map fun (key, value) => Tag.read offset key value)).filter (·.key = k) =
      (valuesOf k tags).filterMap (Tag.ofKey? · k) := by
  rw [accepted, List.filterMap_map, List.filter_filterMap, valuesOf, List.filterMap_map,
    List.filterMap_filter]
  refine List.filterMap_congr fun tag _ => ?_
  have hread : (Tag.read offset tag.1 tag.2).toOption.filter (·.key = k) =
      if tag.1 ∈ k.spelled then Tag.ofKey? tag.2 k else none := by
    rw [Tag.toOption_read]
    simp only [← Tag.Key.ofText?_eq_some_iff]
    cases Tag.Key.ofText? tag.1 with
    | none => rfl
    | some k' => simp [Tag.filter_ofKey?]
  simpa using hread

theorem SetBy.parse (h : SetBy k field) (offset : Nat) (t : Text) : field (parse offset t).1 =
    (((valuesOf k (tagsOf (tagSection (Line.ofText t)))).filterMap (Tag.ofKey? · k)).getLast?.map
      fun tag => field (add {} tag)).getD (field { description := describe (Line.ofText t) }) := by
  rw [← tagPairs_eq, ← filter_accepted k offset]
  exact h.foldl_add _ _

theorem SetBy.parse_of_readable (h : SetBy k field) {tagOf : Text → Tag}
    (hk : ∀ v, Tag.ofKey? v k = some (tagOf v)) (offset : Nat) (t : Text) :
    field (Docstring.parse offset t).1 =
      ((valuesOf k (tagsOf (tagSection (Line.ofText t)))).getLast?.map fun v =>
        field (add {} (tagOf v))).getD (field { description := describe (Line.ofText t) }) := by
  have hk' : (Tag.ofKey? · k) = fun v => some (tagOf v) := funext hk
  rw [h.parse, hk', List.filterMap_eq_map', List.getLast?_map, Option.map_map]
  rfl

end SetBy

theorem params_foldl_add (tags : List Tag) (d : Docstring) :
    (tags.foldl add d).params =
      d.params ++ (tags.filter (·.key = .param)).flatMap fun tag => (add {} tag).params := by
  induction tags generalizing d with
  | nil => exact (List.append_nil _).symm
  | cons tag tags ih =>
    rw [List.foldl_cons, ih]
    cases tag <;> simp [add, Tag.key]

theorem refusal?_eq (offset : Nat) (key value : Text) :
    refusal? offset (key, value) = match Tag.read offset key value with
      | .error d => some d
      | .ok _ => none := by
  have htype : Tag.Key.ofText? key = some .type ↔ key = "type".toList :=
    Tag.Key.ofText?_eq_some_iff.trans List.mem_singleton
  unfold refusal? Tag.read
  simp only [← Tag.Key.isSome_ofText?, ← htype]
  cases Tag.Key.ofText? key with
  | none => simp
  | some k =>
    cases k with
    | type => cases DocKind.ofKeyword? (trim value) <;> simp
    | _ => simp

/-- Each tag is refused for its key or its value, or it sets the field of its key. -/
theorem parse_reads (offset : Nat) (t : Text) :
    Says offset (tagsOf (tagSection (Line.ofText t))) (parse offset t).1 (parse offset t).2 where
  name := by
    have h : SetBy .name Docstring.name := fun d tag => by cases tag <;> rfl
    rw [h.parse_of_readable fun _ => rfl]
    cases (valuesOf _ _).getLast? <;> rfl
  kind := by
    have h : SetBy .type Docstring.kind := fun d tag => by cases tag <;> rfl
    rw [h.parse]
    simp only [Tag.ofKey?, ← List.map_filterMap, List.getLast?_map, Option.map_map]
    cases List.getLast? _ <;> rfl
  params := by
    rw [← tagPairs_eq, parse, readTags, params_foldl_add, filter_accepted]
    simp only [Tag.ofKey?, List.filterMap_eq_map', List.flatMap_map, List.nil_append]
    exact (List.map_eq_flatMap).symm
  raises := by
    have h : SetBy .raises Docstring.raises := fun d tag => by cases tag <;> rfl
    exact h.parse_of_readable (fun _ => rfl) offset t
  see := by
    have h : SetBy .see Docstring.see := fun d tag => by cases tag <;> rfl
    exact h.parse_of_readable (fun _ => rfl) offset t
  super := by
    have h : SetBy .super Docstring.super := fun d tag => by cases tag <;> rfl
    rw [h.parse_of_readable fun _ => rfl]
    cases (valuesOf _ _).getLast? <;> rfl
  since := by
    have h : SetBy .since Docstring.since := fun d tag => by cases tag <;> rfl
    rw [h.parse_of_readable fun _ => rfl]
    cases (valuesOf _ _).getLast? <;> rfl
  returns := by
    have h : SetBy .returns Docstring.returns := fun d tag => by cases tag <;> rfl
    rw [h.parse_of_readable fun _ => rfl]
    cases (valuesOf _ _).getLast? <;> rfl
  refused := by
    rw [← tagPairs_eq, parse, rejected, readTags, List.filterMap_map]
    exact List.filterMap_congr fun tag _ => (refusal?_eq offset tag.1 tag.2).symm

end Docstring

end HeaderApi
