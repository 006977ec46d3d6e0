import HeaderApi.Declaration.Declarations
import HeaderApi.Proofs.Pattern.Locality
import HeaderApi.Proofs.Pattern.Search
import HeaderApi.Proofs.Text.Trim

/-!
# Declarations are found one by one

A declaration ends with a semicolon, and nothing in front of that semicolon takes part in what is
found behind it.  Signatures hold no other semicolon.  Struct types and enums may, between their
braces, so for them the text in front of the seam must not leave a brace open.
-/

namespace HeaderApi

/-! ## Lists -/

section Lists

variable {α : Type}

/-- Merging goes part by part when all of the first parts stands before all of the second ones. -/
theorem merge_append {le : α → α → Bool} {as as' bs bs' : List α}
    (h : ∀ a ∈ as ++ as', ∀ b ∈ bs ++ bs', le a b = true ∧ le b a = false) :
    (as ++ bs).merge (as' ++ bs') le = as.merge as' le ++ bs.merge bs' le := by
  induction as generalizing as' with
  | nil =>
    induction as' with
    | nil => simp
    | cons a' as' ih =>
      have ih := ih fun a ha => h a (by simp_all)
      cases bs with
      | nil => simp
      | cons b bs =>
        have hb : le b a' = false := (h a' (by simp) b (by simp)).2
        simpa [List.cons_merge_cons, hb] using ih
  | cons a as ih =>
    induction as' with
    | nil =>
      have hall : ∀ c ∈ as ++ [], ∀ b ∈ bs ++ bs', le c b = true ∧ le b c = false :=
        fun c hc => h c (by simp_all)
      have ih := ih hall
      cases bs' with
      | nil => simp
      | cons b bs' =>
        have hb : le a b = true := (h a (by simp) b (by simp)).1
        simpa [List.cons_merge_cons, hb] using ih
    | cons a' as' ih' =>
      have hall : ∀ c ∈ as ++ a' :: as', ∀ b ∈ bs ++ bs', le c b = true ∧ le b c = false :=
        fun c hc => h c (by simp_all)
      have ih := ih hall
      have ih' := ih' fun c hc => h c (by simp_all; tauto)
      by_cases haa' : le a a' = true <;> simp_all

theorem eraseDups_filter [BEq α] [LawfulBEq α] (p : α → Bool) (l : List α) :
    (l.filter p).eraseDups = l.eraseDups.filter p := by
  -- On the length: what is left of the tail is no tail of the list.
  induction hn : l.length using Nat.strongRecOn generalizing l with
  | _ n ih =>
    cases l with
    | nil => simp
    | cons a l =>
      have hlen := List.length_filter_le (fun b => !b == a) l
      have ih' := ih _ (by simp only [List.length_cons] at hn; omega)
        (l.filter fun b => !b == a) rfl
      by_cases ha : p a = true
      · simp only [List.filter_cons, ha, if_true, List.eraseDups_cons, ← ih', List.filter_filter]
        simp only [Bool.and_comm]
      · have hne : (l.filter fun b => !b == a).filter p = l.filter p := by
          rw [List.filter_filter]
          refine List.filter_congr fun b _ => ?_
          by_cases hb : b == a <;> simp_all
        rw [List.filter_cons_of_neg ha, List.eraseDups_cons, List.filter_cons_of_neg ha, ← ih', hne]

theorem nodup_eraseDups [BEq α] [LawfulBEq α] (l : List α) : l.eraseDups.Nodup := by
  induction l with
  | nil => simp
  | cons a l ih =>
    rw [List.eraseDups_cons, eraseDups_filter, List.nodup_cons]
    exact ⟨by simp, ih.filter _⟩

end Lists

/-! ## Texts that end a declaration -/

def isBrace (c : Char) : Bool := c = '\x7b' || c = '\x7d'

def lastBrace? (t : Text) : Option Char := (t.filter isBrace).getLast?

/-- The text ends with a semicolon and leaves no brace open. -/
structure Closed (t : Text) : Prop where
  semicolon : t.getLast? = some ';'
  brace : lastBrace? t ≠ some '\x7b'

variable {s t x y rest : Text}

theorem getLast?_of_suffix {c : Char} (ht : t.getLast? = some c) (hs : s ≠ []) (hst : s <:+ t) :
    s.getLast? = some c := by
  obtain ⟨a, rfl⟩ := hst
  rwa [List.getLast?_append_of_ne_nil a hs] at ht

namespace Closed

theorem of_suffix (ht : Closed t) (hs : s ≠ []) (hst : s <:+ t) : Closed s := by
  refine ⟨getLast?_of_suffix ht.semicolon hs hst, fun h => ht.brace ?_⟩
  obtain ⟨a, rfl⟩ := hst
  simp only [lastBrace?] at h ⊢
  rw [List.filter_append, List.getLast?_append, h, Option.some_or]

theorem semicolon_mem (ht : Closed t) : ';' ∈ t := List.mem_of_getLast? ht.semicolon

/-- An opened brace is closed. -/
theorem brace_mem (ht : Closed ('\x7b' :: t)) : '\x7d' ∈ t := by
  by_contra h
  have hnil : lastBrace? ('\x7b' :: t) ≠ none := by simp [lastBrace?, isBrace]
  obtain ⟨b, hb⟩ := Option.ne_none_iff_exists'.1 hnil
  have hbmem := List.mem_filter.1 (List.mem_of_getLast? hb)
  have hbo : b = '\x7b' := by
    rcases List.mem_cons.1 hbmem.1 with rfl | hbt
    · rfl
    · have hbne : b ≠ '\x7d' := fun e => h (e ▸ hbt)
      simpa [isBrace, hbne] using hbmem.2
  exact ht.brace (hbo ▸ hb)

theorem tail {c : Char} (ht : Closed (c :: t)) (hc : c ≠ ';') : Closed t := by
  refine ht.of_suffix ?_ (List.suffix_cons c t)
  rintro rfl
  exact hc (by simpa using ht.semicolon)

end Closed

namespace Pattern

theorem Matches.suffix {p : Pattern} {cuts : List Cut} (h : Matches p t cuts rest) :
    rest <:+ t := by
  obtain ⟨s, rfl⟩ := h.exists_eq_append
  exact List.suffix_append s rest

/-- A part in front that holds no semicolon leaves a closed text. -/
theorem LocalAt.andThen_of_closed {p q : Pattern} (hp : p.avoids ';' = true)
    (hq : ∀ rest, Closed rest → LocalAt q rest y) (ht : Closed t) :
    LocalAt (.andThen p q) t y :=
  (localAt_of_avoids hp ht.semicolon_mem y).andThen fun _ rest h =>
    hq rest (ht.of_suffix (List.ne_nil_of_mem (h.mem_rest_of_avoids hp ht.semicolon_mem)) h.suffix)

/-- Braces and what stands between them are local in a closed text, although what stands between
them may hold semicolons. -/
theorem localAt_braces {p q : Pattern} (hp : p.avoids '\x7d' = true)
    (hq : q.endsWith ';' = true) (ht : Closed t) :
    LocalAt (.andThen "\x7b" (.andThen p (.andThen "\x7d" q))) t y := by
  refine (localAt_literal_singleton '\x7b' (List.ne_nil_of_mem ht.semicolon_mem) y).andThen ?_
  rintro _ inner ⟨⟩
  have hinner : Closed inner := ht.tail (by decide)
  have hmem : '\x7d' ∈ inner := ht.brace_mem
  refine (localAt_of_avoids hp hmem y).andThen fun _ closing h => ?_
  have hclosing := List.ne_nil_of_mem (h.mem_rest_of_avoids hp hmem)
  refine (localAt_literal_singleton '\x7d' hclosing y).andThen ?_
  rintro _ outer ⟨⟩
  have houter : Closed outer := (hinner.of_suffix hclosing h.suffix).tail (by decide)
  exact localAt_of_endsWith hq houter.semicolon_mem y

end Pattern

/-! ## The patterns of declarations -/

open Declaration Pattern

theorem StructType.localAt_forwardPattern (ht : Closed t) (y : Text) :
    LocalAt StructType.forwardPattern t y :=
  localAt_of_endsWith (by decide) ht.semicolon_mem y

theorem StructType.localAt_bodyPattern (ht : Closed t) (y : Text) :
    LocalAt StructType.bodyPattern t y :=
  .andThen_of_closed (by decide)
    (fun _ h => .andThen_of_closed (by decide)
      (fun _ h => .andThen_of_closed (by decide)
        (fun _ h => localAt_braces (by decide) (by decide) h) h) h) ht

theorem Enum.localAt_pattern (ht : Closed t) (y : Text) : LocalAt Enum.pattern t y :=
  .andThen_of_closed (by decide)
    (fun _ h => .andThen_of_closed (by decide)
      (fun _ h => .andThen_of_closed (by decide)
        (fun _ h => .andThen_of_closed (by decide)
          (fun _ h => localAt_braces (by decide) (by decide) h) h) h) h) ht

theorem Signature.localAt_prototypePattern (ht : ';' ∈ t) (y : Text) :
    LocalAt Signature.prototypePattern t y :=
  localAt_of_endsWith (by decide) ht y

theorem Signature.localAt_delegatePattern (ht : ';' ∈ t) (y : Text) :
    LocalAt Signature.delegatePattern t y :=
  localAt_of_endsWith (by decide) ht y

/-! ## Searches at the end of a declaration -/

/-- What is read from captures, and does not depend on what follows the captured text, is read part
by part. -/
theorem filterMap_captures_append {α : Type} {p : Pattern} {f : List Cut → Option α}
    (hf : ∀ cuts, f (cuts.map (·.extend y)) = f cuts) (hx : x = [] ∨ x.getLast? = some ';')
    (hp : ∀ s, s ≠ [] → s <:+ x → LocalAt p s y) :
    (p.captures wordStart (x ++ y)).filterMap f =
      (p.captures wordStart x).filterMap f ++ (p.captures wordStart y).filterMap f := by
  have hseam : wordStart x.getLast? = wordStart none := by
    rcases hx with rfl | hx
    · rfl
    · rw [hx]
      decide
  rw [captures_append hp hseam, List.filterMap_append, List.filterMap_map]
  simp only [Function.comp_def, hf]

namespace Signature

theorem ofCuts?_extend (y : Text) (cuts : List Cut) :
    Raw.ofCuts? (cuts.map (·.extend y)) = Raw.ofCuts? cuts := by
  unfold Raw.ofCuts?
  rcases cuts with _ | ⟨_, _ | ⟨_, _ | ⟨_, _ | _⟩⟩⟩ <;> simp

theorem semicolon_mem_of_suffix (hx : x = [] ∨ x.getLast? = some ';') (hs : s ≠ [])
    (hsx : s <:+ x) : ';' ∈ s := by
  rcases hx with rfl | hx
  · exact absurd (List.suffix_nil.1 hsx) hs
  · exact List.mem_of_getLast? (getLast?_of_suffix hx hs hsx)

theorem rawPrototypes_append (hx : x = [] ∨ x.getLast? = some ';') (y : Text) :
    rawPrototypes (x ++ y) = rawPrototypes x ++ rawPrototypes y := by
  rw [rawPrototypes, filterMap_captures_append (ofCuts?_extend y) hx fun s hs hsx =>
    localAt_prototypePattern (semicolon_mem_of_suffix hx hs hsx) y, List.filter_append]
  rfl

theorem rawDelegates_append (hx : x = [] ∨ x.getLast? = some ';') (y : Text) :
    rawDelegates (x ++ y) = rawDelegates x ++ rawDelegates y :=
  filterMap_captures_append (ofCuts?_extend y) hx fun _ hs hsx =>
    localAt_delegatePattern (semicolon_mem_of_suffix hx hs hsx) y

/-- The first malformed parameter decides, as it does in each part. -/
theorem readAll_append (rs rs' : List Raw) :
    readAll (rs ++ rs') = (do
      let ss ← readAll rs
      let ss' ← readAll rs'
      pure (ss ++ ss')) := by
  induction rs with
  | nil => cases h : readAll rs' <;> simp [readAll, h, bind, Except.bind, pure, Except.pure]
  | cons r rs ih =>
    rw [List.cons_append, readAll, readAll]
    cases r.read with
    | error e => rfl
    | ok _ =>
      simp only [ih]
      cases readAll rs with
      | error e => rfl
      | ok ss => cases readAll rs' <;> rfl

end Signature

/-- The text is empty or closed; then so are its suffixes, and nothing gets past its end. -/
theorem Closed.or_nil_of_suffix (hx : x = [] ∨ Closed x) (hs : s ≠ []) (hsx : s <:+ x) :
    Closed s := by
  rcases hx with rfl | hx
  · exact absurd (List.suffix_nil.1 hsx) hs
  · exact hx.of_suffix hs hsx

theorem Enum.all_append (hx : x = [] ∨ Closed x) (y : Text) :
    Enum.all (x ++ y) = Enum.all x ++ Enum.all y := by
  refine filterMap_captures_append ?_ (hx.imp_right Closed.semicolon) fun s hs hsx =>
    Enum.localAt_pattern (Closed.or_nil_of_suffix hx hs hsx) y
  rintro (_ | ⟨_, _ | ⟨_, _ | _⟩⟩) <;> simp

namespace StructType

theorem namesBy_append {p : Pattern} (hx : x = [] ∨ x.getLast? = some ';')
    (hp : ∀ s, s ≠ [] → s <:+ x → LocalAt p s y) :
    namesBy p (x ++ y) = (namesBy p x).map (·.extend y) ++ namesBy p y := by
  have hseam : wordStart x.getLast? = wordStart none := by
    rcases hx with rfl | hx
    · rfl
    · rw [hx]
      decide
  simp [namesBy, captures_append hp hseam, List.map_filterMap, List.filterMap_map, List.head?_map]

theorem exists_matches_of_mem_namesBy {p : Pattern} {c : Cut} (hc : c ∈ namesBy p x) :
    ∃ a s cuts rest, x = a ++ s ∧ Matches p s cuts rest ∧ cuts.head? = some c := by
  obtain ⟨cuts, hcuts, hhead⟩ := List.mem_filterMap.1 hc
  obtain ⟨a, s, rest, hx, -, hm⟩ := exists_matches_of_mem_captures hcuts
  exact ⟨a, s, cuts, rest, hx, hm, hhead⟩

/-- A name begins behind the literal text that its pattern opens with. -/
theorem length_start_lt_of_mem_namesBy {word : Text} {p : Pattern} (hword : word ≠ []) {c : Cut}
    (hc : c ∈ namesBy (.andThen (.literal word) p) x) : c.start.length < x.length := by
  obtain ⟨a, s, cuts, rest, rfl, hm, hhead⟩ := exists_matches_of_mem_namesBy hc
  cases hm with
  | andThen h h' =>
    cases h with
    | literal _ mid =>
      have hlen := (h'.start_suffix (List.mem_of_head? hhead)).length_le
      have hpos := List.length_pos_iff.2 hword
      simp only [List.length_append]
      omega

theorem length_start_lt_of_mem {c : Cut}
    (hc : c ∈ namesBy forwardPattern x ++ namesBy bodyPattern x) : c.start.length < x.length := by
  rcases List.mem_append.1 hc with hc | hc
  · exact length_start_lt_of_mem_namesBy (by decide) hc
  · exact length_start_lt_of_mem_namesBy (by decide) hc

/-- Names of the first text stand before those of the second one, since they begin farther from the
end. -/
theorem nameCuts_append (hx : x = [] ∨ Closed x) (y : Text) :
    nameCuts (x ++ y) = (nameCuts x).map (·.extend y) ++ nameCuts y := by
  have hsemi := hx.imp_right Closed.semicolon
  rw [nameCuts, namesBy_append hsemi fun s hs hsx =>
    localAt_forwardPattern (Closed.or_nil_of_suffix hx hs hsx) y,
    namesBy_append hsemi fun s hs hsx =>
      localAt_bodyPattern (Closed.or_nil_of_suffix hx hs hsx) y, merge_append, nameCuts, nameCuts,
    List.map_merge]
  · simp
  · intro a ha b hb
    have hb := length_start_lt_of_mem hb
    rw [← List.map_append] at ha
    obtain ⟨a, -, rfl⟩ := List.mem_map.1 ha
    simp only [Cut.start_extend, List.length_append, decide_eq_true_eq, decide_eq_false_iff_not]
    omega

theorem names_append (hx : x = [] ∨ Closed x) (y : Text) :
    names (x ++ y) = names x ++ (names y).filter (· ∉ names x) := by
  have hcuts : (nameCuts (x ++ y)).map Cut.text =
      (nameCuts x).map Cut.text ++ (nameCuts y).map Cut.text := by
    simp [nameCuts_append hx y, Function.comp_def]
  rw [names, hcuts, List.eraseDups_append, List.removeAll, eraseDups_filter, names, names]
  simp only [List.mem_eraseDups, List.elem_eq_mem, decide_not]

end StructType

/-- Recognition is local to declarations: behind a semicolon the search for prototypes and
delegates starts afresh, errors included, and so does the search for enums and struct types if no
brace was left open.  A struct type counts where it is declared first. -/
theorem declarations_append {x : Text} (hx : x = [] ∨ x.getLast? = some ';') (y : Text) :
    (Signature.prototypes (x ++ y) = (do
      let fs ← Signature.prototypes x
      let gs ← Signature.prototypes y
      pure (fs ++ gs))) ∧
    (Signature.delegates (x ++ y) = (do
      let ds ← Signature.delegates x
      let es ← Signature.delegates y
      pure (ds ++ es))) ∧
    ((∀ b ∈ lastBrace? x, b = '\x7d') →
      Enum.all (x ++ y) = Enum.all x ++ Enum.all y ∧
      StructType.names (x ++ y) =
        StructType.names x ++ (StructType.names y).filter (· ∉ StructType.names x)) := by
  refine ⟨?_, ?_, fun hbrace => ?_⟩
  · rw [Signature.prototypes, Signature.rawPrototypes_append hx, Signature.readAll_append]
    rfl
  · rw [Signature.delegates, Signature.rawDelegates_append hx, Signature.readAll_append]
    rfl
  · have hclosed : x = [] ∨ Closed x :=
      hx.imp_right fun h => ⟨h, fun hb => absurd (hbrace _ hb) (by decide)⟩
    exact ⟨Enum.all_append hclosed y, StructType.names_append hclosed y⟩

/-- The seam behind a struct type whose members hold a semicolon, in front of a malformed
prototype. -/
theorem declarations_append_struct :
    "typedef struct \x7b int n; \x7d a_t;".toList.getLast? = some ';' ∧
    (∀ b ∈ lastBrace? "typedef struct \x7b int n; \x7d a_t;".toList, b = '\x7d') ∧
    Signature.prototypes
        ("typedef struct \x7b int n; \x7d a_t;".toList ++ " int f (int);".toList) =
      .error (.malformedParameter "int".toList "int".toList) ∧
    StructType.names
        ("typedef struct \x7b int n; \x7d a_t;".toList ++ " int f (int);".toList) =
      ["a_t".toList] := by
  obtain ⟨hprototypes, -, hbraces⟩ :=
    declarations_append (x := "typedef struct \x7b int n; \x7d a_t;".toList) (.inr (by decide))
      " int f (int);".toList
  have hstruct :
      StructType.names "typedef struct \x7b int n; \x7d a_t;".toList = ["a_t".toList] := by
    have hforward : StructType.namesBy StructType.forwardPattern
        "typedef struct \x7b int n; \x7d a_t;".toList = [] := by decide +kernel
    have hbody : StructType.namesBy StructType.bodyPattern
        "typedef struct \x7b int n; \x7d a_t;".toList = [⟨"a_t;".toList, ";".toList⟩] := by
      decide +kernel
    rw [StructType.names, StructType.nameCuts, hforward, hbody, List.nil_merge]
    rfl
  have hprototype : StructType.names " int f (int);".toList = [] := by
    have hforward : StructType.namesBy StructType.forwardPattern " int f (int);".toList = [] := by
      decide +kernel
    have hbody : StructType.namesBy StructType.bodyPattern " int f (int);".toList = [] := by
      decide +kernel
    rw [StructType.names, StructType.nameCuts, hforward, hbody, List.nil_merge]
    rfl
  refine ⟨by decide, by decide, hprototypes.trans (by decide +kernel), ?_⟩
  rw [(hbraces (by decide)).2, hstruct, hprototype]
  rfl

end HeaderApi
