import HeaderApi.Proofs.Declaration.Locality
import HeaderApi.Proofs.Declaration.StructType
import HeaderApi.Proofs.Pattern.Leftmost
import HeaderApi.Proofs.Text.Bytes
import Mathlib.Data.Nat.Find
import Mathlib.Order.Bounds.Basic

/-!
# Struct types are listed by their first declarations

The two forms of declarations are searched apart.  No name is captured by both forms at one place,
since a forward declaration has its tag in front of the name and the other form its brace; so the
places of the names are strictly ordered once the two searches are merged, and of each name the
first place counts.
-/

namespace HeaderApi

/-! ## First places in an ordered list -/

section FirstPlaces

variable {α β : Type} {a : α} {l : List α} {key : α → Nat} {f : α → β} {b b' : β} {m : Nat}

theorem pair_sublist_eraseDups_cons_iff [BEq β] [LawfulBEq β] {d : β} {l : List β} :
    List.Sublist [b, b'] (d :: l).eraseDups ↔
      b = d ∧ b' ≠ d ∧ b' ∈ l ∨ b ≠ d ∧ b' ≠ d ∧ List.Sublist [b, b'] l.eraseDups := by
  have hmem : b' ∈ l.eraseDups.filter (!· == d) ↔ b' ≠ d ∧ b' ∈ l := by
    simp [and_comm]
  have hpair : List.Sublist [b, b'] (l.eraseDups.filter (!· == d)) ↔
      b ≠ d ∧ b' ≠ d ∧ List.Sublist [b, b'] l.eraseDups := by
    constructor
    · intro h
      have hb : b ∈ l.eraseDups.filter (!· == d) := h.subset (by simp)
      have hb' : b' ∈ l.eraseDups.filter (!· == d) := h.subset (by simp)
      exact ⟨by simpa using (List.mem_filter.1 hb).2, by simpa using (List.mem_filter.1 hb').2,
        h.trans List.filter_sublist⟩
    · rintro ⟨hb, hb', h⟩
      simpa [hb, hb'] using h.filter (!· == d)
  rw [List.eraseDups_cons, eraseDups_filter, List.cons_sublist_cons', List.singleton_sublist,
    hmem, hpair, or_comm]

/-- Where a list has an entry. -/
def places (key : α → Nat) (f : α → β) (l : List α) (b : β) : Set Nat :=
  {k | ∃ a ∈ l, f a = b ∧ key a = k}

theorem places_cons_of_ne (h : f a ≠ b) : places key f (a :: l) b = places key f l b := by
  ext k
  simp [places, h]

theorem le_of_mem_places_cons (hlt : ∀ a' ∈ l, key a < key a')
    (hm : m ∈ places key f (a :: l) b) : key a ≤ m := by
  obtain ⟨a', ha', -, rfl⟩ := hm
  rcases List.mem_cons.1 ha' with rfl | ha'
  · exact le_rfl
  · exact (hlt a' ha').le

theorem isLeast_places_cons_iff (hlt : ∀ a' ∈ l, key a < key a') (h : f a = b) :
    IsLeast (places key f (a :: l) b) m ↔ m = key a := by
  have hleast : IsLeast (places key f (a :: l) b) (key a) :=
    ⟨⟨a, List.mem_cons_self, h, rfl⟩, fun _ hm => le_of_mem_places_cons hlt hm⟩
  exact ⟨fun hm => hm.unique hleast, fun hm => hm ▸ hleast⟩

theorem mem_map_iff_exists_mem_places (key : α → Nat) :
    b ∈ l.map f ↔ ∃ m, m ∈ places key f l b := by
  simp [places]

theorem exists_isLeast_places (key : α → Nat) (hb : b ∈ l.map f) :
    ∃ m, IsLeast (places key f l b) m := by
  classical
  have hex := (mem_map_iff_exists_mem_places key).1 hb
  exact ⟨Nat.find hex, Nat.find_spec hex, fun _ hm => Nat.find_min' hex hm⟩

/-- The entries of a strictly ordered list are listed by their first places. -/
theorem pair_sublist_eraseDups_iff [BEq β] [LawfulBEq β]
    (h : l.Pairwise fun a a' => key a < key a') :
    List.Sublist [b, b'] (l.map f).eraseDups ↔
      ∃ m n, IsLeast (places key f l b) m ∧ IsLeast (places key f l b') n ∧ m < n := by
  induction l with
  | nil => simp [places, IsLeast]
  | cons a l ih =>
    rw [List.pairwise_cons] at h
    rw [List.map_cons, pair_sublist_eraseDups_cons_iff, ih h.2]
    by_cases hb' : f a = b'
    · -- Nothing is in front of the first entry.
      refine iff_of_false (by simp [hb']) ?_
      rintro ⟨m, n, hm, hn, hlt⟩
      rw [isLeast_places_cons_iff h.1 hb'] at hn
      exact absurd (hn ▸ hlt) (le_of_mem_places_cons h.1 hm.1).not_gt
    · rw [places_cons_of_ne hb']
      by_cases hb : f a = b
      · simp only [isLeast_places_cons_iff h.1 hb]
        constructor
        · rintro (⟨-, -, hmem⟩ | ⟨hne, -⟩)
          · obtain ⟨n, hn⟩ := exists_isLeast_places key hmem
            obtain ⟨a', ha', -, rfl⟩ := hn.1
            exact ⟨key a, key a', rfl, hn, h.1 a' ha'⟩
          · exact absurd hb.symm hne
        · rintro ⟨m, n, -, hn, -⟩
          exact .inl ⟨hb.symm, Ne.symm hb', (mem_map_iff_exists_mem_places key).2 ⟨n, hn.1⟩⟩
      · rw [places_cons_of_ne hb]
        simp [Ne.symm hb, Ne.symm hb']

end FirstPlaces

namespace StructType

open Declaration Pattern Text

variable {a code s t rest : Text} {cuts : List Cut} {c : Cut} {p : Pattern}

/-! ## Where names are captured -/

/-- A forward declaration has its tag and a space in front of the name. -/
theorem matches_forwardPattern (h : Matches forwardPattern t cuts rest) :
    ∃ w c, (w ≠ [] ∧ ∀ d ∈ w, isWord d = true) ∧ cuts = [c] ∧
      t = "typedef struct ".toList ++ w ++ ' ' :: c.start ∧ rest.length < c.start.length := by
  obtain ⟨_, t₁, rfl, ⟨rfl, -⟩, h₁⟩ := h.exists_of_silent_andThen rfl
  obtain ⟨w, t₂, rfl, hw, h₂⟩ := h₁.exists_of_silent_andThen rfl
  obtain ⟨_, t₃, rfl, ⟨rfl, -⟩, h₃⟩ := h₂.exists_of_silent_andThen rfl
  obtain ⟨c, rfl, rfl, hlt⟩ := h₃.exists_cut_of_capture_andThen rfl rfl rfl
  exact ⟨w, c, spells_many1.1 hw, rfl, by simp, hlt⟩

/-- A struct with members has its closing brace in front of the name. -/
theorem matches_bodyPattern (h : Matches bodyPattern t cuts rest) :
    ∃ front g c, IsGap g ∧ cuts = [c] ∧ t = front ++ '\x7d' :: (g ++ c.start) ∧
      rest.length < c.start.length := by
  obtain ⟨a₁, t₁, rfl, -, h₁⟩ := h.exists_of_silent_andThen rfl
  obtain ⟨a₂, t₂, rfl, -, h₂⟩ := h₁.exists_of_silent_andThen rfl
  obtain ⟨a₃, t₃, rfl, -, h₃⟩ := h₂.exists_of_silent_andThen rfl
  obtain ⟨a₄, t₄, rfl, -, h₄⟩ := h₃.exists_of_silent_andThen rfl
  obtain ⟨a₅, t₅, rfl, -, h₅⟩ := h₄.exists_of_silent_andThen rfl
  obtain ⟨_, t₆, rfl, ⟨rfl, -⟩, h₆⟩ := h₅.exists_of_silent_andThen rfl
  obtain ⟨g, t₇, rfl, hg, h₇⟩ := h₆.exists_of_silent_andThen rfl
  obtain ⟨c, rfl, rfl, hlt⟩ := h₇.exists_cut_of_capture_andThen rfl rfl rfl
  exact ⟨a₁ ++ (a₂ ++ (a₃ ++ (a₄ ++ a₅))), g, c, spells_gap.1 hg, rfl, by simp, hlt⟩

/-- Each match of the pattern captures one text, and ends behind the place where that begins. -/
def CapturesOne (p : Pattern) : Prop :=
  ∀ t cuts rest, Matches p t cuts rest → ∃ c, cuts = [c] ∧ rest.length < c.start.length

theorem capturesOne_forwardPattern : CapturesOne forwardPattern := by
  intro t cuts rest h
  obtain ⟨-, c, -, hcuts, -, hlt⟩ := matches_forwardPattern h
  exact ⟨c, hcuts, hlt⟩

theorem capturesOne_bodyPattern : CapturesOne bodyPattern := by
  intro t cuts rest h
  obtain ⟨-, -, c, -, hcuts, -, hlt⟩ := matches_bodyPattern h
  exact ⟨c, hcuts, hlt⟩

theorem mem_namesBy_iff (hone : CapturesOne p) :
    c ∈ namesBy p code ↔ ∃ o ∈ p.occurrences wordStart code, c ∈ o.cuts := by
  simp only [namesBy, captures, List.mem_filterMap, List.mem_map, exists_exists_and_eq_and]
  refine exists_congr fun o => and_congr_right fun ho => ?_
  obtain ⟨a, -, -, hm⟩ := matches_of_mem_occurrencesFrom ho
  obtain ⟨d, hd, -⟩ := hone _ _ _ hm
  simp [hd, eq_comm]

theorem mem_nameCuts_iff :
    c ∈ nameCuts code ↔ ∃ o ∈ forwardPattern.occurrences wordStart code ++
      bodyPattern.occurrences wordStart code, c ∈ o.cuts := by
  simp only [nameCuts, List.mem_merge, mem_namesBy_iff capturesOne_forwardPattern,
    mem_namesBy_iff capturesOne_bodyPattern, List.mem_append, or_and_right, exists_or]

theorem start_suffix_of_mem_namesBy (hc : c ∈ namesBy p code) : c.start <:+ code := by
  obtain ⟨a, t, cuts, rest, rfl, hm, hhead⟩ := exists_matches_of_mem_namesBy hc
  exact (hm.start_suffix (List.mem_of_head? hhead)).trans (List.suffix_append a t)

theorem start_suffix_of_mem_nameCuts (hc : c ∈ nameCuts code) : c.start <:+ code :=
  (List.mem_merge.1 hc).elim start_suffix_of_mem_namesBy start_suffix_of_mem_namesBy

/-- The names of one form are captured one behind the other. -/
theorem pairwise_namesBy (hp : p.nullable = false) (hone : CapturesOne p) (code : Text) :
    (namesBy p code).Pairwise fun c c' => c'.start.length < c.start.length := by
  have hsearch : SearchedFrom p wordStart [] code (p.occurrences wordStart code) :=
    (searchedFrom_iff_eq_occurrences hp).2 rfl
  rw [namesBy, captures, List.filterMap_map, List.pairwise_filterMap]
  refine hsearch.disjoint.imp_of_mem fun {o o'} ho ho' hbehind c hc c' hc' => ?_
  obtain ⟨-, hm⟩ := matches_of_first? (hsearch.preferred o ho)
  obtain ⟨-, hm'⟩ := matches_of_first? (hsearch.preferred o' ho')
  obtain ⟨d, hd, hlt⟩ := hone _ _ _ hm
  have hcd : d = c := by simpa [hd] using hc
  have hle := (hm'.start_suffix (List.mem_of_head? hc')).length_le
  have hle' := hbehind.length_le
  rw [hcd] at hlt
  omega

/-- In front of a name stands a space behind a word in the one form, and a brace with or without a
space in the other one. -/
theorem start_ne_start {c' : Cut} (hc : c ∈ namesBy forwardPattern code)
    (hc' : c' ∈ namesBy bodyPattern code) : c.start ≠ c'.start := by
  obtain ⟨a, t, cuts, rest, hcode, hm, hhead⟩ := exists_matches_of_mem_namesBy hc
  obtain ⟨a', t', cuts', rest', hcode', hm', hhead'⟩ := exists_matches_of_mem_namesBy hc'
  obtain ⟨w, d, hw, rfl, rfl, -⟩ := matches_forwardPattern hm
  obtain ⟨front, g, d', hg, rfl, rfl, -⟩ := matches_bodyPattern hm'
  obtain rfl : d = c := by simpa using hhead
  obtain rfl : d' = c' := by simpa using hhead'
  intro hstart
  rw [hcode, hstart] at hcode'
  have hcut : (a ++ "typedef struct ".toList ++ w ++ [' ']) ++ d'.start =
      (a' ++ front ++ '\x7d' :: g) ++ d'.start := by
    simpa using hcode'
  have hfront := List.append_cancel_right hcut
  rcases hg with rfl | rfl
  · have hlast := congrArg List.getLast? hfront
    rw [List.getLast?_concat, List.getLast?_concat] at hlast
    exact absurd hlast (by decide)
  · rw [List.append_cons _ '\x7d' [' ']] at hfront
    have hword := congrArg List.getLast? (List.append_cancel_right hfront)
    rw [List.getLast?_append_of_ne_nil _ hw.1, List.getLast?_concat] at hword
    exact absurd (hw.2 _ (List.mem_of_getLast? hword)) (by decide)

theorem pairwise_nameCuts (code : Text) :
    (nameCuts code).Pairwise fun c c' => c'.start.length < c.start.length := by
  have hforward := pairwise_namesBy (by decide) capturesOne_forwardPattern code
  have hbody := pairwise_namesBy (by decide) capturesOne_bodyPattern code
  have hsorted : (nameCuts code).Pairwise fun c c' =>
      decide (c'.start.length ≤ c.start.length) = true := by
    refine List.pairwise_merge (fun a b c hab hbc => ?_) (fun a b => ?_) _ _
      (hforward.imp fun h => decide_eq_true h.le) (hbody.imp fun h => decide_eq_true h.le)
    · simp only [decide_eq_true_eq] at hab hbc ⊢
      exact hbc.trans hab
    · simpa using Nat.le_total b.start.length a.start.length
  have hapart : (nameCuts code).Pairwise fun c c' => c.start.length ≠ c'.start.length := by
    refine (List.merge_perm_append _).symm.pairwise (List.pairwise_append.2 ⟨?_, ?_, ?_⟩) Ne.symm
    · exact hforward.imp Nat.ne_of_gt
    · exact hbody.imp Nat.ne_of_gt
    · intro c hc c' hc' hlen
      refine start_ne_start hc hc' ?_
      exact (List.suffix_of_suffix_length_le (start_suffix_of_mem_namesBy hc)
        (start_suffix_of_mem_namesBy hc') hlen.le).eq_of_length hlen
  exact (hsorted.and hapart).imp fun ⟨hle, hne⟩ => (of_decide_eq_true hle).lt_of_ne hne.symm

/-! ## The order of the names -/

/-- One of the occurrences captures the name, at byte `n` of the code. -/
def CapturedAt (code : Text) (found : List Occurrence) (name : Text) (n : Nat) : Prop :=
  ∃ o ∈ found, ∃ c ∈ o.cuts, c.text = name ∧ dropBytes? n code = some c.start

/-- Where a cut of the code begins, in bytes. -/
def place (code : Text) (c : Cut) : Nat := byteSize code - byteSize c.start

theorem place_append (a : Text) (c : Cut) : place (a ++ c.start) c = byteSize a := by
  simp [place]

theorem dropBytes?_eq_start_iff (hc : c.start <:+ code) {n : Nat} :
    dropBytes? n code = some c.start ↔ place code c = n := by
  obtain ⟨a, rfl⟩ := hc
  rw [dropBytes?_eq_some_iff, place_append]
  constructor
  · rintro ⟨b, hb, rfl⟩
    rw [List.append_cancel_right hb]
  · intro hn
    exact ⟨a, rfl, hn⟩

theorem place_lt_place {c' : Cut} (hc : c.start <:+ code) (hc' : c'.start <:+ code)
    (hlt : c'.start.length < c.start.length) : place code c < place code c' := by
  obtain ⟨a, rfl⟩ := hc
  obtain ⟨b, hb⟩ := List.suffix_of_suffix_length_le hc' (List.suffix_append a c.start) hlt.le
  have hpos : 0 < byteSize b := by
    rw [Nat.pos_iff_ne_zero, ne_eq, byteSize_eq_zero_iff]
    rintro rfl
    simp [← hb] at hlt
  rw [place_append, ← hb, ← List.append_assoc, place_append, byteSize_append]
  omega

theorem pairwise_place (code : Text) :
    (nameCuts code).Pairwise fun c c' => place code c < place code c' :=
  (pairwise_nameCuts code).imp_of_mem fun hc hc' hlt =>
    place_lt_place (start_suffix_of_mem_nameCuts hc) (start_suffix_of_mem_nameCuts hc') hlt

theorem capturedAt_iff {name : Text} {n : Nat} :
    CapturedAt code (forwardPattern.occurrences wordStart code ++
        bodyPattern.occurrences wordStart code) name n ↔
      n ∈ places (place code) Cut.text (nameCuts code) name := by
  constructor
  · rintro ⟨o, ho, c, hc, htext, hplace⟩
    have hmem : c ∈ nameCuts code := mem_nameCuts_iff.2 ⟨o, ho, hc⟩
    rw [dropBytes?_eq_start_iff (start_suffix_of_mem_nameCuts hmem)] at hplace
    exact ⟨c, hmem, htext, hplace⟩
  · rintro ⟨c, hmem, htext, hplace⟩
    rw [← dropBytes?_eq_start_iff (start_suffix_of_mem_nameCuts hmem)] at hplace
    obtain ⟨o, ho, hc⟩ := mem_nameCuts_iff.1 hmem
    exact ⟨o, ho, c, hc, htext, hplace⟩

/-- Each form has one list of occurrences.  The struct types are the names that these capture, each
of them once, and one is listed before another one if and only if it is captured first. -/
theorem names_in_order (code : Text) :
    ∃ forward body : List Occurrence,
      (∀ found, SearchedFrom forwardPattern wordStart [] code found ↔ found = forward) ∧
      (∀ found, SearchedFrom bodyPattern wordStart [] code found ↔ found = body) ∧
      (names code).Nodup ∧
      (∀ name, name ∈ names code ↔ ∃ n, CapturedAt code (forward ++ body) name n) ∧
      ∀ p q, List.Sublist [p, q] (names code) ↔
        ∃ m n, IsLeast {k | CapturedAt code (forward ++ body) p k} m ∧
          IsLeast {k | CapturedAt code (forward ++ body) q k} n ∧ m < n := by
  have hplaces (name : Text) : {k | CapturedAt code (forwardPattern.occurrences wordStart code ++
      bodyPattern.occurrences wordStart code) name k} =
        places (place code) Cut.text (nameCuts code) name := Set.ext fun _ => capturedAt_iff
  refine ⟨forwardPattern.occurrences wordStart code, bodyPattern.occurrences wordStart code,
    fun _ => searchedFrom_iff_eq_occurrences (by decide),
    fun _ => searchedFrom_iff_eq_occurrences (by decide), nodup_eraseDups _, fun name => ?_,
    fun p q => ?_⟩
  · rw [names, List.mem_eraseDups, mem_map_iff_exists_mem_places (place code)]
    exact exists_congr fun _ => capturedAt_iff.symm
  · rw [hplaces, hplaces]
    exact pair_sublist_eraseDups_iff (pairwise_place code)

end StructType

end HeaderApi
