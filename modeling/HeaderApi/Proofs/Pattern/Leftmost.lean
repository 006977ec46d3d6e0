import HeaderApi.Proofs.Pattern.Spelling

/-!
# What a search finds is determined

`SearchedFrom` says of a list that it holds the occurrences of a pattern, leftmost first, without
saying how they are found: each one is the preferred match at its place, none begins before the one
in front of it has ended, and no match could begin outside of them.  There is one such list
(`searchedFrom_iff`).
-/

namespace HeaderApi.Pattern

variable {p : Pattern} {anchor : Anchor} {front m r s t : Text} {c : Char} {o : Occurrence}
  {found : List Occurrence}

/-- Behind `front`, the text goes on with `s` at a place where matches may start. -/
def MayStart (anchor : Anchor) (front t s : Text) : Prop :=
  ∃ a, t = a ++ s ∧ anchor (front ++ a).getLast? = true

/-- The list holds the occurrences in the text `t`, which stands behind `front`. -/
structure SearchedFrom (p : Pattern) (anchor : Anchor) (front t : Text)
    (found : List Occurrence) : Prop where
  starts : ∀ o ∈ found, MayStart anchor front t o.whole.start
  preferred : ∀ o ∈ found, p.first? o.whole.start = some o
  disjoint : found.Pairwise fun o o' => o'.whole.start <:+ o.whole.stop
  /-- A match that is left out would begin inside of one that is found. -/
  leftmost : ∀ s cuts rest, MayStart anchor front t s → Matches p s cuts rest →
    ∃ o ∈ found, s <:+ o.whole.start ∧ ¬ s <:+ o.whole.stop

namespace MayStart

theorem suffix (h : MayStart anchor front t s) : s <:+ t := by
  obtain ⟨a, rfl, -⟩ := h
  exact List.suffix_append a s

theorem self_iff : MayStart anchor front t t ↔ anchor front.getLast? = true := by
  constructor
  · rintro ⟨a, ht, ha⟩
    obtain rfl : a = [] := List.append_left_eq_self.1 ht.symm
    rwa [List.append_nil] at ha
  · intro ha
    exact ⟨[], rfl, by rwa [List.append_nil]⟩

theorem append_iff :
    MayStart anchor (front ++ m) r s ↔ MayStart anchor front (m ++ r) s ∧ s <:+ r := by
  constructor
  · rintro ⟨a, rfl, ha⟩
    exact ⟨⟨m ++ a, (List.append_assoc m a s).symm, by rwa [← List.append_assoc]⟩,
      List.suffix_append a s⟩
  · rintro ⟨⟨a, hcut, ha⟩, b, rfl⟩
    obtain rfl : m ++ b = a := List.append_cancel_right (by rwa [List.append_assoc])
    exact ⟨b, rfl, by rwa [List.append_assoc]⟩

end MayStart

/-! ## One step of a search -/

theorem exists_eq_append_of_first? (hp : p.nullable = false) (h : p.first? t = some o) :
    o.whole.start = t ∧ ∃ m, m ≠ [] ∧ t = m ++ o.whole.stop := by
  obtain ⟨hstart, hm⟩ := matches_of_first? h
  obtain ⟨m, ht, hs⟩ := spells_of_matches hm
  exact ⟨hstart, m, hs.ne_nil hp, ht⟩

theorem searchedFrom_nil_iff (hp : p.nullable = false) :
    SearchedFrom p anchor front [] found ↔ found = [] := by
  have hnone {s : Text} (hs : MayStart anchor front [] s) (o : Occurrence) :
      p.first? s ≠ some o := by
    intro ho
    obtain ⟨-, m, hm, hcut⟩ := exists_eq_append_of_first? hp ho
    rw [List.suffix_nil.1 hs.suffix] at hcut
    exact hm (List.append_eq_nil_iff.1 hcut.symm).1
  constructor
  · intro h
    exact List.eq_nil_iff_forall_not_mem.2 fun o ho => hnone (h.starts o ho) o (h.preferred o ho)
  · rintro rfl
    refine ⟨by simp, by simp, .nil, fun s cuts rest hs hm => ?_⟩
    obtain ⟨o, ho⟩ := exists_first? hm
    exact absurd ho (hnone hs o)

/-- Where nothing matches, the occurrences are those behind the next character. -/
theorem searchedFrom_cons_iff (h : anchor front.getLast? = true → p.first? (c :: t) = none) :
    SearchedFrom p anchor front (c :: t) found ↔ SearchedFrom p anchor (front ++ [c]) t found := by
  have hbehind {s : Text} {o : Occurrence} (hs : MayStart anchor front (c :: t) s)
      (ho : p.first? s = some o) : MayStart anchor (front ++ [c]) t s := by
    refine MayStart.append_iff.2 ⟨hs, ?_⟩
    rcases List.suffix_cons_iff.1 hs.suffix with rfl | hst
    · simp [h (MayStart.self_iff.1 hs)] at ho
    · exact hst
  constructor
  · intro hsearch
    refine ⟨fun o ho => hbehind (hsearch.starts o ho) (hsearch.preferred o ho),
      hsearch.preferred, hsearch.disjoint, fun s cuts rest hs hm => ?_⟩
    exact hsearch.leftmost s cuts rest (MayStart.append_iff.1 hs).1 hm
  · intro hsearch
    refine ⟨fun o ho => (MayStart.append_iff.1 (hsearch.starts o ho)).1,
      hsearch.preferred, hsearch.disjoint, fun s cuts rest hs hm => ?_⟩
    obtain ⟨o, ho⟩ := exists_first? hm
    exact hsearch.leftmost s cuts rest (hbehind hs ho) hm

/-- No occurrence stands in front of one at the beginning: it would have to end before. -/
theorem SearchedFrom.eq_nil_of_start (hp : p.nullable = false) {before : List Occurrence}
    (h : SearchedFrom p anchor front t (before ++ o :: found)) (hstart : o.whole.start = t) :
    before = [] := by
  cases before with
  | nil => rfl
  | cons o' before =>
    have hmem : o' ∈ o' :: before ++ o :: found := List.mem_cons_self
    obtain ⟨-, m, hm, hcut⟩ := exists_eq_append_of_first? hp (h.preferred o' hmem)
    have hbehind : o.whole.start <:+ o'.whole.stop := List.rel_of_pairwise_cons h.disjoint (by simp)
    have hpos := List.length_pos_iff.2 hm
    have hle := (h.starts o' hmem).suffix.length_le
    have hle' := hbehind.length_le
    rw [hcut, List.length_append] at hle
    rw [hstart] at hle'
    omega

/-- A match that may start here is the first occurrence, and the others are those behind it. -/
theorem searchedFrom_append_iff (hp : p.nullable = false) (hanchor : anchor front.getLast? = true)
    (h : p.first? (m ++ r) = some o) (hstop : o.whole.stop = r) :
    SearchedFrom p anchor front (m ++ r) found ↔
      ∃ found', found = o :: found' ∧ SearchedFrom p anchor (front ++ m) r found' := by
  obtain ⟨hstart, hm⟩ := matches_of_first? h
  have hhere : MayStart anchor front (m ++ r) (m ++ r) := MayStart.self_iff.2 hanchor
  constructor
  · intro hsearch
    obtain ⟨o', ho', hbegins, -⟩ := hsearch.leftmost _ _ _ hhere hm
    have hsame : o'.whole.start = m ++ r :=
      (hsearch.starts o' ho').suffix.eq_of_length_le hbegins.length_le
    obtain rfl : o' = o := Option.some.inj (by rw [← hsearch.preferred o' ho', hsame, h])
    obtain ⟨before, found', rfl⟩ := List.append_of_mem ho'
    obtain rfl := hsearch.eq_nil_of_start hp hsame
    refine ⟨found', rfl, fun o ho => MayStart.append_iff.2 ⟨?_, ?_⟩,
      fun o ho => hsearch.preferred o (List.mem_cons_of_mem _ ho),
      hsearch.disjoint.of_cons, fun s cuts rest hs hm' => ?_⟩
    · exact hsearch.starts o (List.mem_cons_of_mem _ ho)
    · exact hstop ▸ List.rel_of_pairwise_cons hsearch.disjoint ho
    · obtain ⟨o, ho, hcover, hstops⟩ :=
        hsearch.leftmost s cuts rest (MayStart.append_iff.1 hs).1 hm'
      rcases List.mem_cons.1 ho with rfl | ho
      · exact absurd (hstop ▸ hs.suffix) hstops
      · exact ⟨o, ho, hcover, hstops⟩
  · rintro ⟨found', rfl, hsearch⟩
    refine ⟨List.forall_mem_cons.2 ⟨hstart ▸ hhere, fun o' ho' => ?_⟩,
      List.forall_mem_cons.2 ⟨by rw [hstart, h], hsearch.preferred⟩,
      .cons (fun o' ho' => hstop ▸ (hsearch.starts o' ho').suffix) hsearch.disjoint,
      fun s cuts rest hs hm' => ?_⟩
    · exact (MayStart.append_iff.1 (hsearch.starts o' ho')).1
    · by_cases hsr : s <:+ r
      · obtain ⟨o', ho', hcover⟩ :=
          hsearch.leftmost s cuts rest (MayStart.append_iff.2 ⟨hs, hsr⟩) hm'
        exact ⟨o', List.mem_cons_of_mem _ ho', hcover⟩
      · exact ⟨o, List.mem_cons_self, hstart ▸ hs.suffix, hstop ▸ hsr⟩

/-- A search finds the occurrences, and there is no other list that holds them. -/
theorem searchedFrom_iff (hp : p.nullable = false) :
    SearchedFrom p anchor front t found ↔
      found = occurrencesFrom p anchor 0 front.getLast? t := by
  -- On the length of the text, since a match is passed by as a whole.
  induction hn : t.length using Nat.strongRecOn generalizing front t found with
  | _ n ih =>
    cases t with
    | nil => rw [searchedFrom_nil_iff hp, occurrencesFrom]
    | cons c t =>
      by_cases hnone : anchor front.getLast? = true → p.first? (c :: t) = none
      · have hlt : t.length < n := by simp [← hn]
        rw [searchedFrom_cons_iff hnone, ih _ hlt rfl, List.getLast?_concat,
          occurrencesFrom_cons hnone]
      · rw [Classical.not_imp] at hnone
        obtain ⟨hanchor, hsome⟩ := hnone
        obtain ⟨o, ho⟩ := Option.ne_none_iff_exists'.1 hsome
        obtain ⟨-, m, hm, hcut⟩ := exists_eq_append_of_first? hp ho
        rw [hcut] at ho hn ⊢
        have hlt : o.whole.stop.length < n := by
          have := List.length_pos_iff.2 hm
          simp only [List.length_append] at hn
          omega
        rw [searchedFrom_append_iff hp hanchor ho rfl,
          occurrencesFrom_eq_cons hm hanchor ho rfl, ← List.getLast?_append]
        simp only [ih _ hlt rfl, exists_eq_right]

theorem searchedFrom_iff_eq_occurrences (hp : p.nullable = false) :
    SearchedFrom p anchor [] t found ↔ found = p.occurrences anchor t :=
  searchedFrom_iff hp

end HeaderApi.Pattern
