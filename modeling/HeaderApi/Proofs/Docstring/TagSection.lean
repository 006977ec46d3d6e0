import HeaderApi.Docstring.Parse
import HeaderApi.Proofs.Pattern.Inversion
import HeaderApi.Proofs.Pattern.Search
import HeaderApi.Proofs.Text.Parts

/-!
# Tags in a row

The value of a tag goes on up to the next `@`, over the ends of lines.  So tags that hold no `@` of
their own are found one by one in the text that they make up (`tagPairs_joinWith`).
-/

namespace HeaderApi.Docstring

open Text Pattern

variable {key value rest : Text}

/-- A tag captures its key and its value, and the value holds no `@`. -/
theorem cuts_of_matches_tagPattern {cuts : List Cut} {t : Text}
    (h : Matches tagPattern t cuts rest) : ∃ key value, key ≠ [] ∧ (∀ c ∈ key, c ≠ ':' ∧ c ≠ '@') ∧
      '@' ∉ value ∧ t = '@' :: key ++ ':' :: value ++ rest ∧
      cuts = [⟨key ++ ':' :: (value ++ rest), ':' :: (value ++ rest)⟩, ⟨value ++ rest, rest⟩] := by
  obtain ⟨_, _, _, hat, hbehind, rfl⟩ := matches_andThen_iff.1 h
  obtain ⟨_, _, _, hkey, hbehind', rfl⟩ := matches_andThen_iff.1 hbehind
  obtain ⟨_, _, _, hcolon, hvalue, rfl⟩ := matches_andThen_iff.1 hbehind'
  obtain ⟨rfl, rfl⟩ := matches_literal_iff.1 hat
  obtain ⟨_, hword, rfl⟩ := matches_capture_iff.1 hkey
  obtain ⟨key, hne, hmarks, rfl, rfl⟩ := matches_many1_iff.1 hword
  obtain ⟨rfl, rfl⟩ := matches_literal_iff.1 hcolon
  obtain ⟨_, hmany, rfl⟩ := matches_capture_iff.1 hvalue
  obtain ⟨value, hrun, rfl, rfl⟩ := matches_many_iff.1 hmany
  refine ⟨key, value, hne, by simpa using hmarks, fun hmem => ?_, by simp, rfl⟩
  simpa using hrun _ hmem

theorem mem_tagPairs {t : Text} (h : (key, value) ∈ tagPairs t) :
    ∃ v, value = squeeze v ∧ '@' ∉ v := by
  obtain ⟨cuts, hcuts, hpair⟩ := List.mem_filterMap.1 h
  obtain ⟨_, s, rest, -, -, hm⟩ := exists_matches_of_mem_captures hcuts
  obtain ⟨k, v, -, -, hv, -, rfl⟩ := cuts_of_matches_tagPattern hm
  refine ⟨v, ?_, hv⟩
  rw [← (Prod.mk.inj (Option.some.inj hpair)).2, Cut.text_append]

/-- What a tag captures behind its key. -/
theorem head?_reaches_value (hvalue : '@' ∉ value) (hrest : ∀ c ∈ rest.head?, c = '@') :
    ((seq [":", .capture (.many (· ≠ '@'))]).reaches (':' :: (value ++ rest))).head? =
      some ⟨[⟨value ++ rest, rest⟩], rest⟩ := by
  have hrun : ∀ c ∈ value, decide (c ≠ '@') = true := by
    intro c hc
    rw [decide_eq_true_eq]
    rintro rfl
    exact hvalue hc
  have hstop : ∀ c ∈ rest.head?, decide (c ≠ '@') = false := by simpa using hrest
  refine head?_reaches_andThen (a := ⟨[], value ++ rest⟩) (.literal [':'] _)
    (head?_reaches_capture (head?_reaches_many hrun hstop)) fun cuts r h _ => ?_
  obtain ⟨heq, rfl⟩ := matches_literal_iff.1 h
  exact ⟨rfl, (List.cons.inj heq).2.symm⟩

/-- What a tag captures behind its `@`.  The key cannot stop early, since no colon stands in it. -/
theorem head?_reaches_key (hkey : ∀ c ∈ key, c ≠ ':' ∧ c ≠ '@') (hne : key ≠ [])
    (hvalue : '@' ∉ value) (hrest : ∀ c ∈ rest.head?, c = '@') :
    ((seq [.capture (.many1 fun c => c ≠ ':' && c ≠ '@'), ":", .capture (.many (· ≠ '@'))]).reaches
      (key ++ ':' :: (value ++ rest))).head? =
      some ⟨[⟨key ++ ':' :: (value ++ rest), ':' :: (value ++ rest)⟩, ⟨value ++ rest, rest⟩],
        rest⟩ := by
  have hrun : ∀ c ∈ key, (decide (c ≠ ':') && decide (c ≠ '@')) = true := by simpa using hkey
  refine head?_reaches_andThen (a := ⟨[⟨key ++ ':' :: (value ++ rest), ':' :: (value ++ rest)⟩],
    ':' :: (value ++ rest)⟩) ?_ (head?_reaches_value hvalue hrest) fun cuts r h hsome => ?_
  · exact matches_capture_iff.2 ⟨[], matches_many1_iff.2 ⟨key, hne, hrun, rfl, rfl⟩, rfl⟩
  · obtain ⟨_, hmany, rfl⟩ := matches_capture_iff.1 h
    obtain ⟨run, -, hrun', heq, rfl⟩ := matches_many1_iff.1 hmany
    have hcolon : [':'] <+: r := by
      by_contra hno
      change ((andThen (.literal [':']) _).reaches r).head?.isSome at hsome
      rw [reaches_andThen_literal_eq_nil hno] at hsome
      simp at hsome
    obtain ⟨r, rfl⟩ := hcolon
    have hkey' : ':' ∉ key := fun hc => (hkey _ hc).1 rfl
    have hrun' : ':' ∉ run := fun hc => by simpa using hrun' _ hc
    rw [List.singleton_append] at heq
    obtain ⟨rfl, rfl⟩ := first_unique hkey' hrun' heq
    exact ⟨rfl, rfl⟩

/-- The first tag of a text, when another one or nothing follows its value. -/
theorem tagPairs_append (hkey : ∀ c ∈ key, c ≠ ':' ∧ c ≠ '@') (hne : key ≠ [])
    (hvalue : '@' ∉ value) (hrest : ∀ c ∈ rest.head?, c = '@') :
    tagPairs ('@' :: key ++ ':' :: value ++ rest) =
      ((words key).headD [], squeeze value) :: tagPairs rest := by
  have hfirst : tagPattern.first? ('@' :: key ++ ':' :: value ++ rest) =
      some ⟨⟨'@' :: key ++ ':' :: value ++ rest, rest⟩,
        [⟨key ++ ':' :: (value ++ rest), ':' :: (value ++ rest)⟩, ⟨value ++ rest, rest⟩]⟩ := by
    have hat := head?_reaches_andThen (p := .literal ['@'])
      (a := ⟨[], key ++ ':' :: (value ++ rest)⟩)
      (.literal ['@'] _) (head?_reaches_key hkey hne hvalue hrest) fun cuts r h _ => by
        obtain ⟨heq, rfl⟩ := matches_literal_iff.1 h
        exact ⟨rfl, (List.cons.inj heq).2.symm⟩
    rw [first?, show '@' :: key ++ ':' :: value ++ rest =
      ['@'] ++ (key ++ ':' :: (value ++ rest)) by simp]
    exact congrArg (Option.map _) hat
  rw [tagPairs, captures_eq_cons (by simp) rfl rfl hfirst, List.filterMap_cons]
  simp [Cut.text_append, tagPairs]

theorem tagPairs_joinWith {α : Type} (key value : α → Text) {tags : List α}
    (hkey : ∀ a ∈ tags, key a ≠ [] ∧ ∀ c ∈ key a, c ≠ ':' ∧ c ≠ '@')
    (hvalue : ∀ a ∈ tags, '@' ∉ value a) :
    tagPairs (joinWith "\n".toList (tags.map fun a => '@' :: key a ++ ':' :: value a)) =
      tags.map fun a => ((words (key a)).headD [], squeeze (value a)) := by
  induction tags with
  | nil => simp [tagPairs]
  | cons a tags ih =>
    rw [List.forall_mem_cons] at hkey hvalue
    by_cases hnil : tags = []
    · have hlast : ∀ c ∈ ([] : Text).head?, c = '@' := by simp
      simpa [hnil, tagPairs] using tagPairs_append hkey.1.2 hkey.1.1 hvalue.1 hlast
    · have hfeed : '@' ∉ value a ++ ['\n'] := by simpa using hvalue.1
      have hhead : ∀ c ∈ (joinWith "\n".toList
          (tags.map fun a => '@' :: key a ++ ':' :: value a)).head?, c = '@' := by
        obtain ⟨b, tags, rfl⟩ := List.exists_cons_of_ne_nil hnil
        cases tags <;> simp [joinWith]
      rw [List.map_cons, joinWith_cons _ _ (by simpa using hnil)]
      have := tagPairs_append hkey.1.2 hkey.1.1 hfeed hhead
      rw [ih hkey.2 hvalue.2, squeeze_concat_of_blank isBlank_lineFeed] at this
      rw [List.map_cons, ← this]
      simp

end HeaderApi.Docstring
