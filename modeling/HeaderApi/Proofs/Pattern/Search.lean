import HeaderApi.Proofs.Pattern.Locality
import Mathlib.Data.List.Basic

/-!
# What a search finds

An occurrence is a match at a place where matches may start (`exists_matches_of_mem_captures`).  So
a text in which the pattern matches at no such place holds no occurrence, and a text that is itself
the only match at its start is its only occurrence.
-/

namespace HeaderApi.Pattern

variable {p q : Pattern} {anchor : Anchor} {t rest : Text} {cuts : List Cut}

theorem first?_eq_none (h : ∀ cuts rest, ¬ Matches p t cuts rest) : p.first? t = none := by
  rw [first?, List.head?_eq_none_iff.2, Option.map_none]
  exact List.eq_nil_iff_forall_not_mem.2 fun r hr => h _ _ (matches_of_mem_reaches hr)

theorem matches_of_first? {o : Occurrence} (h : p.first? t = some o) :
    o.whole.start = t ∧ Matches p t o.cuts o.whole.stop := by
  obtain ⟨r, hr, rfl⟩ := Option.map_eq_some_iff.1 h
  exact ⟨rfl, matches_of_mem_reaches (List.mem_of_head? hr)⟩

theorem exists_first? (h : Matches p t cuts rest) : ∃ o, p.first? t = some o := by
  rw [first?]
  cases hreach : p.reaches t with
  | nil => exact absurd (hreach ▸ h.mem_reaches) List.not_mem_nil
  | cons r rs => exact ⟨_, rfl⟩

/-- An occurrence is a match at a place where matches may start. -/
theorem matches_of_mem_occurrencesFrom {busy : Nat} {before : Option Char} {o : Occurrence}
    (h : o ∈ occurrencesFrom p anchor busy before t) :
    ∃ a, t = a ++ o.whole.start ∧ anchor (a.getLast?.or before) = true ∧
      Matches p o.whole.start o.cuts o.whole.stop := by
  have behind {c : Char} {t : Text} (before : Option Char)
      (ih : ∃ a, t = a ++ o.whole.start ∧ anchor (a.getLast?.or (some c)) = true ∧
        Matches p o.whole.start o.cuts o.whole.stop) :
      ∃ a, c :: t = a ++ o.whole.start ∧ anchor (a.getLast?.or before) = true ∧
        Matches p o.whole.start o.cuts o.whole.stop := by
    obtain ⟨a, rfl, ha, hm⟩ := ih
    exact ⟨c :: a, rfl, by rwa [getLast?_cons_or], hm⟩
  induction t generalizing busy before with
  | nil => simp [occurrencesFrom] at h
  | cons c t ih =>
    cases busy with
    | succ busy => exact behind before (ih h)
    | zero =>
      rw [occurrencesFrom] at h
      by_cases hanchor : anchor before = true
      · rw [if_pos hanchor] at h
        cases hfirst : p.first? (c :: t) with
        | none => exact behind before (ih (by simpa [hfirst] using h))
        | some o' =>
          rw [hfirst] at h
          rcases List.mem_cons.1 h with rfl | h
          · obtain ⟨hstart, hm⟩ := matches_of_first? hfirst
            exact ⟨[], hstart.symm, by simpa using hanchor, hstart.symm ▸ hm⟩
          · exact behind before (ih h)
      · exact behind before (ih (by simpa [hanchor] using h))

/-- What a search captures is captured by a match at a place where matches may start. -/
theorem exists_matches_of_mem_captures (h : cuts ∈ p.captures anchor t) :
    ∃ a s rest, t = a ++ s ∧ anchor a.getLast? = true ∧ Matches p s cuts rest := by
  obtain ⟨o, ho, rfl⟩ := List.mem_map.1 h
  obtain ⟨a, ht, ha, hm⟩ := matches_of_mem_occurrencesFrom ho
  exact ⟨a, _, _, ht, by simpa using ha, hm⟩

theorem captures_eq_nil (h : ∀ a s, t = a ++ s → anchor a.getLast? = true →
    ∀ cuts rest, ¬ Matches p s cuts rest) : p.captures anchor t = [] := by
  refine List.eq_nil_iff_forall_not_mem.2 fun cuts hc => ?_
  obtain ⟨a, s, rest, ht, ha, hm⟩ := exists_matches_of_mem_captures hc
  exact h a s ht ha cuts rest hm

/-- The search goes on behind a match. -/
theorem occurrencesFrom_length (s : Text) (before : Option Char) (rest : Text) :
    occurrencesFrom p anchor s.length before (s ++ rest) =
      occurrencesFrom p anchor 0 (s.getLast?.or before) rest := by
  induction s generalizing before with
  | nil => simp
  | cons c s ih =>
    rw [List.length_cons, List.cons_append, occurrencesFrom, ih, getLast?_cons_or]

theorem occurrencesFrom_eq_cons {s : Text} {before : Option Char} {o : Occurrence} (hne : s ≠ [])
    (hanchor : anchor before = true) (h : p.first? (s ++ rest) = some o)
    (hstop : o.whole.stop = rest) :
    occurrencesFrom p anchor 0 before (s ++ rest) =
      o :: occurrencesFrom p anchor 0 (s.getLast?.or before) rest := by
  obtain ⟨c, s, rfl⟩ := List.exists_cons_of_ne_nil hne
  have hlen : o.whole.length - 1 = s.length := by
    simp only [Cut.length, (matches_of_first? h).1, hstop, List.length_append, List.length_cons]
    omega
  rw [List.cons_append] at h ⊢
  rw [occurrencesFrom, if_pos hanchor, h]
  simp only
  rw [hlen, occurrencesFrom_length, getLast?_cons_or]

theorem captures_eq_cons {s : Text} (hne : s ≠ []) (hanchor : anchor none = true)
    (hseam : anchor s.getLast? = anchor none)
    (h : p.first? (s ++ rest) = some ⟨⟨s ++ rest, rest⟩, cuts⟩) :
    p.captures anchor (s ++ rest) = cuts :: p.captures anchor rest := by
  rw [captures, occurrences, occurrencesFrom_eq_cons hne hanchor h rfl, Option.or_none,
    occurrencesFrom_congr hseam, List.map_cons, captures, occurrences]

theorem occurrencesFrom_cons {before : Option Char} {c : Char}
    (h : anchor before = true → p.first? (c :: t) = none) :
    occurrencesFrom p anchor 0 before (c :: t) = occurrencesFrom p anchor 0 (some c) t := by
  have hfirst : (if anchor before then p.first? (c :: t) else none) = none := by
    split
    next ha => exact h ha
    next => rfl
  rw [occurrencesFrom, hfirst]

/-- The search passes by places at which nothing matches. -/
theorem occurrencesFrom_skip {a : Text} {before : Option Char}
    (h : ∀ b c, a = b ++ c → c ≠ [] → anchor (b.getLast?.or before) = true →
      p.first? (c ++ t) = none) :
    occurrencesFrom p anchor 0 before (a ++ t) =
      occurrencesFrom p anchor 0 (a.getLast?.or before) t := by
  induction a generalizing before with
  | nil => simp
  | cons d a ih =>
    have hhead : anchor before = true → p.first? (d :: (a ++ t)) = none :=
      h [] (d :: a) rfl (by simp)
    have htail : occurrencesFrom p anchor 0 (some d) (a ++ t) = _ :=
      ih fun b c hbc hc hb => h (d :: b) c (by rw [hbc, List.cons_append]) hc
        (by rwa [getLast?_cons_or])
    rw [List.cons_append, occurrencesFrom_cons hhead, getLast?_cons_or, htail]

/-- A text in which nothing matches, not even together with what follows it. -/
theorem captures_skip {a : Text}
    (h : ∀ b c, a = b ++ c → c ≠ [] → ∀ cuts rest, ¬ Matches p (c ++ t) cuts rest) :
    p.captures anywhere (a ++ t) = p.captures anywhere t := by
  have hanywhere : anywhere (a.getLast?.or none) = anywhere none := rfl
  have hskip : p.occurrences anywhere (a ++ t) = p.occurrences anywhere t := by
    rw [occurrences, occurrencesFrom_skip fun b c hbc hc _ => first?_eq_none (h b c hbc hc),
      occurrencesFrom_congr hanywhere, occurrences]
  rw [captures, hskip, captures]

/-- A text in which all matches start at one place holds one occurrence. -/
theorem exists_occurrences_eq_singleton {a s : Text} (hs : s ≠ [])
    (ha : anchor a.getLast? = true) (hm : Matches p s cuts rest)
    (honly : ∀ b s' cuts' rest', a ++ s = b ++ s' → anchor b.getLast? = true →
      Matches p s' cuts' rest' → b = a) :
    ∃ o, p.occurrences anchor (a ++ s) = [o] ∧ Matches p s o.cuts o.whole.stop := by
  have hskip : p.occurrences anchor (a ++ s) = occurrencesFrom p anchor 0 a.getLast? s := by
    rw [occurrences, occurrencesFrom_skip, Option.or_none]
    intro b c hbc hc hb
    refine first?_eq_none fun cuts' rest' hm' => hc ?_
    have := honly b (c ++ s) cuts' rest' (by rw [hbc, List.append_assoc]) (by simpa using hb) hm'
    simpa [this] using hbc
  obtain ⟨c, t, rfl⟩ := List.exists_cons_of_ne_nil hs
  obtain ⟨o, ho⟩ := exists_first? hm
  refine ⟨o, ?_, (matches_of_first? ho).2⟩
  rw [hskip, occurrencesFrom, if_pos ha, ho]
  refine congrArg (o :: ·) (List.eq_nil_iff_forall_not_mem.2 fun o' ho' => ?_)
  -- An occurrence behind the first one would start behind it.
  obtain ⟨b, hb, hanchor, hm''⟩ := matches_of_mem_occurrencesFrom ho'
  have hplace : a ++ c :: b = a := by
    refine honly _ o'.whole.start o'.cuts o'.whole.stop (by simp [hb]) ?_ hm''
    have hlast : (c :: b).getLast? = b.getLast?.or (some c) := by
      rw [← getLast?_cons_or c b none, Option.or_none]
    rw [List.getLast?_append, hlast]
    revert hanchor
    cases b.getLast? <;> exact id
  exact absurd hplace (by simp)

@[simp] theorem captures_nil (p : Pattern) (anchor : Anchor) : p.captures anchor [] = [] := by
  simp [captures, occurrences, occurrencesFrom]

/-! ## The preferred match -/

theorem exists_runRests_eq {allowed : Char → Bool} {run : Text}
    (hrun : ∀ c ∈ run, allowed c = true) (hrest : ∀ c ∈ rest.head?, allowed c = false)
    (shorter : List Text) : ∃ rests, runRests allowed (run ++ rest) shorter = rest :: rests := by
  induction run generalizing shorter with
  | nil => cases rest <;> simp_all [runRests]
  | cons c run ih =>
    rw [List.forall_mem_cons] at hrun
    rw [List.cons_append, runRests, if_pos hrun.1]
    exact ih hrun.2 _

/-- Repetition takes all that it can first. -/
theorem head?_reaches_many {allowed : Char → Bool} {run : Text}
    (hrun : ∀ c ∈ run, allowed c = true) (hrest : ∀ c ∈ rest.head?, allowed c = false) :
    ((many allowed).reaches (run ++ rest)).head? = some ⟨[], rest⟩ := by
  obtain ⟨rests, h⟩ := exists_runRests_eq hrun hrest []
  rw [reaches, h]
  rfl

theorem head?_reaches_capture {b : Reach} (h : (p.reaches t).head? = some b) :
    ((capture p).reaches t).head? = some ⟨⟨t, b.rest⟩ :: b.cuts, b.rest⟩ := by
  rw [reaches, List.head?_map, h, Option.map_some]

/-- When a pattern can go on from one place only, the preferred match takes it there. -/
theorem head?_reaches_andThen {a b : Reach} (ha : Matches p t a.cuts a.rest)
    (hb : (q.reaches a.rest).head? = some b)
    (honly : ∀ cuts rest, Matches p t cuts rest → (q.reaches rest).head?.isSome →
      cuts = a.cuts ∧ rest = a.rest) :
    ((andThen p q).reaches t).head? = some ⟨a.cuts ++ b.cuts, b.rest⟩ := by
  rw [reaches, List.head?_flatMap]
  simp only [List.head?_map]
  have hall : ∀ a' ∈ p.reaches t, a' = a ∨ (q.reaches a'.rest).head? = none := by
    intro a' ha'
    rw [← Option.not_isSome_iff_eq_none, or_iff_not_imp_right, not_not]
    intro hsome
    obtain ⟨hcuts, hrest⟩ := honly _ _ (matches_of_mem_reaches ha') hsome
    cases a
    cases a'
    simp_all
  have hmem := ha.mem_reaches
  revert hall hmem
  generalize p.reaches t = l
  intro hall hmem
  induction l with
  | nil => simp at hmem
  | cons a' l ih =>
    rw [List.forall_mem_cons] at hall
    rcases hall.1 with rfl | hnone
    · simp [hb]
    · rw [List.findSome?_cons, hnone]
      refine ih hall.2 ((List.mem_cons.1 hmem).resolve_left ?_)
      rintro rfl
      simp [hb] at hnone

/-- A cut begins in the text that is matched. -/
theorem Matches.start_suffix (h : Matches p t cuts rest) {c : Cut} (hc : c ∈ cuts) :
    c.start <:+ t := by
  induction h with
  | literal | one | many | absent => simp at hc
  | present _ ih => exact ih hc
  | left _ _ ih => exact ih hc
  | right _ _ ih => exact ih hc
  | andThen h _ ih ih' =>
    rcases List.mem_append.1 hc with hc | hc
    · exact ih hc
    · obtain ⟨s, rfl⟩ := h.exists_eq_append
      exact (ih' hc).trans (List.suffix_append _ _)
  | capture _ ih =>
    rcases List.mem_cons.1 hc with rfl | hc
    · exact List.suffix_rfl
    · exact ih hc

end HeaderApi.Pattern
