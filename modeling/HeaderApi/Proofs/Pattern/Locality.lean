import HeaderApi.Pattern.Match
import HeaderApi.Pattern.Search
import Mathlib.Data.List.Basic

/-!
# Searching two texts laid end to end

A search in `t ++ y` splits at the seam when no match that starts in `t` can look behind it.
`LocalAt p t y` says so for the matches at the start of `t`, as an equation between lists of
reaches: the order of preference has to survive, not only the set of matches.

Two shapes of patterns are local for a reason that can be read off them: a pattern that avoids a
character of `t` cannot get past it (`localAt_of_avoids`), and one that avoids it up to its last
character may take it but stops there (`localAt_of_endsWith`).
-/

namespace HeaderApi

namespace Cut

/-- The same stretch of a text that goes on with `y`. -/
def extend (c : Cut) (y : Text) : Cut := ⟨c.start ++ y, c.stop ++ y⟩

@[simp] theorem start_extend (c : Cut) (y : Text) : (c.extend y).start = c.start ++ y := rfl

@[simp] theorem length_extend (c : Cut) (y : Text) : (c.extend y).length = c.length := by
  simp only [length, extend, List.length_append]
  omega

@[simp] theorem text_extend (c : Cut) (y : Text) : (c.extend y).text = c.text := by
  rw [text, text, length_extend, start_extend]
  exact List.take_append_of_le_length (Nat.sub_le _ _)

end Cut

namespace Pattern

def Reach.extend (r : Reach) (y : Text) : Reach := ⟨r.cuts.map (·.extend y), r.rest ++ y⟩

def Occurrence.extend (o : Occurrence) (y : Text) : Occurrence :=
  ⟨o.whole.extend y, o.cuts.map (·.extend y)⟩

variable {p q : Pattern} {c : Char} {t y rest : Text} {cuts : List Cut}

/-- What stands behind `t` does not take part in the matches at the start of `t`. -/
def LocalAt (p : Pattern) (t y : Text) : Prop :=
  p.reaches (t ++ y) = (p.reaches t).map (·.extend y)

/-! ## How locality composes -/

theorem LocalAt.optional (h : LocalAt p t y) : LocalAt (.optional p) t y := by
  unfold LocalAt at h ⊢
  simp [reaches, h, Reach.extend]

theorem LocalAt.either (hp : LocalAt p t y) (hq : LocalAt q t y) : LocalAt (.either p q) t y := by
  unfold LocalAt at hp hq ⊢
  simp [reaches, hp, hq]

theorem LocalAt.capture (h : LocalAt p t y) : LocalAt (.capture p) t y := by
  unfold LocalAt at h ⊢
  simp [reaches, h, Reach.extend, Cut.extend, Function.comp_def]

theorem LocalAt.andThen (hp : LocalAt p t y)
    (hq : ∀ cuts rest, Matches p t cuts rest → LocalAt q rest y) :
    LocalAt (.andThen p q) t y := by
  unfold LocalAt at hp hq ⊢
  simp only [reaches, hp, List.flatMap_map, List.map_flatMap, List.map_map]
  refine List.flatMap_congr fun a ha => ?_
  rw [show (a.extend y).rest = a.rest ++ y from rfl, hq _ _ (matches_of_mem_reaches ha),
    List.map_map]
  simp [Function.comp_def, Reach.extend]

/-! ## Patterns that avoid a character -/

/-- Whether no match of the pattern can take the character. -/
def avoids (c : Char) : Pattern → Bool
  | .literal word => c ∉ word
  | .one allowed | .many allowed => !allowed c
  | .optional p | .capture p => p.avoids c
  | .either p q | .andThen p q => p.avoids c && q.avoids c

/-- Whether a match takes the character at its very end and nowhere else. -/
def endsWith (c : Char) : Pattern → Bool
  | .literal word => word = [c]
  | .andThen p q => p.avoids c && q.endsWith c
  | _ => false

theorem Matches.exists_append_of_avoids (h : Matches p t cuts rest) (hp : p.avoids c = true) :
    ∃ s, c ∉ s ∧ t = s ++ rest := by
  induction h with
  | literal word rest => exact ⟨word, by simpa [avoids] using hp, rfl⟩
  | @one allowed d rest hd =>
    refine ⟨[d], ?_, rfl⟩
    rw [List.mem_singleton]
    rintro rfl
    simp [avoids, hd] at hp
  | @many allowed run rest hrun =>
    refine ⟨run, fun hc => ?_, rfl⟩
    simp [avoids, hrun c hc] at hp
  | present _ ih => exact ih hp
  | absent _ t => exact ⟨[], by simp, rfl⟩
  | left _ _ ih => exact ih (by simp_all [avoids])
  | right _ _ ih => exact ih (by simp_all [avoids])
  | andThen _ _ ih ih' =>
    obtain ⟨s, hs, rfl⟩ := ih (by simp_all [avoids])
    obtain ⟨s', hs', rfl⟩ := ih' (by simp_all [avoids])
    exact ⟨s ++ s', by simp [hs, hs'], by simp⟩
  | capture _ ih => exact ih hp

theorem Matches.mem_rest_of_avoids (h : Matches p t cuts rest) (hp : p.avoids c = true)
    (hc : c ∈ t) : c ∈ rest := by
  obtain ⟨s, hs, rfl⟩ := h.exists_append_of_avoids hp
  simpa [hs] using hc

theorem after?_append {word : Text} (hc : c ∈ t) (hw : c ∉ word) :
    Text.after? word (t ++ y) = (Text.after? word t).map (· ++ y) := by
  induction word generalizing t with
  | nil => simp
  | cons a word ih =>
    cases t with
    | nil => simp at hc
    | cons d t =>
      rw [List.mem_cons, not_or] at hw
      obtain ⟨hca, hw⟩ := hw
      by_cases h : a = d
      · subst h
        have hct : c ∈ t := (List.mem_cons.1 hc).resolve_left hca
        simpa [Text.after?] using ih hct hw
      · simp [Text.after?, h]

theorem runRests_append {allowed : Char → Bool} (hc : c ∈ t) (ha : allowed c = false)
    (shorter : List Text) :
    runRests allowed (t ++ y) (shorter.map (· ++ y)) =
      (runRests allowed t shorter).map (· ++ y) := by
  induction t generalizing shorter with
  | nil => simp at hc
  | cons d t ih =>
    by_cases hd : allowed d = true
    · have hct : c ∈ t := (List.mem_cons.1 hc).resolve_left (by rintro rfl; simp_all)
      simpa [runRests, hd] using ih hct ((d :: t) :: shorter)
    · simp [runRests, hd]

/-- A pattern cannot get past a character that it avoids. -/
theorem localAt_of_avoids (hp : p.avoids c = true) (hc : c ∈ t) (y : Text) : LocalAt p t y := by
  induction p generalizing t with
  | literal word =>
    have hw : c ∉ word := by simpa [avoids] using hp
    rw [LocalAt, reaches, reaches, after?_append hc hw]
    cases Text.after? word t <;> simp [Reach.extend]
  | one allowed =>
    cases t with
    | nil => simp at hc
    | cons d t =>
      by_cases hd : allowed d = true <;> simp [LocalAt, reaches, hd, Reach.extend]
  | many allowed =>
    have ha : allowed c = false := by simpa [avoids] using hp
    have h := runRests_append (y := y) hc ha []
    rw [List.map_nil] at h
    simp [LocalAt, reaches, h, Reach.extend, Function.comp_def]
  | optional p ih => exact (ih hp hc).optional
  | either p q ihp ihq =>
    rw [avoids, Bool.and_eq_true] at hp
    exact (ihp hp.1 hc).either (ihq hp.2 hc)
  | andThen p q ihp ihq =>
    rw [avoids, Bool.and_eq_true] at hp
    exact (ihp hp.1 hc).andThen fun _ _ h => ihq hp.2 (h.mem_rest_of_avoids hp.1 hc)
  | capture p ih => exact (ih hp hc).capture

theorem localAt_literal_singleton (d : Char) (ht : t ≠ []) (y : Text) :
    LocalAt (.literal [d]) t y := by
  cases t with
  | nil => exact absurd rfl ht
  | cons e t => by_cases h : d = e <;> simp [LocalAt, reaches, Text.after?, h, Reach.extend]

/-- A pattern that takes a character only at its end stops there. -/
theorem localAt_of_endsWith (hp : p.endsWith c = true) (hc : c ∈ t) (y : Text) :
    LocalAt p t y := by
  induction p generalizing t with
  | literal word =>
    obtain rfl : word = [c] := by simpa [endsWith] using hp
    exact localAt_literal_singleton c (List.ne_nil_of_mem hc) y
  | andThen p q _ ihq =>
    rw [endsWith, Bool.and_eq_true] at hp
    exact (localAt_of_avoids hp.1 hc y).andThen fun _ _ h =>
      ihq hp.2 (h.mem_rest_of_avoids hp.1 hc)
  | _ => simp [endsWith] at hp

/-! ## Searches -/

theorem first?_append (h : LocalAt p t y) :
    p.first? (t ++ y) = (p.first? t).map (·.extend y) := by
  rw [first?, first?, h, List.head?_map]
  cases (p.reaches t).head? <;> simp [Occurrence.extend, Reach.extend, Cut.extend]

theorem length_whole_le_of_first? {o : Occurrence} (h : p.first? t = some o) :
    o.whole.length ≤ t.length := by
  obtain ⟨r, -, rfl⟩ := Option.map_eq_some_iff.1 h
  exact Nat.sub_le _ _

/-- The character in front of the rest of a text. -/
theorem getLast?_cons_or (c : Char) (t : Text) (before : Option Char) :
    (c :: t).getLast?.or before = t.getLast?.or (some c) := by
  rw [List.getLast?_cons]
  cases t.getLast? <;> rfl

theorem occurrencesFrom_congr {anchor : Anchor} {before before' : Option Char}
    (h : anchor before = anchor before') (t : Text) :
    occurrencesFrom p anchor 0 before t = occurrencesFrom p anchor 0 before' t := by
  cases t <;> simp [occurrencesFrom, h]

theorem occurrencesFrom_append {anchor : Anchor}
    (h : ∀ s, s ≠ [] → s <:+ t → LocalAt p s y) {busy : Nat} (hbusy : busy ≤ t.length)
    (before : Option Char) :
    occurrencesFrom p anchor busy before (t ++ y) =
      (occurrencesFrom p anchor busy before t).map (·.extend y) ++
        occurrencesFrom p anchor 0 (t.getLast?.or before) y := by
  induction t generalizing busy before with
  | nil =>
    obtain rfl : busy = 0 := by simpa using hbusy
    simp [occurrencesFrom]
  | cons d t ih =>
    have ih' {busy : Nat} (hbusy : busy ≤ t.length) :=
      ih (fun s hs hst => h s hs (hst.trans (List.suffix_cons d t))) hbusy (some d)
    rw [getLast?_cons_or]
    cases busy with
    | succ busy =>
      have hb : busy ≤ t.length := by simpa using hbusy
      simp only [List.cons_append, occurrencesFrom]
      exact ih' hb
    | zero =>
      simp only [List.cons_append, occurrencesFrom]
      rw [← List.cons_append, first?_append (h (d :: t) (by simp) List.suffix_rfl)]
      by_cases hanchor : anchor before = true
      · cases hfirst : p.first? (d :: t) with
        | none => simpa [hanchor] using ih' (Nat.zero_le _)
        | some o =>
          -- The match ends in front of the seam, and so the search is free again at the seam.
          have hlen : o.whole.length - 1 ≤ t.length := by
            have := length_whole_le_of_first? hfirst
            simp only [List.length_cons] at this
            omega
          simpa [hanchor, Occurrence.extend] using ih' hlen
      · simpa [hanchor] using ih' (Nat.zero_le _)

/-- At a seam where matches may start as at the start of a text, and that no match gets past, a
search is two searches. -/
theorem captures_append {anchor : Anchor} (h : ∀ s, s ≠ [] → s <:+ t → LocalAt p s y)
    (hseam : anchor t.getLast? = anchor none) :
    p.captures anchor (t ++ y) =
      (p.captures anchor t).map (List.map (·.extend y)) ++ p.captures anchor y := by
  rw [captures, occurrences, occurrencesFrom_append h (Nat.zero_le _) none, Option.or_none,
    occurrencesFrom_congr hseam]
  simp [captures, occurrences, Occurrence.extend, Function.comp_def]

end Pattern

end HeaderApi
