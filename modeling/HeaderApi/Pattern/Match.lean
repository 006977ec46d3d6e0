import HeaderApi.Pattern.Basic

/-!
# What patterns match

`Matches p t cuts rest` says, without any order of preference, that `p` matches the start of `t`,
captures `cuts` and leaves `rest`.  Main statement: `reaches` lists all matches and nothing else
(`mem_reaches_iff`).
-/

namespace HeaderApi.Pattern

inductive Matches : Pattern → Text → List Cut → Text → Prop where
  | literal (word rest : Text) : Matches (.literal word) (word ++ rest) [] rest
  | one {allowed : Char → Bool} {c : Char} (rest : Text) (h : allowed c = true) :
      Matches (.one allowed) (c :: rest) [] rest
  | many {allowed : Char → Bool} {run : Text} (rest : Text) (h : ∀ c ∈ run, allowed c = true) :
      Matches (.many allowed) (run ++ rest) [] rest
  | present {p : Pattern} {t rest : Text} {cuts : List Cut} (h : Matches p t cuts rest) :
      Matches (.optional p) t cuts rest
  | absent (p : Pattern) (t : Text) : Matches (.optional p) t [] t
  | left {p : Pattern} (q : Pattern) {t rest : Text} {cuts : List Cut}
      (h : Matches p t cuts rest) : Matches (.either p q) t cuts rest
  | right (p : Pattern) {q : Pattern} {t rest : Text} {cuts : List Cut}
      (h : Matches q t cuts rest) : Matches (.either p q) t cuts rest
  | andThen {p q : Pattern} {t mid rest : Text} {cuts cuts' : List Cut}
      (h : Matches p t cuts mid) (h' : Matches q mid cuts' rest) :
      Matches (.andThen p q) t (cuts ++ cuts') rest
  | capture {p : Pattern} {t rest : Text} {cuts : List Cut} (h : Matches p t cuts rest) :
      Matches (.capture p) t (⟨t, rest⟩ :: cuts) rest

theorem mem_runRests_iff {allowed : Char → Bool} {t rest : Text} {shorter : List Text} :
    rest ∈ runRests allowed t shorter ↔
      rest ∈ shorter ∨ ∃ run, (∀ c ∈ run, allowed c = true) ∧ t = run ++ rest := by
  induction t generalizing shorter with
  | nil =>
    simp only [runRests, List.mem_cons]
    constructor
    · rintro (rfl | h)
      · exact .inr ⟨[], by simp, rfl⟩
      · exact .inl h
    · rintro (h | ⟨run, -, h⟩)
      · exact .inr h
      · exact .inl (List.append_eq_nil_iff.1 h.symm).2
  | cons c t ih =>
    by_cases hc : allowed c = true
    · simp only [runRests, hc, if_true, ih, List.mem_cons]
      constructor
      · rintro ((rfl | h) | ⟨run, hrun, rfl⟩)
        · exact .inr ⟨[], by simp, rfl⟩
        · exact .inl h
        · exact .inr ⟨c :: run, by simpa [hc] using hrun, rfl⟩
      · rintro (h | ⟨run, hrun, h⟩)
        · exact .inl (.inr h)
        · cases run with
          | nil => exact .inl (.inl h.symm)
          | cons d run =>
            obtain ⟨rfl, rfl⟩ := List.cons.inj h
            exact .inr ⟨run, fun e he => hrun e (List.mem_cons_of_mem _ he), rfl⟩
    · rw [runRests, if_neg hc, List.mem_cons]
      constructor
      · rintro (rfl | h)
        · exact .inr ⟨[], by simp, rfl⟩
        · exact .inl h
      · rintro (h | ⟨run, hrun, h⟩)
        · exact .inr h
        · cases run with
          | nil => exact .inl h.symm
          | cons d run =>
            obtain ⟨rfl, -⟩ := List.cons.inj h
            exact absurd (hrun c List.mem_cons_self) hc

theorem matches_of_mem_reaches {p : Pattern} {t : Text} {r : Reach} (h : r ∈ p.reaches t) :
    Matches p t r.cuts r.rest := by
  induction p generalizing t r with
  | literal word =>
    simp only [reaches, Option.mem_toList, Option.map_eq_some_iff, Text.after?_eq_some_iff] at h
    obtain ⟨rest, rfl, rfl⟩ := h
    exact .literal word rest
  | one allowed =>
    cases t with
    | nil => simp [reaches] at h
    | cons c t =>
      by_cases hc : allowed c = true
      · simp only [reaches, hc, if_true, List.mem_singleton] at h
        exact h ▸ .one t hc
      · simp [reaches, hc] at h
  | many allowed =>
    simp only [reaches, List.mem_map, mem_runRests_iff, List.not_mem_nil, false_or] at h
    obtain ⟨rest, ⟨run, hrun, rfl⟩, rfl⟩ := h
    exact .many rest hrun
  | optional p ih =>
    simp only [reaches, List.mem_append, List.mem_singleton] at h
    rcases h with h | rfl
    · exact .present (ih h)
    · exact .absent p t
  | either p q ihp ihq =>
    simp only [reaches, List.mem_append] at h
    rcases h with h | h
    · exact .left q (ihp h)
    · exact .right p (ihq h)
  | andThen p q ihp ihq =>
    simp only [reaches, List.mem_flatMap, List.mem_map] at h
    obtain ⟨a, ha, b, hb, rfl⟩ := h
    exact .andThen (ihp ha) (ihq hb)
  | capture p ih =>
    simp only [reaches, List.mem_map] at h
    obtain ⟨a, ha, rfl⟩ := h
    exact .capture (ih ha)

theorem Matches.mem_reaches {p : Pattern} {t rest : Text} {cuts : List Cut}
    (h : Matches p t cuts rest) : ⟨cuts, rest⟩ ∈ p.reaches t := by
  induction h with
  | literal word rest => simp [reaches, Text.after?_eq_some_iff]
  | one rest h => simp [reaches, h]
  | many rest h =>
    simp only [reaches, List.mem_map, mem_runRests_iff]
    exact ⟨rest, .inr ⟨_, h, rfl⟩, rfl⟩
  | present _ ih => simp [reaches, ih]
  | absent => simp [reaches]
  | left _ _ ih => simp [reaches, ih]
  | right _ _ ih => simp [reaches, ih]
  | andThen _ _ ih ih' =>
    simp only [reaches, List.mem_flatMap, List.mem_map]
    exact ⟨_, ih, _, ih', rfl⟩
  | capture _ ih =>
    simp only [reaches, List.mem_map]
    exact ⟨_, ih, rfl⟩

theorem mem_reaches_iff {p : Pattern} {t : Text} {r : Reach} :
    r ∈ p.reaches t ↔ Matches p t r.cuts r.rest :=
  ⟨matches_of_mem_reaches, Matches.mem_reaches⟩

/-- A match leaves a suffix of the text. -/
theorem Matches.exists_eq_append {p : Pattern} {t rest : Text} {cuts : List Cut}
    (h : Matches p t cuts rest) : ∃ s, t = s ++ rest := by
  induction h with
  | literal word rest => exact ⟨word, rfl⟩
  | @one _ c rest _ => exact ⟨[c], rfl⟩
  | @many _ run rest _ => exact ⟨run, rfl⟩
  | present _ ih => exact ih
  | absent _ t => exact ⟨[], rfl⟩
  | left _ _ ih => exact ih
  | right _ _ ih => exact ih
  | andThen _ _ ih ih' =>
    obtain ⟨s, rfl⟩ := ih
    obtain ⟨s', rfl⟩ := ih'
    exact ⟨s ++ s', by simp⟩
  | capture _ ih => exact ih

end HeaderApi.Pattern
