import HeaderApi.Pattern.Match

/-!
# What a match says about the text

One equivalence for each form of pattern, to be rewritten with.
-/

namespace HeaderApi.Pattern

variable {p q : Pattern} {allowed : Char → Bool} {word t rest : Text} {cuts : List Cut}

theorem matches_literal_iff :
    Matches (.literal word) t cuts rest ↔ t = word ++ rest ∧ cuts = [] := by
  constructor
  · rintro ⟨⟩
    exact ⟨rfl, rfl⟩
  · rintro ⟨rfl, rfl⟩
    exact .literal word rest

theorem matches_one_iff :
    Matches (.one allowed) t cuts rest ↔ ∃ c, allowed c = true ∧ t = c :: rest ∧ cuts = [] := by
  constructor
  · rintro (_ | ⟨_, hc⟩)
    exact ⟨_, hc, rfl, rfl⟩
  · rintro ⟨c, hc, rfl, rfl⟩
    exact .one rest hc

theorem matches_many_iff :
    Matches (.many allowed) t cuts rest ↔
      ∃ run, (∀ c ∈ run, allowed c = true) ∧ t = run ++ rest ∧ cuts = [] := by
  constructor
  · rintro (_ | _ | ⟨_, hrun⟩)
    exact ⟨_, hrun, rfl, rfl⟩
  · rintro ⟨run, hrun, rfl, rfl⟩
    exact .many rest hrun

theorem matches_andThen_iff :
    Matches (.andThen p q) t cuts rest ↔
      ∃ mid c c', Matches p t c mid ∧ Matches q mid c' rest ∧ cuts = c ++ c' := by
  constructor
  · intro h
    cases h with
    | andThen h h' => exact ⟨_, _, _, h, h', rfl⟩
  · rintro ⟨mid, c, c', h, h', rfl⟩
    exact .andThen h h'

theorem matches_capture_iff :
    Matches (.capture p) t cuts rest ↔ ∃ c, Matches p t c rest ∧ cuts = ⟨t, rest⟩ :: c := by
  constructor
  · intro h
    cases h with
    | capture h => exact ⟨_, h, rfl⟩
  · rintro ⟨c, h, rfl⟩
    exact .capture h

theorem matches_many1_iff :
    Matches (.many1 allowed) t cuts rest ↔
      ∃ run, run ≠ [] ∧ (∀ c ∈ run, allowed c = true) ∧ t = run ++ rest ∧ cuts = [] := by
  rw [many1, matches_andThen_iff]
  constructor
  · rintro ⟨mid, c, c', h, h', rfl⟩
    obtain ⟨d, hd, rfl, rfl⟩ := matches_one_iff.1 h
    obtain ⟨run, hrun, rfl, rfl⟩ := matches_many_iff.1 h'
    exact ⟨d :: run, by simp, List.forall_mem_cons.2 ⟨hd, hrun⟩, rfl, rfl⟩
  · rintro ⟨run, hne, hrun, rfl, rfl⟩
    obtain ⟨d, run, rfl⟩ := List.exists_cons_of_ne_nil hne
    rw [List.forall_mem_cons] at hrun
    exact ⟨_, _, _, .one _ hrun.1, .many rest hrun.2, rfl⟩

/-- A pattern that starts with a literal fails on a text that does not. -/
theorem reaches_andThen_literal_eq_nil (h : ¬ word <+: t) :
    (andThen (.literal word) q).reaches t = [] := by
  refine List.eq_nil_iff_forall_not_mem.2 fun r hr => ?_
  obtain ⟨mid, _, _, hlit, -⟩ := matches_andThen_iff.1 (matches_of_mem_reaches hr)
  exact h ⟨mid, (matches_literal_iff.1 hlit).1.symm⟩

end HeaderApi.Pattern
