import HeaderApi.Glob.Pattern

/-!
# What glob patterns match

`Matches ts t` says that a text is what tokens stand for.  Main statement: `matchesTokens` decides it
(`matchesTokens_iff`).  It goes through the tokens once and keeps a list of all that may be left of
the text, the longest first, of which each is the end of those before it.
-/

namespace HeaderApi.Glob

inductive Matches : List Token → Text → Prop where
  | nil : Matches [] []
  | one {token : Token} {tokens : List Token} {c : Char} {t : Text} (h : token.admits c = true)
      (h' : Matches tokens t) : Matches (token :: tokens) (c :: t)
  | star {token : Token} {tokens : List Token} (skipped : Text) {t : Text}
      (h : token.isStar = true) (h' : Matches tokens t) : Matches (token :: tokens) (skipped ++ t)

/-- A text and its ends, down to the empty one. -/
def suffixes : Text → List Text
  | [] => [[]]
  | c :: t => (c :: t) :: suffixes t

theorem mem_suffixes_iff {s t : Text} : s ∈ suffixes t ↔ s <:+ t := by
  induction t with
  | nil => simp [suffixes]
  | cons c t ih => simp [suffixes, ih, List.suffix_cons_iff]

/-- Each text is an end of those before it. -/
def Descending (rests : List Text) : Prop := rests.Pairwise fun a b => b <:+ a

theorem descending_suffixes (t : Text) : Descending (suffixes t) := by
  induction t with
  | nil => simp [suffixes, Descending]
  | cons c t ih =>
    refine List.pairwise_cons.2 ⟨fun s hs => ?_, ih⟩
    exact (mem_suffixes_iff.1 hs).trans (List.suffix_cons c t)

namespace Token

/-- What follows the character at the start of a text that a token stands for. -/
def after? (token : Token) : Text → Option Text
  | [] => none
  | c :: t => if token.admits c then some t else none

theorem after?_eq_some_iff {token : Token} {t r : Text} :
    token.after? t = some r ↔ ∃ c, token.admits c = true ∧ t = c :: r := by
  cases t with
  | nil => simp [after?]
  | cons c t =>
    by_cases h : token.admits c = true
    · simp only [after?, h, if_true, Option.some.injEq, List.cons.injEq]
      exact ⟨fun e => ⟨c, h, rfl, e⟩, fun ⟨_, _, _, e⟩ => e⟩
    · simp only [after?, if_neg h, List.cons.injEq, reduceCtorEq, false_iff]
      rintro ⟨d, hd, rfl, -⟩
      exact h hd

/-- What may be left behind a token, if `rests` may be left before it. -/
def behind (token : Token) (rests : List Text) : List Text :=
  if token.isStar then
    match rests with
    | [] => []
    | t :: _ => suffixes t
  else rests.filterMap token.after?

theorem descending_behind (token : Token) {rests : List Text} (h : Descending rests) :
    Descending (token.behind rests) := by
  unfold behind
  split
  · cases rests with
    | nil => exact List.Pairwise.nil
    | cons t rests => exact descending_suffixes t
  · refine List.pairwise_filterMap.2 (List.Pairwise.imp ?_ h)
    intro a b hab r hr s hs
    obtain ⟨c, -, rfl⟩ := after?_eq_some_iff.1 hr
    obtain ⟨d, -, rfl⟩ := after?_eq_some_iff.1 hs
    rcases List.suffix_cons_iff.1 hab with e | e
    · exact (List.cons.inj e).2 ▸ List.suffix_rfl
    · exact (List.suffix_cons d s).trans e

theorem exists_matches_behind_iff {token : Token} {tokens : List Token} {rests : List Text}
    (h : Descending rests) :
    (∃ t ∈ token.behind rests, Matches tokens t) ↔ ∃ t ∈ rests, Matches (token :: tokens) t := by
  unfold behind
  split
  next hs =>
    cases rests with
    | nil => simp
    | cons r rests =>
      constructor
      · rintro ⟨t, ht, hm⟩
        obtain ⟨skipped, rfl⟩ := mem_suffixes_iff.1 ht
        exact ⟨_, List.mem_cons_self, .star skipped hs hm⟩
      · rintro ⟨t, ht, hm⟩
        have hr : t <:+ r := by
          rcases List.mem_cons.1 ht with rfl | ht
          · exact List.suffix_rfl
          · exact (List.pairwise_cons.1 h).1 t ht
        cases hm with
        | one ha hm =>
          exact ⟨_, mem_suffixes_iff.2 ((List.suffix_cons _ _).trans hr), hm⟩
        | star skipped _ hm =>
          exact ⟨_, mem_suffixes_iff.2 ((List.suffix_append skipped _).trans hr), hm⟩
  next hs =>
    simp only [List.mem_filterMap, after?_eq_some_iff]
    constructor
    · rintro ⟨t, ⟨_, ht, c, hc, rfl⟩, hm⟩
      exact ⟨_, ht, .one hc hm⟩
    · rintro ⟨t, ht, hm⟩
      cases hm with
      | one ha hm => exact ⟨_, ⟨_, ht, _, ha, rfl⟩, hm⟩
      | star skipped h' _ => exact absurd h' hs

end Token

/-- What may be left of a text behind all of some tokens, if `rests` may be left before them. -/
def leftovers (tokens : List Token) (rests : List Text) : List Text :=
  tokens.foldl (fun rests token => token.behind rests) rests

/-- Whether a text is what tokens stand for. -/
def matchesTokens (tokens : List Token) (t : Text) : Bool :=
  (leftovers tokens [t]).any List.isEmpty

theorem any_isEmpty_leftovers_iff {tokens : List Token} {rests : List Text} (h : Descending rests) :
    (leftovers tokens rests).any List.isEmpty = true ↔ ∃ t ∈ rests, Matches tokens t := by
  induction tokens generalizing rests with
  | nil =>
    simp only [leftovers, List.foldl_nil, List.any_eq_true, List.isEmpty_iff]
    constructor
    · rintro ⟨t, ht, rfl⟩
      exact ⟨_, ht, .nil⟩
    · rintro ⟨t, ht, hm⟩
      cases hm
      exact ⟨_, ht, rfl⟩
  | cons token tokens ih =>
    rw [← Token.exists_matches_behind_iff h]
    exact ih (token.descending_behind h)

theorem matchesTokens_iff {tokens : List Token} {t : Text} :
    matchesTokens tokens t = true ↔ Matches tokens t := by
  rw [matchesTokens, any_isEmpty_leftovers_iff (List.pairwise_singleton _ t)]
  simp

end HeaderApi.Glob
