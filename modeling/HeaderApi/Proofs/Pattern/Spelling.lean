import HeaderApi.Proofs.Pattern.Inversion
import HeaderApi.Proofs.Pattern.Search
import HeaderApi.Proofs.Text.Parts

/-!
# What patterns spell

`Spells p s texts` says that `p` can match exactly the text `s` and captures `texts`, wherever `s`
stands.  A match takes a text that its pattern spells (`spells_of_matches`), and each text that a
pattern spells is matched in front of every other text (`matches_of_spells`).  So what a search
finds can be said without cuts.
-/

namespace HeaderApi.Pattern

variable {p q : Pattern} {anchor : Anchor} {c d : Char} {a b s t u rest : Text} {texts : List Text}

def Spells : Pattern → Text → List Text → Prop
  | .literal word, s, texts => s = word ∧ texts = []
  | .one allowed, s, texts => (∃ c, allowed c = true ∧ s = [c]) ∧ texts = []
  | .many allowed, s, texts => (∀ c ∈ s, allowed c = true) ∧ texts = []
  | .optional p, s, texts => Spells p s texts ∨ s = [] ∧ texts = []
  | .either p q, s, texts => Spells p s texts ∨ Spells q s texts
  | .andThen p q, s, texts =>
    ∃ a b, s = a ++ b ∧ ∃ as bs, texts = as ++ bs ∧ Spells p a as ∧ Spells q b bs
  | .capture p, s, texts => ∃ inner, texts = s :: inner ∧ Spells p s inner

theorem spells_of_matches {cuts : List Cut} (h : Matches p t cuts rest) :
    ∃ s, t = s ++ rest ∧ Spells p s (cuts.map Cut.text) := by
  induction h with
  | literal word rest => exact ⟨word, rfl, rfl, rfl⟩
  | @one _ c rest h => exact ⟨[c], rfl, ⟨c, h, rfl⟩, rfl⟩
  | @many _ run rest h => exact ⟨run, rfl, h, rfl⟩
  | present _ ih =>
    obtain ⟨s, rfl, hs⟩ := ih
    exact ⟨s, rfl, .inl hs⟩
  | absent => exact ⟨[], rfl, .inr ⟨rfl, rfl⟩⟩
  | left _ _ ih =>
    obtain ⟨s, rfl, hs⟩ := ih
    exact ⟨s, rfl, .inl hs⟩
  | right _ _ ih =>
    obtain ⟨s, rfl, hs⟩ := ih
    exact ⟨s, rfl, .inr hs⟩
  | andThen _ _ ih ih' =>
    obtain ⟨a, rfl, ha⟩ := ih
    obtain ⟨b, rfl, hb⟩ := ih'
    exact ⟨a ++ b, by simp, a, b, rfl, _, _, List.map_append, ha, hb⟩
  | capture _ ih =>
    obtain ⟨s, rfl, hs⟩ := ih
    exact ⟨s, rfl, _, by rw [List.map_cons, Cut.text_append], hs⟩

theorem matches_of_spells (h : Spells p s texts) (rest : Text) :
    ∃ cuts, Matches p (s ++ rest) cuts rest ∧ cuts.map Cut.text = texts := by
  induction p generalizing s texts rest with
  | literal word =>
    obtain ⟨rfl, rfl⟩ := h
    exact ⟨[], .literal s rest, rfl⟩
  | one allowed =>
    obtain ⟨⟨c, hc, rfl⟩, rfl⟩ := h
    exact ⟨[], .one rest hc, rfl⟩
  | many allowed =>
    obtain ⟨hrun, rfl⟩ := h
    exact ⟨[], .many rest hrun, rfl⟩
  | optional p ih =>
    rcases h with h | ⟨rfl, rfl⟩
    · obtain ⟨cuts, hm, ht⟩ := ih h rest
      exact ⟨cuts, .present hm, ht⟩
    · exact ⟨[], .absent p rest, rfl⟩
  | either p q ihp ihq =>
    rcases h with h | h
    · obtain ⟨cuts, hm, ht⟩ := ihp h rest
      exact ⟨cuts, .left q hm, ht⟩
    · obtain ⟨cuts, hm, ht⟩ := ihq h rest
      exact ⟨cuts, .right p hm, ht⟩
  | andThen p q ihp ihq =>
    obtain ⟨a, b, rfl, as, bs, rfl, ha, hb⟩ := h
    obtain ⟨cuts, hm, ht⟩ := ihp ha (b ++ rest)
    obtain ⟨cuts', hm', ht'⟩ := ihq hb rest
    refine ⟨cuts ++ cuts', ?_, by rw [List.map_append, ht, ht']⟩
    rw [List.append_assoc]
    exact .andThen hm hm'
  | capture p ih =>
    obtain ⟨inner, rfl, h⟩ := h
    obtain ⟨cuts, hm, ht⟩ := ih h rest
    exact ⟨_, .capture hm, by rw [List.map_cons, Cut.text_append, ht]⟩

/-! ## Sequences -/

/-- The pattern captures nothing. -/
def silent : Pattern → Bool
  | .literal _ | .one _ | .many _ => true
  | .optional p => silent p
  | .either p q | .andThen p q => silent p && silent q
  | .capture _ => false

theorem Spells.eq_nil_of_silent (h : Spells p s texts) (hp : p.silent = true) : texts = [] := by
  induction p generalizing s texts with
  | literal | one | many => exact h.2
  | optional p ih => exact h.elim (ih · hp) And.right
  | either p q ihp ihq =>
    rw [silent, Bool.and_eq_true] at hp
    exact h.elim (ihp · hp.1) (ihq · hp.2)
  | andThen p q ihp ihq =>
    rw [silent, Bool.and_eq_true] at hp
    obtain ⟨_, _, -, as, bs, rfl, ha, hb⟩ := h
    rw [ihp ha hp.1, ihq hb hp.2, List.append_nil]
  | capture p => simp [silent] at hp

theorem Matches.eq_nil_of_silent {cuts : List Cut} (h : Matches p t cuts rest)
    (hp : p.silent = true) : cuts = [] := by
  obtain ⟨s, -, hs⟩ := spells_of_matches h
  exact List.map_eq_nil_iff.1 (hs.eq_nil_of_silent hp)

theorem spells_literal_andThen {word : Text} : Spells (.andThen (.literal word) q) s texts ↔
    ∃ b, s = word ++ b ∧ Spells q b texts := by
  constructor
  · rintro ⟨_, b, rfl, _, _, rfl, ⟨rfl, rfl⟩, hb⟩
    exact ⟨b, rfl, hb⟩
  · rintro ⟨b, rfl, hb⟩
    exact ⟨word, b, rfl, [], _, rfl, ⟨rfl, rfl⟩, hb⟩

theorem spells_silent_andThen (hp : p.silent = true) : Spells (.andThen p q) s texts ↔
    ∃ a b, s = a ++ b ∧ Spells p a [] ∧ Spells q b texts := by
  constructor
  · rintro ⟨a, b, rfl, as, _, rfl, ha, hb⟩
    obtain rfl := ha.eq_nil_of_silent hp
    exact ⟨a, b, rfl, ha, hb⟩
  · rintro ⟨a, b, rfl, ha, hb⟩
    exact ⟨a, b, rfl, [], _, rfl, ha, hb⟩

theorem Matches.exists_of_silent_andThen {cuts : List Cut} (hp : p.silent = true)
    (h : Matches (.andThen p q) t cuts rest) :
    ∃ s mid, t = s ++ mid ∧ Spells p s [] ∧ Matches q mid cuts rest := by
  obtain ⟨mid, c, c', hfirst, hnext, rfl⟩ := matches_andThen_iff.1 h
  obtain rfl := hfirst.eq_nil_of_silent hp
  obtain ⟨s, ht, hs⟩ := spells_of_matches hfirst
  exact ⟨s, mid, ht, hs, hnext⟩

theorem spells_capture_andThen (hp : p.silent = true) : Spells (.andThen (.capture p) q) s texts ↔
    ∃ a b bs, s = a ++ b ∧ texts = a :: bs ∧ Spells p a [] ∧ Spells q b bs := by
  constructor
  · rintro ⟨a, b, rfl, _, bs, rfl, ⟨inner, rfl, ha⟩, hb⟩
    obtain rfl := ha.eq_nil_of_silent hp
    exact ⟨a, b, bs, rfl, rfl, ha, hb⟩
  · rintro ⟨a, b, bs, rfl, rfl, ha, hb⟩
    exact ⟨a, b, rfl, [a], bs, rfl, ⟨[], rfl, ha⟩, hb⟩

/-! ## Characters of a spelled text -/

theorem Spells.notMem_of_avoids (h : Spells p s texts) (hp : p.avoids c = true) : c ∉ s := by
  induction p generalizing s texts with
  | literal word => simpa [h.1, avoids] using hp
  | one allowed =>
    obtain ⟨⟨d, hd, rfl⟩, -⟩ := h
    have ha : allowed c = false := by simpa [avoids] using hp
    rw [List.mem_singleton]
    rintro rfl
    simp [ha] at hd
  | many allowed =>
    have ha : allowed c = false := by simpa [avoids] using hp
    exact fun hc => by simpa [ha] using h.1 c hc
  | optional p ih =>
    rcases h with h | ⟨rfl, -⟩
    · exact ih h hp
    · exact List.not_mem_nil
  | either p q ihp ihq =>
    rw [avoids, Bool.and_eq_true] at hp
    rcases h with h | h
    · exact ihp h hp.1
    · exact ihq h hp.2
  | andThen p q ihp ihq =>
    rw [avoids, Bool.and_eq_true] at hp
    obtain ⟨a, b, rfl, _, _, -, ha, hb⟩ := h
    rw [List.mem_append, not_or]
    exact ⟨ihp ha hp.1, ihq hb hp.2⟩
  | capture p ih =>
    obtain ⟨_, -, h⟩ := h
    exact ih h hp

/-- The pattern spells no text without the character. -/
def demands (c : Char) : Pattern → Bool
  | .literal word => c ∈ word
  | .one _ | .many _ | .optional _ => false
  | .either p q => demands c p && demands c q
  | .andThen p q => demands c p || demands c q
  | .capture p => demands c p

theorem Spells.mem_of_demands (h : Spells p s texts) (hp : p.demands c = true) : c ∈ s := by
  induction p generalizing s texts with
  | literal word => simpa [h.1, demands] using hp
  | one | many | optional => simp [demands] at hp
  | either p q ihp ihq =>
    rw [demands, Bool.and_eq_true] at hp
    rcases h with h | h
    · exact ihp h hp.1
    · exact ihq h hp.2
  | andThen p q ihp ihq =>
    rw [demands, Bool.or_eq_true] at hp
    obtain ⟨a, b, rfl, _, _, -, ha, hb⟩ := h
    rw [List.mem_append]
    exact hp.imp (ihp ha) (ihq hb)
  | capture p ih =>
    obtain ⟨_, -, h⟩ := h
    exact ih h hp

/-- The pattern spells the empty text. -/
def nullable : Pattern → Bool
  | .literal word => word.isEmpty
  | .one _ => false
  | .many _ | .optional _ => true
  | .either p q => nullable p || nullable q
  | .andThen p q => nullable p && nullable q
  | .capture p => nullable p

/-- The pattern spells a text that begins with the character. -/
def opensWith (c : Char) : Pattern → Bool
  | .literal word => word.head? = some c
  | .one allowed | .many allowed => allowed c
  | .optional p => opensWith c p
  | .either p q => opensWith c p || opensWith c q
  | .andThen p q => opensWith c p || nullable p && opensWith c q
  | .capture p => opensWith c p

theorem Spells.nullable (h : Spells p [] texts) : p.nullable = true := by
  induction p generalizing texts with
  | literal word => simp [Pattern.nullable, ← h.1]
  | one allowed =>
    obtain ⟨⟨c, -, hc⟩, -⟩ := h
    simp at hc
  | many | optional => rfl
  | either p q ihp ihq => exact Bool.or_eq_true_iff.2 (h.imp ihp ihq)
  | andThen p q ihp ihq =>
    obtain ⟨a, b, hnil, _, _, -, ha, hb⟩ := h
    obtain ⟨rfl, rfl⟩ := List.append_eq_nil_iff.1 hnil.symm
    exact Bool.and_eq_true_iff.2 ⟨ihp ha, ihq hb⟩
  | capture p ih =>
    obtain ⟨_, -, h⟩ := h
    exact ih h

theorem Spells.ne_nil (h : Spells p s texts) (hp : p.nullable = false) : s ≠ [] := by
  rintro rfl
  simp [h.nullable] at hp

theorem Spells.opensWith (h : Spells p (c :: s) texts) : p.opensWith c = true := by
  induction p generalizing s texts with
  | literal word => simp [Pattern.opensWith, ← h.1]
  | one allowed =>
    obtain ⟨⟨d, hd, hc⟩, -⟩ := h
    rw [Pattern.opensWith, (List.cons.inj hc).1, hd]
  | many allowed => exact h.1 c List.mem_cons_self
  | optional p ih =>
    rcases h with h | ⟨hnil, -⟩
    · exact ih h
    · simp at hnil
  | either p q ihp ihq => exact Bool.or_eq_true_iff.2 (h.imp ihp ihq)
  | andThen p q ihp ihq =>
    obtain ⟨a, b, hab, _, _, -, ha, hb⟩ := h
    rw [Pattern.opensWith, Bool.or_eq_true, Bool.and_eq_true]
    cases a with
    | nil =>
      obtain rfl : b = c :: s := by simpa using hab.symm
      exact .inr ⟨ha.nullable, ihq hb⟩
    | cons d a =>
      obtain rfl := (List.cons.inj hab).1
      exact .inl (ihp ha)
  | capture p ih =>
    obtain ⟨_, -, h⟩ := h
    exact ih h

/-- A match that opens with a capture has no other one, if nothing else captures. -/
theorem Matches.exists_cut_of_capture_andThen {cuts : List Cut} (hp : p.silent = true)
    (hne : p.nullable = false) (hq : q.silent = true)
    (h : Matches (.andThen (.capture p) q) t cuts rest) :
    ∃ c, cuts = [c] ∧ c.start = t ∧ rest.length < t.length := by
  obtain ⟨mid, c, c', hcapture, hnext, rfl⟩ := matches_andThen_iff.1 h
  obtain ⟨inner, hinner, rfl⟩ := matches_capture_iff.1 hcapture
  obtain rfl := hinner.eq_nil_of_silent hp
  obtain rfl := hnext.eq_nil_of_silent hq
  obtain ⟨s, ht, hs⟩ := spells_of_matches hinner
  refine ⟨⟨t, mid⟩, rfl, rfl, ?_⟩
  have hpos := List.length_pos_iff.2 (hs.ne_nil hne)
  obtain ⟨u, rfl⟩ := hnext.exists_eq_append
  simp only [ht, List.length_append]
  omega

/-! ## Searches -/

/-- What a search captures is spelled at a place where matches may start. -/
theorem captures_eq_nil_of_not_spells (h : ∀ a s u, t = a ++ s ++ u → anchor a.getLast? = true →
    ∀ texts, ¬ Spells p s texts) : p.captures anchor t = [] := by
  refine captures_eq_nil fun a s ht ha cuts rest hm => ?_
  obtain ⟨s, rfl, hs⟩ := spells_of_matches hm
  exact h a s rest (by rw [ht, List.append_assoc]) ha _ hs

theorem captures_eq_nil_of_notMem (hp : p.demands c = true) (hc : c ∉ t) :
    p.captures anchor t = [] := by
  refine captures_eq_nil_of_not_spells ?_
  rintro a s u rfl - texts hs
  exact hc (by simp [hs.mem_of_demands hp])

/-- The search passes by a character that no match starts with. -/
theorem captures_cons (hanchor : anchor (some c) = anchor none) (hc : p.opensWith c = false)
    (hp : p.nullable = false) (t : Text) : p.captures anchor (c :: t) = p.captures anchor t := by
  have hfirst : p.first? (c :: t) = none := by
    refine first?_eq_none fun cuts rest hm => ?_
    obtain ⟨s, hs, hspells⟩ := spells_of_matches hm
    cases s with
    | nil => exact absurd rfl (hspells.ne_nil hp)
    | cons d s =>
      obtain rfl := (List.cons.inj hs).1
      simp [hspells.opensWith] at hc
  rw [captures, occurrences, occurrencesFrom_cons fun _ => hfirst, occurrencesFrom_congr hanchor,
    captures, occurrences]

/-- Behind a word, matches may start again at the character that ends it. -/
theorem wordStart_cases {w : Text} (hw : ∀ c ∈ w, Text.isWord c = true)
    (ha : wordStart a.getLast? = true) (h : w ++ c :: t = a ++ s) :
    a = [] ∨ ∃ x, a = w ++ c :: x ∧ t = x ++ s ∧ wordStart x.getLast? = true := by
  rcases Text.append_eq_append_cons h.symm with ⟨x, rfl, -⟩ | ⟨x, rfl, rfl⟩
  · refine .inl (List.getLast?_eq_none_iff.1 ?_)
    rw [Option.eq_none_iff_forall_not_mem]
    intro d hd
    have hword := hw d (List.mem_append_left _ (List.mem_of_getLast? hd))
    simp [wordStart, Option.mem_def.1 hd, hword] at ha
  · refine .inr ⟨x, rfl, rfl, ?_⟩
    cases hx : x.getLast? with
    | none => rfl
    | some d =>
      rw [List.getLast?_append, List.getLast?_cons, hx] at ha
      exact ha

/-- A text that is spelled, and all of whose matches take all of it, is one occurrence. -/
theorem exists_captures_eq_singleton (hne : t ≠ []) (hanchor : anchor none = true)
    (hseam : anchor t.getLast? = anchor none) (hspells : Spells p t texts)
    (huniq : ∀ s u texts', t = s ++ u → Spells p s texts' → u = [] ∧ texts' = texts) :
    ∃ cuts, p.captures anchor t = [cuts] ∧ cuts.map Cut.text = texts := by
  obtain ⟨cuts, hm, -⟩ := matches_of_spells hspells []
  rw [List.append_nil] at hm
  cases hfirst : p.first? t with
  | none =>
    rw [first?, Option.map_eq_none_iff, List.head?_eq_none_iff] at hfirst
    exact absurd (hfirst ▸ hm.mem_reaches) List.not_mem_nil
  | some o =>
    obtain ⟨⟨start, stop⟩, cuts'⟩ := o
    obtain ⟨rfl, hm'⟩ := matches_of_first? hfirst
    obtain ⟨s, hs, hspells'⟩ := spells_of_matches hm'
    obtain ⟨rfl, htexts⟩ := huniq _ _ _ hs hspells'
    refine ⟨cuts', ?_, htexts⟩
    have hfirst' : p.first? (start ++ []) = some ⟨⟨start ++ [], []⟩, cuts'⟩ := by
      simpa using hfirst
    have hcaptures := captures_eq_cons hne hanchor hseam hfirst'
    simpa using hcaptures

/-- A text all of whose matches start at one place, and capture the same there, is one occurrence. -/
theorem exists_captures_of_start (ha : anchor a.getLast? = true) (hne : s ≠ [])
    (h : Spells p s texts)
    (hstart : ∀ b s' u texts', a ++ s = b ++ s' ++ u → anchor b.getLast? = true →
      Spells p s' texts' → b = a)
    (hunique : ∀ s' u texts', s = s' ++ u → Spells p s' texts' → texts' = texts) :
    ∃ cuts, p.captures anchor (a ++ s) = [cuts] ∧ cuts.map Cut.text = texts := by
  obtain ⟨cuts, hm, -⟩ := matches_of_spells h []
  rw [List.append_nil] at hm
  obtain ⟨o, ho, hm'⟩ := exists_occurrences_eq_singleton hne ha hm
    fun b t cuts' u hcut hb hm => by
      obtain ⟨s', rfl, hs'⟩ := spells_of_matches hm
      exact hstart b s' u _ (by rw [hcut, List.append_assoc]) hb hs'
  obtain ⟨s', hcut, hs'⟩ := spells_of_matches hm'
  refine ⟨o.cuts, ?_, hunique s' o.whole.stop _ hcut hs'⟩
  rw [captures, ho, List.map_singleton]

end HeaderApi.Pattern
