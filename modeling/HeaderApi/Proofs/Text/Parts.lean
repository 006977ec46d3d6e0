import HeaderApi.Proofs.Text.Squeeze

/-!
# Cutting and joining

Cutting at a mark finds its first occurrence: the text in front of it does not hold the mark, not
even together with all of the mark but its last character (`cutAt_append`, `first_of_cutAt`).
Joining trimmed parts with commas and cutting at commas are inverse to each other.
-/

namespace HeaderApi.Text

variable {a b l m r t : Text} {c z : Char} {items : List Text}

theorem map_eq_self_iff {α : Type} {f : α → α} {l : List α} :
    l.map f = l ↔ ∀ a ∈ l, f a = a := by
  conv_lhs => rhs; rw [← List.map_id l]
  exact List.map_inj_left

theorem option_map_eq_self_iff {α : Type} {f : α → α} {o : Option α} :
    o.map f = o ↔ ∀ a ∈ o, f a = a := by
  cases o <;> simp

/-- If each item gives at least one, then at least as many are given, and as many only if each gives
one. -/
theorem length_flatMap_of_ne_nil {α β : Type} {f : α → List β} {l : List α}
    (h : ∀ a ∈ l, f a ≠ []) : l.length ≤ (l.flatMap f).length ∧
      ((l.flatMap f).length = l.length ↔ ∀ a ∈ l, (f a).length = 1) := by
  induction l with
  | nil => simp
  | cons a l ih =>
    rw [List.forall_mem_cons] at h
    obtain ⟨hle, hiff⟩ := ih h.2
    have hpos := List.length_pos_iff.2 h.1
    rw [List.flatMap_cons, List.length_append, List.length_cons, List.forall_mem_cons, ← hiff]
    omega

theorem exists_concat (h : t ≠ []) : ∃ a c, t = a ++ [c] :=
  ⟨t.dropLast, t.getLast h, (List.dropLast_append_getLast h).symm⟩

/-- The first item of a kind, with items of another kind in front of it, is the head of a list or
stands behind it. -/
theorem exists_first_cons_iff {α : Type} {P Q : α → Prop} {x : α} {xs : List α} :
    (∃ before y after, x :: xs = before ++ y :: after ∧ (∀ b ∈ before, P b) ∧ Q y) ↔
      Q x ∨ P x ∧ ∃ before y after, xs = before ++ y :: after ∧ (∀ b ∈ before, P b) ∧ Q y := by
  constructor
  · rintro ⟨before, y, after, h, hbefore, hy⟩
    cases before with
    | nil =>
      obtain ⟨rfl, rfl⟩ := List.cons.inj h
      exact .inl hy
    | cons b before =>
      obtain ⟨rfl, rfl⟩ := List.cons.inj h
      rw [List.forall_mem_cons] at hbefore
      exact .inr ⟨hbefore.1, before, y, after, rfl, hbefore.2, hy⟩
  · rintro (hx | ⟨hx, before, y, after, rfl, hbefore, hy⟩)
    · exact ⟨[], x, xs, rfl, by simp, hx⟩
    · exact ⟨x :: before, y, after, rfl, List.forall_mem_cons.2 ⟨hx, hbefore⟩, hy⟩

/-! ## The first occurrence of a mark -/

theorem after?_eq_none_iff : after? m t = none ↔ ¬ m <+: t := by
  rw [Option.eq_none_iff_forall_not_mem]
  constructor
  · rintro h ⟨r, rfl⟩
    exact h r (after?_eq_some_iff.2 rfl)
  · intro h r hr
    exact h ⟨r, (after?_eq_some_iff.1 hr).symm⟩

theorem cutAt_eq_none_iff : cutAt m t = none ↔ ¬ m <:+: t := by
  induction t with
  | nil => simp [cutAt, after?_eq_none_iff]
  | cons c t ih =>
    rw [cutAt, List.infix_cons_iff, not_or]
    cases h : after? m (c :: t) with
    | some r => simp [after?_eq_some_iff.1 h]
    | none =>
      rw [← ih, ← after?_eq_none_iff, h]
      simp

theorem has_eq_true_iff : has m t = true ↔ m <:+: t := by
  rw [has, Option.isSome_iff_ne_none, ne_eq, cutAt_eq_none_iff, not_not]

/-- A prefix that ends where the last character of the mark would stand holds no mark. -/
theorem not_isPrefix_of_not_isPrefix (h : ¬ m ++ [z] <+: a ++ m) (b : Text) (ha : a ≠ []) :
    ¬ m ++ [z] <+: a ++ (m ++ [z]) ++ b := by
  refine fun hp => h (List.prefix_of_prefix_length_le hp ⟨z :: b, by simp⟩ ?_)
  have hpos := List.length_pos_iff.2 ha
  simp only [List.length_append, List.length_singleton]
  omega

theorem cutAt_append (ha : ¬ m ++ [z] <:+: a ++ m) (b : Text) :
    cutAt (m ++ [z]) (a ++ (m ++ [z]) ++ b) = some (a, b) := by
  induction a with
  | nil =>
    cases h : m ++ [z] with
    | nil => simp at h
    | cons d m' =>
      have hsome : after? (d :: m') (d :: m' ++ b) = some b := after?_eq_some_iff.2 rfl
      simp only [List.nil_append, List.cons_append] at hsome ⊢
      rw [cutAt, hsome]
  | cons c a ih =>
    rw [List.cons_append, List.infix_cons_iff, not_or] at ha
    have hnone := after?_eq_none_iff.2 (not_isPrefix_of_not_isPrefix ha.1 b (List.cons_ne_nil c a))
    rw [List.cons_append, List.cons_append] at hnone ⊢
    rw [cutAt, hnone]
    simp only [ih ha.2, Option.map_some]

theorem first_of_cutAt (h : cutAt (m ++ [z]) t = some (l, r)) : ¬ m ++ [z] <:+: l ++ m := by
  induction t generalizing l with
  | nil =>
    obtain ⟨s, hs, -⟩ := Option.map_eq_some_iff.1 h
    simp [after?_eq_some_iff] at hs
  | cons c t ih =>
    rw [cutAt] at h
    cases hafter : after? (m ++ [z]) (c :: t) with
    | some s =>
      rw [hafter] at h
      obtain ⟨rfl, rfl⟩ := Prod.mk.inj (Option.some.inj h)
      intro hinfix
      have hlen : m.length + 1 ≤ m.length := by simpa using hinfix.length_le
      omega
    | none =>
      rw [hafter] at h
      obtain ⟨⟨l', r'⟩, hl, h⟩ := Option.map_eq_some_iff.1 h
      obtain ⟨rfl, rfl⟩ := Prod.mk.inj h
      rw [List.cons_append, List.infix_cons_iff, not_or]
      refine ⟨fun hp => after?_eq_none_iff.1 hafter (hp.trans ?_), ih hl⟩
      rw [eq_append_of_cutAt hl]
      exact ⟨z :: r', by simp⟩

theorem singleton_infix_iff : [c] <:+: t ↔ c ∈ t := by
  constructor
  · exact fun h => h.mem List.mem_cons_self
  · intro h
    obtain ⟨a, b, rfl⟩ := List.append_of_mem h
    exact ⟨a, b, by simp⟩

theorem cutAt_singleton (ha : c ∉ a) (b : Text) : cutAt [c] (a ++ c :: b) = some (a, b) := by
  have h := cutAt_append (m := []) (z := c) (a := a) (by simpa [singleton_infix_iff] using ha) b
  simpa using h

/-- A text has one first occurrence of a character. -/
theorem first_unique (ha : c ∉ a) (hb : c ∉ b) (h : a ++ c :: l = b ++ c :: r) :
    a = b ∧ l = r := by
  have hcut := cutAt_singleton ha l
  rw [h, cutAt_singleton hb] at hcut
  obtain ⟨rfl, rfl⟩ := Prod.mk.inj (Option.some.inj hcut)
  exact ⟨rfl, rfl⟩

/-- A character stands on one side of every cut. -/
theorem append_eq_append_cons (h : a ++ b = l ++ c :: r) :
    (∃ x, l = a ++ x ∧ b = x ++ c :: r) ∨ ∃ x, a = l ++ c :: x ∧ r = x ++ b := by
  rcases List.append_eq_append_iff.1 h with ⟨x, rfl, rfl⟩ | ⟨x, rfl, hx⟩
  · exact .inl ⟨x, rfl, rfl⟩
  · cases x with
    | nil => exact .inl ⟨[], by simp, by simpa using hx.symm⟩
    | cons d x =>
      obtain ⟨rfl, rfl⟩ := List.cons.inj hx
      exact .inr ⟨x, rfl, rfl⟩

/-- A text with a character at two places can be cut at one of them. -/
theorem cut_cases {front mid tail : Text} (hfront : c ∉ front) (hmid : c ∉ mid) (htail : c ∉ tail)
    (h : l ++ c :: r = front ++ c :: (mid ++ c :: tail)) :
    l = front ∨ l = front ++ c :: mid := by
  rcases append_eq_append_cons h with ⟨x, rfl, hx⟩ | ⟨x, rfl, hx⟩
  · cases x with
    | nil => exact .inl (List.append_nil l).symm
    | cons d x =>
      obtain rfl := (List.cons.inj hx).1
      simp at hfront
  · obtain ⟨rfl, -⟩ := (List.append_cons_inj_of_notMem hmid htail).1 hx
    exact .inr rfl

theorem prefix_of_prefix_append_cons (hc : c ∉ m) (h : m <+: a ++ c :: b) : m <+: a := by
  obtain ⟨r, h⟩ := h
  rcases append_eq_append_cons h with ⟨x, rfl, -⟩ | ⟨x, rfl, -⟩
  · exact List.prefix_append m x
  · simp at hc

/-- No occurrence of a mark goes over a character that the mark does not hold. -/
theorem infix_append_cons_iff (hc : c ∉ m) : m <:+: a ++ c :: b ↔ m <:+: a ∨ m <:+: b := by
  constructor
  · rintro ⟨x, y, h⟩
    rcases append_eq_append_cons h with ⟨z, rfl, -⟩ | ⟨z, hx, rfl⟩
    · exact .inl ⟨x, z, rfl⟩
    · rcases append_eq_append_cons hx with ⟨w, -, rfl⟩ | ⟨w, -, rfl⟩
      · simp at hc
      · exact .inr ⟨w, y, rfl⟩
  · rintro (h | h)
    · exact h.trans (List.prefix_append _ _).isInfix
    · exact h.trans ((List.suffix_cons c b).trans (List.suffix_append _ _)).isInfix

theorem cutAt_singleton_eq_none (ht : c ∉ t) : cutAt [c] t = none :=
  cutAt_eq_none_iff.2 (mt singleton_infix_iff.1 ht)

theorem notMem_of_cutAt (h : cutAt [c] t = some (l, r)) : c ∉ l := by
  have := first_of_cutAt (m := []) (z := c) h
  simpa [singleton_infix_iff] using this

/-! ## Parts between commas -/

@[simp] theorem joinWith_nil (gap : Text) : joinWith gap [] = [] := rfl

@[simp] theorem joinWith_singleton (gap t : Text) : joinWith gap [t] = t := by simp [joinWith]

theorem joinWith_cons_cons (gap a b : Text) (items : List Text) :
    joinWith gap (a :: b :: items) = a ++ gap ++ joinWith gap (b :: items) := by
  simp [joinWith, List.intercalate_cons_cons]

theorem joinWith_cons (gap a : Text) (hne : items ≠ []) :
    joinWith gap (a :: items) = a ++ gap ++ joinWith gap items := by
  obtain ⟨b, items, rfl⟩ := List.exists_cons_of_ne_nil hne
  exact joinWith_cons_cons gap a b items

theorem mem_of_mem_joinWith {gap : Text} (h : c ∈ joinWith gap items) :
    c ∈ gap ∨ ∃ t ∈ items, c ∈ t := by
  induction items with
  | nil => simp at h
  | cons a items ih =>
    cases items with
    | nil => exact .inr ⟨a, by simp, by simpa using h⟩
    | cons b items =>
      rw [joinWith_cons_cons, List.mem_append, List.mem_append] at h
      rcases h with (h | h) | h
      · exact .inr ⟨a, by simp, h⟩
      · exact .inl h
      · exact (ih h).imp_right fun ⟨t, ht, hc⟩ => ⟨t, List.mem_cons_of_mem _ ht, hc⟩

theorem notMem_joinWith {gap : Text} (hgap : c ∉ gap) (h : ∀ t ∈ items, c ∉ t) :
    c ∉ joinWith gap items := by
  intro hc
  obtain ⟨t, ht, hct⟩ := (mem_of_mem_joinWith hc).resolve_left hgap
  exact h t ht hct

theorem joinWith_commaSpace (a : Text) (items : List Text) :
    joinWith ", ".toList (a :: items) = [','].intercalate (a :: items.map (' ' :: ·)) := by
  induction items generalizing a with
  | nil => simp
  | cons b items ih =>
    rw [joinWith_cons_cons, ih, List.map_cons, List.intercalate_cons_cons]
    cases items <;> simp [List.intercalate_cons_cons]

theorem commaParts_joinWith (hne : items ≠ []) (h : ∀ t ∈ items, Trimmed t ∧ ',' ∉ t) :
    commaParts (joinWith ", ".toList items) = items := by
  obtain ⟨a, items, rfl⟩ := List.exists_cons_of_ne_nil hne
  have hcomma : ∀ t ∈ a :: items.map (' ' :: ·), ',' ∉ t := by
    rw [List.forall_mem_cons, List.forall_mem_map]
    refine ⟨(h a (by simp)).2, fun t ht => ?_⟩
    rw [List.mem_cons, not_or]
    exact ⟨by decide, (h t (List.mem_cons_of_mem _ ht)).2⟩
  rw [commaParts, joinWith_commaSpace, List.splitOn_intercalate _ hcomma (by simp), List.map_cons,
    List.map_map, (h a (by simp)).1.trim_eq]
  congr 1
  refine map_eq_self_iff.2 fun t ht => ?_
  rw [Function.comp_apply, trim_cons_of_blank isBlank_space,
    (h t (List.mem_cons_of_mem _ ht)).1.trim_eq]

theorem commaParts_append (a b : Text) :
    commaParts (a ++ ',' :: b) = commaParts a ++ commaParts b := by
  rw [commaParts, List.splitOn_append_cons_self, List.map_append, commaParts, commaParts]

theorem commaItems_append (a b : Text) :
    commaItems (a ++ ',' :: b) = commaItems a ++ commaItems b := by
  rw [commaItems, commaParts_append, List.filter_append, commaItems, commaItems]

theorem commaItems_of_notMem (ha : ',' ∉ a) : commaItems a = [trim a].filter (· ≠ []) := by
  rw [commaItems, commaParts, List.splitOn_eq_singleton ha, List.map_singleton]

theorem infix_intercalate_of_mem {α : Type} {gap part : List α} {parts : List (List α)}
    (h : part ∈ parts) : part <:+: gap.intercalate parts := by
  induction parts with
  | nil => simp at h
  | cons a parts ih =>
    by_cases hne : parts = []
    · simp_all
    · rw [List.intercalate_cons_of_ne_nil hne]
      rcases List.mem_cons.1 h with rfl | h
      · exact ⟨[], gap ++ gap.intercalate parts, by simp⟩
      · exact (ih h).trans (List.suffix_append _ _).isInfix

theorem infix_of_mem_splitOn {α : Type} [BEq α] [LawfulBEq α] {a : α} {part l : List α}
    (h : part ∈ l.splitOn a) : part <:+: l := by
  have hinfix : part <:+: [a].intercalate (l.splitOn a) := infix_intercalate_of_mem h
  rwa [List.intercalate_splitOn] at hinfix

theorem notMem_of_mem_splitOn (h : a ∈ t.splitOn c) : c ∉ a := by
  induction t generalizing a with
  | nil => simp_all
  | cons d t ih =>
    rw [List.splitOn_cons_eq_if_modifyHead] at h
    by_cases hd : d = c
    · rw [if_pos (by simpa using hd)] at h
      rcases List.mem_cons.1 h with rfl | h
      · simp
      · exact ih h
    · rw [if_neg (by simpa using hd)] at h
      obtain ⟨w, ws, hw⟩ := List.exists_cons_of_ne_nil (List.splitOn_ne_nil c t)
      rw [hw] at ih h
      rcases List.mem_cons.1 h with rfl | h
      · rw [List.mem_cons, not_or]
        exact ⟨Ne.symm hd, ih List.mem_cons_self⟩
      · exact ih (List.mem_cons_of_mem _ h)

/-- A list has no separator, or there is one behind its first part and another list behind that. -/
@[elab_as_elim]
theorem separator_induction {α : Type} (c : α) {motive : List α → Prop}
    (last : ∀ a, c ∉ a → motive a)
    (part : ∀ a l, c ∉ a → motive l → motive (a ++ c :: l)) (l : List α) : motive l := by
  suffices h : ∀ a, c ∉ a → motive (a ++ l) from h [] (by simp)
  induction l with
  | nil => exact fun a ha => (List.append_nil a).symm ▸ last a ha
  | cons d l ih =>
    intro a ha
    by_cases hd : d = c
    · exact hd ▸ part a l ha (ih [] (by simp))
    · have had : c ∉ a ++ [d] := by simpa [ha] using Ne.symm hd
      simpa using ih (a ++ [d]) had

/-- What is neither blank nor a comma stands in one of the parts. -/
theorem exists_mem_commaParts (hc : isBlank c = false) (hcomma : c ≠ ',') (h : c ∈ t) :
    ∃ s ∈ commaParts t, c ∈ s := by
  have hjoin : c ∈ joinWith [','] (t.splitOn ',') := by
    rwa [joinWith, List.intercalate_splitOn]
  obtain ⟨s, hs, hmem⟩ := (mem_of_mem_joinWith hjoin).resolve_left (by simpa using hcomma)
  exact ⟨trim s, List.mem_map_of_mem hs, mem_trim_of_mem hc hmem⟩

theorem mem_commaItems (h : a ∈ commaItems t) :
    a ≠ [] ∧ ∃ s, a = trim s ∧ s <:+: t ∧ ',' ∉ s := by
  obtain ⟨hmem, hne⟩ := List.mem_filter.1 h
  obtain ⟨s, hs, rfl⟩ := List.mem_map.1 hmem
  exact ⟨by simpa using hne, s, rfl, infix_of_mem_splitOn hs, notMem_of_mem_splitOn hs⟩

/-! ## Items between commas -/

theorem commaItems_cons_of_blank (hc : isBlank c = true) (t : Text) :
    commaItems (c :: t) = commaItems t := by
  have hcomma : c ≠ ',' := by
    rintro rfl
    exact absurd hc (by decide)
  have hlast {a : Text} (ha : ',' ∉ a) : commaItems (c :: a) = commaItems a := by
    rw [commaItems_of_notMem (by simp [ha, hcomma.symm]), commaItems_of_notMem ha,
      trim_cons_of_blank hc]
  induction t using separator_induction ',' with
  | last a ha => exact hlast ha
  | part a l ha _ => rw [← List.cons_append, commaItems_append, commaItems_append, hlast ha]

theorem commaItems_concat_of_blank (hc : isBlank c = true) (t : Text) :
    commaItems (t ++ [c]) = commaItems t := by
  have hcomma : c ≠ ',' := by
    rintro rfl
    exact absurd hc (by decide)
  induction t using separator_induction ',' with
  | last a ha =>
    rw [commaItems_of_notMem (by simp [ha, hcomma.symm]), commaItems_of_notMem ha,
      trim_concat_of_blank hc]
  | part a l ha ih =>
    rw [List.append_assoc, List.cons_append, commaItems_append, commaItems_append, ih]

/-- Joined texts are cut where they were joined, and at their own commas. -/
theorem commaItems_joinWith_eq_flatMap (items : List Text) :
    commaItems (joinWith ", ".toList items) = items.flatMap commaItems := by
  induction items with
  | nil => decide
  | cons a items ih =>
    by_cases hne : items = []
    · simp [hne]
    · have hsplit : joinWith ", ".toList (a :: items) =
          a ++ ',' :: (' ' :: joinWith ", ".toList items) := by
        rw [joinWith_cons _ a hne]
        simp
      rw [hsplit, commaItems_append, commaItems_cons_of_blank isBlank_space, ih, List.flatMap_cons]

theorem commaItems_eq_singleton (h : t ≠ [] ∧ Trimmed t ∧ ',' ∉ t) : commaItems t = [t] := by
  rw [commaItems_of_notMem h.2.2, h.2.1.trim_eq, List.filter_cons_of_pos (by simpa using h.1),
    List.filter_nil]

theorem flatMap_commaItems (h : ∀ t ∈ items, t ≠ [] ∧ Trimmed t ∧ ',' ∉ t) :
    items.flatMap commaItems = items := by
  rw [List.flatMap_congr fun t ht => commaItems_eq_singleton (h t ht), List.flatMap_singleton']

theorem commaItems_joinWith (h : ∀ t ∈ items, t ≠ [] ∧ Trimmed t ∧ ',' ∉ t) :
    commaItems (joinWith ", ".toList items) = items := by
  rw [commaItems_joinWith_eq_flatMap, flatMap_commaItems h]

theorem commaItems_ne_nil (hc : isBlank c = false) (hcomma : c ≠ ',') (h : c ∈ t) :
    commaItems t ≠ [] := by
  obtain ⟨s, hs, hmem⟩ := exists_mem_commaParts hc hcomma h
  refine List.ne_nil_of_mem (List.mem_filter.2 ⟨hs, ?_⟩)
  simpa using List.ne_nil_of_mem hmem

/-- A mark that cannot stand between joined texts stands in one of them. -/
theorem infix_joinWith_commaSpace_iff (hne : m ≠ []) (hcomma : ',' ∉ m) (hspace : ' ' ∉ m) :
    m <:+: joinWith ", ".toList items ↔ ∃ t ∈ items, m <:+: t := by
  induction items with
  | nil => simpa using hne
  | cons a items ih =>
    by_cases hitems : items = []
    · simp [hitems]
    · have hsplit : joinWith ", ".toList (a :: items) =
          a ++ ',' :: ([] ++ ' ' :: joinWith ", ".toList items) := by
        rw [joinWith_cons _ a hitems]
        simp
      have hnil : ¬ m <:+: [] := by simpa using hne
      rw [hsplit, infix_append_cons_iff hcomma, infix_append_cons_iff hspace, or_iff_right hnil,
        ih, List.exists_mem_cons_iff]

/-! ## Joining and blanks -/

theorem joinWith_ne_nil {gap : Text} (hne : items ≠ []) (h : ∀ t ∈ items, t ≠ []) :
    joinWith gap items ≠ [] := by
  obtain ⟨a, items, rfl⟩ := List.exists_cons_of_ne_nil hne
  have ha := h a (by simp)
  cases items with
  | nil => simpa
  | cons b items => simp [joinWith_cons_cons, ha]

theorem trimmed_joinWith {gap : Text} (h : ∀ t ∈ items, t ≠ [] ∧ Trimmed t) :
    Trimmed (joinWith gap items) := by
  induction items with
  | nil => exact trimmed_nil
  | cons a items ih =>
    rw [List.forall_mem_cons] at h
    by_cases hne : items = []
    · simpa [hne] using h.1.2
    · rw [joinWith_cons gap a hne]
      exact h.1.2.append (ih h.2) h.1.1 (joinWith_ne_nil hne fun t ht => (h.2 t ht).1) gap

theorem Trimmed.collapse_cons_space (ht : Trimmed t) :
    collapse (' ' :: t) = ' ' :: collapse t := by
  rw [collapse_cons_of_blank isBlank_space, ht.trimStart_eq]

theorem collapse_joinWith (h : ∀ t ∈ items, t ≠ [] ∧ Trimmed t) :
    collapse (joinWith ", ".toList items) = joinWith ", ".toList (items.map collapse) := by
  induction items with
  | nil => rfl
  | cons a items ih =>
    rw [List.forall_mem_cons] at h
    by_cases hne : items = []
    · simp [hne]
    · rw [joinWith_cons _ a hne, List.map_cons, joinWith_cons _ _ (by simpa using hne), ← ih h.2]
      calc collapse (a ++ ", ".toList ++ joinWith ", ".toList items)
          = collapse (a ++ ',' :: (' ' :: joinWith ", ".toList items)) := by simp
        _ = collapse a ++ ',' :: collapse (' ' :: joinWith ", ".toList items) :=
          collapse_append_cons (by decide) _ _
        _ = _ := by
          rw [(trimmed_joinWith h.2).collapse_cons_space]
          simp

theorem joinWith_append (gap : Text) {a b : List Text} (ha : a ≠ []) (hb : b ≠ []) :
    joinWith gap (a ++ b) = joinWith gap a ++ gap ++ joinWith gap b := by
  induction a with
  | nil => exact absurd rfl ha
  | cons t a ih =>
    by_cases hne : a = []
    · rw [hne, List.singleton_append, joinWith_cons gap t hb, joinWith_singleton]
    · rw [List.cons_append, joinWith_cons gap t (by simp [hne]), ih hne, joinWith_cons gap t hne]
      simp only [List.append_assoc]

theorem joinWith_flatMap (gap : Text) {f : Text → List Text} (h : ∀ t ∈ items, f t ≠ []) :
    joinWith gap (items.flatMap f) = joinWith gap (items.map fun t => joinWith gap (f t)) := by
  induction items with
  | nil => rfl
  | cons a items ih =>
    rw [List.forall_mem_cons] at h
    by_cases hne : items = []
    · simp [hne]
    · have hrest : items.flatMap f ≠ [] := by
        obtain ⟨b, items, rfl⟩ := List.exists_cons_of_ne_nil hne
        simp [h.2 b]
      rw [List.flatMap_cons, joinWith_append gap h.1 hrest, ih h.2, List.map_cons,
        joinWith_cons gap _ (by simpa using hne)]

/-! ## Neat texts -/

theorem neat_of_noBlank (ht : ∀ c ∈ t, isBlank c = false) : Neat t := by
  rw [neat_iff]
  by_cases hne : t = []
  · rw [hne, squeeze_nil]
  · rw [squeeze, words_of_noBlank hne ht, joinWith_singleton]

theorem words_ne_nil (ht : Neat t) (hne : t ≠ []) : words t ≠ [] := by
  intro h
  have hsqueeze := ht.squeeze_eq
  rw [squeeze, h] at hsqueeze
  exact hne hsqueeze.symm

theorem Neat.append (ha : Neat a) (hb : Neat b) : Neat (a ++ b) := by
  cases b with
  | nil => simpa using ha
  | cons c b =>
    have hc : isBlank c = false := hb.head c rfl
    have hrest : Spaced b := hb.toSpaced.of_isInfix (List.suffix_cons c b).isInfix
    have hend : c :: trimEnd b = c :: b := by
      rw [← trimEnd_cons_of_not_blank hc, hb.trimEnd_eq]
    rw [neat_iff, squeeze_append_cons hc, ha.toSpaced.collapse_eq, ha.trimStart_eq,
      hrest.collapse_eq, hend]

theorem Neat.append_space (ha : Neat a) (hb : Neat b) (hane : a ≠ []) (hbne : b ≠ []) :
    Neat (a ++ ' ' :: b) := by
  have hjoin := joinWith_append [' '] (words_ne_nil ha hane) (words_ne_nil hb hbne)
  rw [neat_iff, squeeze, words_append_cons isBlank_space, hjoin, ← squeeze, ← squeeze,
    ha.squeeze_eq, hb.squeeze_eq]
  simp

theorem neat_joinWith {gap : Text} (hgap : ∀ {a b : Text}, Neat a → Neat b → a ≠ [] → b ≠ [] →
    Neat (a ++ gap ++ b)) (h : ∀ t ∈ items, t ≠ [] ∧ Neat t) : Neat (joinWith gap items) := by
  induction items with
  | nil => exact neat_nil
  | cons a items ih =>
    rw [List.forall_mem_cons] at h
    by_cases hne : items = []
    · simpa [hne] using h.1.2
    · rw [joinWith_cons gap a hne]
      exact hgap h.1.2 (ih h.2) h.1.1 (joinWith_ne_nil hne fun t ht => (h.2 t ht).1)

end HeaderApi.Text
