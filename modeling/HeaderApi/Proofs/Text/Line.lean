import HeaderApi.Proofs.Text.Parts
import HeaderApi.Text.Line

/-! # Cutting a text into lines and joining lines -/

namespace HeaderApi.Text

variable {a l t : Text} {items : List Text}

theorem physicalLines_append_lineFeed (ha : '\n' ∉ a) (t : Text) :
    physicalLines (a ++ '\n' :: t) = (a ++ ['\n']) :: physicalLines t := by
  induction a with
  | nil => simp [physicalLines]
  | cons c a ih =>
    rw [List.mem_cons, not_or] at ha
    rw [List.cons_append, physicalLines, if_neg (Ne.symm ha.1), ih ha.2]
    rfl

theorem physicalLines_flatten_append (h : ∀ l ∈ items, '\n' ∉ l) (t : Text) :
    physicalLines ((items.map (· ++ ['\n'])).flatten ++ t) =
      items.map (· ++ ['\n']) ++ physicalLines t := by
  induction items with
  | nil => rfl
  | cons l items ih =>
    rw [List.forall_mem_cons] at h
    rw [List.map_cons, List.flatten_cons, List.append_assoc, List.append_assoc, List.cons_append,
      List.nil_append, physicalLines_append_lineFeed h.1, ih h.2, List.cons_append]

theorem physicalLines_eq_singleton (ha : '\n' ∉ a) (hne : a ≠ []) : physicalLines a = [a] := by
  induction a with
  | nil => exact absurd rfl hne
  | cons c a ih =>
    rw [List.mem_cons, not_or] at ha
    rw [physicalLines, if_neg (Ne.symm ha.1)]
    cases a with
    | nil => rfl
    | cons d a => rw [ih ha.2 (List.cons_ne_nil d a)]

theorem mem_physicalLines (h : l ∈ physicalLines t) :
    '\n' ∉ l ∨ ∃ a, '\n' ∉ a ∧ l = a ++ ['\n'] := by
  induction t generalizing l with
  | nil => simp [physicalLines] at h
  | cons c t ih =>
    rw [physicalLines] at h
    by_cases hc : c = '\n'
    · rw [if_pos hc] at h
      rcases List.mem_cons.1 h with rfl | h
      · exact .inr ⟨[], by simp, by simp [hc]⟩
      · exact ih h
    · rw [if_neg hc] at h
      cases hlines : physicalLines t with
      | nil =>
        rw [hlines, List.mem_singleton] at h
        exact .inl (by simpa [h] using Ne.symm hc)
      | cons l' ls =>
        rw [hlines] at h ih
        rcases List.mem_cons.1 h with rfl | h
        · rcases ih List.mem_cons_self with hl | ⟨a, ha, rfl⟩
          · exact .inl (by simpa [hl] using Ne.symm hc)
          · exact .inr ⟨c :: a, by simpa [ha] using Ne.symm hc, rfl⟩
        · exact ih (List.mem_cons_of_mem _ h)

/-- A text is one line without a line feed, or a line behind which another text stands. -/
@[elab_as_elim]
theorem lines_induction {motive : Text → Prop} (last : ∀ a, '\n' ∉ a → motive a)
    (line : ∀ a t, '\n' ∉ a → motive t → motive (a ++ '\n' :: t)) (t : Text) : motive t :=
  separator_induction '\n' last line t

/-- Where a line ends, the lines of a text can be cut. -/
theorem physicalLines_append {x : Text} (hx : x = [] ∨ x.getLast? = some '\n') (y : Text) :
    physicalLines (x ++ y) = physicalLines x ++ physicalLines y := by
  induction x using lines_induction with
  | last a ha =>
    rcases hx with rfl | hlast
    · rfl
    · exact absurd (List.mem_of_getLast? hlast) ha
  | line a t ha ih =>
    have ht : t = [] ∨ t.getLast? = some '\n' := by
      rcases hx with hnil | hlast
      · simp at hnil
      · cases t with
        | nil => exact .inl rfl
        | cons c t => exact .inr (by simpa using hlast)
    rw [List.append_assoc, List.cons_append, physicalLines_append_lineFeed ha,
      physicalLines_append_lineFeed ha, ih ht, List.cons_append]

theorem chomp_of_notMem (ha : '\n' ∉ a) : chomp a = a := by
  rw [chomp]
  cases h : before? ['\n'] a with
  | none => rfl
  | some l =>
    rw [before?_eq_some_iff.1 h] at ha
    simp at ha

theorem chomp_append_lineFeed (ha : a.getLast? ≠ some '\r') : chomp (a ++ ['\n']) = a := by
  rw [chomp, before?_eq_some_iff.2 rfl]
  cases h : before? ['\r'] a with
  | none => simp [h]
  | some l =>
    rw [before?_eq_some_iff.1 h] at ha
    simp at ha

theorem lines_eq_singleton (ha : '\n' ∉ a) (hne : a ≠ []) : lines a = [a] := by
  rw [lines, physicalLines_eq_singleton ha hne, List.map_singleton, chomp_of_notMem ha]

theorem notMem_of_mem_lines (h : l ∈ lines t) : '\n' ∉ l := by
  obtain ⟨p, hp, rfl⟩ := List.mem_map.1 h
  rcases mem_physicalLines hp with hn | ⟨a, ha, rfl⟩
  · rwa [chomp_of_notMem hn]
  · rw [chomp, before?_eq_some_iff.2 rfl]
    change '\n' ∉ (before? ['\r'] a).getD a
    cases hb : before? ['\r'] a with
    | none => exact ha
    | some b =>
      rw [before?_eq_some_iff.1 hb] at ha
      exact fun hm => ha (List.mem_append_left _ hm)

/-- A text that a line feed can follow: it holds none and loses nothing when the line is read. -/
structure OneLine (l : Text) : Prop where
  noFeed : '\n' ∉ l
  noReturn : l.getLast? ≠ some '\r'

/-- A line that says something and has no blanks at its ends. -/
structure Solid (l : Text) : Prop extends Trimmed l where
  ne_nil : l ≠ []
  noFeed : '\n' ∉ l

theorem Trimmed.getLast?_ne_of_blank {c : Char} (h : Trimmed t) (hc : isBlank c = true) :
    t.getLast? ≠ some c := by
  intro hlast
  simp [h.last c hlast] at hc

theorem Solid.oneLine (h : Solid l) : OneLine l :=
  ⟨h.noFeed, h.getLast?_ne_of_blank (by decide)⟩

theorem lines_append_lineFeed (ha : OneLine a) (t : Text) :
    lines (a ++ '\n' :: t) = a :: lines t := by
  rw [lines, physicalLines_append_lineFeed ha.noFeed, List.map_cons,
    chomp_append_lineFeed ha.noReturn, lines]

theorem lines_flatMap (h : ∀ l ∈ items, OneLine l) (t : Text) :
    lines (items.flatMap (· ++ ['\n']) ++ t) = items ++ lines t := by
  induction items with
  | nil => rfl
  | cons a items ih =>
    rw [List.forall_mem_cons] at h
    rw [List.cons_append, ← ih h.2, ← lines_append_lineFeed h.1]
    simp

theorem lines_joinWith_append (h : ∀ l ∈ items, OneLine l) (hne : items ≠ []) (t : Text) :
    lines (joinWith "\n".toList items ++ '\n' :: t) = items ++ lines t := by
  induction items with
  | nil => exact absurd rfl hne
  | cons a items ih =>
    rw [List.forall_mem_cons] at h
    by_cases hnil : items = []
    · rw [hnil, joinWith_singleton, lines_append_lineFeed h.1, List.singleton_append]
    · rw [joinWith_cons _ a hnil, List.append_assoc, List.append_assoc, List.cons_append,
        ← ih h.2 hnil]
      exact lines_append_lineFeed h.1 _

theorem lines_joinWith (h : ∀ l ∈ items, Solid l) : lines (joinWith "\n".toList items) = items := by
  induction items with
  | nil => rfl
  | cons a items ih =>
    rw [List.forall_mem_cons] at h
    by_cases hnil : items = []
    · rw [hnil, joinWith_singleton, lines_eq_singleton h.1.noFeed h.1.ne_nil]
    · conv_rhs => rw [← ih h.2]
      rw [joinWith_cons _ a hnil, List.append_assoc]
      exact lines_append_lineFeed h.1.oneLine _

end HeaderApi.Text
