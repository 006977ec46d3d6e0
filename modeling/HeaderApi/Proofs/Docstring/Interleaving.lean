import HeaderApi.Proofs.Docstring.Stability

/-!
# Prose and tags in any order

Empty lines cut a doc block into runs of lines, and each run is prose up to its first line that
begins with `@`, and tags from there on.  So a doc block says the same however its prose parts stand
among its tag parts (`parse_interleaved`).
-/

namespace HeaderApi.Docstring

open Text Pattern

variable {line rest : Text} {run ts : List Text} {cuts : List Cut}

/-! ## Lines without their borders -/

/-- An asterisk with the blanks around it. -/
def borderPattern : Pattern := .seq [.many isBlank, "*", .many isBlank]

/-- A line behind its border, or the whole line if it has none. -/
def behindBorder (line : Text) : Text :=
  ((borderPattern.first? line).map (·.whole.stop)).getD line

theorem matches_borderPattern_iff : Matches borderPattern line cuts rest ↔
    ∃ a b, (∀ c ∈ a, isBlank c = true) ∧ (∀ c ∈ b, isBlank c = true) ∧
      line = a ++ '*' :: (b ++ rest) ∧ cuts = [] := by
  constructor
  · intro h
    obtain ⟨_, _, _, hbefore, hbehind, rfl⟩ := matches_andThen_iff.1 h
    obtain ⟨_, _, _, hstar, hbehind', rfl⟩ := matches_andThen_iff.1 hbehind
    obtain ⟨a, ha, rfl, rfl⟩ := matches_many_iff.1 hbefore
    obtain ⟨rfl, rfl⟩ := matches_literal_iff.1 hstar
    obtain ⟨b, hb, rfl, rfl⟩ := matches_many_iff.1 hbehind'
    exact ⟨a, b, ha, hb, rfl, rfl⟩
  · rintro ⟨a, b, ha, hb, rfl, rfl⟩
    exact .andThen (.many _ ha) (.andThen (.literal ['*'] _) (.many _ hb))

/-- Whatever the border takes of the blanks behind its asterisk, trimming takes the others. -/
theorem lineContent_of_matches (h : Matches borderPattern line cuts rest) :
    lineContent line = trim rest := by
  obtain ⟨a, b, ha, hb, rfl, rfl⟩ := matches_borderPattern_iff.1 h
  have hstar : trimStart (a ++ '*' :: (b ++ rest)) = '*' :: (b ++ rest) := by
    rw [trimStart_append_of_blank ha, trimStart, List.dropWhile_cons_of_neg (by decide)]
  rw [lineContent_of_star hstar, trim_append_of_blank hb]

theorem lineContent_eq (line : Text) : lineContent line = trim (behindBorder line) := by
  rw [behindBorder]
  cases hfirst : borderPattern.first? line with
  | some o => exact lineContent_of_matches (matches_of_first? hfirst).2
  | none =>
    refine lineContent_of_plain fun hstar => ?_
    obtain ⟨t, ht⟩ := List.head?_eq_some_iff.1 hstar
    have hline : line = line.takeWhile isBlank ++ '*' :: ([] ++ t) := by
      rw [List.nil_append, ← ht, trimStart, List.takeWhile_append_dropWhile]
    have hmatch : Matches borderPattern line [] t :=
      matches_borderPattern_iff.2
        ⟨_, [], fun _ hc => List.mem_takeWhile_imp hc, by simp, hline, rfl⟩
    obtain ⟨o, ho⟩ := exists_first? hmatch
    rw [hfirst] at ho
    cases ho

/-! ## Runs of lines -/

/-- The lines of a doc block without their borders, trimmed. -/
def contents (t : Text) : List Text := (Text.lines t).map fun line => trim (behindBorder line)

/-- The maximal runs of lines that are not empty. -/
def runs (ts : List Text) : List (List Text) := (ts.splitOn []).filter (· ≠ [])

/-- Whether a line opens the tags of its run. -/
def opensTags (line : Text) : Bool := line.head? == some '@'

/-- The lines of a run in front of its tags. -/
def prosePart (run : List Text) : List Text := run.takeWhile (!opensTags ·)

/-- The lines of a run from the first tag on. -/
def tagPart (run : List Text) : List Text := run.dropWhile (!opensTags ·)

/-- The parts of the runs that are not empty, where `part` cuts a part out of a run. -/
def partsBy (part : List Text → List Text) (ts : List Text) : List (List Text) :=
  ((runs ts).map part).filter (· ≠ [])

def proseParts : List Text → List (List Text) := partsBy prosePart

def tagParts : List Text → List (List Text) := partsBy tagPart

variable {part : List Text → List Text}

theorem partsBy_append (part : List Text → List Text) (a b : List Text) :
    partsBy part (a ++ [] :: b) = partsBy part a ++ partsBy part b := by
  have hruns : runs (a ++ [] :: b) = runs a ++ runs b := by
    rw [runs, List.splitOn_append_cons_self, List.filter_append, runs, runs]
  rw [partsBy, hruns, List.map_append, List.filter_append, partsBy, partsBy]

/-- A run has one part at most. -/
theorem partsBy_run (hpart : part [] = []) (h : [] ∉ run) :
    partsBy part run = [part run].filter (· ≠ []) := by
  rw [partsBy, runs, List.splitOn_eq_singleton h]
  by_cases hne : run = []
  · simp [hne, hpart]
  · simp [hne]

namespace Line

theorem sort_append_nil (inTags : Bool) (a b : List Text) :
    sort inTags (a ++ [] :: b) = sort inTags a ++ .blank :: sort false b := by
  induction a generalizing inTags with
  | nil => rfl
  | cons t a ih =>
    rw [List.cons_append, sort, sort]
    simp only [ih]
    split
    · rfl
    · split <;> rfl

/-- A tag that is open stays open to the end of the run. -/
theorem sort_open (h : [] ∉ run) : sort true run = run.map .tag := by
  induction run with
  | nil => rfl
  | cons t run ih =>
    rw [List.mem_cons, not_or] at h
    rw [sort, if_neg (Ne.symm h.1), if_pos (by simp), ih h.2, List.map_cons]

theorem sort_run (h : [] ∉ run) :
    sort false run = (prosePart run).map .prose ++ (tagPart run).map .tag := by
  induction run with
  | nil => rfl
  | cons t run ih =>
    rw [List.mem_cons, not_or] at h
    rw [sort, if_neg (Ne.symm h.1)]
    by_cases ht : opensTags t = true
    · have hprose : prosePart (t :: run) = [] := List.takeWhile_cons_of_neg (by simp [ht])
      have htags : tagPart (t :: run) = t :: run := List.dropWhile_cons_of_neg (by simp [ht])
      rw [if_pos (by simpa [opensTags] using ht), sort_open h.2, hprose, htags]
      rfl
    · have hprose : prosePart (t :: run) = t :: prosePart run :=
        List.takeWhile_cons_of_pos (by simp [ht])
      have htags : tagPart (t :: run) = tagPart run := List.dropWhile_cons_of_pos (by simp [ht])
      rw [if_neg (by simpa [opensTags] using ht), ih h.2, hprose, htags]
      rfl

theorem filterMap_tag?_run (p ts : List Text) :
    (p.map prose ++ ts.map tag).filterMap tag? = ts := by
  rw [List.filterMap_append, List.filterMap_map, List.filterMap_map]
  simp [Function.comp_def, tag?]

end Line

/-- The paragraphs of a doc block are its prose parts. -/
theorem paragraphs_sort (ts : List Text) : paragraphs (Line.sort false ts) = proseParts ts := by
  rw [proseParts]
  induction ts using separator_induction [] with
  | last a ha => rw [Line.sort_run ha, paragraphs_run, partsBy_run rfl ha]
  | part a ts ha ih =>
    rw [Line.sort_append_nil, paragraphs_append_blank, Line.sort_run ha, paragraphs_run, ih,
      partsBy_append, partsBy_run rfl ha]

/-- The tag lines of a doc block are those of its tag parts. -/
theorem filterMap_tag?_sort (ts : List Text) :
    (Line.sort false ts).filterMap Line.tag? = (tagParts ts).flatten := by
  have hflatten (l : List Text) : ([l].filter (· ≠ [])).flatten = l := by
    by_cases h : l = [] <;> simp [h]
  rw [tagParts]
  induction ts using separator_induction [] with
  | last a ha => rw [Line.sort_run ha, Line.filterMap_tag?_run, partsBy_run rfl ha, hflatten]
  | part a ts ha ih =>
    rw [Line.sort_append_nil, List.filterMap_append, List.filterMap_cons_none rfl,
      Line.sort_run ha, Line.filterMap_tag?_run, ih, partsBy_append, partsBy_run rfl ha,
      List.flatten_append, hflatten]

/-! ## Doc blocks -/

theorem ofText_eq_sort_contents (t : Text) : Line.ofText t = Line.sort false (contents t) :=
  congrArg (Line.sort false) (List.map_congr_left fun line _ => lineContent_eq line)

/-- The description of a doc block is made of its prose parts.  All that is read from it depends on
its prose parts and its tag parts, and not on how they stand among each other. -/
theorem parse_interleaved (offset : Nat) (t : Text) :
    (parse offset t).1.description = joinWith "\n\n".toList
      ((proseParts (contents t)).map (joinWith "\n".toList)) ∧
    ∀ t', proseParts (contents t') = proseParts (contents t) →
      tagParts (contents t') = tagParts (contents t) → parse offset t' = parse offset t := by
  have hprose (t : Text) : paragraphs (Line.ofText t) = proseParts (contents t) := by
    rw [ofText_eq_sort_contents, paragraphs_sort]
  have htags (t : Text) :
      (Line.ofText t).filterMap Line.tag? = (tagParts (contents t)).flatten := by
    rw [ofText_eq_sort_contents, filterMap_tag?_sort]
  constructor
  · rw [description_parse, proseText, hprose]
  · intro t' hproseParts htagParts
    have hdescribe : describe (Line.ofText t') = describe (Line.ofText t) := by
      rw [describe, describe, hprose, hprose, hproseParts]
    have hsection : tagSection (Line.ofText t') = tagSection (Line.ofText t) := by
      rw [tagSection, tagSection, htags, htags, htagParts]
    simp only [parse, readTags, hdescribe, hsection]

/-- Tags right behind their prose, and the same tags in front of it. -/
theorem parse_interleaved_log :
    let proseFirst : Text := "\n * Sends a message.\n * @name: ta_log\n *\n * At once.\n ".toList
    let tagsFirst : Text :=
      "\n * @name: ta_log\n *\n\n * Sends a message.\n *\n * At once.\n ".toList
    proseParts (contents tagsFirst) = proseParts (contents proseFirst) ∧
    tagParts (contents tagsFirst) = tagParts (contents proseFirst) ∧
    parse 7 tagsFirst = parse 7 proseFirst ∧
    (parse 7 proseFirst).1 =
      { description := "Sends a message.\n\nAt once.".toList,
        name := some (.bare "ta_log".toList) } := by
  intro proseFirst tagsFirst
  have hprose : proseParts (contents tagsFirst) = proseParts (contents proseFirst) := by
    decide +kernel
  have htags : tagParts (contents tagsFirst) = tagParts (contents proseFirst) := by decide +kernel
  exact ⟨hprose, htags, (parse_interleaved 7 proseFirst).2 tagsFirst hprose htags,
    by decide +kernel⟩

end HeaderApi.Docstring
