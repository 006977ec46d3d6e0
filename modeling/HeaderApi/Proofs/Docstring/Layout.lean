import HeaderApi.Docstring.Parse
import HeaderApi.Docstring.Render
import HeaderApi.Proofs.Text.Line

/-!
# The layout of a doc block

A rendered doc block holds its tags, a line each, and behind a blank line the description.  Reading
sorts its lines the same way (`ofText_render`), and finds the paragraphs of the description again
(`describe_ofText_render`).
-/

namespace HeaderApi.Docstring

open Text

variable {line t : Text} {ts ls : List Text} {inTags : Bool} {lines : List Line}

/-! ## The border -/

/-- A bordered line without its line feed. -/
def border (line : Text) : Text := if line = [] then " *".toList else " * ".toList ++ line

theorem oneLine_border (h : OneLine line) : OneLine (border line) := by
  rw [border]
  by_cases hne : line = []
  · rw [if_pos hne]
    exact ⟨by decide, by decide⟩
  · rw [if_neg hne]
    refine ⟨?_, ?_⟩
    · rw [List.mem_append, not_or]
      exact ⟨by decide, h.noFeed⟩
    · rw [List.getLast?_append_of_ne_nil _ hne]
      exact h.noReturn

/-- Reading a line drops the border, and the blanks at its ends. -/
theorem lineContent_border (line : Text) : lineContent (border line) = trim line := by
  rw [border]
  split
  next h =>
    rw [h]
    decide
  next => exact trim_cons_of_blank isBlank_space line

theorem lineContent_of_star (h : trimStart line = '*' :: t) : lineContent line = trim t := by
  rw [lineContent, h]
  rfl

theorem lineContent_of_plain (h : (trimStart line).head? ≠ some '*') :
    lineContent line = trimEnd (trimStart line) := by
  unfold lineContent
  split
  next heq => exact absurd (congrArg List.head? heq) h
  next => rfl

theorem lineContent_concat_of_blank {c : Char} (hc : isBlank c = true) (line : Text) :
    lineContent (line ++ [c]) = lineContent line := by
  by_cases hstar : (trimStart line).head? = some '*'
  · obtain ⟨rest, hrest⟩ := List.head?_eq_some_iff.1 hstar
    have hrest' : trimStart (line ++ [c]) = '*' :: (rest ++ [c]) := by
      rw [trimStart_concat_of_blank hc, hrest, if_neg (List.cons_ne_nil _ _), List.cons_append]
    rw [lineContent_of_star hrest, lineContent_of_star hrest', trim_concat_of_blank hc]
  · have hstar' : (trimStart (line ++ [c])).head? ≠ some '*' := by
      rwa [head?_trimStart_concat hc]
    rw [lineContent_of_plain hstar, lineContent_of_plain hstar', trimStart_concat_of_blank hc]
    split
    next hnil => rw [hnil]
    next => exact trimEnd_concat_of_blank hc _

theorem trimmed_lineContent (line : Text) : Trimmed (lineContent line) := by
  rw [lineContent]
  split
  next => exact trimmed_trim _
  next => exact trimmed_trim line

theorem mem_of_mem_lineContent {c : Char} (h : c ∈ lineContent line) : c ∈ line := by
  have hstart := (trimStart_suffix line).subset
  rw [lineContent] at h
  split at h
  next t ht =>
    rw [ht] at hstart
    exact hstart (List.mem_cons_of_mem _ (mem_of_mem_trim h))
  next => exact hstart ((trimEnd_isPrefix _).subset h)

/-! ## Sorting lines -/

namespace Line

@[simp] theorem sort_nil (inTags : Bool) : sort inTags [] = [] := rfl

@[simp] theorem sort_cons_nil (inTags : Bool) (ts : List Text) :
    sort inTags ([] :: ts) = .blank :: sort false ts := rfl

theorem sort_tags (h : ∀ t ∈ ts, t.head? = some '@') (inTags : Bool) (rest : List Text) :
    sort inTags (ts ++ [] :: rest) = ts.map .tag ++ .blank :: sort false rest := by
  induction ts generalizing inTags with
  | nil => rfl
  | cons t ts ih =>
    rw [List.forall_mem_cons] at h
    have hne : t ≠ [] := by
      rintro rfl
      simp at h
    rw [List.cons_append, sort, if_neg hne, if_pos (by simp [h.1]), ih h.2]
    rfl

theorem sort_prose (h : ∀ t ∈ ts, t ≠ [] ∧ t.head? ≠ some '@') (rest : List Text) :
    sort false (ts ++ [] :: rest) = ts.map .prose ++ .blank :: sort false rest := by
  induction ts with
  | nil => rfl
  | cons t ts ih =>
    rw [List.forall_mem_cons] at h
    rw [List.cons_append, sort, if_neg h.1.1, if_neg (by simpa using h.1.2), ih h.2]
    rfl

theorem mem_sort_prose (h : .prose t ∈ sort inTags ts) :
    t ∈ ts ∧ t ≠ [] ∧ t.head? ≠ some '@' := by
  induction ts generalizing inTags with
  | nil => simp at h
  | cons s ts ih =>
    have tail {b : Bool} (h : .prose t ∈ sort b ts) := (ih h).imp_left (List.mem_cons_of_mem s)
    rw [sort] at h
    split at h
    next => exact tail (by simpa using h)
    next hne =>
      split at h
      next => exact tail (by simpa using h)
      next hhead =>
        rcases List.mem_cons.1 h with h | h
        · obtain rfl := Line.prose.inj h
          exact ⟨List.mem_cons_self, hne, by simp_all⟩
        · exact tail h

end Line

/-! ## Paragraphs -/

/-- A line of a description. -/
structure ProseLine (line : Text) : Prop extends Solid line where
  noTag : line.head? ≠ some '@'

/-- Paragraphs that a description can be made of. -/
def Prose (ps : List (List Text)) : Prop := ∀ p ∈ ps, p ≠ [] ∧ ∀ l ∈ p, ProseLine l

theorem proseLine_of_mem_ofText (h : .prose line ∈ Line.ofText t) : ProseLine line := by
  obtain ⟨hmem, hne, hhead⟩ := Line.mem_sort_prose h
  obtain ⟨l, hl, rfl⟩ := List.mem_map.1 hmem
  have hfeed := mt mem_of_mem_lineContent (notMem_of_mem_lines hl)
  exact ⟨⟨trimmed_lineContent l, hne, hfeed⟩, hhead⟩

theorem prose_paragraphs (t : Text) : Prose (paragraphs (Line.ofText t)) := by
  intro p hp
  obtain ⟨hmem, hne⟩ := List.mem_filter.1 hp
  obtain ⟨part, hpart, rfl⟩ := List.mem_map.1 hmem
  refine ⟨by simpa using hne, fun l hl => ?_⟩
  obtain ⟨line, hline, hprose⟩ := List.mem_filterMap.1 hl
  cases line with
  | prose s =>
    obtain rfl := Option.some.inj hprose
    exact proseLine_of_mem_ofText ((infix_of_mem_splitOn hpart).mem hline)
  | blank => cases hprose
  | tag => cases hprose

theorem paragraphs_append_blank (a b : List Line) :
    paragraphs (a ++ .blank :: b) = paragraphs a ++ paragraphs b := by
  rw [paragraphs, List.splitOn_append_cons_self, List.map_append, List.filter_append, paragraphs,
    paragraphs]

theorem paragraphs_cons_blank (lines : List Line) :
    paragraphs (.blank :: lines) = paragraphs lines := paragraphs_append_blank [] lines

/-- Lines without a blank one among them hold one paragraph at most. -/
theorem paragraphs_run (p ts : List Text) :
    paragraphs (p.map .prose ++ ts.map .tag) = [p].filter (· ≠ []) := by
  have hblank : Line.blank ∉ p.map Line.prose ++ ts.map Line.tag := by simp
  have hprose : (p.map Line.prose ++ ts.map Line.tag).filterMap Line.prose? = p := by
    rw [List.filterMap_append, List.filterMap_map, List.filterMap_map]
    simp [Function.comp_def, Line.prose?]
  rw [paragraphs, List.splitOn_eq_singleton hblank, List.map_singleton, hprose]

theorem paragraphs_prose {p : List Text} (hne : p ≠ []) : paragraphs (p.map .prose) = [p] := by
  simpa [hne] using paragraphs_run p []

theorem paragraphs_tags (ts : List Text) : paragraphs (ts.map .tag) = [] := by
  simpa using paragraphs_run [] ts

/-! ## Descriptions -/

/-- The text of a description. -/
def proseText (ps : List (List Text)) : Text :=
  joinWith "\n\n".toList (ps.map (joinWith "\n".toList))

theorem proseText_ne_nil {ps : List (List Text)} (hps : Prose ps) (hne : ps ≠ []) :
    proseText ps ≠ [] := by
  refine joinWith_ne_nil (by simpa using hne) ?_
  rw [List.forall_mem_map]
  exact fun p hp => joinWith_ne_nil (hps p hp).1 fun l hl => ((hps p hp).2 l hl).ne_nil

/-- A blank line behind every paragraph. -/
theorem lines_proseText {ps : List (List Text)} (hps : Prose ps) (hne : ps ≠ []) :
    Text.lines (proseText ps) ++ [[]] = ps.flatMap (· ++ [[]]) := by
  induction ps with
  | nil => exact absurd rfl hne
  | cons p ps ih =>
    obtain ⟨⟨hpne, hp⟩, hps⟩ := List.forall_mem_cons.1 hps
    by_cases hnil : ps = []
    · rw [hnil, proseText, List.map_singleton, joinWith_singleton,
        lines_joinWith fun l hl => (hp l hl).toSolid]
      simp
    · have hsplit : proseText (p :: ps) =
          joinWith "\n".toList p ++ '\n' :: ([] ++ '\n' :: proseText ps) := by
        rw [proseText, List.map_cons, joinWith_cons _ _ (by simpa using hnil)]
        simp [proseText]
      rw [hsplit, lines_joinWith_append (fun l hl => (hp l hl).oneLine) hpne,
        lines_append_lineFeed ⟨by decide, by decide⟩, List.append_assoc, List.cons_append,
        ih hps hnil, List.flatMap_cons]
      simp

theorem sort_flatMap {ps : List (List Text)} (hps : Prose ps) :
    Line.sort false (ps.flatMap (· ++ [[]])) = ps.flatMap fun p => p.map .prose ++ [.blank] := by
  induction ps with
  | nil => rfl
  | cons p ps ih =>
    obtain ⟨⟨-, hp⟩, hps⟩ := List.forall_mem_cons.1 hps
    rw [List.flatMap_cons, List.append_assoc, List.singleton_append,
      Line.sort_prose fun l hl => ⟨(hp l hl).ne_nil, (hp l hl).noTag⟩, ih hps, List.flatMap_cons]
    simp

theorem paragraphs_flatMap {ps : List (List Text)} (hps : Prose ps) :
    paragraphs (ps.flatMap fun p => p.map .prose ++ [.blank]) = ps := by
  induction ps with
  | nil => rfl
  | cons p ps ih =>
    obtain ⟨⟨hne, -⟩, hps⟩ := List.forall_mem_cons.1 hps
    rw [List.flatMap_cons, List.append_assoc, List.singleton_append, paragraphs_append_blank,
      paragraphs_prose hne, ih hps, List.singleton_append]

/-! ## Rendered doc blocks -/

variable {d : Docstring}

theorem lines_render (h : ∀ l ∈ d.tagLines ++ d.descriptionLines, OneLine l) :
    Text.lines (render d) =
      [] :: (d.tagLines ++ d.descriptionLines).map border ++ [" ".toList] := by
  have hborder : ∀ l ∈ (d.tagLines ++ d.descriptionLines).map border, OneLine l := by
    rw [List.forall_mem_map]
    exact fun l hl => oneLine_border (h l hl)
  have hfold : render d = [] ++ '\n' ::
      (((d.tagLines ++ d.descriptionLines).map border).flatMap (· ++ ['\n']) ++ " ".toList) := by
    rw [render, List.flatMap_map]
    rfl
  rw [hfold, lines_append_lineFeed ⟨by decide, by decide⟩, lines_flatMap hborder]
  rfl

/-- The lines of a description, with the blank line that ends it. -/
theorem descriptionLines_append {ps : List (List Text)} (hps : Prose ps)
    (hd : d.description = proseText ps) :
    d.descriptionLines ++ [[]] = [] :: ps.flatMap (· ++ [[]]) := by
  rw [descriptionLines, hd]
  by_cases hne : ps = []
  · rw [hne]
    rfl
  · rw [if_neg (proseText_ne_nil hps hne), List.cons_append, lines_proseText hps hne]

theorem trimmed_of_mem_flatMap {ps : List (List Text)} (hps : Prose ps)
    (h : line ∈ ps.flatMap (· ++ [[]])) : Trimmed line ∧ '\n' ∉ line := by
  obtain ⟨p, hp, hline⟩ := List.mem_flatMap.1 h
  rcases List.mem_append.1 hline with hline | hline
  · have := (hps p hp).2 line hline
    exact ⟨this.toTrimmed, this.noFeed⟩
  · rw [List.mem_singleton.1 hline]
    exact ⟨trimmed_nil, by simp⟩

theorem trimmed_of_mem_descriptionLines {ps : List (List Text)} (hps : Prose ps)
    (hd : d.description = proseText ps) (h : line ∈ d.descriptionLines) :
    Trimmed line ∧ '\n' ∉ line := by
  have hmem : line ∈ [] :: ps.flatMap (· ++ [[]]) :=
    descriptionLines_append hps hd ▸ List.mem_append_left [[]] h
  rcases List.mem_cons.1 hmem with rfl | hmem
  · exact ⟨trimmed_nil, by simp⟩
  · exact trimmed_of_mem_flatMap hps hmem

/-- The lines of a rendered doc block, sorted: the tags, a blank line, the paragraphs. -/
theorem ofText_render {ps : List (List Text)} (hps : Prose ps) (hd : d.description = proseText ps)
    (htags : ∀ l ∈ d.tagLines, OneLine l ∧ l.head? = some '@') :
    Line.ofText (render d) = .blank :: ((d.tagLines.map trim).map .tag ++
      .blank :: ps.flatMap fun p => p.map .prose ++ [.blank]) := by
  have hdesc {l : Text} (h : l ∈ d.descriptionLines) := trimmed_of_mem_descriptionLines hps hd h
  have hline : ∀ l ∈ d.tagLines ++ d.descriptionLines, OneLine l :=
    List.forall_mem_append.2 ⟨fun l hl => (htags l hl).1,
      fun l hl => ⟨(hdesc hl).2, (hdesc hl).1.getLast?_ne_of_blank (by decide)⟩⟩
  have hhead : ∀ l ∈ d.tagLines.map trim, l.head? = some '@' := by
    rw [List.forall_mem_map]
    intro l hl
    obtain ⟨t, rfl⟩ : ∃ t, l = '@' :: t := List.head?_eq_some_iff.1 (htags l hl).2
    rw [trim_cons_of_not_blank (by decide)]
    rfl
  have hcontents : (Text.lines (render d)).map lineContent =
      [] :: (d.tagLines.map trim ++ [] :: ps.flatMap (· ++ [[]])) := by
    have htrim : d.descriptionLines.map trim = d.descriptionLines :=
      map_eq_self_iff.2 fun l hl => (hdesc hl).1.trim_eq
    have hborder : lineContent ∘ border = trim := funext lineContent_border
    rw [lines_render hline, List.map_append, List.map_cons, List.map_map, hborder, List.map_append,
      htrim, ← descriptionLines_append hps hd]
    simp [lineContent, trimStart, trimEnd, isBlank_space]
  rw [Line.ofText, hcontents, Line.sort_cons_nil, Line.sort_tags hhead, sort_flatMap hps]

variable {ps : List (List Text)} (hps : Prose ps) (hd : d.description = proseText ps)
  (htags : ∀ l ∈ d.tagLines, OneLine l ∧ l.head? = some '@')

include hps hd htags

theorem describe_ofText_render : describe (Line.ofText (render d)) = d.description := by
  rw [describe, ofText_render hps hd htags, paragraphs_cons_blank, paragraphs_append_blank,
    paragraphs_tags, paragraphs_flatMap hps, hd, proseText, List.nil_append]

theorem tagSection_ofText_render :
    tagSection (Line.ofText (render d)) = joinWith "\n".toList (d.tagLines.map trim) := by
  have hprose : (ps.flatMap fun p => p.map Line.prose ++ [.blank]).filterMap Line.tag? = [] := by
    rw [List.filterMap_eq_nil_iff]
    intro l hl
    obtain ⟨p, -, hl⟩ := List.mem_flatMap.1 hl
    rw [List.mem_append, List.mem_map, List.mem_singleton] at hl
    rcases hl with ⟨t, -, rfl⟩ | rfl <;> rfl
  rw [tagSection, ofText_render hps hd htags, List.filterMap_cons_none rfl, List.filterMap_append,
    List.filterMap_cons_none rfl, hprose, List.append_nil, List.filterMap_map]
  exact congrArg _ List.filterMap_some

end HeaderApi.Docstring
