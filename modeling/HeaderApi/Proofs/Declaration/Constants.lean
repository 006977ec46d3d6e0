import HeaderApi.Code
import HeaderApi.Proofs.Declaration.Enum

/-!
# Enums with any initializers

An initializer is an expression, which may hold commas between parentheses.  The entries of an enum
are cut at all commas, so an enum is read as it was written if and only if its initializers hold
none (`entries_kept_iff`).  Its name, and whether it is a set of flags, are read in any case.
-/

namespace HeaderApi.Grammar

open Text

/-! ## Expressions -/

/-- Parentheses are balanced, with `depth` of them open in front of the text, and commas stand
between parentheses only. -/
def balanced : (depth : Nat) → Text → Bool
  | depth, [] => depth = 0
  | depth, c :: t =>
    if c = '(' then balanced (depth + 1) t
    else if c = ')' then 0 < depth && balanced (depth - 1) t
    else (c ≠ ',' || 0 < depth) && balanced depth t

structure Word where
  text : Text
  ne_nil : text ≠ []
  word : ∀ c ∈ text, isWord c = true

structure Expression where
  text : Text
  ne_nil : text ≠ []
  trimmed : Trimmed text
  plain : ∀ c ∈ ";\x7b\x7d".toList, c ∉ text
  balanced : balanced 0 text = true

structure Constant where
  name : Word
  init : Option Expression

namespace Constant

def text (c : Constant) : Text := enumeratorText c.name.text (c.init.map (·.text))

/-- Whether the initializer shifts. -/
def shifts (c : Constant) : Bool := c.init.any fun i => has "<<".toList i.text

def NoCommas (c : Constant) : Prop := ∀ i ∈ c.init, ',' ∉ i.text

end Constant

structure EnumDecl where
  isTypedef : Bool
  tag : Option Word
  constants : List Constant
  ne_nil : constants ≠ []
  name : Word

namespace EnumDecl

def text (d : EnumDecl) : Text :=
  enumText d.isTypedef (d.tag.map (·.text)) (joinWith ", ".toList (d.constants.map Constant.text))
    d.name.text

def isFlags (d : EnumDecl) : Bool := d.constants.any Constant.shifts

/-- One entry for each constant, which is its name alone in a set of flags. -/
def entries (d : EnumDecl) : List Text :=
  d.constants.map fun c => if d.isFlags then c.name.text else c.text

end EnumDecl

/-! ## Commas in expressions -/

variable {depth : Nat} {a b t : Text} {c : Char}

theorem exists_balanced_of_cons (h : balanced depth (c :: t) = true) :
    ∃ depth', balanced depth' t = true := by
  rw [balanced] at h
  split at h
  next => exact ⟨_, h⟩
  next =>
    split at h
    next => exact ⟨_, (Bool.and_eq_true_iff.1 h).2⟩
    next => exact ⟨_, (Bool.and_eq_true_iff.1 h).2⟩

/-- An open parenthesis is closed. -/
theorem close_mem_of_balanced (h : balanced (depth + 1) t = true) : ')' ∈ t := by
  induction t generalizing depth with
  | nil => simp [balanced] at h
  | cons c t ih =>
    rw [balanced] at h
    split at h
    next => exact List.mem_cons_of_mem c (ih h)
    next =>
      split at h
      next hclose => exact hclose ▸ List.mem_cons_self
      next => exact List.mem_cons_of_mem c (ih (Bool.and_eq_true_iff.1 h).2)

/-- A comma stands in front of a parenthesis that closes. -/
theorem close_mem_of_comma (h : balanced depth (a ++ ',' :: b) = true) : ')' ∈ b := by
  induction a generalizing depth with
  | nil =>
    obtain ⟨hdepth, hb⟩ : 0 < depth ∧ balanced depth b = true := by
      simpa [balanced] using h
    obtain ⟨k, rfl⟩ := Nat.exists_eq_succ_of_ne_zero hdepth.ne'
    exact close_mem_of_balanced hb
  | cons c a ih =>
    obtain ⟨depth', h'⟩ := exists_balanced_of_cons h
    exact ih h'

/-! ## Constants -/

namespace Constant

variable (c : Constant)

theorem has_shift_text : has "<<".toList c.text = c.shifts := by
  rw [text, Enum.has_shift_enumeratorText c.name.word, Option.any_map]
  rfl

theorem bareEntry_text : Enum.bareEntry c.text = c.name.text :=
  Enum.bareEntry_enumeratorText c.name.word

theorem trimmed_text : Trimmed c.text :=
  Enum.trimmed_enumeratorText c.name.word c.name.ne_nil
    (Option.forall_mem_map.2 fun i _ => ⟨i.ne_nil, i.trimmed⟩)

theorem notMem_text {d : Char} (hd : d ∈ ";\x7b\x7d".toList) : d ∉ c.text := by
  have hplain : ∀ d ∈ ";\x7b\x7d".toList, isWord d = false ∧ d ∉ " = ".toList := by decide
  refine Enum.notMem_enumeratorText c.name.word (hplain d hd).1 (hplain d hd).2 ?_
  exact Option.forall_mem_map.2 fun i _ => i.plain d hd

theorem commaItems_append_ne_nil (t : Text) : commaItems (c.name.text ++ t) ≠ [] := by
  obtain ⟨d, w, hname⟩ := List.exists_cons_of_ne_nil c.name.ne_nil
  have hword : isWord d = true := c.name.word d (by simp [hname])
  refine commaItems_ne_nil (isBlank_of_isWord hword) ?_ (by simp [hname])
  rintro rfl
  exact absurd hword (by decide)

theorem commaItems_text {c : Constant} (h : c.NoCommas) : commaItems c.text = [c.text] := by
  have hne : c.text ≠ [] := List.append_ne_nil_of_left_ne_nil c.name.ne_nil _
  have hcomma : ',' ∉ c.text :=
    Enum.notMem_enumeratorText c.name.word (by decide) (by decide) (Option.forall_mem_map.2 h)
  exact commaItems_eq_singleton ⟨hne, c.trimmed_text, hcomma⟩

/-- Each comma ends an item, and something stands behind it. -/
theorem length_commaItems_text : (commaItems c.text).length = 1 ↔ c.NoCommas := by
  by_cases hcommas : c.NoCommas
  · exact iff_of_true (congrArg List.length (commaItems_text hcommas)) hcommas
  · refine iff_of_false (fun hlength => ?_) hcommas
    simp only [NoCommas, not_forall, not_not] at hcommas
    obtain ⟨i, hi, hmem⟩ := hcommas
    obtain ⟨a, b, hcut⟩ := List.append_of_mem hmem
    have htext : c.text = (c.name.text ++ (" = ".toList ++ a)) ++ ',' :: b := by
      rw [text, enumeratorText, Option.mem_def.1 hi, Option.map_some, Option.elim_some, hcut]
      simp only [List.append_assoc]
    have hclose : ')' ∈ b := close_mem_of_comma (hcut ▸ i.balanced)
    have hfront := List.length_pos_iff.2 (c.commaItems_append_ne_nil (" = ".toList ++ a))
    have hbehind := List.length_pos_iff.2
      (commaItems_ne_nil (c := ')') (by decide) (by decide) hclose)
    rw [htext, commaItems_append, List.length_append] at hlength
    omega

end Constant

/-! ## Enums -/

namespace EnumDecl

variable (d : EnumDecl)

theorem notMem_body {c : Char} (hc : c ∈ ";\x7b\x7d".toList) :
    c ∉ joinWith ", ".toList (d.constants.map Constant.text) := by
  have hgap : ∀ c ∈ ";\x7b\x7d".toList, c ∉ ", ".toList := by decide
  exact notMem_joinWith (hgap c hc) (List.forall_mem_map.2 fun k _ => k.notMem_text hc)

/-- The entries of an enum are the items between all commas. -/
theorem all_text : Enum.all d.text =
    [{ name := d.name.text, isFlags := d.isFlags,
       entries := (d.constants.flatMap fun c => commaItems c.text).map fun t =>
         if d.isFlags then Enum.bareEntry t else t }] := by
  have htag : ∀ w ∈ d.tag.map (·.text), w ≠ [] ∧ ∀ c ∈ w, isWord c = true :=
    Option.forall_mem_map.2 fun w _ => ⟨w.ne_nil, w.word⟩
  have hflags : (d.constants.map Constant.text).any (has "<<".toList) = d.isFlags := by
    simp only [isFlags, List.any_map, Function.comp_def, Constant.has_shift_text]
  rw [text, Enum.all_enumText d.isTypedef htag
    ⟨d.notMem_body (by decide), d.notMem_body (by decide)⟩ ⟨d.name.ne_nil, d.name.word⟩,
    Enum.ofBody_joinWith, hflags, List.flatMap_map]

/-- Without commas in initializers, what is read is what was written. -/
theorem entries_eq (h : ∀ c ∈ d.constants, c.NoCommas) :
    (d.constants.flatMap fun c => commaItems c.text).map
      (fun t => if d.isFlags then Enum.bareEntry t else t) = d.entries := by
  have hitems : d.constants.flatMap (fun c => commaItems c.text) =
      d.constants.map Constant.text := by
    rw [List.flatMap_congr fun c hc => Constant.commaItems_text (h c hc), List.map_eq_flatMap]
  rw [hitems, List.map_map, entries]
  simp only [Function.comp_def, Constant.bareEntry_text]

/-- An enum is found once, under its name, and is a set of flags if and only if an initializer
shifts.  It has an entry for each constant at least, and it has the entries that were written if and
only if no initializer holds a comma. -/
theorem entries_kept_iff : ∃ entries,
    Enum.all d.text = [⟨d.name.text, d.isFlags, entries⟩] ∧
    d.constants.length ≤ entries.length ∧
    (entries.length = d.constants.length ↔ ∀ c ∈ d.constants, c.NoCommas) ∧
    (entries = d.entries ↔ ∀ c ∈ d.constants, c.NoCommas) := by
  obtain ⟨hle, hlength⟩ := length_flatMap_of_ne_nil (l := d.constants)
    (f := fun c => commaItems c.text) fun c _ => c.commaItems_append_ne_nil _
  simp only [Constant.length_commaItems_text] at hlength
  refine ⟨_, d.all_text, ?_, ?_, fun h => ?_, d.entries_eq⟩
  · rwa [List.length_map]
  · rw [List.length_map, hlength]
  · have hcount := congrArg List.length h
    rw [List.length_map, entries, List.length_map] at hcount
    exact hlength.1 hcount

/-- A flag whose initializer holds a comma, in normalized code.  Two entries are read for it, and
the second one is not a name. -/
theorem exists_entry_cut : ∃ d : EnumDecl, codeOf d.text = d.text ∧ d.isFlags = true ∧
    Enum.all d.text ≠ [⟨d.name.text, d.isFlags, d.entries⟩] ∧
    ∃ e ∈ Enum.all d.text, ∃ entry ∈ e.entries, '(' ∉ entry ∧ ')' ∈ entry :=
  ⟨⟨false, none,
      [⟨⟨"F0".toList, by decide, by decide⟩,
        some ⟨"offsetof (ta_t, len) << 1".toList, by decide, ⟨by decide, by decide⟩, by decide,
          by decide⟩⟩,
        ⟨⟨"F1".toList, by decide, by decide⟩, none⟩],
      by simp, ⟨"myflags".toList, by decide, by decide⟩⟩,
    by decide +kernel, by decide +kernel, by decide +kernel, by decide +kernel⟩

end EnumDecl

end HeaderApi.Grammar
