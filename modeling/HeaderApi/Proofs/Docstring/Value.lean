import HeaderApi.Docstring.Render
import HeaderApi.Docstring.Tag
import HeaderApi.Proofs.Text.Parts

/-!
# Reading rendered values

The value of a tag is read, rendered and read again.  A rendered value is squeezed before it is
read, which acts by itself on either side of each separator that rendering writes.  Two things can
get lost.  An owner that ends with a colon makes the separator `::` begin one character early.  And
two spaces may stand next to each other where a parenthesis stood between them.
-/

namespace HeaderApi

open Text

variable {a b v : Text} {c : Char}

/-! ## Names -/

theorem trimmed_joined (ha : Trimmed a) (hb : Trimmed b) : Trimmed (a ++ "::".toList ++ b) := by
  rw [trimmed_iff]
  calc trim (a ++ "::".toList ++ b)
      = trim (a ++ ':' :: ([':'] ++ b)) := by simp
    _ = trimStart a ++ ':' :: trimEnd ([] ++ ':' :: b) := trim_append_cons (by decide) _ _
    _ = trimStart a ++ ':' :: ([] ++ ':' :: trimEnd b) := by
      rw [trimEnd_append_cons (by decide)]
    _ = a ++ "::".toList ++ b := by simp [ha.trimStart_eq, hb.trimEnd_eq]

theorem neat_joined (ha : Neat a) (hb : Neat b) : Neat (a ++ "::".toList ++ b) := by
  rw [neat_iff, squeeze_eq_trim_collapse]
  have hcollapse : collapse (a ++ "::".toList ++ b) = a ++ "::".toList ++ b := by
    calc collapse (a ++ "::".toList ++ b)
        = collapse (a ++ ':' :: ([':'] ++ b)) := by simp
      _ = collapse a ++ ':' :: collapse ([] ++ ':' :: b) := collapse_append_cons (by decide) _ _
      _ = collapse a ++ ':' :: ([] ++ ':' :: collapse b) := by
        rw [collapse_append_cons (by decide), collapse_nil]
      _ = a ++ "::".toList ++ b := by simp [ha.collapse_eq, hb.collapse_eq]
  rw [hcollapse, (trimmed_joined ha.toTrimmed hb.toTrimmed).trim_eq]

namespace QualifiedName

/-- Names that reading can give. -/
inductive Readable : QualifiedName → Prop where
  | bare {name : Text} (hname : Neat name) (hmark : ¬ "::".toList <:+: name) : Readable (bare name)
  | owned {name owner : Text} (hname : Neat name) (howner : Neat owner)
      (hmark : ¬ "::".toList <:+: owner) : Readable ⟨name, some owner⟩

theorem readable_read (hv : Neat v) : Readable (read v) := by
  rw [read, hv.trim_eq]
  cases hcut : cutAt "::".toList v with
  | none => exact .bare hv (cutAt_eq_none_iff.1 hcut)
  | some parts =>
    obtain ⟨l, r⟩ := parts
    have hfirst : ¬ "::".toList <:+: l ++ [':'] := first_of_cutAt (m := [':']) (z := ':') hcut
    have hsplit := eq_append_of_cutAt hcut
    refine .owned (hv.trim_of_isInfix ⟨l ++ "::".toList, [], ?_⟩)
      (hv.trim_of_isInfix ⟨[], "::".toList ++ r, ?_⟩) fun h => hfirst ?_
    · rw [hsplit, List.append_nil]
    · rw [hsplit, List.nil_append, List.append_assoc]
    · exact h.trans ((trim_isInfix l).trans (List.prefix_append _ _).isInfix)

theorem mem_render (h : c ∈ (read v).render) : c ∈ v ∨ c ∈ " (,):".toList := by
  rw [read] at h
  cases hcut : cutAt "::".toList (trim v) with
  | none =>
    rw [hcut] at h
    exact .inl (mem_of_mem_trim h)
  | some parts =>
    obtain ⟨l, r⟩ := parts
    have hsplit := eq_append_of_cutAt hcut
    rw [hcut, render, List.mem_append, List.mem_append] at h
    rcases h with (h | h) | h
    · exact .inl (mem_of_mem_trim (by simp [hsplit, mem_of_mem_trim h]))
    · exact .inr ((show "::".toList ⊆ " (,):".toList by decide) h)
    · exact .inl (mem_of_mem_trim (by simp [hsplit, mem_of_mem_trim h]))

theorem neat_render {n : QualifiedName} (hn : Readable n) : Neat n.render := by
  cases hn with
  | bare hname => exact hname
  | owned hname howner => exact neat_joined howner hname

theorem read_joined (ha : Trimmed a) (hb : Trimmed b) (hmark : ¬ "::".toList <:+: a ++ [':']) :
    read (a ++ "::".toList ++ b) = ⟨b, some a⟩ := by
  have hcut : cutAt "::".toList (a ++ "::".toList ++ b) = some (a, b) :=
    cutAt_append (m := [':']) (z := ':') hmark b
  rw [read, (trimmed_joined ha hb).trim_eq, hcut]
  simp only [ha.trim_eq, hb.trim_eq]

/-- The separator begins early, and one of its colons goes to the name. -/
theorem read_joined_colon (ha : Trimmed (a ++ [':'])) (hb : Trimmed b)
    (hmark : ¬ "::".toList <:+: a ++ [':']) :
    read (a ++ [':'] ++ "::".toList ++ b) = ⟨':' :: b, some (trim a)⟩ := by
  have hcut : cutAt "::".toList (a ++ [':'] ++ "::".toList ++ b) = some (a, ':' :: b) := by
    have := cutAt_append (m := [':']) (z := ':') hmark (':' :: b)
    simpa using this
  rw [read, (trimmed_joined ha hb).trim_eq, hcut]
  simp only [trim_cons_of_not_blank (show isBlank ':' = false by decide), hb.trimEnd_eq]

/-- A name reads back unless its owner ends with a colon. -/
theorem read_render_iff {n : QualifiedName} (hn : Readable n) :
    read n.render = n ↔ ∀ o ∈ n.owner, o.getLast? ≠ some ':' := by
  cases hn with
  | @bare name hname hmark =>
    have hread : read name = QualifiedName.bare name := by
      rw [read, hname.trim_eq, cutAt_eq_none_iff.2 hmark]
    exact iff_of_true hread (by simp [QualifiedName.bare])
  | @owned name owner hname howner hmark =>
    by_cases hlast : owner.getLast? = some ':'
    · obtain ⟨o, rfl⟩ := List.getLast?_eq_some_iff.1 hlast
      rw [render, read_joined_colon howner.toTrimmed hname.toTrimmed hmark]
      simp
    · have hseam : ¬ "::".toList <:+: owner ++ [':'] := by
        rw [List.infix_concat_iff, not_or]
        refine ⟨fun ⟨s, hs⟩ => hlast ?_, hmark⟩
        have howner : s ++ [':'] ++ [':'] = owner ++ [':'] := by simpa using hs
        rw [← List.append_cancel_right howner, List.getLast?_concat]
      rw [render, read_joined howner.toTrimmed hname.toTrimmed hseam]
      simp [hlast]

end QualifiedName

/-! ## Parentheses -/

theorem withoutClosing_append (a b : Text) :
    withoutClosing (a ++ b) = withoutClosing a ++ withoutClosing b := List.filter_append ..

theorem withoutClosing_eq (ha : ')' ∉ a) : withoutClosing a = a := by
  rw [withoutClosing, List.filter_eq_self]
  intro c hc
  rw [decide_eq_true_eq]
  rintro rfl
  exact ha hc

theorem notMem_withoutClosing (a : Text) : ')' ∉ withoutClosing a := by simp [withoutClosing]

theorem mem_of_mem_withoutClosing (h : c ∈ withoutClosing a) : c ∈ a :=
  (List.mem_filter.1 h).1

theorem notMem_collapse (hc : c ≠ ' ') (h : c ∉ a) : c ∉ collapse a :=
  fun hmem => (mem_of_mem_collapse hmem).elim hc h

/-- Text that reading can find in parentheses. -/
structure Enclosed (t : Text) : Prop extends Trimmed t where
  ne_nil : t ≠ []
  noClosing : ')' ∉ t
  space : ∀ c ∈ t, isBlank c = true → c = ' '

theorem Enclosed.collapse_eq_iff (ha : Enclosed a) : collapse a = a ↔ ¬ "  ".toList <:+: a := by
  constructor
  · exact fun h => (h ▸ spaced_collapse a).single
  · exact fun h => Spaced.collapse_eq ⟨ha.space, h⟩

/-- A text and another one in parentheses. -/
def withParens (a b : Text) : Text := a ++ " (".toList ++ b ++ ")".toList

theorem collapse_withParens (a b : Text) :
    collapse (withParens a b) = collapse (a ++ [' ']) ++ '(' :: (collapse b ++ [')']) := by
  calc collapse (withParens a b)
      = collapse ((a ++ [' ']) ++ '(' :: (b ++ [')'])) := by simp [withParens]
    _ = collapse (a ++ [' ']) ++ '(' :: collapse (b ++ [')']) :=
        collapse_append_cons (by decide) _ _
    _ = _ := by rw [collapse_append_cons (c := ')') (by decide), collapse_nil]

theorem squeeze_withParens (a b : Text) :
    squeeze (withParens a b) = trimStart (collapse (withParens a b)) := by
  rw [squeeze_eq_trim_collapse, trim, collapse_withParens, trimStart_append_cons (by decide),
    trimEnd_append_cons (by decide), trimEnd_append_cons (by decide)]
  rfl

/-- What stands in front of the parenthesis is found again, trimmed, and what stands in it. -/
theorem cutAt_withParens (ha : Neat a) (hopen : '(' ∉ a) (hclosing : ')' ∉ b) :
    ∃ name inner, cutAt "(".toList (trimStart (collapse (withParens a b))) = some (name, inner) ∧
      trim name = a ∧ withoutClosing inner = collapse b := by
  refine ⟨trimStart (collapse (a ++ [' '])), collapse b ++ [')'], ?_, ?_, ?_⟩
  · change cutAt ['('] _ = _
    rw [collapse_withParens, trimStart_append_cons (by decide)]
    refine cutAt_singleton (fun h => ?_) _
    have := mem_of_mem_collapse ((trimStart_suffix _).mem h)
    simp [hopen] at this
  · rw [trim_trimStart, ← squeeze_eq_trim_collapse, squeeze_concat_of_blank isBlank_space,
      ha.squeeze_eq]
  · rw [withoutClosing_append, withoutClosing_eq (notMem_collapse (by decide) hclosing)]
    exact List.append_nil _

/-! ## Parameters -/

namespace ParamDoc

/-- Parameters that reading can give. -/
structure Readable (p : ParamDoc) : Prop where
  name : Neat p.name
  noOpen : '(' ∉ p.name
  noColon : ':' ∉ p.name
  modifiers : ∀ m ∈ p.modifiers, Enclosed m ∧ ',' ∉ m ∧ ':' ∉ m
  doc : Neat p.doc

/-- What stands in front of the doc of a parameter. -/
def head (p : ParamDoc) : Text :=
  if p.modifiers = [] then p.name else withParens p.name (joinWith ", ".toList p.modifiers)

/-- Reads what stands in front of the doc of a parameter. -/
def readHead (head doc : Text) : ParamDoc :=
  match cutAt "(".toList head with
  | some (name, inner) => ⟨trim name, commaItems (withoutClosing inner), trim doc⟩
  | none => ⟨trim head, [], trim doc⟩

theorem read_append {head : Text} (h : ':' ∉ head) (doc : Text) :
    read (head ++ ':' :: doc) = readHead head doc := by
  rw [read, show ":".toList = [':'] from rfl, cutAt_singleton h]
  rfl

theorem read_of_notMem (h : ':' ∉ v) : read v = readHead v [] := by
  rw [read, show ":".toList = [':'] from rfl, cutAt_singleton_eq_none h]
  rfl

theorem render_eq (p : ParamDoc) :
    p.render = p.head ++ if p.doc = [] then [] else ':' :: ' ' :: p.doc := by
  rw [render, head]
  split <;> split <;> simp [withParens]

/-- A second reading squeezes the modifiers, which the first one does not. -/
def reread (p : ParamDoc) : ParamDoc := { p with modifiers := p.modifiers.map collapse }

theorem exists_readHead (v : Text) : ∃ head doc, read v = readHead head doc ∧ head <:+: v ∧
    doc <:+: v ∧ ':' ∉ head := by
  cases hcut : cutAt [':'] v with
  | none =>
    have hcolon := mt singleton_infix_iff.2 (cutAt_eq_none_iff.1 hcut)
    exact ⟨v, [], read_of_notMem hcolon, List.infix_rfl, List.nil_infix, hcolon⟩
  | some parts =>
    obtain ⟨head, doc⟩ := parts
    have hcolon := notMem_of_cutAt hcut
    obtain rfl : v = head ++ ':' :: doc := by simpa using eq_append_of_cutAt hcut
    exact ⟨head, doc, read_append hcolon doc, (List.prefix_append _ _).isInfix,
      ⟨head ++ [':'], [], by simp⟩, hcolon⟩

theorem exists_parts (v : Text) : ∃ name inner doc, name <:+: v ∧ inner <:+: v ∧ doc <:+: v ∧
    '(' ∉ name ∧ ':' ∉ name ∧ ':' ∉ inner ∧
    read v = ⟨trim name, commaItems (withoutClosing inner), trim doc⟩ := by
  obtain ⟨head, doc, hread, hhead, hdoc, hcolon⟩ := exists_readHead v
  rw [hread, readHead]
  cases hcut : cutAt "(".toList head with
  | none =>
    have hopen := mt singleton_infix_iff.2 (cutAt_eq_none_iff.1 hcut)
    exact ⟨head, [], doc, hhead, List.nil_infix, hdoc, hopen, hcolon, by simp, rfl⟩
  | some parts =>
    obtain ⟨name, inner⟩ := parts
    have hopen := notMem_of_cutAt hcut
    obtain rfl : head = name ++ '(' :: inner := by simpa using eq_append_of_cutAt hcut
    simp only [List.mem_append, List.mem_cons, not_or] at hcolon
    exact ⟨name, inner, doc, (List.prefix_append _ _).isInfix.trans hhead,
      .trans ⟨name ++ ['('], [], by simp⟩ hhead, hdoc, hopen, hcolon.1, hcolon.2.2, rfl⟩

theorem readable_read (hv : Neat v) : Readable (read v) := by
  obtain ⟨name, inner, doc, hname, hinner, hdoc, hopen, hcolon, hcolon', hread⟩ := exists_parts v
  rw [hread]
  refine ⟨hv.trim_of_isInfix hname, mt mem_of_mem_trim hopen, mt mem_of_mem_trim hcolon, ?_,
    hv.trim_of_isInfix hdoc⟩
  intro m hm
  obtain ⟨hne, s, rfl, hs, hcomma⟩ := mem_commaItems hm
  have hmem {c : Char} (hc : c ∈ trim s) : c ∈ withoutClosing inner := hs.mem (mem_of_mem_trim hc)
  refine ⟨⟨trimmed_trim s, hne, fun h => notMem_withoutClosing inner (hmem h), fun c hc => ?_⟩,
    mt mem_of_mem_trim hcomma, fun h => hcolon' (mem_of_mem_withoutClosing (hmem h))⟩
  exact hv.space c (hinner.mem (mem_of_mem_withoutClosing (hmem hc)))

theorem mem_parts_of_mem_render {p : ParamDoc} (h : c ∈ p.render) :
    c ∈ p.name ∨ (∃ m ∈ p.modifiers, c ∈ m) ∨ c ∈ p.doc ∨ c ∈ " (,):".toList := by
  have mark {s : Text} (hs : s ⊆ " (,):".toList) (h : c ∈ s) :
      c ∈ p.name ∨ (∃ m ∈ p.modifiers, c ∈ m) ∨ c ∈ p.doc ∨ c ∈ " (,):".toList :=
    .inr (.inr (.inr (hs h)))
  rw [render, List.mem_append, List.mem_append] at h
  rcases h with (h | h) | h
  · exact .inl h
  · split at h
    next => exact absurd h List.not_mem_nil
    next =>
      rw [List.mem_append, List.mem_append] at h
      rcases h with (h | h) | h
      · exact mark (by decide) h
      · exact (mem_of_mem_joinWith h).elim (mark (by decide)) fun h => .inr (.inl h)
      · exact mark (by decide) h
  · split at h
    next => exact absurd h List.not_mem_nil
    next =>
      rcases List.mem_append.1 h with h | h
      · exact mark (by decide) h
      · exact .inr (.inr (.inl h))

theorem mem_render (h : c ∈ (read v).render) : c ∈ v ∨ c ∈ " (,):".toList := by
  obtain ⟨name, inner, doc, hname, hinner, hdoc, -, -, -, hread⟩ := exists_parts v
  rw [hread] at h
  rcases mem_parts_of_mem_render h with h | ⟨m, hm, h⟩ | h | h
  · exact .inl (hname.mem (mem_of_mem_trim h))
  · obtain ⟨-, s, rfl, hs, -⟩ := mem_commaItems hm
    exact .inl (hinner.mem (mem_of_mem_withoutClosing (hs.mem (mem_of_mem_trim h))))
  · exact .inl (hdoc.mem (mem_of_mem_trim h))
  · exact .inr h

variable {p : ParamDoc} (hp : Readable p)

include hp

theorem notMem_head : ':' ∉ p.head := by
  rw [head]
  split
  next => exact hp.noColon
  next =>
    intro h
    simp only [withParens, List.mem_append] at h
    rcases h with ((h | h) | h) | h
    · exact hp.noColon h
    · revert h
      decide
    · exact notMem_joinWith (by decide) (fun m hm => (hp.modifiers m hm).2.2) h
    · revert h
      decide

theorem squeeze_head : squeeze p.head = trimStart (collapse p.head) := by
  rw [head]
  split
  next => rw [hp.name.squeeze_eq, hp.name.collapse_eq, hp.name.trimStart_eq]
  next => exact squeeze_withParens _ _

theorem readHead_head (doc : Text) :
    readHead (trimStart (collapse p.head)) doc = ⟨p.name, p.modifiers.map collapse, trim doc⟩ := by
  rw [head]
  by_cases hnil : p.modifiers = []
  · rw [if_pos hnil, hp.name.collapse_eq, hp.name.trimStart_eq, readHead,
      show "(".toList = ['('] from rfl, cutAt_singleton_eq_none hp.noOpen, hp.name.trim_eq, hnil]
    rfl
  · have hclosing : ')' ∉ joinWith ", ".toList p.modifiers :=
      notMem_joinWith (by decide) fun m hm => (hp.modifiers m hm).1.noClosing
    obtain ⟨name, inner, hcut, hname, hinner⟩ := cutAt_withParens hp.name hp.noOpen hclosing
    have hitems : ∀ m ∈ p.modifiers.map collapse, m ≠ [] ∧ Trimmed m ∧ ',' ∉ m := by
      rw [List.forall_mem_map]
      intro m hm
      obtain ⟨henclosed, hcomma, -⟩ := hp.modifiers m hm
      exact ⟨collapse_ne_nil henclosed.ne_nil, trimmed_collapse henclosed.toTrimmed,
        notMem_collapse (by decide) hcomma⟩
    rw [if_neg hnil, readHead, hcut]
    simp only [hname, hinner]
    rw [collapse_joinWith fun m hm => ⟨(hp.modifiers m hm).1.ne_nil,
      (hp.modifiers m hm).1.toTrimmed⟩, commaItems_joinWith hitems]

theorem read_render : read (squeeze p.render) = p.reread := by
  have hcolon : ':' ∉ trimStart (collapse p.head) := fun h =>
    notMem_collapse (by decide) (notMem_head hp) ((trimStart_suffix _).mem h)
  rw [render_eq]
  by_cases hdoc : p.doc = []
  · rw [if_pos hdoc, List.append_nil, squeeze_head hp, read_of_notMem hcolon, readHead_head hp,
      reread, hdoc]
    rfl
  · rw [if_neg hdoc, squeeze_append_cons (by decide), read_append hcolon, readHead_head hp, reread,
      trim_trimEnd, hp.doc.toTrimmed.collapse_cons_space, hp.doc.collapse_eq,
      trim_cons_of_blank isBlank_space, hp.doc.trim_eq]

theorem reread_eq_iff : p.reread = p ↔ ∀ m ∈ p.modifiers, ¬ "  ".toList <:+: m := by
  have hmodifiers : p.reread = p ↔ p.modifiers.map collapse = p.modifiers := by
    cases p
    simp [reread]
  rw [hmodifiers, map_eq_self_iff]
  exact forall₂_congr fun m hm => (hp.modifiers m hm).1.collapse_eq_iff

end ParamDoc

/-! ## Returned types -/

namespace ReturnDoc

/-- Returned types that reading can give. -/
structure Readable (r : ReturnDoc) : Prop where
  type : Neat r.type
  noOpen : '(' ∉ r.type
  containing : ∀ t ∈ r.containing, Enclosed t

/-- A second reading squeezes the contained type, which the first one does not. -/
def reread (r : ReturnDoc) : ReturnDoc := { r with containing := r.containing.map collapse }

/-- The contained type, if anything stands in the parentheses. -/
def contained? (inner : Text) : Option Text :=
  if trim (withoutClosing inner) = [] then none else some (trim (withoutClosing inner))

theorem exists_parts (v : Text) : ∃ type inner, type <:+: v ∧ inner <:+: v ∧ '(' ∉ type ∧
    read v = ⟨trim type, contained? inner⟩ := by
  rw [read]
  cases hcut : cutAt "(".toList v with
  | none =>
    have hopen := mt singleton_infix_iff.2 (cutAt_eq_none_iff.1 hcut)
    exact ⟨v, [], List.infix_rfl, List.nil_infix, hopen, rfl⟩
  | some parts =>
    obtain ⟨type, inner⟩ := parts
    obtain rfl : v = type ++ '(' :: inner := by simpa using eq_append_of_cutAt hcut
    exact ⟨type, inner, (List.prefix_append _ _).isInfix, ⟨type ++ ['('], [], by simp⟩,
      notMem_of_cutAt hcut, rfl⟩

theorem contained?_eq_some_iff {inner t : Text} :
    contained? inner = some t ↔ t ≠ [] ∧ trim (withoutClosing inner) = t := by
  rw [contained?]
  split <;> simp_all
  rintro rfl
  assumption

theorem readable_read (hv : Neat v) : Readable (read v) := by
  obtain ⟨type, inner, htype, hinner, hopen, hread⟩ := exists_parts v
  rw [hread]
  refine ⟨hv.trim_of_isInfix htype, mt mem_of_mem_trim hopen, fun t ht => ?_⟩
  obtain ⟨hne, rfl⟩ := contained?_eq_some_iff.1 ht
  refine ⟨trimmed_trim _, hne, mt mem_of_mem_trim (notMem_withoutClosing inner), fun c hc => ?_⟩
  exact hv.space c (hinner.mem (mem_of_mem_withoutClosing (mem_of_mem_trim hc)))

theorem mem_render (h : c ∈ (read v).render) : c ∈ v ∨ c ∈ " (,):".toList := by
  obtain ⟨type, inner, htype, hinner, -, hread⟩ := exists_parts v
  rw [hread] at h
  cases hcontained : contained? inner with
  | none =>
    rw [hcontained] at h
    exact .inl (htype.mem (mem_of_mem_trim h))
  | some t =>
    obtain ⟨-, rfl⟩ := contained?_eq_some_iff.1 hcontained
    rw [hcontained, render, List.mem_append, List.mem_append, List.mem_append] at h
    have mark {s : Text} (hs : s ⊆ " (,):".toList) (h : c ∈ s) : c ∈ v ∨ c ∈ " (,):".toList :=
      .inr (hs h)
    rcases h with ((h | h) | h) | h
    · exact .inl (htype.mem (mem_of_mem_trim h))
    · exact mark (by decide) h
    · exact .inl (hinner.mem (mem_of_mem_withoutClosing (mem_of_mem_trim h)))
    · exact mark (by decide) h

theorem read_render {r : ReturnDoc} (hr : Readable r) : read (squeeze r.render) = r.reread := by
  obtain ⟨type, containing⟩ := r
  cases containing with
  | none =>
    have hopen : cutAt ['('] type = none := cutAt_singleton_eq_none hr.noOpen
    rw [render, hr.type.squeeze_eq, read, show "(".toList = ['('] from rfl, hopen]
    exact congrArg (ReturnDoc.mk · none) hr.type.trim_eq
  | some t =>
    have ht := hr.containing t rfl
    obtain ⟨name, inner, hcut, hname, hinner⟩ := cutAt_withParens hr.type hr.noOpen ht.noClosing
    have htrim : trim (collapse t) = collapse t := (trimmed_collapse ht.toTrimmed).trim_eq
    change read (squeeze (withParens type t)) = _
    rw [squeeze_withParens, read, hcut]
    simp only [hname, hinner, htrim, if_neg (collapse_ne_nil ht.ne_nil)]
    rfl

theorem reread_eq_iff {r : ReturnDoc} (hr : Readable r) :
    r.reread = r ↔ ∀ t ∈ r.containing, ¬ "  ".toList <:+: t := by
  have hcontaining : r.reread = r ↔ r.containing.map collapse = r.containing := by
    cases r
    simp [reread]
  rw [hcontaining, option_map_eq_self_iff]
  exact forall₂_congr fun t ht => (hr.containing t ht).collapse_eq_iff

end ReturnDoc

/-! ## Tags -/

namespace Tag

/-- The key that a tag is written with. -/
def spelling : Tag → Text
  | .name _ => "name".toList
  | .kind _ => "type".toList
  | .param _ => "param".toList
  | .raises _ => "raise".toList
  | .see _ => "see".toList
  | .super _ => "super".toList
  | .since _ => "since".toList
  | .returns _ => "return".toList

def render : Tag → Text
  | .name n => n.render
  | .kind k => k.keyword
  | .param p => p.render
  | .raises ts | .see ts => joinWith ", ".toList ts
  | .super t | .since t => t
  | .returns r => r.render

/-- What reading a rendered tag gives. -/
def reread : Tag → Tag
  | .name n => .name (.read n.render)
  | .param p => .param p.reread
  | .returns r => .returns r.reread
  | tag => tag

/-- Tags that reading can give. -/
inductive Readable : Tag → Prop where
  | name {n : QualifiedName} (h : n.Readable) : Readable (.name n)
  | kind (k : DocKind) : Readable (.kind k)
  | param {p : ParamDoc} (h : p.Readable) : Readable (.param p)
  | raises {v : Text} (h : Neat v) : Readable (.raises (commaItems v))
  | see {v : Text} (h : Neat v) : Readable (.see (commaItems v))
  | super {t : Text} (h : Neat t) : Readable (.super t)
  | since {t : Text} (h : Neat t) : Readable (.since t)
  | returns {r : ReturnDoc} (h : r.Readable) : Readable (.returns r)

variable {offset : Nat} {key : Text} {tag : Tag}

theorem readable_of_read (h : read offset key v = .ok tag) (hv : Neat v) : Readable tag := by
  rw [read] at h
  split at h
  case h_1 => cases h
  case h_3 =>
    split at h
    next k _ =>
      obtain rfl := Except.ok.inj h
      exact .kind k
    next => cases h
  all_goals obtain rfl := Except.ok.inj h
  · exact .name (QualifiedName.readable_read hv)
  · exact .param (ParamDoc.readable_read hv)
  · exact .raises hv
  · exact .see hv
  · exact .super (hv.trim_of_isInfix List.infix_rfl)
  · exact .since (hv.trim_of_isInfix List.infix_rfl)
  · exact .returns (ReturnDoc.readable_read hv)

theorem mem_render (h : read offset key v = .ok tag) (hc : c ∈ tag.render) :
    c ∈ v ∨ c ∈ " (,):".toList := by
  have list {v : Text} (hc : c ∈ joinWith ", ".toList (commaItems v)) :
      c ∈ v ∨ c ∈ " (,):".toList := by
    rcases mem_of_mem_joinWith hc with hc | ⟨t, ht, hc⟩
    · exact .inr ((show ", ".toList ⊆ " (,):".toList by decide) hc)
    · obtain ⟨-, s, rfl, hs, -⟩ := mem_commaItems ht
      exact .inl (hs.mem (mem_of_mem_trim hc))
  rw [read] at h
  split at h
  case h_1 => cases h
  case h_3 =>
    split at h
    next k hk =>
      obtain rfl := Except.ok.inj h
      rw [render, DocKind.keyword_of_ofKeyword? hk] at hc
      exact .inl (mem_of_mem_trim hc)
    next => cases h
  all_goals obtain rfl := Except.ok.inj h
  · exact QualifiedName.mem_render hc
  · exact ParamDoc.mem_render hc
  · exact list hc
  · exact list hc
  · exact .inl (mem_of_mem_trim hc)
  · exact .inl (mem_of_mem_trim hc)
  · exact ReturnDoc.mem_render hc

theorem trim_squeeze (hv : Neat v) : trim (squeeze v) = v := by rw [hv.squeeze_eq, hv.trim_eq]

theorem commaItems_squeeze_joinWith (hv : Neat v) :
    commaItems (squeeze (joinWith ", ".toList (commaItems v))) = commaItems v := by
  have hneat : ∀ t ∈ commaItems v, t ≠ [] ∧ Neat t ∧ ',' ∉ t := by
    intro t ht
    obtain ⟨hne, s, rfl, hs, hcomma⟩ := mem_commaItems ht
    exact ⟨hne, hv.trim_of_isInfix hs, mt mem_of_mem_trim hcomma⟩
  have htrimmed : ∀ t ∈ commaItems v, t ≠ [] ∧ Trimmed t :=
    fun t ht => ⟨(hneat t ht).1, (hneat t ht).2.1.toTrimmed⟩
  have hcollapse : (commaItems v).map collapse = commaItems v :=
    map_eq_self_iff.2 fun t ht => (hneat t ht).2.1.collapse_eq
  rw [squeeze_eq_trim_collapse, collapse_joinWith htrimmed, hcollapse,
    (trimmed_joinWith htrimmed).trim_eq, commaItems_joinWith]
  exact fun t ht => ⟨(hneat t ht).1, (hneat t ht).2.1.toTrimmed, (hneat t ht).2.2⟩

theorem neat_keyword (k : DocKind) : Neat k.keyword := by
  rw [neat_iff]
  cases k <;> decide +kernel

/-- A tag that was read and rendered is read again. -/
theorem read_render (h : Readable tag) (offset : Nat) :
    read offset tag.spelling (squeeze tag.render) = .ok tag.reread := by
  cases h with
  | name h =>
    exact congrArg (fun v => Except.ok (Tag.name (.read v)))
      (QualifiedName.neat_render h).squeeze_eq
  | kind k =>
    have hkey : Key.ofText? "type".toList = some .type := by decide
    have hword : DocKind.ofKeyword? (trim (squeeze k.keyword)) = some k := by
      rw [(neat_keyword k).squeeze_eq, (neat_keyword k).trim_eq, DocKind.ofKeyword?_keyword]
    change read offset "type".toList (squeeze k.keyword) = .ok (.kind k)
    simp only [read, hkey, hword]
  | param h => exact congrArg (fun p => Except.ok (Tag.param p)) (ParamDoc.read_render h)
  | raises h =>
    exact congrArg (fun ts => Except.ok (Tag.raises ts)) (commaItems_squeeze_joinWith h)
  | see h => exact congrArg (fun ts => Except.ok (Tag.see ts)) (commaItems_squeeze_joinWith h)
  | super h => exact congrArg (fun t => Except.ok (Tag.super t)) (trim_squeeze h)
  | since h => exact congrArg (fun t => Except.ok (Tag.since t)) (trim_squeeze h)
  | returns h => exact congrArg (fun r => Except.ok (Tag.returns r)) (ReturnDoc.read_render h)

end Tag

end HeaderApi
