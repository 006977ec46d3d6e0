import HeaderApi.Json.Model

/-!
# Layouts differ in spacing only

Spaces and line feeds between the tokens are all that a layout adds to a value.  What stands between
tokens is found by reading from the left, since a quote mark opens a string, or closes one, or is a
character of one.
-/

namespace HeaderApi

namespace Json

/-- Induction over a value, with the items of an array and the values of an object at hand. -/
@[induction_eliminator]
theorem induction {motive : Json → Prop} (bool : ∀ b, motive (.bool b))
    (str : ∀ s, motive (.str s))
    (arr : ∀ items, (∀ v ∈ items, motive v) → motive (.arr items))
    (obj : ∀ fields, (∀ f ∈ fields, motive f.2) → motive (.obj fields)) : ∀ v, motive v
  | .bool b => bool b
  | .str s => str s
  | .arr items => arr items fun v _ => induction bool str arr obj v
  | .obj fields => obj fields fun f _ => induction bool str arr obj f.2
termination_by v => sizeOf v
decreasing_by
  · next h =>
    have := List.sizeOf_lt_of_mem h
    simp only [Json.arr.sizeOf_spec]
    omega
  · next h =>
    have := List.sizeOf_lt_of_mem h
    cases f
    simp only [Json.obj.sizeOf_spec, Prod.mk.sizeOf_spec] at this ⊢
    omega

variable {α : Type}

theorem writeItems_eq (l : Layout) (n : Nat) (items : List Json) :
    writeItems l n items = items.flatMap fun v => ",".toList ++ l.newline n ++ write l n v := by
  induction items with
  | nil => rfl
  | cons item items ih => rw [writeItems, ih, List.flatMap_cons]

theorem writeFields_eq (l : Layout) (n : Nat) (fields : List (Text × Json)) :
    writeFields l n fields =
      fields.flatMap fun f => ",".toList ++ l.newline n ++ writeField l n f := by
  induction fields with
  | nil => rfl
  | cons field fields ih => rw [writeFields, ih, List.flatMap_cons]

/-- Items one behind another, with a comma between neighbours. -/
def listing (f : α → Text) : List α → Text
  | [] => []
  | a :: items => f a ++ items.flatMap fun b => ",".toList ++ f b

theorem write_compact_arr (n : Nat) (items : List Json) :
    write .compact n (.arr items) =
      "[".toList ++ listing (write .compact (n + 1)) items ++ "]".toList := by
  cases items with
  | nil => rfl
  | cons item items => simp [write, writeItems_eq, listing, Layout.compact]

theorem write_compact_obj (n : Nat) (fields : List (Text × Json)) :
    write .compact n (.obj fields) =
      "\x7b".toList ++ listing (writeField .compact (n + 1)) fields ++ "\x7d".toList := by
  cases fields with
  | nil => rfl
  | cons field fields => simp [write, writeFields_eq, listing, Layout.compact]

/-! ## Escapes -/

/-- The characters that do not stand for themselves inside a string. -/
def marks : List Char := '"' :: '\\' :: (List.range 32).map Char.ofNat

theorem escapedChar_of_notMem_marks {c : Char} (h : c ∉ marks) : escapedChar c = [c] := by
  have hcontrol : ¬c.toNat < 32 := by
    intro hc
    have : c ∈ (List.range 32).map Char.ofNat :=
      List.mem_map.2 ⟨c.toNat, List.mem_range.2 hc, Char.ofNat_toNat c⟩
    exact h (List.mem_cons_of_mem _ (List.mem_cons_of_mem _ this))
  have hne : ∀ d ∈ marks, c ≠ d := by
    rintro d hd rfl
    exact h hd
  rw [escapedChar, if_neg (hne '"' (by decide)), if_neg (hne '\\' (by decide)),
    if_neg (hne '\x08' (by decide)), if_neg (hne '\x0c' (by decide)),
    if_neg (hne '\n' (by decide)), if_neg (hne '\r' (by decide)), if_neg (hne '\t' (by decide)),
    if_neg (by omega), if_neg hcontrol]

/-! ## Reading from the left -/

/-- Where a character stands: between tokens, in a string, or behind a backslash in a string. -/
inductive Place where
  | outside
  | inside
  | escaped
deriving DecidableEq

namespace Place

/-- The place behind a character. -/
def after : Place → Char → Place
  | .outside, c => if c = '"' then .inside else .outside
  | .inside, c => if c = '"' then .outside else if c = '\\' then .escaped else .inside
  | .escaped, _ => .inside

end Place

/-- A text without the spaces and line feeds that stand outside of its strings. -/
def dropSpacing : Place → Text → Text
  | _, [] => []
  | p, c :: t =>
    if p = .outside ∧ (c = ' ' ∨ c = '\n') then dropSpacing p t
    else c :: dropSpacing (p.after c) t

theorem dropSpacing_append (p : Place) (s t : Text) :
    dropSpacing p (s ++ t) = dropSpacing p s ++ dropSpacing (s.foldl Place.after p) t := by
  induction s generalizing p with
  | nil => rfl
  | cons c s ih =>
    rw [List.cons_append, dropSpacing, dropSpacing, List.foldl_cons]
    split
    · next h =>
      obtain ⟨rfl, hc⟩ := h
      have hout : Place.outside.after c = .outside := by
        obtain rfl | rfl := hc <;> rfl
      rw [ih, hout]
    · rw [ih, List.cons_append]

/-- Reading `s` leads from one place to another, and leaves `s'` on the way. -/
structure Condenses (p q : Place) (s s' : Text) : Prop where
  place_eq : s.foldl Place.after p = q
  dropSpacing_eq : dropSpacing p s = s'

namespace Condenses

variable {p q r : Place} {s s' t t' : Text}

theorem nil (p : Place) : Condenses p p [] [] := ⟨rfl, rfl⟩

theorem append (hs : Condenses p q s s') (ht : Condenses q r t t') :
    Condenses p r (s ++ t) (s' ++ t') where
  place_eq := by rw [List.foldl_append, hs.place_eq, ht.place_eq]
  dropSpacing_eq := by
    rw [dropSpacing_append, hs.place_eq, hs.dropSpacing_eq, ht.dropSpacing_eq]

theorem flatMap {f f' : α → Text} {items : List α} (h : ∀ a ∈ items, Condenses p p (f a) (f' a)) :
    Condenses p p (items.flatMap f) (items.flatMap f') := by
  induction items with
  | nil => exact nil p
  | cons a items ih =>
    rw [List.forall_mem_cons] at h
    rw [List.flatMap_cons, List.flatMap_cons]
    exact h.1.append (ih h.2)

end Condenses

/-! ## Strings -/

/-- No escape leaves the string that it stands in. -/
theorem condenses_escapedChar (c : Char) :
    Condenses .inside .inside (escapedChar c) (escapedChar c) := by
  by_cases h : c ∈ marks
  · have hmarks : ∀ d ∈ marks, (escapedChar d).foldl Place.after .inside = .inside ∧
        dropSpacing .inside (escapedChar d) = escapedChar d := by decide +kernel
    exact ⟨(hmarks c h).1, (hmarks c h).2⟩
  · have hquote : c ≠ '"' := fun hc => h (hc ▸ by decide)
    have hslash : c ≠ '\\' := fun hc => h (hc ▸ by decide)
    rw [escapedChar_of_notMem_marks h]
    constructor <;> simp [Place.after, dropSpacing, hquote, hslash]

theorem condenses_quote (s : Text) : Condenses .outside .outside (quote s) (quote s) := by
  have hopen : Condenses .outside .inside ['"'] ['"'] := ⟨rfl, rfl⟩
  have hclose : Condenses .inside .outside ['"'] ['"'] := ⟨rfl, rfl⟩
  exact (hopen.append (.flatMap fun c _ => condenses_escapedChar c)).append hclose

/-! ## Values -/

/-- A layout that puts only spaces and line feeds between tokens. -/
structure Layout.Spacing (l : Layout) : Prop where
  newline (n : Nat) : Condenses .outside .outside (l.newline n) []
  colon : Condenses .outside .outside l.colon ":".toList

theorem Layout.spacing_compact : Spacing .compact where
  newline _ := .nil _
  colon := ⟨rfl, rfl⟩

theorem condenses_replicate_space (k : Nat) :
    Condenses .outside .outside (List.replicate k ' ') [] := by
  have hspace : Condenses .outside .outside [' '] [] := ⟨rfl, rfl⟩
  induction k with
  | zero => exact .nil _
  | succ k ih => exact hspace.append ih

theorem Layout.spacing_pretty (indent : Nat) : Spacing (.pretty indent) where
  newline n :=
    have hfeed : Condenses .outside .outside ['\n'] [] := ⟨rfl, rfl⟩
    hfeed.append (condenses_replicate_space (indent * n))
  colon := ⟨rfl, rfl⟩

/-- Items that are laid out between two brackets. -/
theorem Condenses.enclosed {l : Layout} (hl : l.Spacing) (n : Nat) {left right : Text}
    (hleft : Condenses .outside .outside left left)
    (hright : Condenses .outside .outside right right) {f f' : α → Text} {a : α} {items : List α}
    (h : ∀ b ∈ a :: items, Condenses .outside .outside (f b) (f' b)) :
    Condenses .outside .outside
      (left ++ l.newline (n + 1) ++ f a ++
        (items.flatMap fun b => ",".toList ++ l.newline (n + 1) ++ f b) ++ l.newline n ++ right)
      (left ++ listing f' (a :: items) ++ right) := by
  rw [List.forall_mem_cons] at h
  have hcomma : Condenses .outside .outside ",".toList ",".toList := ⟨rfl, rfl⟩
  have hitems : Condenses .outside .outside
      (items.flatMap fun b => ",".toList ++ l.newline (n + 1) ++ f b)
      (items.flatMap fun b => ",".toList ++ f' b) := by
    apply Condenses.flatMap
    intro b hb
    simpa using (hcomma.append (hl.newline _)).append (h.2 b hb)
  have hbegin := (hleft.append (hl.newline (n + 1))).append h.1
  have hend := (hl.newline n).append hright
  simpa [listing] using (hbegin.append hitems).append hend

theorem condenses_write {l : Layout} (hl : l.Spacing) (n : Nat) (v : Json) :
    Condenses .outside .outside (write l n v) (write .compact n v) := by
  induction v generalizing n with
  | bool b => cases b <;> exact ⟨rfl, rfl⟩
  | str s => exact condenses_quote s
  | arr items ih =>
    cases items with
    | nil => exact ⟨rfl, rfl⟩
    | cons item items =>
      rw [write_compact_arr, write, writeItems_eq]
      exact .enclosed hl n ⟨rfl, rfl⟩ ⟨rfl, rfl⟩ fun v hv => ih v hv _
  | obj fields ih =>
    cases fields with
    | nil => exact ⟨rfl, rfl⟩
    | cons field fields =>
      rw [write_compact_obj, write, writeFields_eq]
      refine .enclosed hl n ⟨rfl, rfl⟩ ⟨rfl, rfl⟩ ?_
      rintro ⟨key, v⟩ hf
      exact ((condenses_quote key).append hl.colon).append (ih _ hf _)

/-- Without its spacing, every rendering of a value is the one on a single line. -/
theorem dropSpacing_render (indent : Int) (v : Json) :
    dropSpacing .outside (v.render indent) = write .compact 0 v := by
  rw [render]
  split
  · exact (condenses_write Layout.spacing_compact 0 v).dropSpacing_eq
  · exact (condenses_write (Layout.spacing_pretty _) 0 v).dropSpacing_eq

example : dropSpacing .outside ((Json.arr [.str "a \" b".toList]).render 2) =
    "[\"a \\\" b\"]".toList := by decide

end Json

/-- Whatever the indentation is, the text without the spaces and line feeds outside of its strings is
the compact one. -/
theorem dropSpacing_renderModules (indent : Int) (modules : OrderedMap Text ApiModule) :
    Json.dropSpacing .outside (renderModules indent modules) = renderModules (-1) modules := by
  rw [renderModules, Json.dropSpacing_render]
  rfl

end HeaderApi
