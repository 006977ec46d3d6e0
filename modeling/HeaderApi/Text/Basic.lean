/-!
# Text

Text is a list of characters, so that everything said about it is a statement about lists.  Offsets
into text count the bytes of its UTF-8 form.
-/

namespace HeaderApi

abbrev Text := List Char

namespace Text

/-- The bytes of a text in UTF-8. -/
def byteSize : Text → Nat
  | [] => 0
  | c :: t => c.utf8Size + byteSize t

@[simp] theorem byteSize_nil : byteSize [] = 0 := rfl

@[simp] theorem byteSize_cons (c : Char) (t : Text) :
    byteSize (c :: t) = c.utf8Size + byteSize t := rfl

@[simp] theorem byteSize_append (s t : Text) : byteSize (s ++ t) = byteSize s + byteSize t := by
  induction s with
  | nil => simp
  | cons c s ih => simp [ih, Nat.add_assoc]

/-- What follows `lead` in a text that begins with it. -/
def after? : (lead t : Text) → Option Text
  | [], t => some t
  | _ :: _, [] => none
  | a :: lead, c :: t => if a = c then after? lead t else none

@[simp] theorem after?_nil (t : Text) : after? [] t = some t := by cases t <;> rfl

theorem after?_eq_some_iff {lead t r : Text} : after? lead t = some r ↔ t = lead ++ r := by
  induction lead generalizing t with
  | nil => simp [eq_comm]
  | cons a lead ih =>
    cases t with
    | nil => simp [after?]
    | cons c t =>
      by_cases h : a = c
      · simp [after?, h, ih]
      · simp [after?, h, Ne.symm h]

/-- What precedes `trail` in a text that ends with it. -/
def before? (trail t : Text) : Option Text := (after? trail.reverse t.reverse).map List.reverse

theorem before?_eq_some_iff {trail t r : Text} : before? trail t = some r ↔ t = r ++ trail := by
  simp only [before?, Option.map_eq_some_iff, after?_eq_some_iff]
  constructor
  · rintro ⟨s, h, rfl⟩
    simpa using congrArg List.reverse h
  · rintro rfl
    exact ⟨r.reverse, by simp, by simp⟩

/-- The parts of a text around the first occurrence of `mark`. -/
def cutAt (mark : Text) : Text → Option (Text × Text)
  | [] => (after? mark []).map ([], ·)
  | c :: t =>
    match after? mark (c :: t) with
    | some r => some ([], r)
    | none => (cutAt mark t).map fun (l, r) => (c :: l, r)

theorem eq_append_of_cutAt {mark t l r : Text} (h : cutAt mark t = some (l, r)) :
    t = l ++ mark ++ r := by
  induction t generalizing l with
  | nil =>
    obtain ⟨s, hs, h⟩ := Option.map_eq_some_iff.1 h
    obtain ⟨rfl, rfl⟩ := Prod.mk.inj h
    simpa using after?_eq_some_iff.1 hs
  | cons c t ih =>
    rw [cutAt] at h
    split at h
    next s hs =>
      obtain ⟨rfl, rfl⟩ := Prod.mk.inj (Option.some.inj h)
      simpa using after?_eq_some_iff.1 hs
    next =>
      obtain ⟨⟨l', r'⟩, hl, h⟩ := Option.map_eq_some_iff.1 h
      obtain ⟨rfl, rfl⟩ := Prod.mk.inj h
      simp [ih hl]

/-- Whether `mark` occurs anywhere in a text. -/
def has (mark t : Text) : Bool := (cutAt mark t).isSome

/-- The parts laid end to end with `gap` between neighbours. -/
def joinWith (gap : Text) (parts : List Text) : Text := gap.intercalate parts

/-- A number in decimal digits. -/
def decimal (n : Nat) : Text := Nat.toDigits 10 n

/-- A number in hexadecimal digits, the letters in lower case. -/
def hexadecimal (n : Nat) : Text := Nat.toDigits 16 n

end Text

end HeaderApi
