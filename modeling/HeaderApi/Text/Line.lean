import HeaderApi.Text.Basic

/-!
# Lines

A line ends with a line feed, or with the text.  `physicalLines` keeps the line feeds and so loses
nothing; `lines` drops them, together with a carriage return right before.
-/

namespace HeaderApi.Text

def physicalLines : Text → List Text
  | [] => []
  | c :: t =>
    if c = '\n' then [c] :: physicalLines t
    else
      match physicalLines t with
      | [] => [[c]]
      | l :: ls => (c :: l) :: ls

@[simp] theorem flatten_physicalLines (t : Text) : (physicalLines t).flatten = t := by
  induction t with
  | nil => rfl
  | cons c t ih =>
    by_cases h : c = '\n'
    · simp [physicalLines, h, ih]
    · rw [physicalLines, if_neg h]
      split <;> simp_all

/-- A line without its line feed or carriage return and line feed. -/
def chomp (line : Text) : Text :=
  match before? ['\n'] line with
  | none => line
  | some l => (before? ['\r'] l).getD l

def lines (t : Text) : List Text := (physicalLines t).map chomp

end HeaderApi.Text
