import HeaderApi.Proofs.Text.Bytes
import HeaderApi.Proofs.Text.Line

/-!
# Carriage returns at line ends

A text with a carriage return in front of each line feed is cut at the same marks
(`cutAt_withReturns`), and a place in it is further on by the line feeds before it.
-/

namespace HeaderApi.Text

/-- The text with a carriage return in front of each line feed. -/
def withReturns (t : Text) : Text := t.flatMap fun c => if c = '\n' then ['\r', '\n'] else [c]

/-- How many line feeds there are before byte `n`. -/
def lineFeedsBefore : Text → (n : Nat) → Nat
  | [], _ => 0
  | c :: t, n =>
    if n = 0 then 0 else (if c = '\n' then 1 else 0) + lineFeedsBefore t (n - c.utf8Size)

variable {a mark p r t : Text} {c : Char}

/-! ## Texts put together -/

@[simp] theorem withReturns_nil : withReturns [] = [] := rfl

theorem withReturns_lineFeed (t : Text) :
    withReturns ('\n' :: t) = '\r' :: '\n' :: withReturns t := rfl

theorem withReturns_cons (hc : c ≠ '\n') (t : Text) :
    withReturns (c :: t) = c :: withReturns t := by
  rw [withReturns, List.flatMap_cons, if_neg hc, withReturns]
  rfl

theorem withReturns_append (s t : Text) :
    withReturns (s ++ t) = withReturns s ++ withReturns t := List.flatMap_append

theorem withReturns_of_notMem (ha : '\n' ∉ a) : withReturns a = a := by
  induction a with
  | nil => rfl
  | cons c a ih =>
    rw [List.mem_cons, not_or] at ha
    rw [withReturns_cons (Ne.symm ha.1), ih ha.2]

/-! ## Bytes -/

theorem lineFeedsBefore_append (p r : Text) :
    lineFeedsBefore (p ++ r) (byteSize p) = p.count '\n' := by
  induction p with
  | nil => cases r <;> rfl
  | cons c p ih =>
    have hpos := c.utf8Size_pos
    rw [List.cons_append, lineFeedsBefore, byteSize_cons, if_neg (by omega),
      Nat.add_sub_cancel_left, ih, List.count_cons, Nat.add_comm]
    simp only [beq_iff_eq]

theorem byteSize_withReturns (t : Text) :
    byteSize (withReturns t) = byteSize t + t.count '\n' := by
  induction t with
  | nil => rfl
  | cons c t ih =>
    by_cases hc : c = '\n'
    · rw [hc, withReturns_lineFeed, byteSize_cons, byteSize_cons, byteSize_cons, ih,
        List.count_cons_self]
      have hr : '\r'.utf8Size = 1 := rfl
      omega
    · rw [withReturns_cons hc, byteSize_cons, byteSize_cons, ih, List.count_cons_of_ne hc,
        Nat.add_assoc]

/-! ## Marks -/

section Marks

variable (hfeed : '\n' ∉ mark) (hreturn : '\r' ∉ mark)

include hfeed hreturn

theorem after?_withReturns (t : Text) :
    after? mark (withReturns t) = (after? mark t).map withReturns := by
  induction mark generalizing t with
  | nil => rw [after?_nil, after?_nil, Option.map_some]
  | cons m mark ih =>
    rw [List.mem_cons, not_or] at hfeed hreturn
    cases t with
    | nil => rfl
    | cons c t =>
      by_cases hc : c = '\n'
      · rw [hc, withReturns_lineFeed, after?, after?, if_neg (Ne.symm hreturn.1),
          if_neg (Ne.symm hfeed.1), Option.map_none]
      · rw [withReturns_cons hc, after?, after?]
        by_cases hm : m = c
        · rw [if_pos hm, if_pos hm, ih hfeed.2 hreturn.2]
        · rw [if_neg hm, if_neg hm, Option.map_none]

theorem isPrefix_withReturns_iff : mark <+: withReturns t ↔ mark <+: t := by
  rw [← not_iff_not, ← after?_eq_none_iff, ← after?_eq_none_iff, after?_withReturns hfeed hreturn,
    Option.map_eq_none_iff]

/-- The text is cut at the same place. -/
theorem cutAt_withReturns (hne : mark ≠ []) (t : Text) :
    cutAt mark (withReturns t) = (cutAt mark t).map (Prod.map withReturns withReturns) := by
  obtain ⟨m, mark, rfl⟩ := List.exists_cons_of_ne_nil hne
  have hafter := after?_withReturns hfeed hreturn
  rw [List.mem_cons, not_or] at hfeed hreturn
  induction t with
  | nil => rfl
  | cons c t ih =>
    by_cases hc : c = '\n'
    · have hnone : ∀ {d} t, m ≠ d → after? (m :: mark) (d :: t) = none := fun _ h => if_neg h
      rw [hc, withReturns_lineFeed, cutAt, hnone _ (Ne.symm hreturn.1), cutAt,
        hnone _ (Ne.symm hfeed.1), cutAt, hnone _ (Ne.symm hfeed.1), ih]
      cases cutAt (m :: mark) t <;> rfl
    · have hhead := hafter (c :: t)
      rw [withReturns_cons hc] at hhead ⊢
      rw [cutAt, cutAt, hhead]
      cases after? (m :: mark) (c :: t) with
      | some r => rfl
      | none =>
        rw [Option.map_none, ih]
        cases cutAt (m :: mark) t with
        | none => rfl
        | some cut => simp [withReturns_cons hc]

end Marks

end HeaderApi.Text
