import HeaderApi.Text.Basic

/-!
# Places in text

A place in a text is given by the bytes in front of it.  Not every number of bytes is a place: it
may end inside a character, or behind the text.  The functions here have no answer then.
-/

namespace HeaderApi.Text

/-- What stands behind the first `n` bytes. -/
def dropBytes? : (n : Nat) → Text → Option Text
  | 0, t => some t
  | _ + 1, [] => none
  | n + 1, c :: t => if c.utf8Size ≤ n + 1 then dropBytes? (n + 1 - c.utf8Size) t else none

/-- The first `n` bytes. -/
def takeBytes? : (n : Nat) → Text → Option Text
  | 0, _ => some []
  | _ + 1, [] => none
  | n + 1, c :: t =>
    if c.utf8Size ≤ n + 1 then (takeBytes? (n + 1 - c.utf8Size) t).map (c :: ·) else none

/-- The text from byte `start` up to byte `stop`. -/
def slice? (t : Text) (start stop : Nat) : Option Text :=
  if start ≤ stop then (dropBytes? start t).bind (takeBytes? (stop - start)) else none

/-- The text goes on with `mark` behind its first `n` bytes. -/
def StandsAt (mark t : Text) (n : Nat) : Prop := ∃ r, dropBytes? n t = some (mark ++ r)

variable {mark p q r s t : Text} {c : Char} {n start stop : Nat}

theorem byteSize_eq_zero_iff : byteSize t = 0 ↔ t = [] := by
  cases t with
  | nil => simp
  | cons c t => simp [Nat.ne_of_gt c.utf8Size_pos]

/-! ## Cutting at a place -/

theorem dropBytes?_cons_add (c : Char) (t : Text) (n : Nat) :
    dropBytes? (c.utf8Size + n) (c :: t) = dropBytes? n t := by
  have hpos := c.utf8Size_pos
  obtain ⟨k, hk⟩ : ∃ k, c.utf8Size + n = k + 1 := ⟨c.utf8Size + n - 1, by omega⟩
  rw [hk, dropBytes?, if_pos (by omega), show k + 1 - c.utf8Size = n by omega]

theorem takeBytes?_cons_add (c : Char) (t : Text) (n : Nat) :
    takeBytes? (c.utf8Size + n) (c :: t) = (takeBytes? n t).map (c :: ·) := by
  have hpos := c.utf8Size_pos
  obtain ⟨k, hk⟩ : ∃ k, c.utf8Size + n = k + 1 := ⟨c.utf8Size + n - 1, by omega⟩
  rw [hk, takeBytes?, if_pos (by omega), show k + 1 - c.utf8Size = n by omega]

theorem dropBytes?_append (p r : Text) : dropBytes? (byteSize p) (p ++ r) = some r := by
  induction p with
  | nil => cases r <;> rfl
  | cons c p ih => rw [byteSize_cons, List.cons_append, dropBytes?_cons_add, ih]

theorem dropBytes?_eq_some_iff : dropBytes? n t = some r ↔ ∃ p, t = p ++ r ∧ byteSize p = n := by
  constructor
  · intro h
    fun_induction dropBytes? n t with
    | case1 t => exact ⟨[], by simpa using h, rfl⟩
    | case2 => cases h
    | case3 n c t hc ih =>
      obtain ⟨p, rfl, hp⟩ := ih h
      exact ⟨c :: p, rfl, by rw [byteSize_cons]; omega⟩
    | case4 => cases h
  · rintro ⟨p, rfl, rfl⟩
    exact dropBytes?_append p r

theorem takeBytes?_append (s r : Text) : takeBytes? (byteSize s) (s ++ r) = some s := by
  induction s with
  | nil => simp [takeBytes?]
  | cons c s ih => rw [byteSize_cons, List.cons_append, takeBytes?_cons_add, ih, Option.map_some]

theorem takeBytes?_eq_some_iff : takeBytes? n t = some s ↔ ∃ r, t = s ++ r ∧ byteSize s = n := by
  constructor
  · intro h
    fun_induction takeBytes? n t generalizing s with
    | case1 t => exact ⟨t, by simp [← Option.some.inj h], by simp [← Option.some.inj h]⟩
    | case2 => cases h
    | case3 n c t hc ih =>
      obtain ⟨s, hs, rfl⟩ := Option.map_eq_some_iff.1 h
      obtain ⟨r, rfl, hr⟩ := ih hs
      exact ⟨r, rfl, by rw [byteSize_cons]; omega⟩
    | case4 => cases h
  · rintro ⟨r, rfl, rfl⟩
    exact takeBytes?_append s r

/-- Places are the same where as many bytes stand in front. -/
theorem append_inj_of_byteSize (h : p ++ r = q ++ s) (hsize : byteSize p = byteSize q) :
    p = q ∧ r = s := by
  have hp := takeBytes?_append p r
  have hr := dropBytes?_append p r
  rw [h, hsize] at hp hr
  have hq := takeBytes?_append q s
  have hs := dropBytes?_append q s
  exact ⟨Option.some.inj (hp.symm.trans hq), Option.some.inj (hr.symm.trans hs)⟩

/-! ## Slices -/

theorem slice?_eq_some_iff : slice? t start stop = some s ↔
    ∃ p r, t = p ++ (s ++ r) ∧ byteSize p = start ∧ stop = start + byteSize s := by
  rw [slice?]
  split
  next hle =>
    rw [Option.bind_eq_some_iff]
    constructor
    · rintro ⟨behind, hdrop, htake⟩
      obtain ⟨p, rfl, hp⟩ := dropBytes?_eq_some_iff.1 hdrop
      obtain ⟨r, rfl, hs⟩ := takeBytes?_eq_some_iff.1 htake
      exact ⟨p, r, rfl, hp, by omega⟩
    · rintro ⟨p, r, rfl, hp, rfl⟩
      exact ⟨s ++ r, dropBytes?_eq_some_iff.2 ⟨p, rfl, hp⟩,
        takeBytes?_eq_some_iff.2 ⟨r, rfl, by omega⟩⟩
  next hle =>
    constructor
    · intro h
      cases h
    · rintro ⟨p, r, -, -, rfl⟩
      omega

/-- From a known place, a slice is what the text goes on with. -/
theorem slice?_append_eq_some_iff : slice? (p ++ t) (byteSize p) stop = some s ↔
    ∃ r, t = s ++ r ∧ stop = byteSize p + byteSize s := by
  rw [slice?_eq_some_iff]
  constructor
  · rintro ⟨q, r, h, hq, hstop⟩
    obtain ⟨rfl, rfl⟩ := append_inj_of_byteSize h hq.symm
    exact ⟨r, rfl, hstop⟩
  · rintro ⟨r, rfl, hstop⟩
    exact ⟨p, r, rfl, rfl, hstop⟩

/-! ## Marks -/

theorem standsAt_iff : StandsAt mark t n ↔ ∃ p r, t = p ++ (mark ++ r) ∧ byteSize p = n := by
  simp only [StandsAt, dropBytes?_eq_some_iff]
  exact exists_comm

theorem standsAt_append_iff : StandsAt mark (p ++ t) (byteSize p) ↔ mark <+: t := by
  rw [StandsAt, dropBytes?_append]
  simp only [Option.some.injEq, eq_comm (a := t)]
  rfl

theorem standsAt_append_append_iff :
    StandsAt mark (p ++ (s ++ t)) (byteSize p + byteSize s) ↔ mark <+: t := by
  rw [← List.append_assoc, ← byteSize_append, standsAt_append_iff]

end HeaderApi.Text
