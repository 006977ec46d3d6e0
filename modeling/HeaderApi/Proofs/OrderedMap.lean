import HeaderApi.OrderedMap
import Mathlib.Data.List.Induction
import Mathlib.Data.List.Nodup

/-!
# Entries of ordered maps

Inserting a new key appends an entry, and inserting a key that is present changes the entry where it
stands.  So of values with one key the last one counts: `lastWith?` names it.
-/

namespace HeaderApi

section LastWith

variable {κ ξ : Type} [DecidableEq κ] {f : ξ → κ} {k : κ} {x : ξ} {xs : List ξ}

/-- The last of some items that has a key. -/
def lastWith? (f : ξ → κ) (k : κ) (xs : List ξ) : Option ξ := (xs.filter (f · = k)).getLast?

theorem lastWith?_concat (f : ξ → κ) (k : κ) (xs : List ξ) (x : ξ) :
    lastWith? f k (xs ++ [x]) = if f x = k then some x else lastWith? f k xs := by
  by_cases h : f x = k <;> simp [lastWith?, h]

theorem lastWith?_append (f : ξ → κ) (k : κ) (xs ys : List ξ) :
    lastWith? f k (xs ++ ys) = (lastWith? f k ys).or (lastWith? f k xs) := by
  rw [lastWith?, List.filter_append, List.getLast?_append, lastWith?, lastWith?]

theorem lastWith?_eq_none (h : ∀ x ∈ xs, f x ≠ k) : lastWith? f k xs = none := by
  rw [lastWith?, List.getLast?_eq_none_iff, List.filter_eq_nil_iff]
  exact fun x hx => by simpa using h x hx

theorem mem_of_lastWith? (h : lastWith? f k xs = some x) : x ∈ xs :=
  (List.mem_filter.1 (List.mem_of_getLast? h)).1

theorem key_of_lastWith? (h : lastWith? f k xs = some x) : f x = k := by
  simpa using (List.mem_filter.1 (List.mem_of_getLast? h)).2

theorem notMem_of_lastWith? (h : lastWith? f k xs = none) : k ∉ xs.map f := by
  rw [lastWith?, List.getLast?_eq_none_iff, List.filter_eq_nil_iff] at h
  intro hk
  obtain ⟨x, hx, rfl⟩ := List.mem_map.1 hk
  exact absurd (decide_eq_true rfl) (h x hx)

/-- Items that are changed but keep their keys. -/
theorem lastWith?_map {g : ξ → ξ} (hg : ∀ x, f (g x) = f x) (k : κ) (xs : List ξ) :
    lastWith? f k (xs.map g) = (lastWith? f k xs).map g := by
  have hkey : (fun x => decide (f x = k)) ∘ g = fun x => decide (f x = k) :=
    funext fun x => by rw [Function.comp_apply, hg]
  rw [lastWith?, List.filter_map, hkey, List.getLast?_map, lastWith?]

/-- Items that stand for others, of which some have none. -/
theorem lastWith?_filterMap {ι : Type} (f : ξ → κ) (g : ι → Option ξ) (k : κ) (xs : List ι) :
    lastWith? f k (xs.filterMap g) = (lastWith? (fun x => (g x).map f) (some k) xs).bind g := by
  induction xs using List.reverseRecOn with
  | nil => rfl
  | append_singleton xs x ih =>
    rw [List.filterMap_append, lastWith?_concat]
    cases hx : g x with
    | none => simp [hx, ih]
    | some y =>
      rw [List.filterMap_cons_some hx, List.filterMap_nil, lastWith?_concat, ih]
      by_cases hk : f y = k <;> simp [hk, hx]

/-- Of items in order, the last one with a key is the one that no other one with it follows. -/
theorem lastWith?_eq_some_iff {g : ξ → Nat} (hxs : xs.Pairwise (g · < g ·)) :
    lastWith? f k xs = some x ↔ x ∈ xs ∧ f x = k ∧ ∀ y ∈ xs, g x < g y → f y ≠ k := by
  constructor
  · intro h
    refine ⟨mem_of_lastWith? h, key_of_lastWith? h, fun y hy hlt hkey => ?_⟩
    obtain ⟨before, hbefore⟩ := List.getLast?_eq_some_iff.1 h
    have hordered := hxs.filter (f · = k)
    have hmem : y ∈ xs.filter (f · = k) := List.mem_filter.2 ⟨hy, by simpa using hkey⟩
    rw [hbefore] at hordered hmem
    rcases List.mem_append.1 hmem with hmem | hmem
    · have := (List.pairwise_append.1 hordered).2.2 y hmem x (by simp)
      omega
    · obtain rfl := List.mem_singleton.1 hmem
      omega
  · rintro ⟨hx, hkey, hlast⟩
    have hmem : x ∈ xs.filter (f · = k) := List.mem_filter.2 ⟨hx, by simpa using hkey⟩
    cases h : lastWith? f k xs with
    | none => exact absurd (hkey ▸ List.mem_map_of_mem hx) (notMem_of_lastWith? h)
    | some y =>
      obtain ⟨before, hbefore⟩ := List.getLast?_eq_some_iff.1 h
      have hordered := hxs.filter (f · = k)
      rw [hbefore] at hordered hmem
      rcases List.mem_append.1 hmem with hmem | hmem
      · have hlt := (List.pairwise_append.1 hordered).2.2 x hmem y (by simp)
        exact absurd (key_of_lastWith? h) (hlast y (mem_of_lastWith? h) hlt)
      · rw [List.mem_singleton.1 hmem]

/-- Each of some items is the last one with its key if and only if the keys are distinct. -/
theorem forall_lastWith?_iff (hxs : xs.Nodup) :
    (∀ x ∈ xs, lastWith? f (f x) xs = some x) ↔ (xs.map f).Nodup := by
  constructor
  · intro h
    refine List.Nodup.map_on (fun x hx y hy hkey => ?_) hxs
    exact Option.some.inj ((h x hx).symm.trans (hkey ▸ h y hy))
  · intro h x hx
    cases hlast : lastWith? f (f x) xs with
    | none => exact absurd (List.mem_map_of_mem hx) (notMem_of_lastWith? hlast)
    | some y =>
      rw [List.inj_on_of_nodup_map h (mem_of_lastWith? hlast) hx (key_of_lastWith? hlast)]

end LastWith

theorem eraseDups_concat {κ : Type} [BEq κ] [LawfulBEq κ] (l : List κ) (k : κ) :
    (l ++ [k]).eraseDups = if k ∈ l then l.eraseDups else l.eraseDups ++ [k] := by
  rw [List.eraseDups_append, List.removeAll]
  split
  next h =>
    rw [List.filter_cons_of_neg (by simpa using h), List.filter_nil, List.eraseDups_nil,
      List.append_nil]
  next h =>
    rw [List.filter_cons_of_pos (by simpa using h), List.filter_nil]
    rfl

namespace OrderedMap

variable {α β : Type} [DecidableEq α] {m : OrderedMap α β} {es : List (α × β)} {k : α} {v : β}

/-! ## Lists of entries -/

theorem put_of_notMem (h : k ∉ es.map Prod.fst) (v : β) : put k v es = es ++ [(k, v)] := by
  induction es with
  | nil => rfl
  | cons e es ih =>
    rw [List.map_cons, List.mem_cons, not_or] at h
    rw [put, if_neg (Ne.symm h.1), ih h.2, List.cons_append]

theorem put_of_mem (h : k ∈ es.map Prod.fst) (hnodup : (es.map Prod.fst).Nodup) (v : β) :
    put k v es = es.map fun e => if e.1 = k then (k, v) else e := by
  induction es with
  | nil => simp at h
  | cons e es ih =>
    rw [List.map_cons, List.nodup_cons] at hnodup
    by_cases he : e.1 = k
    · have hrest : es.map (fun e => if e.1 = k then (k, v) else e) = es := by
        refine (List.map_congr_left fun e' he' => ?_).trans (List.map_id es)
        refine if_neg fun h' => hnodup.1 ?_
        rw [he, ← h']
        exact List.mem_map_of_mem he'
      rw [put, if_pos he, List.map_cons, if_pos he, hrest]
    · have hmem : k ∈ es.map Prod.fst := (List.mem_cons.1 h).resolve_left (Ne.symm he)
      rw [put, if_neg he, ih hmem hnodup.2, List.map_cons, if_neg he]

theorem find?_of_mem (h : (k, v) ∈ es) (hnodup : (es.map Prod.fst).Nodup) :
    es.find? (fun e => e.1 = k) = some (k, v) := by
  induction es with
  | nil => simp at h
  | cons e es ih =>
    rw [List.map_cons, List.nodup_cons] at hnodup
    rcases List.mem_cons.1 h with rfl | hmem
    · simp
    · have he : e.1 ≠ k := fun he => hnodup.1 (he ▸ List.mem_map.2 ⟨_, hmem, rfl⟩)
      rw [List.find?_cons_of_neg (by simpa using he), ih hmem hnodup.2]

theorem mem_put {e : α × β} (h : e ∈ put k v es) : e = (k, v) ∨ e ∈ es := by
  induction es with
  | nil => exact .inl (List.mem_singleton.1 h)
  | cons e' es ih =>
    rw [put] at h
    split at h
    · exact (List.mem_cons.1 h).imp_right (List.mem_cons_of_mem e')
    · rcases List.mem_cons.1 h with rfl | htail
      · exact .inr List.mem_cons_self
      · exact (ih htail).imp_right (List.mem_cons_of_mem e')

theorem put_append_cons {before after : List (α × β)} (h : k ∉ before.map Prod.fst) (old v : β) :
    put k v (before ++ (k, old) :: after) = before ++ (k, v) :: after := by
  induction before with
  | nil => exact if_pos rfl
  | cons e before ih =>
    rw [List.map_cons, List.mem_cons, not_or] at h
    rw [List.cons_append, put, if_neg (Ne.symm h.1), ih h.2, List.cons_append]

/-! ## Maps -/

theorem entries_insert_of_notMem (h : k ∉ m.keys) (v : β) :
    (m.insert k v).entries = m.entries ++ [(k, v)] := put_of_notMem h v

theorem entries_insert_of_mem (h : k ∈ m.keys) (v : β) :
    (m.insert k v).entries = m.entries.map fun e => if e.1 = k then (k, v) else e :=
  put_of_mem h m.nodup_keys v

theorem get?_of_mem (h : (k, v) ∈ m.entries) : m.get? k = some v := by
  rw [get?, find?_of_mem h m.nodup_keys]
  rfl

theorem mem_of_get? (h : m.get? k = some v) : (k, v) ∈ m.entries := by
  obtain ⟨⟨k', v'⟩, hfind, rfl⟩ := Option.map_eq_some_iff.1 h
  obtain rfl : k' = k := by simpa using List.find?_some hfind
  exact List.mem_of_find?_eq_some hfind

/-- A value that is present is replaced where it stands. -/
theorem exists_values_insert {old : β} (h : m.get? k = some old) (v : β) : ∃ before after,
    m.values = before ++ old :: after ∧ (m.insert k v).values = before ++ v :: after := by
  obtain ⟨before, after, hentries⟩ := List.append_of_mem (mem_of_get? h)
  have hk : k ∉ before.map Prod.fst := by
    have hnodup := m.nodup_keys
    rw [hentries, List.map_append, List.nodup_append] at hnodup
    exact fun hmem => hnodup.2.2 k hmem k List.mem_cons_self rfl
  have hinsert : (m.insert k v).entries = put k v m.entries := rfl
  refine ⟨before.map Prod.snd, after.map Prod.snd, ?_, ?_⟩
  · rw [values, hentries, List.map_append, List.map_cons]
  · rw [values, hinsert, hentries, put_append_cons hk, List.map_append, List.map_cons]

/-- What holds of all entries also holds after an insertion, if it holds of the new entry. -/
theorem forall_entries_insert {P : α × β → Prop} (h : ∀ e ∈ m.entries, P e) (hnew : P (k, v)) :
    ∀ e ∈ (m.insert k v).entries, P e := by
  intro e he
  rcases mem_put he with rfl | hmem
  · exact hnew
  · exact h e hmem

theorem mem_keys_iff : k ∈ m.keys ↔ (m.get? k).isSome = true := by
  rw [Option.isSome_iff_exists]
  constructor
  · intro h
    obtain ⟨⟨k', v⟩, he, rfl⟩ := List.mem_map.1 h
    exact ⟨v, get?_of_mem he⟩
  · rintro ⟨v, h⟩
    exact List.mem_map_of_mem (mem_of_get? h)

/-! ## Maps of items by their keys -/

section Collect

variable {κ ξ : Type} [DecidableEq κ]

/-- Some items under their keys, inserted one after the other. -/
def collect (f : ξ → κ) (xs : List ξ) : OrderedMap κ ξ :=
  xs.foldl (fun m x => m.insert (f x) x) ∅

theorem collect_concat (f : ξ → κ) (xs : List ξ) (x : ξ) :
    collect f (xs ++ [x]) = (collect f xs).insert (f x) x := by
  rw [collect, List.foldl_concat, collect]

/-- The keys stand in the order in which they first came. -/
theorem keys_collect [BEq κ] [LawfulBEq κ] (f : ξ → κ) (xs : List ξ) :
    (collect f xs).keys = (xs.map f).eraseDups := by
  induction xs using List.reverseRecOn with
  | nil => rfl
  | append_singleton xs x ih =>
    rw [collect_concat, keys_insert, ih, List.map_append, List.map_singleton, eraseDups_concat]
    simp only [List.mem_eraseDups]

/-- Of items with one key the last one counts. -/
theorem get?_collect (f : ξ → κ) (xs : List ξ) (k : κ) :
    (collect f xs).get? k = lastWith? f k xs := by
  induction xs using List.reverseRecOn with
  | nil => rfl
  | append_singleton xs x ih => rw [collect_concat, get?_insert, ih, lastWith?_concat]

/-- Each entry is an item under its key. -/
theorem mem_of_mem_collect {f : ξ → κ} {xs : List ξ} {e : κ × ξ} (h : e ∈ (collect f xs).entries) :
    e.2 ∈ xs ∧ f e.2 = e.1 := by
  have hlast := get?_of_mem h
  rw [get?_collect] at hlast
  exact ⟨mem_of_lastWith? hlast, key_of_lastWith? hlast⟩

theorem isSome_get?_collect (f : ξ → κ) (xs : List ξ) (k : κ) :
    ((collect f xs).get? k).isSome = xs.any (f · = k) := by
  rw [Bool.eq_iff_iff, ← mem_keys_iff, keys_collect, List.mem_eraseDups, List.mem_map]
  simp

end Collect

/-! ## Maps with other keys and values -/

section Translates

variable {α' β' : Type} [DecidableEq α'] {f : α → α'} {g : β → β'} {m' : OrderedMap α' β'}

theorem put_map (hf : ∀ e ∈ es, f e.1 = f k → e.1 = k) (v : β) :
    put (f k) (g v) (es.map (Prod.map f g)) = (put k v es).map (Prod.map f g) := by
  induction es with
  | nil => rfl
  | cons e es ih =>
    rw [List.forall_mem_cons] at hf
    rw [List.map_cons, put, put, Prod.map_fst]
    by_cases he : e.1 = k
    · rw [if_pos (congrArg f he), if_pos he, List.map_cons]
      rfl
    · rw [if_neg (mt hf.1 he), if_neg he, List.map_cons, ih hf.2]

theorem find?_map_key (hf : ∀ e ∈ es, f e.1 = f k → e.1 = k) :
    ((es.map (Prod.map f g)).find? fun e => e.1 = f k).map Prod.snd =
      ((es.find? fun e => e.1 = k).map Prod.snd).map g := by
  induction es with
  | nil => rfl
  | cons e es ih =>
    rw [List.forall_mem_cons] at hf
    by_cases he : e.1 = k
    · simp [he]
    · have hfe : f e.1 ≠ f k := mt hf.1 he
      simpa [he, hfe] using ih hf.2

/-- The entries of the second map are those of the first one, with other keys and values. -/
def Translates (f : α → α') (g : β → β') (m : OrderedMap α β) (m' : OrderedMap α' β') : Prop :=
  m'.entries = m.entries.map (Prod.map f g)

namespace Translates

theorem get? (h : Translates f g m m') (hf : ∀ k' ∈ m.keys, f k' = f k → k' = k) :
    m'.get? (f k) = (m.get? k).map g := by
  rw [OrderedMap.get?, OrderedMap.get?, h]
  exact find?_map_key fun e he => hf e.1 (List.mem_map_of_mem he)

theorem insert (h : Translates f g m m') (hf : ∀ k' ∈ m.keys, f k' = f k → k' = k) (v : β) :
    Translates f g (m.insert k v) (m'.insert (f k) (g v)) := by
  have hput := put_map (g := g) (fun e he => hf e.1 (List.mem_map_of_mem he)) v
  rw [← h] at hput
  exact hput

end Translates

end Translates

end OrderedMap

end HeaderApi
