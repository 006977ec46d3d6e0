/-!
# Ordered maps

A map whose entries keep the order in which their keys were first inserted.  Inserting under a key
that is present replaces the value where it stands.
-/

namespace HeaderApi

variable {α β γ : Type} [DecidableEq α]

structure OrderedMap (α β : Type) where
  entries : List (α × β)
  nodup_keys : (entries.map Prod.fst).Nodup
deriving DecidableEq

namespace OrderedMap

def empty : OrderedMap α β := ⟨[], by simp⟩

instance : Inhabited (OrderedMap α β) := ⟨empty⟩

instance : EmptyCollection (OrderedMap α β) := ⟨empty⟩

def keys (m : OrderedMap α β) : List α := m.entries.map Prod.fst

def values (m : OrderedMap α β) : List β := m.entries.map Prod.snd

def size (m : OrderedMap α β) : Nat := m.entries.length

def get? (m : OrderedMap α β) (k : α) : Option β :=
  (m.entries.find? fun e => e.1 = k).map Prod.snd

/-- Entries with `v` under `k`, at its place or at the end. -/
def put (k : α) (v : β) : List (α × β) → List (α × β)
  | [] => [(k, v)]
  | e :: es => if e.1 = k then (k, v) :: es else e :: put k v es

theorem keys_put (k : α) (v : β) (es : List (α × β)) :
    (put k v es).map Prod.fst =
      if k ∈ es.map Prod.fst then es.map Prod.fst else es.map Prod.fst ++ [k] := by
  induction es with
  | nil => rfl
  | cons e es ih =>
    by_cases h : e.1 = k
    · simp [put, h]
    · by_cases hk : k ∈ es.map Prod.fst <;> simp_all [put, eq_comm]

def insert (m : OrderedMap α β) (k : α) (v : β) : OrderedMap α β where
  entries := put k v m.entries
  nodup_keys := by
    rw [keys_put]
    split
    · exact m.nodup_keys
    · next h =>
      refine List.nodup_append.2 ⟨m.nodup_keys, by simp, ?_⟩
      rintro a ha b hb rfl
      exact h (List.mem_singleton.1 hb ▸ ha)

theorem keys_insert (m : OrderedMap α β) (k : α) (v : β) :
    (m.insert k v).keys = if k ∈ m.keys then m.keys else m.keys ++ [k] :=
  keys_put k v m.entries

theorem get?_insert (m : OrderedMap α β) (k k' : α) (v : β) :
    (m.insert k v).get? k' = if k = k' then some v else m.get? k' := by
  simp only [get?, insert]
  induction m.entries with
  | nil => by_cases h : k = k' <;> simp [put, h]
  | cons e es ih =>
    by_cases h : e.1 = k <;> by_cases hk : k = k' <;> by_cases he : e.1 = k' <;>
      simp_all [put]

end OrderedMap

end HeaderApi
