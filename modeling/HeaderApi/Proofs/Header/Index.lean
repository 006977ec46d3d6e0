import HeaderApi.Proofs.Header.Documented
import HeaderApi.Proofs.Scan

/-!
# The index of a documented header

Each doc block is read back and found under the symbol that is declared behind it.
-/

namespace HeaderApi.Header

open Text

variable {index : DocIndex} {i : Item} {done items : List Item} {blocks : List DocBlock}

/-- The index holds the documentation of the items, and nothing else. -/
structure Indexed (index : DocIndex) (items : List Item) : Prop where
  keys : ∀ k ∈ index.keys, k ∈ items.map Item.key
  get : ∀ i ∈ items, ∃ offset, index.get? i.key = some ⟨offset, i.name, i.doc⟩

theorem indexed_empty : Indexed ∅ [] :=
  ⟨fun _ h => absurd h List.not_mem_nil, fun _ h => absurd h List.not_mem_nil⟩

theorem Indexed.insert (h : Indexed index done) (hi : i.key ∉ done.map Item.key) (offset : Nat) :
    Indexed (index.insert i.key ⟨offset, i.name, i.doc⟩) (done ++ [i]) := by
  refine ⟨fun k hk => ?_, fun i' hi' => ?_⟩
  · rw [OrderedMap.keys_insert] at hk
    rw [List.map_append, List.mem_append]
    split at hk
    next => exact .inl (h.keys k hk)
    next => exact (List.mem_append.1 hk).imp_left (h.keys k)
  · rw [OrderedMap.get?_insert]
    rcases List.mem_append.1 hi' with hdone | hlast
    · have hne : i.key ≠ i'.key := fun heq => hi (heq ▸ List.mem_map_of_mem hdone)
      rw [if_neg hne]
      exact h.get i' hdone
    · obtain rfl := List.mem_singleton.1 hlast
      exact ⟨offset, if_pos rfl⟩

/-- A doc block goes into the index without a report. -/
theorem addBlock_render {block : DocBlock} (h : block.text = i.doc.render) (index : DocIndex) :
    DocIndex.addBlock index block = ⟨.ok (index.insert i.key ⟨block.start, i.name, i.doc⟩), [],
      [.indexed i.key block.start block.stop]⟩ := by
  rw [DocIndex.addBlock, h, i.faithful.parse_render]
  simp only [i.named, i.symbol_name]
  rfl

/-- The index of a documented header is made without any report. -/
theorem exists_index (hkeys : (items.map Item.key).Nodup) : ∃ index notes,
    DocIndex.ofText (text items) = ⟨.ok index, [], notes⟩ ∧ Indexed index items := by
  have hblocks : List.Forall₂ (fun block i => block.text = i.doc.render)
      (docBlocks (text items)) items := by
    have h := docBlocks_text items
    rwa [← List.forall₂_eq_eq_eq, List.forall₂_map_left_iff, List.forall₂_map_right_iff] at h
  obtain ⟨index, notes, hfold, hindex⟩ := Scan.exists_foldlM DocIndex.addBlock (fun _ _ => [])
    (fun before index => Indexed index before) hblocks
    (fun before block i after index hitems hblock hindex => by
      refine ⟨_, _, addBlock_render hblock index, hindex.insert ?_ block.start⟩
      rw [hitems, List.map_append, List.nodup_append] at hkeys
      exact fun h => hkeys.2.2 _ h _ List.mem_cons_self rfl) indexed_empty
  rw [Scan.reportsFrom_eq_nil fun _ _ _ _ => rfl] at hfold
  refine ⟨index, notes, ?_, hindex⟩
  rw [DocIndex.ofText, unclosedComments_text, hfold]
  rfl

/-- All documentation is used. -/
theorem Indexed.unused_eq_nil (h : Indexed index items) {symbols : List Text}
    (hsymbols : ∀ i ∈ items, i.key ∈ symbols) : index.unused symbols = [] := by
  rw [DocIndex.unused, List.map_eq_nil_iff, List.filter_eq_nil_iff]
  intro e he
  obtain ⟨i, hi, hkey⟩ := List.mem_map.1 (h.keys e.1 (List.mem_map_of_mem he))
  simpa [← hkey] using hsymbols i hi

end HeaderApi.Header
