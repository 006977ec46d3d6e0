import HeaderApi.Proofs.Comment.Seam
import HeaderApi.Proofs.Module.Dependence

/-!
# Headers whose comments stand elsewhere

A scan uses the places of comments for nothing but its reports.  So if two headers have the same
code, and comments that read alike stand at other places, then their scans differ in the places
that are reported and in nothing else (`ofText_relocated`).
-/

namespace HeaderApi

open Text

/-! ## Places in reports -/

/-- The report with its place, if it has one, moved. -/
def Diagnostic.mapOffset (g : Nat → Nat) : Diagnostic → Diagnostic
  | .unterminatedComment offset => .unterminatedComment (g offset)
  | .unknownTag tag offset => .unknownTag tag (g offset)
  | .invalidTag tag value offset => .invalidTag tag value (g offset)
  | .missingName offset => .missingName (g offset)
  | .unusedDocstring name offset => .unusedDocstring name (g offset)
  | r => r

def IndexedDoc.mapOffset (g : Nat → Nat) (d : IndexedDoc) : IndexedDoc :=
  { d with offset := g d.offset }

variable {o : ScanOptions} {g : Nat → Nat} {name t t' : Text} {block block' : DocBlock}
  {index index' : DocIndex} {declared : Declarations}

theorem Diagnostic.mapOffset_of_isAboutCode {r : Diagnostic} (h : r.isAboutCode = true) :
    r.mapOffset g = r := by
  cases r <;> first | rfl | cases h

theorem Tag.read_mapOffset (g : Nat → Nat) (offset : Nat) (key value : Text) :
    Tag.read (g offset) key value =
      (Tag.read offset key value).mapError (Diagnostic.mapOffset g) := by
  unfold Tag.read
  cases Key.ofText? key with
  | none => rfl
  | some key' =>
    cases key' with
    | type => cases DocKind.ofKeyword? (trim value) <;> rfl
    | _ => rfl

/-- What is read from a doc block does not depend on its place, and each report has it. -/
theorem Docstring.parse_mapOffset (g : Nat → Nat) (offset : Nat) (t : Text) :
    parse (g offset) t =
      ((parse offset t).1, (parse offset t).2.map (Diagnostic.mapOffset g)) := by
  have htags : readTags (g offset) (Line.ofText t) =
      (readTags offset (Line.ofText t)).map (Except.mapError (Diagnostic.mapOffset g)) := by
    rw [readTags, readTags, List.map_map]
    exact List.map_congr_left fun pair _ => Tag.read_mapOffset g offset pair.1 pair.2
  have haccepted : ∀ tags : List (Except Diagnostic Tag),
      accepted (tags.map (Except.mapError (Diagnostic.mapOffset g))) = accepted tags := by
    intro tags
    rw [accepted, accepted, List.filterMap_map]
    refine List.filterMap_congr fun tag _ => ?_
    cases tag <;> rfl
  have hrejected : ∀ tags : List (Except Diagnostic Tag),
      rejected (tags.map (Except.mapError (Diagnostic.mapOffset g))) =
        (rejected tags).map (Diagnostic.mapOffset g) := by
    intro tags
    rw [rejected, rejected, List.filterMap_map, List.map_filterMap]
    refine List.filterMap_congr fun tag _ => ?_
    cases tag <;> rfl
  simp only [parse, htags, haccepted, hrejected]

/-! ## Comments at other places -/

namespace Comment

/-- Whether a scan takes notice of a comment: it is a doc block, or it is not closed. -/
def isNotable : Comment → Bool
  | .line _ | .block false _ true => false
  | .block _ _ _ => true

/-- A scan takes the comments alike: they are of one kind, and doc blocks say the same. -/
inductive ReadsAs : Comment → Comment → Prop where
  | line (body body' : Text) : ReadsAs (.line body) (.line body')
  | block {doc closed : Bool} {body body' : Text}
    (h : doc = true → ∀ offset, Docstring.parse offset body' = Docstring.parse offset body) :
    ReadsAs (.block doc body closed) (.block doc body' closed)

theorem readsAs_refl (k : Comment) : k.ReadsAs k := by
  cases k with
  | line body => exact .line body body
  | block => exact .block fun _ _ => rfl

theorem ReadsAs.isNotable_eq {k k' : Comment} (h : k.ReadsAs k') : k'.isNotable = k.isNotable := by
  cases h with
  | line => rfl
  | @block doc closed => cases doc <;> cases closed <;> rfl

end Comment

/-- The comments of a text that a scan takes notice of. -/
def notableComments (t : Text) : List (Nat × Comment) := (comments t).filter (·.2.isNotable)

/-- The comment stands at another place. -/
structure CommentMoved (g : Nat → Nat) (e e' : Nat × Comment) : Prop where
  start : e'.1 = g e.1
  reads : e.2.ReadsAs e'.2

/-- The doc block says the same at another place. -/
structure DocBlock.Moved (g : Nat → Nat) (block block' : DocBlock) : Prop where
  start : block'.start = g block.start
  parse : ∀ offset, Docstring.parse offset block'.text = Docstring.parse offset block.text

/-- The second header has the code of the first one, and the comments at other places. -/
structure Relocated (g : Nat → Nat) (t t' : Text) : Prop where
  code : codeOf t' = codeOf t
  comments : List.Forall₂ (CommentMoved g) (notableComments t) (notableComments t')

/-! ## Doc blocks and open comments -/

/-- The doc block that a comment is. -/
def docBlockOf? : Nat × Comment → Option DocBlock
  | (start, .block true body closed) =>
    some ⟨start, start + byteSize (Comment.block true body closed).source, body⟩
  | _ => none

/-- The place of a comment that is not closed. -/
def openStart? : Nat × Comment → Option Nat
  | (start, .block _ _ false) => some start
  | _ => none

theorem docBlocks_eq_filterMap (t : Text) : docBlocks t = (comments t).filterMap docBlockOf? := by
  refine List.filterMap_congr ?_
  rintro ⟨start, k⟩ -
  rcases k with _ | ⟨_ | _, _, _⟩ <;> rfl

theorem docBlocks_eq (t : Text) : docBlocks t = (notableComments t).filterMap docBlockOf? := by
  rw [docBlocks_eq_filterMap, notableComments, List.filterMap_filter]
  refine List.filterMap_congr ?_
  rintro ⟨start, k⟩ -
  rcases k with _ | ⟨_ | _, _, _ | _⟩ <;> rfl

theorem unclosedComments_eq_filterMap (t : Text) :
    unclosedComments t = (notableComments t).filterMap openStart? := by
  rw [unclosedComments, notableComments, List.filterMap_filter]
  refine List.filterMap_congr ?_
  rintro ⟨start, k⟩ -
  rcases k with _ | ⟨_ | _, _, _ | _⟩ <;> rfl

namespace CommentMoved

variable {es es' : List (Nat × Comment)}

theorem forall₂_notable (h : List.Forall₂ (CommentMoved g) es es') :
    List.Forall₂ (CommentMoved g) (es.filter (·.2.isNotable)) (es'.filter (·.2.isNotable)) := by
  refine List.rel_filter ?_ h
  intro e e' he
  dsimp only
  rw [he.reads.isNotable_eq]

theorem forall₂_docBlocks (h : List.Forall₂ (CommentMoved g) es es') :
    List.Forall₂ (DocBlock.Moved g) (es.filterMap docBlockOf?) (es'.filterMap docBlockOf?) := by
  induction h with
  | nil => exact .nil
  | @cons e e' es es' he _ ih =>
    obtain ⟨start, k⟩ := e
    obtain ⟨start', k'⟩ := e'
    obtain ⟨hstart, hreads⟩ := he
    cases hreads with
    | line => exact ih
    | @block doc closed body body' hparse =>
      cases doc with
      | false => exact ih
      | true => exact .cons ⟨hstart, hparse rfl⟩ ih

theorem map_openStarts (h : List.Forall₂ (CommentMoved g) es es') :
    es'.filterMap openStart? = (es.filterMap openStart?).map g := by
  induction h with
  | nil => rfl
  | @cons e e' es es' he _ ih =>
    obtain ⟨start, k⟩ := e
    obtain ⟨start', k'⟩ := e'
    obtain ⟨hstart, hreads⟩ := he
    cases hreads with
    | line => exact ih
    | @block doc closed body body' hparse =>
      cases closed with
      | true => exact ih
      | false =>
        obtain rfl : start' = g start := hstart
        exact congrArg (g start :: ·) ih

end CommentMoved

namespace Relocated

variable (h : Relocated g t t')

include h

theorem forall₂_docBlocks : List.Forall₂ (DocBlock.Moved g) (docBlocks t) (docBlocks t') := by
  rw [docBlocks_eq, docBlocks_eq]
  exact CommentMoved.forall₂_docBlocks h.comments

theorem map_unclosedComments : unclosedComments t' = (unclosedComments t).map g := by
  rw [unclosedComments_eq_filterMap, unclosedComments_eq_filterMap]
  exact CommentMoved.map_openStarts h.comments

end Relocated

/-! ## The index -/

namespace DocBlock.Moved

variable (h : block.Moved g block')

include h

theorem parse_start : Docstring.parse block'.start block'.text =
    ((Docstring.parse block.start block.text).1,
      (Docstring.parse block.start block.text).2.map (Diagnostic.mapOffset g)) := by
  rw [h.start, h.parse, Docstring.parse_mapOffset]

theorem indexed? : block'.indexed? = block.indexed?.map (IndexedDoc.mapOffset g) := by
  rw [DocBlock.indexed?, DocBlock.indexed?, h.parse_start, h.start, Option.map_map]
  rfl

theorem reports : block'.reports = block.reports.map (Diagnostic.mapOffset g) := by
  rw [DocBlock.reports, DocBlock.reports, h.parse_start, h.start, List.map_append]
  dsimp only
  split <;> rfl

theorem addBlock (hindex : OrderedMap.Translates id (IndexedDoc.mapOffset g) index index') :
    Scan.Follows (OrderedMap.Translates id (IndexedDoc.mapOffset g)) (Diagnostic.mapOffset g)
      (DocIndex.addBlock index block) (DocIndex.addBlock index' block') := by
  intro index₁ hadd
  cases hd : block.indexed? with
  | none =>
    rw [addBlock_of_none hd] at hadd ⊢
    rw [addBlock_of_none (h.indexed?.trans (congrArg _ hd))]
    cases hadd
    exact ⟨index', rfl, h.reports, hindex⟩
  | some d =>
    obtain ⟨notes, heq⟩ := addBlock_of_some hd index
    obtain ⟨notes', heq'⟩ := addBlock_of_some (h.indexed?.trans (congrArg _ hd)) index'
    rw [heq] at hadd ⊢
    rw [heq']
    cases hadd
    exact ⟨_, rfl, h.reports, hindex.insert (fun _ _ hk => hk) d⟩

end DocBlock.Moved

theorem DocBlock.Moved.filterMap_indexed? {blocks blocks' : List DocBlock}
    (h : List.Forall₂ (DocBlock.Moved g) blocks blocks') :
    blocks'.filterMap DocBlock.indexed? =
      (blocks.filterMap DocBlock.indexed?).map (IndexedDoc.mapOffset g) := by
  induction h with
  | nil => rfl
  | cons hblock _ ih =>
    rw [List.filterMap_cons, List.filterMap_cons, hblock.indexed?, ih]
    cases DocBlock.indexed? _ <;> rfl

namespace Relocated

variable (h : Relocated g t t')

include h

/-- The index has the same entries, with the places moved. -/
theorem follows_index :
    Scan.Follows (OrderedMap.Translates id (IndexedDoc.mapOffset g)) (Diagnostic.mapOffset g)
      (DocIndex.ofText t) (DocIndex.ofText t') := by
  have hreports : (unclosedComments t').map Diagnostic.unterminatedComment =
      ((unclosedComments t).map Diagnostic.unterminatedComment).map (Diagnostic.mapOffset g) := by
    rw [h.map_unclosedComments, List.map_map, List.map_map]
    rfl
  have hempty : OrderedMap.Translates id (IndexedDoc.mapOffset g) (∅ : DocIndex) (∅ : DocIndex) :=
    rfl
  unfold DocIndex.ofText
  rw [hreports]
  exact (Scan.follows_report _).bind fun _ _ _ =>
    .foldlM h.forall₂_docBlocks (fun _ _ _ _ hindex hblock => hblock.addBlock hindex) hempty

end Relocated

theorem DocIndex.agree_of_translates
    (h : OrderedMap.Translates id (IndexedDoc.mapOffset g) index index') (symbols : List Text) :
    index.Agree index' symbols := by
  intro symbol _
  have hget := h.get? (k := symbol) fun _ _ hk => hk
  rw [id] at hget
  rw [hget, Option.map_map]
  rfl

theorem DocIndex.unused_of_translates
    (h : OrderedMap.Translates id (IndexedDoc.mapOffset g) index index') (symbols : List Text) :
    index'.unused symbols = (index.unused symbols).map (Diagnostic.mapOffset g) := by
  rw [unused, unused, h, List.filter_map, List.map_map, List.map_map]
  rfl

/-! ## Text put in -/

/-- From byte `pos` on, `n` bytes further. -/
def shiftFrom (pos n offset : Nat) : Nat := if offset < pos then offset else offset + n

section Shift

variable {pos n : Nat} {es : List (Nat × Comment)} {ps xs ys qs : List Piece}

theorem CommentMoved.forall₂_before (h : ∀ e ∈ es, e.1 < pos) :
    List.Forall₂ (CommentMoved (shiftFrom pos n)) es es :=
  List.forall₂_same.2 fun e he => ⟨(if_pos (h e he)).symm, e.2.readsAs_refl⟩

theorem CommentMoved.forall₂_behind (h : ∀ e ∈ es, pos ≤ e.1) :
    List.Forall₂ (CommentMoved (shiftFrom pos n)) es (es.map fun e => (e.1 + n, e.2)) :=
  List.forall₂_map_right_iff.2 <| List.forall₂_same.2 fun e he =>
    ⟨(if_neg (Nat.not_lt.2 (h e he))).symm, e.2.readsAs_refl⟩

/-- Where pieces take the place of others, the comments behind them move. -/
theorem exists_comments_shift (ht : pieces t = ps ++ xs ++ qs) (ht' : pieces t' = ps ++ ys ++ qs)
    (hpos : byteSize (ps.flatMap Piece.source) = pos)
    (hsize : byteSize (ys.flatMap Piece.source) = byteSize (xs.flatMap Piece.source) + n) :
    ∃ before behind behind', comments t = before ++ commentsFrom pos xs ++ behind ∧
      comments t' = before ++ commentsFrom pos ys ++ behind' ∧
      List.Forall₂ (CommentMoved (shiftFrom pos n)) before before ∧
      List.Forall₂ (CommentMoved (shiftFrom pos n)) behind behind' := by
  subst hpos
  have hbefore : ∀ e ∈ commentsFrom 0 ps, e.1 < byteSize (ps.flatMap Piece.source) := by
    intro e he
    have := (le_start_of_mem_commentsFrom he).2
    omega
  have hbehind : ∀ e ∈ commentsFrom (byteSize ((ps ++ xs).flatMap Piece.source)) qs,
      byteSize (ps.flatMap Piece.source) ≤ e.1 := by
    intro e he
    have := (le_start_of_mem_commentsFrom he).1
    rw [List.flatMap_append, byteSize_append] at this
    omega
  have hmoved : byteSize ((ps ++ ys).flatMap Piece.source) =
      byteSize ((ps ++ xs).flatMap Piece.source) + n := by
    rw [List.flatMap_append, List.flatMap_append, byteSize_append, byteSize_append, hsize,
      Nat.add_assoc]
  refine ⟨commentsFrom 0 ps, _, _, ?_, ?_, CommentMoved.forall₂_before hbefore,
    CommentMoved.forall₂_behind hbehind⟩
  · rw [comments, ht, commentsFrom_append, commentsFrom_append, Nat.zero_add, Nat.zero_add]
  · rw [comments, ht', commentsFrom_append, commentsFrom_append, Nat.zero_add, Nat.zero_add,
      hmoved, commentsFrom_add]

/-- Where pieces that a scan takes no notice of take the place of such pieces, the comments behind
them move and nothing else changes. -/
theorem Relocated.of_pieces (hcode : codeOf t' = codeOf t) (ht : pieces t = ps ++ xs ++ qs)
    (ht' : pieces t' = ps ++ ys ++ qs) (hpos : byteSize (ps.flatMap Piece.source) = pos)
    (hsize : byteSize (ys.flatMap Piece.source) = byteSize (xs.flatMap Piece.source) + n)
    (hxs : ∀ e ∈ commentsFrom pos xs, e.2.isNotable = false)
    (hys : ∀ e ∈ commentsFrom pos ys, e.2.isNotable = false) :
    Relocated (shiftFrom pos n) t t' := by
  obtain ⟨before, behind, behind', hcomments, hcomments', hbefore, hbehind⟩ :=
    exists_comments_shift ht ht' hpos hsize
  have hquiet : ∀ {es : List (Nat × Comment)}, (∀ e ∈ es, e.2.isNotable = false) →
      es.filter (·.2.isNotable) = [] := fun h =>
    List.filter_eq_nil_iff.2 fun e he => by simp [h e he]
  refine ⟨hcode, ?_⟩
  rw [notableComments, notableComments, hcomments, hcomments']
  simp only [List.filter_append, hquiet hxs, hquiet hys, List.append_nil]
  exact List.rel_append (CommentMoved.forall₂_notable hbefore)
    (CommentMoved.forall₂_notable hbehind)

end Shift

/-! ## Scans -/

namespace ApiModule

/-- Whether or not the declarations can be taken, what is reported about them is about the code. -/
theorem isAboutCode_of_mem_addAll :
    ∀ r ∈ (addAll o index name declared).diagnostics, r.isAboutCode = true := by
  apply Scan.forall_diagnostics_bind
  · rw [diagnostics_types]
    simp
  · intro m
    apply Scan.forall_diagnostics_bind
    · exact Scan.forall_diagnostics_foldlM isAboutCode_of_mem_addFunction _ m
    · exact Scan.forall_diagnostics_foldlM isAboutCode_of_mem_addDelegate _

theorem diagnostics_ofText_of_error (h : Declarations.ofCode (codeOf t) = .error e) :
    (ofText o name t).diagnostics = (DocIndex.ofText t).diagnostics := by
  obtain ⟨index, notes, hindex, -⟩ := exists_index_ofText t
  rw [ofText_eq, hindex, h]
  exact List.append_nil _

/-- With the index of a header and its declarations, its scan is known. -/
theorem ofText_of_ok (hindex : (DocIndex.ofText t).result = .ok index)
    (hdeclared : Declarations.ofCode (codeOf t) = .ok declared) :
    (ofText o name t).result = (addAll o index name declared).result ∧
    (ofText o name t).diagnostics = (DocIndex.ofText t).diagnostics ++
      (addAll o index name declared).diagnostics ++
      if (addAll o index name declared).result.isOk then index.unused declared.symbols else [] := by
  rw [ofText_eq, hdeclared]
  generalize DocIndex.ofText t = documented at hindex ⊢
  obtain ⟨result, ds, ns⟩ := documented
  obtain rfl : result = .ok index := hindex
  simp only [Scan.ofExcept, Scan.bind_ok]
  generalize addAll o index name declared = taken
  obtain ⟨result, ds', ns'⟩ := taken
  cases result with
  | error e => exact ⟨rfl, (List.append_nil _).symm⟩
  | ok m => exact ⟨rfl, by simp [Scan.report, Scan.note, Except.isOk, Except.toBool]⟩

/-- If two headers have the same code, and their indexes agree on the symbols that it declares, then
their scans give the same. -/
theorem result_eq_of_agree (hcode : codeOf t' = codeOf t)
    (hagree : ∀ index index' declared, (DocIndex.ofText t).result = .ok index →
      (DocIndex.ofText t').result = .ok index' →
      Declarations.ofCode (codeOf t) = .ok declared → index.Agree index' declared.symbols) :
    (ofText o name t').result = (ofText o name t).result := by
  cases hdeclared : Declarations.ofCode (codeOf t) with
  | error e =>
    rw [(ofText_of_error o name hdeclared).1, (ofText_of_error o name (hcode ▸ hdeclared)).1]
  | ok declared =>
    obtain ⟨index, notes, hindex, -⟩ := exists_index_ofText t
    obtain ⟨index', notes', hindex', -⟩ := exists_index_ofText t'
    have hresult : (DocIndex.ofText t).result = .ok index := by rw [hindex]
    have hresult' : (DocIndex.ofText t').result = .ok index' := by rw [hindex']
    have h := hagree index index' declared hresult hresult' hdeclared
    rw [(ofText_of_ok hresult hdeclared).1, (ofText_of_ok hresult' (hcode ▸ hdeclared)).1,
      addAll_congr h]

/-- A header whose comments have moved is scanned into the same module, or fails with the same
error, and its reports have moved with the comments. -/
theorem ofText_relocated (h : Relocated g t t') :
    (ofText o name t').result = (ofText o name t).result ∧
      (ofText o name t').diagnostics =
        (ofText o name t).diagnostics.map (Diagnostic.mapOffset g) := by
  obtain ⟨index, notes, hindex, -⟩ := exists_index_ofText t
  have hresult : (DocIndex.ofText t).result = .ok index := by rw [hindex]
  obtain ⟨index', hresult', hreports, htranslates⟩ := h.follows_index index hresult
  constructor
  · refine result_eq_of_agree h.code fun index₁ index₁' declared h₁ h₁' _ => ?_
    obtain rfl := Except.ok.inj (hresult.symm.trans h₁)
    obtain rfl := Except.ok.inj (hresult'.symm.trans h₁')
    exact DocIndex.agree_of_translates htranslates _
  · cases hdeclared : Declarations.ofCode (codeOf t) with
    | error e =>
      rw [diagnostics_ofText_of_error hdeclared,
        diagnostics_ofText_of_error (h.code ▸ hdeclared), hreports]
    | ok declared =>
      have hagree := DocIndex.agree_of_translates htranslates declared.symbols
      have hcode : (addAll o index name declared).diagnostics.map (Diagnostic.mapOffset g) =
          (addAll o index name declared).diagnostics :=
        map_eq_self_iff.2 fun r hr => Diagnostic.mapOffset_of_isAboutCode
          (isAboutCode_of_mem_addAll r hr)
      rw [(ofText_of_ok hresult hdeclared).2, (ofText_of_ok hresult' (h.code ▸ hdeclared)).2,
        hreports, ← addAll_congr hagree, DocIndex.unused_of_translates htranslates,
        List.map_append, List.map_append, hcode]
      split <;> rfl

end ApiModule

end HeaderApi
