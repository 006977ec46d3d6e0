import HeaderApi.Proofs.Declaration.Grammar

/-!
# Declarations are spaced as normalized code is

A forward declaration or a prototype has single spaces only, and none at its ends.
-/

namespace HeaderApi.Grammar

open Text

variable {t : Text}

theorem LowerWord.neat (w : LowerWord) : Neat w.text :=
  neat_of_noBlank fun c hc => isBlank_of_isWord (w.word c hc)

theorem neat_append_starsText (ht : Neat t) (hne : t ≠ []) (stars : Nat) :
    Neat (t ++ starsText stars) := by
  rw [starsText]
  split
  next => simpa using ht
  next hstars =>
    have hrun : Neat (List.replicate stars '*') := neat_of_noBlank fun c hc => by
      rw [List.eq_of_mem_replicate hc]
      decide
    exact ht.append_space hrun hne (by simpa using hstars)

theorem ParamType.neat_text (p : ParamType) : p.text ≠ [] ∧ Neat p.text := by
  have hwords : ∀ w ∈ p.words.map TypeWord.text, w ≠ [] ∧ Neat w := by
    rw [List.forall_mem_map]
    exact fun w _ => w.text_lowerWord ▸ ⟨w.lowerWord.ne_nil, w.lowerWord.neat⟩
  have hne : joinWith " ".toList (p.words.map TypeWord.text) ≠ [] :=
    joinWith_ne_nil (by simpa using p.ne_nil) fun w hw => (hwords w hw).1
  have hneat : Neat (joinWith " ".toList (p.words.map TypeWord.text)) := by
    refine neat_joinWith (fun ha hb hane hbne => ?_) hwords
    simpa using ha.append_space hb hane hbne
  exact ⟨List.append_ne_nil_of_left_ne_nil hne _, neat_append_starsText hneat hne p.stars⟩

theorem Param.neat_text (p : Param) : p.text ≠ [] ∧ Neat p.text := by
  cases p with
  | variadic => exact ⟨by decide, neat_of_noBlank (by decide)⟩
  | named type name =>
    obtain ⟨hne, hneat⟩ := type.neat_text
    exact ⟨by simp [text], hneat.append_space name.neat hne name.ne_nil⟩

theorem neat_paramsText (ps : List Param) : Neat (paramsText ps) := by
  rw [paramsText]
  split
  next => exact neat_of_noBlank (by decide)
  next =>
    refine neat_joinWith (fun {a b} ha hb hane hbne => ?_) ?_
    · have hcomma : Neat (a ++ ",".toList) := ha.append (neat_of_noBlank (by decide))
      simpa using hcomma.append_space hb (by simp) hbne
    · rw [List.forall_mem_map]
      exact fun p _ => p.neat_text

theorem ReturnType.neat_text (type : ReturnType) : type.text ≠ [] ∧ Neat type.text := by
  have hword : type.word.text ≠ [] ∧ Neat type.word.text := ⟨type.word.ne_nil, type.word.neat⟩
  have hconst : Neat ("const ".toList ++ type.word.text) := by
    have : Neat "const".toList := neat_of_noBlank (by decide)
    simpa using this.append_space hword.2 (by decide) hword.1
  have hne := List.append_ne_nil_of_right_ne_nil
    (if type.isConst then "const ".toList else []) hword.1
  refine ⟨List.append_ne_nil_of_left_ne_nil hne _, neat_append_starsText ?_ hne type.stars⟩
  split
  next => exact hconst
  next => exact hword.2

namespace Decl

theorem neat_text_forward (tag name : Name) : Neat (forward tag name).text := by
  have hstruct : Neat "typedef struct".toList := neat_iff.2 (by decide +kernel)
  have hname : Neat (name.text ++ "_t;".toList) := name.neat.append (neat_of_noBlank (by decide))
  have htag := tag.neat.append_space hname tag.ne_nil (by simp)
  have htext := hstruct.append_space htag (by decide) (by simp)
  rw [show (forward tag name).text = forwardText tag.text name.text from rfl]
  unfold forwardText
  simpa using htext

theorem neat_text_prototype (type : ReturnType) (name : Name) (params : List Param) :
    Neat (prototype type name params).text := by
  have hopen : Neat "(".toList := neat_of_noBlank (by decide)
  have hclose : Neat ");".toList := neat_of_noBlank (by decide)
  have hparams := (hopen.append (neat_paramsText params)).append hclose
  have hname := name.neat.append_space hparams name.ne_nil (by simp)
  have htext := type.neat_text.2.append_space hname type.neat_text.1 (by simp)
  rw [show (prototype type name params).text =
    prototypeText type.text name.text (paramsText params) from rfl, prototypeText]
  simpa using htext

end Decl

end HeaderApi.Grammar
