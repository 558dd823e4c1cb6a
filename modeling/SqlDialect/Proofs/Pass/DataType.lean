import SqlDialect.Pass.DataType
import SqlDialect.Proofs.Pass.FunctionCall

/-!
# Casts and data types keep the workspace sound
-/

namespace SqlDialect.DataType

open Conversion Forest FunctionCall

variable {K : String → Prop} {P : Prop} {w : Workspace} {S : Nat → Prop} {f : Forest}
  {E : ConversionError → Workspace → Prop}

/-! ## Casts -/

lemma placeValue_at {holder mark : Nat} {value : List NodeId} {Q : PUnit → Workspace → Prop}
    (h : At K S f w) (hclear : Clear S f mark) (hmark : f.parent mark = some holder)
    (hvalue : ∀ i ∈ value, S i) (hQ : ∀ w', At K S f w' → Q () w') :
    Ends (placeValue holder mark value) w Q E := by
  have hholder := h.clear_up hclear hmark
  have hmark := h.parent_of_clear hclear hmark
  refine ends_forest (ends_ite (fun _ => ?_) fun _ => ?_)
  · exact moveAllBefore_at h hholder hvalue hmark (fun hmem => hclear.not_mem (hvalue mark hmem))
      fun w1 h1 _ => hQ w1 h1
  · refine ends_bind (insertNewBefore_at h hmark fun parens w1 h1 hparens => ?_)
    exact moveAllTo_at h1 (h.clear_sprouted hholder hparens) hvalue fun w2 h2 _ => hQ w2 h2

lemma convertCast_takesOut (hw : w.Sound K) (function : Nat) :
    Ends (convertCast function) w
      (fun _ w' => Next K w w' ∧ ∃ parens, TakenOut w.forest function parens w'.forest)
        (Halts K P) := by
  have hf := hw.wellFormed
  refine ends_forest (ends_need hw fun holder hholder => ends_need hw fun arguments harguments =>
    ?_)
  have hcall := siblings_of_argumentsOf hf harguments
  have hfunction := clear_function hf hcall hholder
  refine ends_need hw fun asKeyword _ => ?_
  refine ends_ite (fun _ => ends_bind (ends_throw (halts_shape hw))) fun _ => ?_
  refine ends_bind (placeValue_at (.of_below hw arguments) hfunction hholder
    (below_of_sublist hf (partBefore_sublist _ _ _)) fun w1 h1 => ?_)
  refine ends_bind (ends_discard (insertNewBefore_at h1 (h1.parent_of_clear hfunction hholder)
    fun _ w2 h2 _ => ?_))
  have htarget := below_of_sublist hf (partAfter_sublist w.forest arguments asKeyword)
  refine ends_bind (moveAllBefore_at h2 (h2.clear_up hfunction hholder) htarget
    (h2.parent_of_clear hfunction hholder) (fun hmem => hfunction.not_mem (htarget _ hmem))
    fun w3 h3 _ => ?_)
  exact At.removeCall h3 harguments hholder rfl

lemma convertCasts_safe (hw : w.Sound K) : Safe K P convertCasts w :=
  forEachMatch_safe hw fun function _ _ hw' _ =>
    (convertCast_takesOut hw' function).imp fun _ _ h => h.1

lemma convertTryCasts_safe (hw : w.Sound K) : Safe K P convertTryCasts w := by
  refine forEachMatch_safe hw fun function w hmeets hw hid => ?_
  have hf := hw.wellFormed
  refine ends_forest (ends_need hw fun arguments _ => ends_need hw fun asKeyword has => ?_)
  have has := hf.parent_of_childWithText has
  refine ends_need hw fun target htarget => ?_
  have htarget := (hf.siblings_of_nextSibling htarget).parent has
  refine ends_bind (ends_discard (insertNewBefore_at (.unmoved hw) has fun _ w1 h1 hcomma => ?_))
  refine ends_bind (ends_discard (insertNewBefore_at h1 (hcomma.extends.parent_of htarget)
    fun _ w2 h2 hnull => ?_))
  have hext := hcomma.extends.trans hnull.extends
  refine ends_bind (ends_discard (insertNewBefore_at h2 (hext.parent_of htarget)
    fun _ w3 h3 hperiod => ?_))
  have has := (hext.trans hperiod.extends).parent_of has
  exact removeChild_sound h3.sound has fun w4 h4 _ => (h3.next rfl).trans (h4.next rfl)

/-! ## Types -/

lemma convertTypes_safe (hw : w.Sound K) : Safe K P convertTypes w := by
  refine forEachMatch_safe hw fun dataType w _ hw _ => ends_forest ?_
  refine ends_optional (R := Next K w) (fun _ => ?_) (fun _ => .refl hw) fun w1 hnext => ?_
  · generalize (w.forest.nextSibling dataType).filter _ = parens
    cases parens with
    | none => exact safe_pure hw
    | some parens => exact detach_safe hw parens
  · exact (forM_setText_safe hnext.1 dataType _).imp (fun _ _ h => hnext.trans h)

/-! ## Identity columns -/

/-- The numbers in brackets after `identity` are a sibling of the word. -/
lemma removeSeed_at {holder identity : Nat} {parens : Option NodeId} {Q : PUnit → Workspace → Prop}
    (hw : w.Sound K) (hidentity : w.forest.parent identity = some holder)
    (hparens : ∀ p, parens = some p → w.forest.Siblings identity p)
    (hQ : ∀ w', At K (w.forest.Loose holder) w.forest w' →
      w'.forest.parent identity = some holder → Q () w') :
    Ends (parens.forM (removeChild holder)) w Q E := by
  cases parens with
  | none => exact ends_pure (hQ w (.of_loose hw holder) hidentity)
  | some parens =>
    have hsiblings := hparens parens rfl
    have hparent := hsiblings.parent hidentity
    exact removeChild_sound hw hparent fun w1 h1 hoff => hQ w1 h1
        ((hoff.parent_of_notMem (by simpa using hsiblings.1)).trans hidentity)

lemma convertIdentities_safe (hw : w.Sound K) : Safe K P convertIdentities w := by
  refine forEachMatch_safe hw fun identity w _ hw _ => ?_
  have hf := hw.wellFormed
  refine ends_forest (ends_need hw fun holder hholder => ends_need hw fun parts _ => ?_)
  refine ends_need hw fun dataType _ => ?_
  refine ends_bind (removeSeed_at hw hholder (fun p hp => hf.siblings_of_nextSibling
    (Option.filter_eq_some_iff.1 hp).1) fun w1 h1 hidentity => ?_)
  refine ends_bind (removeChild_at h1 (.inl (hf.loose_of_parent hholder)) hidentity
    fun w2 h2 _ => ?_)
  exact (forM_setText_safe h2.sound dataType _).imp (fun _ _ h => (h2.next rfl).trans h)

end SqlDialect.DataType
