import SqlDialect.Pass.Terminator
import SqlDialect.Pass.Wording
import SqlDialect.Proofs.Conversion.Walk

/-!
# Terminators, names and punctuation keep the workspace sound
-/

namespace SqlDialect

open Conversion Forest

variable {K : String → Prop} {P : Prop} {w : Workspace}

namespace Terminator

lemma dropStatements_safe (hw : w.Sound K) : Safe K P dropStatements w := by
  refine walk_safe hw fun id w' _ hw' _ => ends_forest (ends_ite (fun _ => ?_) fun _ => ?_)
  · exact ends_need hw' fun statement _ =>
      (detach_safe hw' statement).bind fun _ _ hnext => safe_pure hnext.1
  · refine ends_ite (fun _ => ?_) fun _ => safe_pure hw'
    exact (detach_safe hw' id).bind fun _ _ hnext => safe_pure hnext.1

lemma liftTerminators_safe (hw : w.Sound K) : Safe K P liftTerminators w := by
  refine forEachMatch_safe hw fun block w' _ hw' _ => ends_forest ?_
  have hf := hw'.wellFormed
  split <;> [rename_i semicolon hsemicolon; exact safe_pure hw']
  have hsemicolon := hf.parent_of_child hsemicolon
  refine ends_need hw' fun clause hclause => ?_
  exact moveTo_at (.of_loose hw' clause) (clear_loose (hf.parent_lt hclause))
    (hf.loose_of_below ((below_of_parent hsemicolon).tail hclause)) fun _ h' _ => h'.next rfl

lemma terminate_safe (hw : w.Sound K) {clause : Nat} (hclause : clause < w.forest.size) :
    Safe K P (terminate clause) w := by
  refine ends_forest ?_
  split
  · rename_i blank hblank
    have hblank := hw.wellFormed.parent_of_getLast? (Option.filter_eq_some_iff.1 hblank).1
    exact ends_discard (insertNewBefore_at (.unmoved hw) hblank fun _ _ h' _ => h'.next rfl)
  · exact appendLeaf_at (.unmoved hw) hclause fun _ h' _ => h'.next rfl

lemma addTerminators_safe (hw : w.Sound K) : Safe K P addTerminators w := by
  refine walk_safe hw fun id w' _ hw' hid => ends_forest ?_
  split
  case h_4 =>
    exact ends_optional (fun _ => terminate_safe hw' hid) (fun _ => .refl hw')
      fun _ hnext => ends_pure hnext
  all_goals exact safe_pure hw'

end Terminator

namespace Wording

lemma renameIdentifiers_safe (hw : w.Sound K) : Safe K P renameIdentifiers w := by
  refine ends_forest (ends_forM_next hw (fun id _ w' hnext => ?_) fun _ hnext => hnext)
  refine ends_forest (ends_ite (fun _ => ?_) fun _ => safe_pure hnext.1)
  exact setText_at (.unmoved hnext.1) fun _ h' _ => h'.next rfl

lemma convertNationalStrings_safe (hw : w.Sound K) : Safe K P convertNationalStrings w :=
  forEachMatch_safe hw fun _ _ _ hw' _ => setTag_at (.unmoved hw') fun _ h' _ => h'.next rfl

lemma mem_siblingsBefore_of_firstCommentBefore {f : Forest} {id comment : Nat}
    (h : firstCommentBefore f id = some comment) : comment ∈ f.siblingsBefore id := by
  have hrun := List.mem_reverse.1 (List.mem_of_find?_eq_some h)
  exact List.mem_reverse.1 ((List.takeWhile_sublist _).subset hrun)

lemma moveBeforeComments_safe (hw : w.Sound K) (id : Nat) : Safe K P (moveBeforeComments id) w := by
  have hf := hw.wellFormed
  refine ends_forest ?_
  split <;> [rename_i comment hcomment; exact safe_pure hw]
  have hsiblings := hf.siblings_of_mem_siblingsBefore
    (mem_siblingsBefore_of_firstCommentBefore hcomment)
  refine ends_need hw fun parent hparent => ?_
  exact moveBefore_at (.of_loose hw parent) (clear_loose (hf.parent_lt hparent))
    (hf.loose_of_parent hparent) (hsiblings.parent hparent) hsiblings.1.symm fun _ h' _ =>
      h'.next rfl

lemma moveCommas_safe (hw : w.Sound K) : Safe K P moveCommas w :=
  forEachMatch_safe hw fun id _ _ hw' _ => moveBeforeComments_safe hw' id

lemma moveSemicolons_safe (hw : w.Sound K) : Safe K P moveSemicolons w :=
  forEachMatch_safe hw fun id _ _ hw' _ => moveBeforeComments_safe hw' id

end Wording

end SqlDialect
