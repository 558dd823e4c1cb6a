import SqlDialect.Pass.ControlFlow
import SqlDialect.Proofs.Conversion.Walk

/-!
# Conditions and loops keep the workspace sound
-/

namespace SqlDialect.ControlFlow

open Conversion Forest

variable {K : String → Prop} {P : Prop} {w : Workspace}

/-! ## Guarded drops -/

lemma below_of_guardedDrop? {f : Forest} {id clause : Nat} (hf : f.WellFormed)
    (h : guardedDrop? f id = some clause) : f.Below clause id := by
  cases hif : f.is id .ifStatement
  · simp [guardedDrop?, hif] at h
  cases helse : f.child id .elseClause with
  | some _ => simp [guardedDrop?, hif, helse] at h
  | none =>
    simp only [guardedDrop?, hif, helse, Bool.not_true, Option.isSome_none, Bool.false_eq_true,
      if_false, Option.bind_eq_bind, Option.bind_eq_some_iff, Option.some.injEq] at h
    obtain ⟨_, -, _, -, _, hpath, _, -, rfl⟩ := h
    exact hf.below_of_path hpath

/-- The drop lies below the statement that holds the if, and goes next to it. -/
lemma unguardDrop_safe (hw : w.Sound K) {ifStatement dropClause : Nat}
    (hdrop : w.forest.Below dropClause ifStatement) :
    Safe K P (unguardDrop ifStatement dropClause) w := by
  refine ends_forest (ends_need hw fun table htable => ?_)
  have htable := hw.wellFormed.parent_of_child htable
  refine ends_bind (ends_discard (insertNewBefore_at (.unmoved hw) htable fun _ w1 h1 hif => ?_))
  refine ends_bind (ends_discard (insertNewBefore_at h1 (hif.extends.parent_of htable)
    fun _ w2 h2 hexists => ?_))
  have hext := hif.extends.trans hexists.extends
  have hdrop := hdrop.mono fun h => hext.parent_of h
  have hf := h2.wellFormed
  refine ends_forest (ends_need h2.sound fun dropStatement hstatement => ?_)
  refine ends_need h2.sound fun outer houter => ends_need h2.sound fun container hcontainer => ?_
  obtain ⟨clause, hclause, houter⟩ := Option.bind_eq_some_iff.1 houter
  have hunder : w2.forest.Under dropStatement ifStatement := by
    obtain ⟨p, hp, hunder⟩ := below_iff.1 hdrop
    cases hstatement.symm.trans hp
    exact hunder
  have hbelow : w2.forest.Below dropStatement outer :=
    hunder.trans_below ((below_of_parent hclause).tail houter)
  have hloose := hf.loose_of_below (hbelow.tail hcontainer)
  have hne : outer ≠ dropStatement := fun heq => hf.acyclic outer (heq ▸ hbelow)
  refine ends_bind (moveAfter_at (.of_loose h2.sound container)
    (clear_loose (hf.parent_lt hcontainer)) hloose hcontainer hne fun w3 h3 hmoved => ?_)
  have hcontainer3 : w3.forest.parent outer = some container := by
    rw [hmoved.parent_of_notMem (by simpa using hne), hcontainer]
  exact removeChild_at h3 (.inl (hf.loose_of_parent hcontainer)) hcontainer3
    fun w4 h4 _ => (h2.next rfl).trans (h4.next rfl)

lemma convertGuardedDrops_safe (hw : w.Sound K) : Safe K P convertGuardedDrops w := by
  refine walk_safe hw fun id w' _ hw' _ => ends_forest ?_
  split <;> [rename_i clause hclause; exact safe_pure hw']
  exact (unguardDrop_safe hw' (below_of_guardedDrop? hw'.wellFormed hclause)).bind
    fun _ _ hnext => safe_pure hnext.1

/-! ## Branches -/

section

variable (hw : w.Sound K)
include hw

lemma wrapInBeginEnd_safe {container : Nat} (hlt : container < w.forest.size) :
    Safe K P (wrapInBeginEnd container) w :=
  wrapInBeginEnd_at (.of_loose hw container) (clear_loose hlt)
    (fun _ hi => hw.wellFormed.loose_of_parent (hw.wellFormed.parent_of_mem hi))
    fun _ h' => h'.next rfl

lemma blockBranch_safe (id : Nat) : Safe K P (blockBranch id) w := by
  refine ends_forest ?_
  split <;> [rename_i container hcontainer; exact safe_pure hw]
  have hwrap : Safe K P (wrapInBeginEnd container) w :=
    wrapInBeginEnd_safe hw (lt_size_of_parent (hw.wellFormed.parent_of_child hcontainer))
  split
  · exact hwrap
  · exact ends_ite (fun _ => hwrap) fun _ => safe_pure hw
  · exact safe_pure hw

lemma blockBranches_safe : Safe K P blockBranches w :=
  walk_safe hw fun id _ _ hw' _ => (blockBranch_safe hw' id).bind fun _ _ hnext => safe_pure hnext.1

lemma closeBlock_safe {closer : Nat} (hcloser : closer < w.forest.size)
    (words : String) : Safe K P (closeBlock closer words) w := by
  refine ends_forest (ends_need hw fun keyword _ => ?_)
  refine ends_bind (setText_at (.unmoved hw) fun w1 h1 htext => ends_forest ?_)
  refine ends_ite (fun _ => ?_) fun _ => ends_pure (h1.next rfl)
  exact appendLeaf_at h1 (h1.lt_size hcloser) fun w2 h2 _ => h2.next rfl

lemma joinElseIf_safe (branch : Nat) : Safe K P (joinElseIf branch) w := by
  refine ends_forest (ends_need hw fun keyword _ => ?_)
  refine ends_bind (setText_at (.unmoved hw) fun w1 h1 _ => ?_)
  refine ends_forest (ends_need h1.sound fun nested _ => ?_)
  split <;> [rename_i opener hopener; exact ends_pure (h1.next rfl)]
  have hopener := h1.wellFormed.parent_of_child hopener
  exact removeChild_sound h1.sound hopener fun w2 h2 _ => (h1.next rfl).trans (h2.next rfl)

lemma beginBranch_safe (branch block : Nat) : Safe K P (beginBranch branch block) w := by
  refine ends_forest (ends_need hw fun opener hopener => ?_)
  have hopener := hw.wellFormed.parent_of_child hopener
  refine ends_ite (fun _ => ?_) fun _ => ends_need hw fun keyword _ => ?_
  · exact removeChild_sound hw hopener fun w1 h1 _ => h1.next rfl
  · exact setText_at (.unmoved hw) fun w1 h1 _ => h1.next rfl

lemma endBranch_safe (branch block : Nat) : Safe K P (endBranch branch block) w := by
  refine ends_forest (ends_need hw fun closer hcloser => ?_)
  have hcloser := hw.wellFormed.parent_of_child hcloser
  refine ends_ite (fun _ => ?_) fun _ => closeBlock_safe hw (lt_size_of_parent hcloser) _
  exact removeChild_sound hw hcloser fun w1 h1 _ => h1.next rfl

lemma convertBranch_safe (branch : Nat) : Safe K P (convertBranch branch) w := by
  refine ends_forest ?_
  split
  · rename_i block _
    exact (beginBranch_safe hw branch block).bind fun _ _ hnext =>
      endBranch_safe hnext.1 branch block
  · exact ends_ite (fun _ => joinElseIf_safe hw branch) fun _ => safe_pure hw

lemma convertConditions_safe : Safe K P convertConditions w := by
  refine walk_safe hw fun id w' _ hw' _ =>
    ends_forest (ends_ite (fun _ => ?_) fun _ => safe_pure hw')
  exact (convertBranch_safe hw' id).bind fun _ _ hnext => safe_pure hnext.1

end

/-! ## Loops -/

lemma convertLoop_safe (hw : w.Sound K) (id : Nat) : Safe K P (convertLoop id) w := by
  refine ends_forest (Safe.bind ?_ fun _ w1 hnext1 => ?_)
  · cases hcontainer : w.forest.child id .containerSingleStatement with
    | none => exact safe_pure hw
    | some container =>
      exact wrapInBeginEnd_safe hw (lt_size_of_parent (hw.wellFormed.parent_of_child hcontainer))
  · have hw1 := hnext1.1
    refine ends_forest (ends_need hw1 fun block _ => ends_need hw1 fun keyword _ => ?_)
    refine ends_bind (setText_at (.unmoved hw1) fun w2 h2 _ => ?_)
    refine ends_forest (ends_need h2.sound fun closer hcloser => ?_)
    refine (closeBlock_safe h2.sound (lt_size_of_parent (h2.wellFormed.parent_of_child hcloser))
      _).imp (fun _ _ hnext => (h2.next rfl).trans hnext)

lemma convertLoops_safe (hw : w.Sound K) : Safe K P convertLoops w :=
  forEachMatch_safe hw fun id _ _ hw' _ => convertLoop_safe hw' id

end SqlDialect.ControlFlow
