import SqlDialect.Pass.JsonFunction
import SqlDialect.Proofs.Pass.FunctionCall

/-!
# Functions on JSON values keep the workspace sound
-/

namespace SqlDialect.JsonFunction

open Conversion Forest FunctionCall

variable {K : String → Prop} {P : Prop} {w : Workspace} {function : Nat}

lemma convertQuery_safe (hw : w.Sound K) (function : Nat) : Safe K P (convertQuery function) w := by
  refine ends_forest (ends_need hw fun parens hparens => ?_)
  have hlt := (siblings_of_argumentsOf hw.wellFormed hparens).lt_size
  refine ends_ite (fun _ => safe_pure hw) fun _ => ?_
  refine ends_bind (setTag_at (.unmoved hw) fun w1 h1 _ => ?_)
  refine ends_bind (setText_at h1 fun w2 h2 _ => ?_)
  exact appendLeaves_at h2 (h2.lt_size hlt) fun w3 h3 _ => h3.next rfl

lemma convertTest_safe (hw : w.Sound K) (function : Nat) : Safe K P (convertTest function) w := by
  have hf := hw.wellFormed
  refine ends_forest (ends_need hw fun holder hholder => ends_need hw fun parens hparens => ?_)
  have hlt := (siblings_of_argumentsOf hf hparens).lt_size
  refine ends_bind (removeChild_sound hw hholder fun w1 h1 _ => ?_)
  refine ends_bind (setTag_at h1 fun w2 h2 _ => ?_)
  exact appendLeaves_at h2 (h2.lt_size hlt) fun w3 h3 _ => h3.next rfl

/-! ## Opened documents -/

lemma listMembers_safe (hw : w.Sound K) {parens : Nat} (hparens : parens < w.forest.size)
    (hasPath : Bool) : Safe K P (listMembers function parens hasPath) w := by
  refine ends_bind (setText_at (.unmoved hw) fun w1 h1 _ => ?_)
  refine ends_ite (fun _ => ?_) fun _ => ends_pure (h1.next rfl)
  have hf := h1.wellFormed
  have hclear := hf.clear_children (h1.lt_size hparens)
  refine ends_forest (ends_bind (appendLeaf_at (.of_children h1.sound parens) hclear.lt_size
    fun w2 h2 _ => ?_))
  refine ends_bind (append_clear h2 (h2.clear hclear) fun inner w3 h3 hclear3 _ => ?_)
  exact moveAllTo_at h3 hclear3 (fun i hi => hf.parent_of_mem hi) fun w4 h4 _ =>
    (h1.next rfl).trans (h4.next rfl)

lemma convertColumns_safe (hw : w.Sound K) (columns : Nat) :
    Safe K P (convertColumns columns) w := by
  have hf := hw.wellFormed
  refine ends_forest (ends_bind (ends_forM (fun rest w' => At K (fun _ => False) w.forest w' ∧
    ∀ path ∈ rest, w.forest.parent path = some columns)
    ⟨.unmoved hw, fun path hpath => hf.parent_of_mem_childrenOf hpath⟩ ?_ ?_))
  · rintro path rest w1 ⟨h1, hrest⟩
    have hpath := hrest path (.head _)
    exact ends_discard (insertNewBefore_at h1
      (h1.parent_of_clear (clear_unmoved (lt_size_of_parent hpath)) hpath)
      fun _ w2 h2 _ => ⟨h2, fun p hp => hrest p (.tail _ hp)⟩)
  · rintro w1 ⟨h1, -⟩
    refine ends_forest (ends_forM_next h1.sound (fun keyword _ w2 hnext => ?_)
      fun w2 hnext => (h1.next rfl).trans hnext)
    refine ends_forest (ends_ite (fun _ => ?_) fun _ => safe_pure hnext.1)
    split <;> [skip; exact safe_pure hnext.1]
    exact ends_bind (setText_at (.unmoved hnext.1) fun w3 h3 _ => setText_at h3
      fun w4 h4 _ => h4.next rfl)

/-- The column list is not the argument list: only one word stands directly before each. -/
lemma tabulate_safe {target parens withKeyword : Nat} {hasPath : Bool} (hw : w.Sound K)
    (hfunction : w.forest.tag function = .otherNode)
    (htarget : w.forest.parent function = some target)
    (hparens : argumentsOf w.forest function = some parens)
    (hwith : w.forest.childWithText target .otherKeyword "with" = some withKeyword) :
    Safe K P (tabulate target function parens withKeyword hasPath) w := by
  have hf := hw.wellFormed
  refine ends_forest (ends_need hw fun columns hcolumns => ?_)
  obtain ⟨hnext, hcolumnsTag⟩ := Option.filter_eq_some_iff.1 hcolumns
  obtain ⟨hparensNext, hparensTag⟩ := Option.filter_eq_some_iff.1 hparens
  have hwithTag := tag_of_childWithText hwith
  have hwith := hf.parent_of_childWithText hwith
  have hcolumns := (hf.siblings_of_nextSibling hnext).parent hwith
  have hparens := (siblings_of_argumentsOf hf hparens).parent htarget
  have hwithNe : parens ≠ withKeyword := by
    rintro rfl
    rw [hwithTag] at hparensTag
    cases hparensTag
  have hcolumnsNe : parens ≠ columns := by
    rintro rfl
    have heq : function = withKeyword := hf.eq_of_nextSibling_eq hparensNext hnext
      (by rw [isNoise, isWhiteSpace, is, isComment, hfunction]; decide)
      (by rw [isNoise, isWhiteSpace, is, isComment, hwithTag]; decide)
    rw [heq, hwithTag] at hfunction
    cases hfunction
  have hclear := clear_loose (lt_size_of_parent hparens)
  have hloose {x : Nat} (hne : parens ≠ x) (hx : w.forest.parent x = some target) :
      w.forest.Loose parens x :=
    ⟨⟨target, hx⟩, hf.not_under_of_siblings ⟨hne, target, hparens, hx⟩⟩
  refine ends_bind (setText_at (.of_loose hw parens) fun w1 h1 htext => ?_)
  refine ends_bind (removeChild_at h1 (.inl (hloose hwithNe hwith))
    ((htext.parent_eq _).trans hwith) fun w2 h2 hoff2 => ?_)
  have hcolumns2 : w2.forest.parent columns = some target := by
    rw [hoff2.parent_of_notMem (by simpa using (hf.siblings_of_nextSibling hnext).1.symm),
      htext.parent_eq, hcolumns]
  refine ends_bind (removeChild_at h2 (.inl (hloose hcolumnsNe hcolumns)) hcolumns2
    fun w3 h3 hoff3 => ?_)
  have hlt3 : columns < w3.forest.size := h3.lt_size (lt_size_of_parent hcolumns)
  refine ends_optional (R := fun w' => At K (w.forest.Loose parens) w.forest w' ∧
    Extends w3.forest w'.forest)
    (fun _ => appendLeaves_at h3 (h3.clear hclear).lt_size fun w4 h4 hext => ⟨h4, hext⟩)
    (fun _ => ⟨h3, .refl _⟩) ?_
  rintro w4 ⟨h4, hext4⟩
  refine appendWithLeaf_clear h4 (h4.clear hclear) fun clause w6 h6 hext6 hclear6 => ?_
  have hnone : w6.forest.parent columns = none :=
    (hext4.trans hext6).parent_eq_none hlt3 (hoff3.parent_of_mem (by simp))
  refine ends_bind (addChild_at h6 hclear6 (hloose hcolumnsNe hcolumns) hnone fun w7 h7 _ => ?_)
  exact (convertColumns_safe h7.sound columns).imp (fun _ _ h => (h7.next rfl).trans h)

lemma convertOpen_safe (hw : w.Sound K) (hfunction : w.forest.tag function = .otherNode) :
    Safe K P (convertOpen function) w := by
  refine ends_forest (ends_need hw fun target htarget => ends_need hw fun parens hparens => ?_)
  split
  · rename_i withKeyword hwith
    exact tabulate_safe hw hfunction htarget hparens hwith
  · exact listMembers_safe hw (siblings_of_argumentsOf hw.wellFormed hparens).lt_size _

lemma convertFunctions_safe (hw : w.Sound K) : Safe K P convertFunctions w := by
  refine forEachMatch_safe hw fun function w' hmeets hw' _ => ends_forest ?_
  refine ends_ite (fun _ => convertQuery_safe hw' function) fun _ => ?_
  refine ends_ite (fun _ => convertTest_safe hw' function) fun _ => ?_
  refine ends_ite (fun _ => convertOpen_safe hw' ?_) fun _ => safe_pure hw'
  exact tag_of_is (Bool.and_eq_true _ _ ▸ hmeets.2 : _ ∧ _).1

end SqlDialect.JsonFunction
