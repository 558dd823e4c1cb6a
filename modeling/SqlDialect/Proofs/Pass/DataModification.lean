import SqlDialect.Pass.DataModification
import SqlDialect.Proofs.Conversion.Walk

/-!
# Deletes, temporary tables and updates keep the workspace sound

In all three the nodes that are moved come from below the statement that is converted, and go
below nodes that are new or above them.
-/

namespace SqlDialect.DataModification

open Conversion Forest

variable {K : String → Prop} {P : Prop} {w : Workspace}

lemma convertDelete_safe (hw : w.Sound K) (keyword : Nat) : Safe K P (convertDelete keyword) w := by
  have hf := hw.wellFormed
  refine ends_forest ?_
  split <;> [rename_i clause hclause; exact safe_pure hw]
  split <;> [rename_i statement hstatement; exact safe_pure hw]
  refine ends_ite (fun _ => safe_pure hw) fun _ => ?_
  split <;> [rename_i table htable; exact safe_pure hw]
  refine ends_ite (fun _ => safe_pure hw) fun _ => ?_
  have htable := (hf.siblings_of_nextSibling htable).parent hclause
  have hloose := hf.loose_of_parent htable
  have hclear := clear_loose (hf.parent_lt hclause)
  refine ends_bind (removeChild_at (.of_loose hw clause) (.inl hloose) htable fun w1 h1 hoff => ?_)
  refine ends_bind (insertNewAfter_at h1 (h1.parent_of_clear hclear hstatement)
    fun source w2 h2 hsource => ?_)
  have hclear2 := h1.clear_sprouted (h1.clear_up hclear hstatement) hsource
  refine ends_bind (appendLeaf_at h2 hsource.lt_size fun w3 h3 hleaf => ?_)
  have hclear3 := hclear2.extend hleaf h2.wellFormed
  refine ends_bind (append_clear h3 hclear3 fun target w4 h4 hclear4 htarget => ?_)
  have hext := (hsource.extends.trans hleaf).trans htarget.extends
  exact addChild_at h4 hclear4 hloose
    (hext.parent_eq_none (h1.lt_size_of hloose) (hoff.parent_of_mem (by simp)))
    fun w' h' _ => h'.next rfl

lemma convertDeletes_safe (hw : w.Sound K) : Safe K P convertDeletes w :=
  forEachMatch_safe hw fun keyword _ _ hw' _ => convertDelete_safe hw' keyword

lemma parent_of_tempTable? {f : Forest} {block keyword name : Nat} (hf : f.WellFormed)
    (h : tempTable? f block = some (keyword, name)) : f.parent keyword = some block := by
  simp only [tempTable?, Option.bind_eq_bind, Option.bind_eq_some_iff] at h
  obtain ⟨keyword', hkeyword, _, -, name', -, h⟩ := h
  split at h
  · cases h
    exact hf.parent_of_childWithText hkeyword
  · cases h

lemma convertTempTable_safe (hw : w.Sound K) (block : Nat) :
    Safe K P (convertTempTable block) w := by
  refine ends_forest ?_
  split <;> [rename_i keyword name htable; exact safe_pure hw]
  have hkeyword := parent_of_tempTable? hw.wellFormed htable
  refine ends_bind (ends_discard (insertNewAfter_at (.unmoved hw) hkeyword fun _ w1 h1 _ => ?_))
  refine ends_forest ?_
  split <;> [rename_i columns hcolumns; exact ends_pure (h1.next rfl)]
  have hlt := (h1.wellFormed.siblings_of_nextSibling hcolumns).lt_size
  refine note_at h1 ⟨h1.sound.notes.declarations, fun entry hmem => ?_⟩ fun w' h' _ => h'.next rfl
  obtain rfl | hold := Dict.mem_insertEntry hmem
  · exact hlt
  · exact h1.sound.notes.tempTables entry hold

lemma convertTempTables_safe (hw : w.Sound K) : Safe K P convertTempTables w := by
  refine walk_safe hw fun id w' _ hw' _ =>
    ends_forest (ends_ite (fun _ => safe_pure hw') fun _ => ?_)
  exact (convertTempTable_safe hw' id).bind fun _ _ hnext => safe_pure hnext.1

/-! ## Updates -/

/-- The condition goes after a child of the where clause. -/
lemma openCondition_ends {Q : NodeId × NodeId → Workspace → Prop} {statement : Nat} (hw : w.Sound K)
    (hQ : ∀ (clause mark : Nat) w', Next K w w' → w'.forest.parent mark = some clause →
      Q (clause, mark) w') :
    Ends (openCondition statement) w Q (Halts K P) := by
  have hf := hw.wellFormed
  refine ends_forest ?_
  split
  · rename_i clause hclause
    have hclear := clear_loose (lt_size_of_parent (hf.parent_of_childContaining hclause))
    refine ends_bind (wrapInParens_at (.of_loose hw clause) hclear
      (fun i hi => hf.loose_of_parent (hf.parent_of_mem hi)) fun parens w1 h1 hparens => ?_)
    refine ends_bind (insertNewAfter_at h1 hparens fun conjunction w2 h2 hconjunction => ?_)
    refine ends_bind (appendLeaf_at h2 hconjunction.lt_size fun w3 h3 hleaf => ?_)
    exact ends_pure (hQ clause conjunction w3 (h3.next rfl)
      (hleaf.parent_of hconjunction.parent_new))
  · refine ends_need hw fun last hlast => ?_
    have hlast := hf.parent_of_lastChild hlast
    have hclear := clear_loose (hf.parent_lt hlast)
    have hloose : ∀ s, w.forest.terminator last = some s → w.forest.Loose statement s :=
      fun s hs => hf.loose_of_below ((hf.below_of_terminator hs).1.trans (below_of_parent hlast))
    refine ends_bind (takeTerminator_at (.of_loose hw statement) hloose fun w1 h1 hoff => ?_)
    refine ends_bind (append_clear h1 (h1.clear hclear) fun clause w2 h2 hclear2 hclause => ?_)
    refine ends_bind (append_at h2 hclause.lt_size fun keyword w3 h3 hkeyword => ?_)
    have hext := hclause.extends.trans hkeyword.extends
    have hnone : ∀ s, w.forest.terminator last = some s → w3.forest.parent s = none := fun s hs =>
      hext.parent_eq_none (h1.lt_size_of (hloose s hs)) (hoff.parent_of_mem (by simp [hs]))
    refine ends_bind (putTerminator_at h3 (hclear2.extend hkeyword.extends h2.wellFormed) hloose
      hnone fun w4 h4 hon => ?_)
    refine ends_pure (hQ clause keyword w4 (h4.next rfl) ?_)
    rw [hon.parent_of_notMem, hkeyword.parent_new]
    intro hmem
    exact h2.not_mem_new (hkeyword.id_eq ▸ h2.since.size_le) (hloose keyword (by simpa using hmem))

lemma convertUpdate_safe (hw : w.Sound K) (keyword : Nat) : Safe K P (convertUpdate keyword) w := by
  have hf := hw.wellFormed
  refine ends_forest ?_
  split <;> [rename_i update hupdate; exact safe_pure hw]
  split <;> [rename_i statement hstatement; exact safe_pure hw]
  split <;> [rename_i source hsource; exact safe_pure hw]
  split <;> [rename_i target htarget; exact safe_pure hw]
  split <;> [rename_i selection mention hmention; exact safe_pure hw]
  refine ends_choice (fun _ => need_ends hw fun _ _ => rfl)
    (fun _ => ends_pure rfl) ?_
  rintro table _ rfl
  refine ends_optional (R := Next K w) (fun _ => ?_) (fun _ => .refl hw) fun w1 hnext1 => ?_
  · exact setText_at (.unmoved hw) fun w1 h1 _ => h1.next rfl
  refine ends_bind (appendLeaves_at (.unmoved hnext1.1)
    ((hf.parent_lt hupdate).trans_le hnext1.2) fun w2 h2 _ => ?_)
  refine ends_bind (openCondition_ends h2.sound fun clause mark w3 hnext3 hmark => ?_)
  refine ends_discard (insertLeavesAfter_at (.unmoved hnext3.1) hmark fun _ w4 h4 _ _ => ?_)
  exact ((hnext1.trans (h2.next rfl)).trans hnext3).trans (h4.next rfl)

lemma convertUpdates_safe (hw : w.Sound K) : Safe K P convertUpdates w :=
  forEachMatch_safe hw fun keyword _ _ hw' _ => convertUpdate_safe hw' keyword

end SqlDialect.DataModification
