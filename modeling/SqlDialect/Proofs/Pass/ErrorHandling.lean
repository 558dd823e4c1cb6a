import SqlDialect.Pass.ErrorHandling
import SqlDialect.Proofs.Conversion.Walk

/-!
# Transactions and errors keep the workspace sound

The words of a converted try block are kept in an attribute, so its key has to be allowed.
-/

namespace SqlDialect.ErrorHandling

open Conversion Forest

variable {K : String → Prop} {P : Prop} {w : Workspace} {S : Nat → Prop} {f : Forest}

lemma dropTransactions_safe (hw : w.Sound K) : Safe K P dropTransactions w := by
  refine walk_safe hw fun id w' _ hw' _ =>
    ends_forest (ends_ite (fun _ => safe_pure hw') fun _ => ?_)
  exact ends_need hw' fun statement _ =>
    (detach_safe hw' statement).bind fun _ _ hnext => safe_pure hnext.1

/-! ## Try and catch -/

lemma convertTry_safe (hkey : K simpleTextKey) (hw : w.Sound K) (keyword : Nat) :
    Safe K P (convertTry keyword) w := by
  refine ends_forest (ends_ite (fun _ => ?_) fun _ => ?_)
  · refine ends_need hw fun opener hopener => ?_
    refine ends_bind (removeChild_sound hw hopener fun w1 h1 _ => ?_)
    exact setAttribute_at h1 hkey fun w2 h2 _ => h2.next rfl
  · exact ends_need hw fun closer _ => detach_safe hw closer

lemma convertCatch_safe (hkey : K simpleTextKey) (hw : w.Sound K) (keyword : Nat) :
    Safe K P (convertCatch keyword) w := by
  refine ends_forest (ends_need hw fun marker _ => ?_)
  exact setAttribute_at (.unmoved hw) hkey fun w1 h1 _ => h1.next rfl

/-! ## Raised errors -/

/-- The message is put after a keyword that has just been made. -/
lemma raiseException_at {token clause : Nat} {message : List NodeId} {Q : PUnit → Workspace → Prop}
    (h : At K S f w) (htoken : w.forest.parent token = some clause)
    (hclear : Clear S w.forest clause) (hmessage : ∀ i ∈ message, S i) (hnodup : message.Nodup)
    (hQ : ∀ w', At K S f w' → Q () w') : Ends (raiseException token message) w Q (Halts K P) := by
  refine ends_forest (ends_need_some htoken ?_)
  refine ends_bind (setTag_at h fun w1 h1 htag => ?_)
  refine ends_bind (setText_at h1 fun w2 h2 htext => ?_)
  have hclear2 := (hclear.retagged htag h.wellFormed).extend htext.extends h1.wellFormed
  have htoken2 := htext.extends.parent_of (htag.parent_of htoken)
  refine ends_bind (insertNewAfter_at h2 htoken2 fun mark w3 h3 hmark => ?_)
  have hnot : mark ∉ message := fun hmem =>
    h2.not_mem_new (hmark.id_eq ▸ h2.since.size_le) (hmessage mark hmem)
  refine ends_bind (moveAllAfter_at h3 (hclear2.extend hmark.extends h2.wellFormed) hmessage
    hmark.parent_new hnot hnodup fun last w4 h4 _ hlast => ?_)
  exact ends_discard (insertLeavesAfter_at h4 hlast fun _ w5 h5 _ _ => hQ w5 h5)

lemma convertThrow_safe (hw : w.Sound K) (token : Nat) : Safe K P (convertThrow token) w := by
  have hf := hw.wellFormed
  refine ends_forest (ends_need hw fun clause hclause => ?_)
  generalize harguments : (w.forest.siblingsAfter token).takeWhile _ = arguments
  have hsublist : arguments.Sublist (w.forest.siblingsAfter token) :=
    harguments ▸ List.takeWhile_sublist _
  have hnodup := hsublist.nodup (hf.nodup_siblingsAfter token)
  have hsiblings : ∀ i ∈ arguments, w.forest.Siblings token i := fun i hi =>
    hf.siblings_of_mem_siblingsAfter (hsublist.subset hi)
  have hparent : ∀ i ∈ arguments, w.forest.parent i = some clause := fun i hi =>
    (hsiblings i hi).parent hclause
  refine ends_ite (fun _ => ?_) fun _ => ?_
  · exact ends_bind (setTag_at (.unmoved hw) fun w1 h1 _ => setText_at h1 fun w2 h2 _ =>
      h2.next rfl)
  refine ends_need hw fun part hpart => ?_
  have hpartMem := List.mem_of_getElem? hpart
  have hmessage : ∀ i ∈ w.forest.trimWhiteSpace part, i ∈ arguments := fun i hi =>
    mem_of_mem_separate hpartMem ((trimWhiteSpace_sublist _ _).subset hi)
  have hpartNodup : part.Nodup := by
    have hflat : (separate (w.forest.is · .comma) arguments).flatten.Nodup := by
      rw [flatten_separate]
      exact hnodup.filter _
    exact (List.nodup_flatten.1 hflat).1 part hpartMem
  have hloose : ∀ i ∈ arguments, w.forest.Loose clause i := fun i hi =>
    hf.loose_of_parent (hparent i hi)
  refine ends_bind (removeAll_at (.of_loose hw clause)
    (fun i hi => hloose i (List.mem_of_mem_filter hi))
    (fun i hi => hparent i (List.mem_of_mem_filter hi)) (hnodup.filter _) fun w1 h1 hoff => ?_)
  have htoken : w1.forest.parent token = some clause := by
    rw [hoff.parent_of_notMem, hclause]
    exact fun hmem => (hsiblings token (List.mem_of_mem_filter hmem)).1 rfl
  exact raiseException_at h1 htoken (h1.clear (clear_loose (hf.parent_lt hclause)))
    (fun i hi => hloose i (hmessage i hi)) ((trimWhiteSpace_sublist _ _).nodup hpartNodup)
    fun w2 h2 => h2.next rfl

lemma convertRaiserror_safe (hw : w.Sound K) (keyword : Nat) :
    Safe K P (convertRaiserror keyword) w := by
  have hf := hw.wellFormed
  refine ends_forest (ends_need hw fun clause hclause => ends_need hw fun parens hparens => ?_)
  have hsiblings := hf.siblings_of_nextSibling (Option.filter_eq_some_iff.1 hparens).1
  have hparens := hsiblings.parent hclause
  generalize hmessage : w.forest.trimWhiteSpace _ = message
  have hsublist : message.Sublist (w.forest.children parens) :=
    hmessage ▸ (trimWhiteSpace_sublist _ _).trans (List.takeWhile_sublist _)
  have hparent : ∀ i ∈ message, w.forest.parent i = some parens := fun i hi =>
    hf.parent_of_mem (hsublist.subset hi)
  have hloose : ∀ i ∈ message, w.forest.Loose clause i := fun i hi =>
    hf.loose_of_below ((below_of_parent (hparent i hi)).tail hparens)
  -- A child of the clause is not in the message, which stands in the brackets.
  have hnot {x : Nat} (hx : w.forest.parent x = some clause) : x ∉ message := fun hmem => by
    cases hx.symm.trans (hparent x hmem)
    exact hf.not_under_of_child hparens (Under.refl _ _)
  refine ends_bind (detachAll_at (.of_loose hw clause) hloose fun w1 h1 hoff1 => ?_)
  refine ends_bind (removeChild_at h1 (.inl (hf.loose_of_parent hparens))
    ((hoff1.parent_of_notMem (hnot hparens)).trans hparens) fun w2 h2 hoff2 => ?_)
  have hkeyword : w2.forest.parent keyword = some clause := by
    rw [hoff2.parent_of_notMem (by simpa using hsiblings.1), hoff1.parent_of_notMem (hnot hclause),
      hclause]
  exact raiseException_at h2 hkeyword (h2.clear (clear_loose (hf.parent_lt hclause))) hloose
    (hsublist.nodup (hf.nodup_children parens)) fun w3 h3 => h3.next rfl

lemma convertToken_safe (hkey : K simpleTextKey) (hw : w.Sound K) (id : Nat) :
    Safe K P (convertToken id) w := by
  refine ends_forest (ends_ite (fun _ => convertTry_safe hkey hw id) fun _ => ?_)
  refine ends_ite (fun _ => convertCatch_safe hkey hw id) fun _ => ?_
  refine ends_ite (fun _ => convertRaiserror_safe hw id) fun _ => ?_
  exact ends_ite (fun _ => convertThrow_safe hw id) fun _ => safe_pure hw

lemma convertErrorHandling_safe (hkey : K simpleTextKey) (hw : w.Sound K) :
    Safe K P convertErrorHandling w :=
  walk_safe hw fun id _ _ hw' _ =>
    (convertToken_safe hkey hw' id).bind fun _ _ hnext => safe_pure hnext.1

end SqlDialect.ErrorHandling
