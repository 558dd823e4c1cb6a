import SqlDialect.Pass.DeclareSection
import SqlDialect.Proofs.Conversion.Walk

/-!
# Declare sections and assignments keep the workspace sound

The section of a routine holds copies only.  An assignment is made of the tokens of a declaration,
which lie below the declaration block, and it goes next to the clause around that block.
-/

namespace SqlDialect.DeclareSection

open Conversion Forest

variable {K : String → Prop} {P : Prop} {w : Workspace}

/-! ## The section -/

section Copies

variable {S : Nat → Prop} {f : Forest} {E : ConversionError → Workspace → Prop}
  {Q : PUnit → Workspace → Prop} {clause : Nat}

lemma copySignature_at (h : At K S f w) (hclause : clause < w.forest.size) (d : Declaration)
    (hQ : ∀ w', At K S f w' → Extends w.forest w'.forest → Q () w') :
    Ends (copySignature clause d) w Q E := by
  refine ends_forest (ends_forM (fun _ w' => At K S f w' ∧ Extends w.forest w'.forest)
    ⟨h, .refl _⟩ ?_ fun w' h' => hQ w' h'.1 h'.2)
  rintro id rest w1 ⟨h1, hext1⟩
  refine ends_ite (fun _ => ends_pure ⟨h1, hext1⟩) fun _ => ?_
  refine ends_bind (appendCopy_at h1 (hext1.lt_size hclause) fun w2 h2 hcopy => ?_)
  have hext2 := hext1.trans hcopy
  refine ends_ite (fun _ => ?_) fun _ => ends_pure ⟨h2, hext2⟩
  exact appendLeaf_at h2 (hext2.lt_size hclause) fun w3 h3 hleaf => ⟨h3, hext2.trans hleaf⟩

lemma addEntry_at (h : At K S f w) (hclause : clause < w.forest.size) (d : Declaration)
    (hQ : ∀ w', At K S f w' → Extends w.forest w'.forest → Q () w') :
    Ends (addEntry clause d) w Q E := by
  refine ends_forest (ends_ite (fun _ => ends_pure (hQ w h (.refl _))) fun _ => ?_)
  refine ends_bind (append_at h hclause fun entry w1 h1 hentry => ?_)
  refine ends_bind (copySignature_at h1 hentry.lt_size d fun w2 h2 hsignature => ?_)
  refine ends_bind (appendLeaf_at h2 (hsignature.lt_size hentry.lt_size) fun w3 h3 hleaf => ?_)
  have hext := (hentry.extends.trans hsignature).trans hleaf
  have hlt := hleaf.lt_size (hsignature.lt_size hentry.lt_size)
  refine ends_forest (ends_forM (fun _ w' => At K S f w' ∧ Extends w3.forest w'.forest)
    ⟨h3, .refl _⟩ ?_ fun w' h' => hQ w' h'.1 (hext.trans h'.2))
  rintro comment rest w4 ⟨h4, hext4⟩
  refine ends_bind (appendLeaf_at h4 (hext4.lt_size hlt) fun w5 h5 hspace => ?_)
  exact appendCopy_at h5 (hspace.lt_size (hext4.lt_size hlt)) fun w6 h6 hcopy =>
    ⟨h6, (hext4.trans hspace).trans hcopy⟩

end Copies

lemma addSection_safe (hw : w.Sound K) (asBlock : Nat) : Safe K P (addSection asBlock) w := by
  refine ends_forest (ends_ite (fun _ => safe_pure hw) fun _ => ?_)
  refine ends_need hw fun statement hstatement => ends_need hw fun blockClause hblock => ?_
  have hblock := hw.wellFormed.parent_of_child hblock
  refine ends_bind (insertNewBefore_at (.unmoved hw) hblock fun sectionClause w1 h1 hsection => ?_)
  refine appendWithLeaf_at h1 hsection.lt_size fun header w2 h2 hext2 _ => ?_
  have hlt := hext2.lt_size hsection.lt_size
  refine ends_forM (fun _ w' => At K (fun _ => False) w.forest w' ∧ Extends w2.forest w'.forest)
    ⟨h2, .refl _⟩ ?_ fun w' h' => h'.1.next rfl
  rintro d rest w3 ⟨h3, hext⟩
  exact addEntry_at h3 (hext.lt_size hlt) d fun w4 h4 hentry => ⟨h4, hext.trans hentry⟩

lemma addSections_safe (hw : w.Sound K) : Safe K P addSections w := by
  refine ends_forest (ends_bind (note_at (.unmoved hw) ⟨?_, hw.notes.tempTables⟩
    fun w1 h1 hforest => ?_))
  · intro d hd x hx
    exact (hw.wellFormed.below_of_mem_declarations hd hx).lt_size
  · exact ends_forM_next h1.sound (fun asBlock _ w' hnext => addSection_safe hnext.1 asBlock)
      fun w' hnext => (h1.next rfl).trans hnext

/-! ## Assignments -/

/-- The tokens of the declaration move into a new clause next to `mark`. -/
lemma assignInitialValue_at {S : Nat → Prop} {f : Forest} {statement mark : Nat} {d : Declaration}
    {Q : NodeId → Workspace → Prop} (h : At K S f w) (hclear : Clear S f statement)
    (hd : ∀ x ∈ d.signature ++ d.value, S x) (hmark : w.forest.parent mark = some statement)
    (hQ : ∀ (target : Nat) w', At K S f w' → w'.forest.parent target = some statement →
      Q target w') :
    Ends (assignInitialValue statement mark d) w Q (Halts K P) := by
  refine ends_forest (ends_need h.sound fun name hname => ?_)
  have hname : S name := hd name (List.mem_append_left _ (List.mem_of_find?_eq_some hname))
  refine ends_bind (insertNewAfter_at h hmark fun target w1 h1 htarget => ?_)
  have hclear1 := h.clear_sprouted (h.clear hclear) htarget
  refine ends_bind (moveTo_at h1 hclear1 hname fun w2 h2 hmoved => ?_)
  have hclear2 := hclear1.relinked hmoved (by simpa using hname)
  refine ends_bind (appendLeaf_at h2 hclear2.lt_size fun w3 h3 hequals => ?_)
  have hclear3 := hclear2.extend hequals h2.wellFormed
  have hvalue : ∀ x ∈ d.value.filter fun id => !w.forest.isNoise id && !w.forest.is id .semicolon,
      S x := fun x hx => hd x (List.mem_append_right _ (List.mem_of_mem_filter hx))
  refine ends_bind (moveAllTo_at h3 hclear3 hvalue fun w4 h4 hvalues => ?_)
  have hclear4 := hclear3.relinked hvalues hvalue
  refine ends_bind (appendLeaf_at h4 hclear4.lt_size fun w5 h5 hsemicolon => ?_)
  refine ends_pure (hQ target w5 h5 (hsemicolon.parent_of ?_))
  rw [hclear3.parent_eq hvalues hvalue]
  refine hequals.parent_of ?_
  rw [hclear1.parent_eq hmoved (by simpa using hname), htarget.parent_new]

lemma assignBlock_safe (hw : w.Sound K) (block : Nat) : Safe K P (assignBlock block) w := by
  have hf := hw.wellFormed
  refine ends_forest (ends_ite (fun _ => safe_pure hw) fun _ => ?_)
  refine ends_need hw fun clause hclause => ends_need hw fun statement hstatement => ?_
  have hclear : Clear (w.forest.Below · block) w.forest clause :=
    hf.clear_below (under_of_parent hclause) (hf.parent_lt hclause)
  -- Each assignment goes after the one before it, the first one after the clause.
  refine ends_bind (ends_discard (ends_foldlM (fun rest (mark : Nat) w' =>
      (∀ d ∈ rest, d ∈ w.forest.extract block) ∧
        At K (w.forest.Below · block) w.forest w' ∧ w'.forest.parent mark = some statement)
    ⟨fun d hd => List.mem_of_mem_filter hd, .of_below hw block, hstatement⟩ ?_ ?_))
  · rintro d rest mark w1 ⟨hmem, h1, hmark⟩
    refine assignInitialValue_at h1 (hclear.up hf hstatement) (fun x hx => ?_) hmark
      fun target w2 h2 htarget => ⟨fun d hd => hmem d (.tail _ hd), h2, htarget⟩
    exact hf.below_of_mem_extract (hmem d (.head _)) hx
  · rintro _ w1 ⟨-, h1, -⟩
    have hclause1 := h1.parent_of_clear hclear hstatement
    exact removeChild_sound h1.sound hclause1 fun w2 h2 _ => (h1.next rfl).trans (h2.next rfl)

lemma assignInitialValues_safe (hw : w.Sound K) : Safe K P assignInitialValues w := by
  refine walk_safe hw fun id w' _ hw' _ =>
    ends_forest (ends_ite (fun _ => ?_) fun _ => safe_pure hw')
  exact (assignBlock_safe hw' id).bind fun _ _ hnext => safe_pure hnext.1

lemma dropLeadingWhiteSpace_safe (hw : w.Sound K) (id : Nat) :
    Safe K P (dropLeadingWhiteSpace id) w := by
  refine ends_forest ?_
  split <;> [rename_i first hfirst; exact safe_pure hw]
  have hfirst := hw.wellFormed.parent_of_head? hfirst
  refine ends_ite (fun _ => ?_) fun _ => safe_pure hw
  exact removeChild_sound hw hfirst fun w' h' _ => h'.next rfl

lemma assignSet_safe (hw : w.Sound K) (keyword : Nat) : Safe K P (assignSet keyword) w := by
  refine ends_forest ?_
  split <;> [rename_i clause hclause; exact safe_pure hw]
  refine ends_need hw fun statement hstatement => ?_
  refine ends_ite (fun _ => safe_pure hw) fun _ => ends_ite (fun _ => safe_pure hw) fun _ => ?_
  split <;> [rename_i equals hequals; exact safe_pure hw]
  refine ends_bind (removeChild_sound hw hclause fun w1 h1 _ => ?_)
  refine ((dropLeadingWhiteSpace_safe h1.sound clause).bind fun _ w2 hnext2 => ?_).imp
    (fun _ _ hnext => (h1.next rfl).trans hnext)
  exact setText_at (.unmoved hnext2.1) fun w3 h3 _ => h3.next rfl

lemma assignSets_safe (hw : w.Sound K) : Safe K P assignSets w :=
  forEachMatch_safe hw fun keyword _ _ hw' _ => assignSet_safe hw' keyword

/-! ## What is left -/

lemma dropBlock_safe (hw : w.Sound K) (block : Nat) : Safe K P (dropBlock block) w := by
  refine ends_forest (ends_need hw fun statement hstatement => ?_)
  split <;> [rename_i container hcontainer; exact safe_pure hw]
  refine ends_ite (fun _ => ?_) fun _ => safe_pure hw
  exact removeChild_sound hw hcontainer fun w' h' _ => h'.next rfl

lemma dropDeclarations_safe (hw : w.Sound K) : Safe K P dropDeclarations w := by
  refine walk_safe hw fun id w' _ hw' _ =>
    ends_forest (ends_ite (fun _ => ?_) fun _ => safe_pure hw')
  exact (dropBlock_safe hw' id).bind fun _ _ hnext => safe_pure hnext.1

end SqlDialect.DeclareSection
