import SqlDialect.Pass.TableVariable
import SqlDialect.Proofs.Conversion.Walk

/-!
# Table variables keep the workspace sound

A list of parameters loses nodes while it is gone through, so a word `readonly` that was found at
the start may have been removed when its turn comes.  It then has no sibling before it and is passed
over.
-/

namespace SqlDialect.TableVariable

open Conversion Forest

variable {container insertClause statement : Nat} {E : ConversionError → Workspace → Prop}
  {K : String → Prop} {P : Prop} {w : Workspace}

/-! ## Declarations -/

/-- What is removed are the word itself and two nodes before it. -/
lemma arrayParameter_ends {parens readonly : Nat} {Q : PUnit → Workspace → Prop} (hw : w.Sound K)
    (hreadonly : ∀ p, w.forest.parent readonly = some p → p = parens)
    (hQ : ∀ w', Next K w w' → (∀ c < w.forest.size,
      w'.forest.parent c = w.forest.parent c ∨ w'.forest.parent c = none) → Q () w') :
    Ends (arrayParameter parens readonly) w Q (Halts K P) := by
  have hf := hw.wellFormed
  have hskip : Q () w := hQ w (.refl hw) fun _ _ => .inl rfl
  refine ends_forest ?_
  split <;> [rename_i typeName htype; exact ends_pure hskip]
  split <;> [rename_i period hperiod; exact ends_pure hskip]
  split <;> [rename_i schema hschema; exact ends_pure hskip]
  have htype := hf.precedes_of_previousSibling htype
  have hperiod := hf.precedes_of_previousAdjacent (Option.filter_eq_some_iff.1 hperiod).1
  have hschema := hf.precedes_of_previousAdjacent hschema
  obtain ⟨-, q, hparent, htypeParent⟩ := htype.siblings
  cases hreadonly q hparent
  have hperiodParent := hperiod.parent htypeParent
  have hschemaParent := hschema.parent hperiodParent
  have hloose {c : Nat} (hc : w.forest.parent c = some parens) : w.forest.Loose parens c :=
    hf.loose_of_parent hc
  refine ends_bind (removeChild_at (.of_loose hw parens) (.inl (hloose hschemaParent)) hschemaParent
    fun w1 h1 hoff1 => ?_)
  refine ends_bind (removeChild_at h1 (.inl (hloose hperiodParent))
    (by rw [hoff1.parent_of_notMem (by simpa using hschema.ne.symm), hperiodParent])
    fun w2 h2 hoff2 => ?_)
  have hoff := hoff1.trans hoff2
  refine ends_bind (removeChild_at h2 (.inl (hloose hparent))
    (by
      rw [hoff.parent_of_notMem, hparent]
      simpa using ⟨(hschema.trans (hperiod.trans htype)).ne.symm, (hperiod.trans htype).ne.symm⟩)
    fun w3 h3 hoff3 => ?_)
  have hoff := hoff.trans hoff3
  have htypeParent3 : w3.forest.parent typeName = some parens := by
    rw [hoff.parent_of_notMem, htypeParent]
    simpa using ⟨(hschema.trans hperiod).ne.symm, hperiod.ne.symm, htype.ne⟩
  refine ends_bind (ends_discard (insertNewAfter_at h3 htypeParent3 fun _ w4 h4 hnew => ?_))
  have hparents : ∀ c < w.forest.size,
      w4.forest.parent c = w.forest.parent c ∨ w4.forest.parent c = none := by
    intro c hc
    rw [hnew.extends.parent_eq c (by rw [hoff.size_eq]; exact hc), hoff.parent_eq]
    split
    · exact .inr rfl
    · exact .inl rfl
  refine ends_forest ?_
  split
  · exact noteArray_at h4 fun w5 h5 hforest => hQ w5 (h5.next rfl) (hforest ▸ hparents)
  · exact ends_pure (hQ w4 (h4.next rfl) hparents)

lemma arrayParameters_safe (hw : w.Sound K) (parens : Nat) :
    Safe K P (arrayParameters parens) w := by
  refine ends_forest (ends_forM (fun rest w' => Next K w w' ∧ ∀ r ∈ rest, r < w'.forest.size ∧
      ∀ p, w'.forest.parent r = some p → p = parens) ⟨.refl hw, fun r hr =>
        ?_⟩ ?_ fun w' h' => h'.1)
  · have hr := hw.wellFormed.parent_of_mem (List.mem_of_mem_filter hr)
    exact ⟨lt_size_of_parent hr, fun p hp => Option.mem_unique hp hr⟩
  · rintro readonly rest w1 ⟨hnext1, hrest⟩
    refine arrayParameter_ends hnext1.1 (hrest readonly (.head _)).2 fun w2 hnext2 hparents =>
      ⟨hnext1.trans hnext2, fun r hr => ?_⟩
    obtain ⟨hlt, hparent⟩ := hrest r (.tail _ hr)
    refine ⟨hlt.trans_le hnext2.2, fun p hp => ?_⟩
    obtain hsame | hnone := hparents r hlt
    · exact hparent p (hsame ▸ hp)
    · rw [hnone] at hp
      cases hp

lemma tempTable_safe (hw : w.Sound K) (table : Nat) : Safe K P (tempTable table) w := by
  refine ends_forest (ends_need hw fun block hblock => ?_)
  refine ends_bind (setTag_at (.unmoved hw) fun w1 h1 htag => ?_)
  refine ends_forest (ends_need h1.sound fun keyword hkeyword => ?_)
  have hkeyword := h1.wellFormed.parent_of_childWithText hkeyword
  refine ends_bind (setText_at h1 fun w2 h2 htext => ?_)
  refine ends_bind (ends_discard (insertNewAfter_at h2 (htext.extends.parent_of hkeyword)
    fun _ w3 h3 htemp => ?_))
  have hblock3 : w3.forest.parent table = some block :=
    htemp.extends.parent_of (htext.extends.parent_of (htag.parent_of hblock))
  refine ends_forest (ends_need h3.sound fun name hname => ?_)
  have hname := h3.wellFormed.precedes_of_previousSibling hname
  have hloose := h3.wellFormed.loose_of_parent (hname.parent hblock3)
  refine ends_bind (setText_at (.of_loose h3.sound block) fun w4 h4 hrenamed => ?_)
  have hclear := h4.clear (clear_loose (h3.wellFormed.parent_lt hblock3))
  exact moveAfter_at h4 hclear hloose (hrenamed.extends.parent_of hblock3) hname.ne.symm
    fun w5 h5 _ => (h3.next rfl).trans (h5.next rfl)

lemma convertDeclarations_safe (hw : w.Sound K) : Safe K P convertDeclarations w := by
  refine walk_safe hw fun id w' _ hw' _ => ends_forest (ends_ite (fun _ => ?_) fun _ => ?_)
  · exact (arrayParameters_safe hw' id).bind fun _ _ hnext => safe_pure hnext.1
  · refine ends_ite (fun _ => ?_) fun _ => safe_pure hw'
    exact (tempTable_safe hw' id).bind fun _ _ hnext => safe_pure hnext.1

/-! ## Use -/

section

variable (hw : w.Sound K)
include hw

lemma unnestTarget_safe (target : Nat) : Safe K P (unnestTarget target) w := by
  refine ends_forest ?_
  split <;> [rename_i name hname; exact safe_pure hw]
  have hname := hw.wellFormed.parent_of_firstSignificantChild hname
  refine ends_notes (ends_ite (fun _ => safe_pure hw) fun _ => ?_)
  have hclear := clear_loose (hw.wellFormed.parent_lt hname)
  refine ends_bind (ends_discard (insertNewBefore_at (.of_loose hw target) hname
    fun _ w1 h1 hfunction => ?_))
  refine ends_bind (insertNewBefore_at h1 (hfunction.extends.parent_of hname)
    fun parens w2 h2 hparens => ?_)
  exact moveTo_at h2 (h1.clear_sprouted (h1.clear hclear) hparens)
    (hw.wellFormed.loose_of_parent hname) fun w3 h3 _ => h3.next rfl

lemma unnestArrays_safe : Safe K P unnestArrays w :=
  ends_notes (ends_ite (fun _ => safe_pure hw) fun _ =>
    forEachMatch_safe hw fun target _ _ hw' _ => unnestTarget_safe hw' target)

lemma deriveFromValues_ends {values : Nat} (hvalues : values < w.forest.size) :
    Ends (deriveFromValues values) w
      (fun _ w' => At K (w.forest.Loose values) w.forest w') E := by
  refine ends_forest ?_
  have h := At.of_loose hw values
  have hclear := clear_loose hvalues
  refine ends_bind (appendLeaf_at h hvalues fun w1 h1 _ => ?_)
  refine ends_bind (append_clear h1 (h1.clear hclear) fun target w2 h2 hclear2 htarget => ?_)
  refine ends_bind (append_clear h2 hclear2 fun parens w3 h3 hclear3 hparens => ?_)
  refine ends_bind (append_clear h3 hclear3 fun rows w4 h4 hclear4 hrows => ?_)
  refine ends_bind
    (moveAllTo_at h4 hclear4 (fun i hi =>
      hw.wellFormed.loose_of_parent (hw.wellFormed.parent_of_mem hi))
    fun w5 h5 hmoved => ?_)
  refine appendLeaf_at h5 ?_ fun w6 h6 _ => h6
  rw [hmoved.size_eq]
  exact hrows.extends.lt_size (hparens.extends.lt_size htarget.lt_size)

lemma deriveFromQuery_ends {query : List NodeId}
    (hclause : w.forest.parent insertClause = some statement)
    (hquery : ∀ i ∈ query, w.forest.parent i = some statement) :
    Ends (deriveFromQuery statement insertClause query) w
      (fun _ w' => At K (w.forest.Loose statement) w.forest w') E := by
  have h := At.of_loose hw statement
  have hclear := clear_loose (hw.wellFormed.parent_lt hclause)
  refine ends_bind (insertNewAfter_at h hclause fun wrapper w1 h1 hwrapper => ?_)
  have hclear1 := h.clear_sprouted hclear hwrapper
  refine ends_bind (appendLeaf_at h1 hwrapper.lt_size fun w2 h2 hleaf => ?_)
  have hclear2 := hclear1.extend hleaf h1.wellFormed
  refine ends_bind (append_clear h2 hclear2 fun parens w3 h3 hclear3 hparens => ?_)
  refine ends_bind (appendLeaf_at h3 (hparens.extends.lt_size hclear2.lt_size)
    fun w4 h4 halias => ?_)
  exact moveAllTo_at h4 (hclear3.extend halias h3.wellFormed)
    (fun i hi => hw.wellFormed.loose_of_parent (hquery i hi)) fun w5 h5 _ => h5

/-- The rows are taken from below the statement, which stays where it is. -/
lemma deriveRows_ends (hclause : w.forest.parent insertClause = some statement)
    (hstatement : w.forest.parent statement = some container) :
    Ends (deriveRows statement insertClause) w
      (fun _ w' => Next K w w' ∧ w'.forest.parent statement = some container) E := by
  have hf := hw.wellFormed
  have htail : ∀ i ∈ w.forest.siblingsAfter insertClause, w.forest.parent i = some statement :=
    fun i hi => (hf.siblings_of_mem_siblingsAfter hi).parent hclause
  refine ends_forest ?_
  dsimp only
  split
  · rename_i values hvalues
    have hvalues := htail values (List.mem_of_find?_eq_some hvalues)
    have hclear := clear_loose (lt_size_of_parent hvalues)
    refine (deriveFromValues_ends hw (lt_size_of_parent hvalues)).imp (fun _ w' h' => ?_)
    exact ⟨h'.next rfl, h'.parent_of_clear (hclear.up hf hvalues) hstatement⟩
  · refine (deriveFromQuery_ends hw hclause htail).imp (fun _ w' h' => ?_)
    exact ⟨h'.next rfl, h'.parent_of_clear (clear_loose (hf.parent_lt hclause)) hstatement⟩

/-- The assignment is made of copies. -/
lemma appendRows_ends (insertClause table : Nat)
    (hstatement : w.forest.parent statement = some container) :
    Ends (appendRows container statement insertClause table) w
      (fun _ w' => Next K w w' ∧ w'.forest.parent statement = some container) E := by
  refine ends_bind (insertNewBefore_at (.unmoved hw) hstatement fun assignment w1 h1 hassign => ?_)
  refine ends_bind (append_at h1 hassign.lt_size fun clause w2 h2 hclause => ?_)
  refine ends_bind (appendCopy_at h2 hclause.lt_size fun w3 h3 hcopy => ?_)
  refine ends_bind (appendLeaves_at h3 (hcopy.lt_size hclause.lt_size) fun w4 h4 hleaves => ?_)
  have hlt4 := hleaves.lt_size (hcopy.lt_size hclause.lt_size)
  refine ends_bind (append_at h4 hlt4 fun concat w5 h5 hconcat => ?_)
  refine ends_bind (appendCopy_at h5 hconcat.lt_size fun w6 h6 hcopy6 => ?_)
  refine ends_bind (appendLeaf_at h6 (hcopy6.lt_size hconcat.lt_size) fun w7 h7 hcomma => ?_)
  refine ends_bind (append_at h7 (hcomma.lt_size (hcopy6.lt_size hconcat.lt_size))
    fun rows w8 h8 hrows => ?_)
  refine ends_bind (append_at h8 hrows.lt_size fun aggregate w9 h9 haggregate => ?_)
  refine ends_bind (appendLeaves_at h9 haggregate.lt_size fun w10 h10 hleaves10 => ?_)
  refine ends_bind (append_at h10 (hleaves10.lt_size haggregate.lt_size)
    fun aggregateParens w11 h11 hparens => ?_)
  refine ends_bind (appendLeaf_at h11 hparens.lt_size fun w12 h12 halias => ?_)
  have hext8 : Extends w8.forest w12.forest :=
    (haggregate.extends.trans hleaves10).trans (hparens.extends.trans halias)
  have hext4 : Extends w4.forest w12.forest :=
    ((hconcat.extends.trans hcopy6).trans (hcomma.trans hrows.extends)).trans hext8
  refine ends_forest (ends_bind (ends_forM (fun _ w' => At K (fun _ => False) w.forest w' ∧
    Extends w12.forest w'.forest) ⟨h12, .refl _⟩ ?_ ?_))
  · rintro id rest w13 ⟨h13, hext⟩
    exact appendCopy_at h13 (hext.lt_size (hext8.lt_size hrows.lt_size))
      fun w14 h14 hcopy14 => ⟨h14, hext.trans hcopy14⟩
  · rintro w13 ⟨h13, hext⟩
    refine appendLeaf_at h13 (hext.lt_size (hext4.lt_size hlt4)) fun w14 h14 _ =>
      ⟨h14.next rfl, ?_⟩
    rw [h14.parent_eq (fun h => h) (lt_size_of_parent hstatement), hstatement]

lemma insertIntoArray_safe (keyword : Nat) : Safe K P (insertIntoArray keyword) w := by
  have hf := hw.wellFormed
  refine ends_forest ?_
  split <;> [rename_i insertClause hclause; exact safe_pure hw]
  split <;> [rename_i table htable; exact safe_pure hw]
  refine ends_notes (ends_ite (fun _ => safe_pure hw) fun _ => ?_)
  refine ends_need hw fun statement hstatement => ends_need hw fun container hcontainer => ?_
  have hclear := hf.clear_below (Under.refl _ statement) (hf.parent_lt hstatement)
  refine ends_bind (ends_discard (takeTerminator_at (.of_below hw statement)
    (fun s hs => (hf.below_of_terminator hs).1) fun w1 h1 hoff => ?_))
  have hcontainer1 := h1.parent_of_clear hclear hcontainer
  have hclause1 : w1.forest.parent insertClause = some statement := by
    rw [hoff.parent_of_notMem, hstatement]
    intro hmem
    have htag := (hf.below_of_terminator (Option.mem_toList.1 hmem)).2
    rw [tag_of_closestAncestor hclause] at htag
    cases htag
  refine Ends.bind (deriveRows_ends h1.sound hclause1 hcontainer1) fun _ w2 _ ⟨hnext2, h2⟩ => ?_
  refine Ends.bind (appendRows_ends hnext2.1 insertClause table h2) fun _ w3 _ ⟨hnext3, h3⟩ => ?_
  exact removeChild_sound hnext3.1 h3 fun w4 h4 _ =>
    (((h1.next rfl).trans hnext2).trans hnext3).trans (h4.next rfl)

lemma insertIntoArrays_safe : Safe K P insertIntoArrays w :=
  ends_notes (ends_ite (fun _ => safe_pure hw) fun _ =>
    forEachMatch_safe hw fun keyword _ _ hw' _ => insertIntoArray_safe hw' keyword)

end

end SqlDialect.TableVariable
