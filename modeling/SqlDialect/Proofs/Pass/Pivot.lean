import SqlDialect.Pass.Pivot
import SqlDialect.Proofs.Conversion.Walk
import SqlDialect.Proofs.SyntaxTree.Parts

/-!
# Pivot and unpivot keep the workspace sound

A pivot is converted with copies in front of columns that stay where they are.  An unpivot moves
its table, its alias and a join condition below the selection target before it, which is not in the
clause of the unpivot.  A column that is named `pivot` is taken for a pivot without a definition.
-/

namespace SqlDialect.Pivot

open Conversion Forest

variable {select unpivotClause : Nat} {Q : PUnit → Workspace → Prop} {K : String → Prop} {P : Prop}
  {w : Workspace} {S : Nat → Prop} {f : Forest} {E : ConversionError → Workspace → Prop}

/-! ## Pivot -/

/-- New nodes are put in front of the first token of the column. -/
lemma aggregateColumn_at {d : Definition}
    {name : String} {column : List NodeId} (h : At K (fun _ => False) f w)
    (hcolumn : ∀ x ∈ column, f.parent x = some select)
    (hQ : ∀ w', At K (fun _ => False) f w' → Q () w') :
    Ends (aggregateColumn d select name column) w Q (Halts K P) := by
  refine ends_forest (ends_need h.sound fun first hfirst => ?_)
  have hfirst := hcolumn first (List.mem_of_find?_eq_some hfirst)
  have hclear := clear_unmoved (h.start.parent_lt hfirst)
  have hparent {w' : Workspace} (h' : At K (fun _ => False) f w') :
      w'.forest.parent first = some select :=
    (h'.parent_eq (fun h => h) (lt_size_of_parent hfirst)).trans hfirst
  refine ends_bind (ends_forM (fun _ => At K (fun _ => False) f) h ?_ fun w1 h1 => ?_)
  · intro id rest w1 h1
    refine ends_bind (copy_at h1 fun n w2 h2 _ hn hlt hnone => ?_)
    have hnew : f.size ≤ n := hn ▸ h1.since.size_le
    exact link_at h2 (.inr hnew) (h2.wellFormed.insertBefore_ok hlt hnone
      (h2.not_under_new hclear hnew) (hparent h2)) fun w3 h3 _ => h3
  · refine ends_bind (ends_discard (insertNewBefore_at h1 (hparent h1) fun _ w2 h2 _ => ?_))
    refine ends_bind (insertNewBefore_at h2 (hparent h2) fun filter w3 h3 hfilter => ?_)
    refine ends_bind (appendLeaf_at h3 hfilter.lt_size fun w4 h4 hwhere => ?_)
    have hlt4 := hwhere.lt_size hfilter.lt_size
    refine ends_bind (appendCopy_at h4 hlt4 fun w5 h5 hcopy => ?_)
    refine ends_bind (appendLeaves_at h5 (hcopy.lt_size hlt4) fun w6 h6 _ => ?_)
    exact ends_discard (insertNewBefore_at h6 (hparent h6) fun _ w7 h7 _ => hQ w7 h7)

lemma aggregateColumns_at {d : Definition} :
    ∀ {columns : List (List NodeId)} {position : Nat} {w : Workspace},
      At K (fun _ => False) f w → (∀ column ∈ columns, ∀ x ∈ column, f.parent x = some select) →
      Ends (aggregateColumns d select position columns) w
        (fun _ w' => At K (fun _ => False) f w') (Halts K P)
  | [], _, w, h, _ => ends_pure h
  | column :: rest, position, w, h, hcolumns => by
    rw [aggregateColumns]
    have hrest : ∀ column ∈ rest, ∀ x ∈ column, f.parent x = some select := fun column hmem =>
      hcolumns column (.tail _ hmem)
    refine ends_forest ?_
    split
    · exact aggregateColumns_at h hrest
    · refine ends_ite (fun _ => ?_) fun _ => ?_
      · exact ends_bind (aggregateColumn_at h (hcolumns column (.head _)) fun w1 h1 =>
          aggregateColumns_at h1 hrest)
      · exact Ends.bind (aggregateColumns_at h hrest) fun _ w1 _ h1 => ends_pure h1

lemma appendPositions_at {p : Nat} :
    ∀ {positions : List Nat} {w : Workspace}, At K S f w → p < w.forest.size →
      (∀ w', At K S f w' → Extends w.forest w'.forest → Q () w') →
      Ends (appendPositions p positions) w Q E
  | [], w, h, _, hQ => ends_pure (hQ w h (.refl _))
  | [_], _, h, hp, hQ => appendLeaf_at h hp hQ
  | _ :: _ :: _, _, h, hp, hQ =>
    ends_bind (appendLeaves_at h hp fun _ h1 hext => appendPositions_at h1 (hext.lt_size hp)
      fun w2 h2 hext2 => hQ w2 h2 (hext.trans hext2))

lemma addGroupBy_safe (hw : w.Sound K) (statement : Nat) (positions : List Nat) :
    Safe K P (addGroupBy statement positions) w := by
  have hf := hw.wellFormed
  refine ends_forest (ends_need hw fun anchor hanchor => ?_)
  have hanchor : w.forest.parent anchor = some statement := by
    cases hwhere : w.forest.clauseStartingWith statement .otherKeyword "where" with
    | some clause =>
      rw [hwhere] at hanchor
      cases hanchor
      exact hf.parent_of_clauseStartingWith hwhere
    | none =>
      rw [hwhere] at hanchor
      exact hf.parent_of_clauseStartingWith hanchor
  have hclear := hf.clear_below (Under.refl _ anchor) (lt_size_of_parent hanchor)
  have hsemicolon : ∀ s, w.forest.terminator anchor = some s → w.forest.Below s anchor :=
    fun s hs => (hf.below_of_terminator hs).1
  refine ends_bind (takeTerminator_at (.of_below hw anchor) hsemicolon fun w1 h1 hoff => ?_)
  refine ends_bind (insertNewAfter_at h1 (h1.parent_of_clear hclear hanchor)
    fun groupBy w2 h2 hgroupBy => ?_)
  have hclear2 := h1.clear_sprouted (h1.clear_up hclear hanchor) hgroupBy
  refine ends_bind (appendLeaf_at h2 hgroupBy.lt_size fun w3 h3 hleaf => ?_)
  refine ends_bind (appendPositions_at h3 (hleaf.lt_size hgroupBy.lt_size)
    fun w4 h4 hpositions => ?_)
  have hext := hleaf.trans hpositions
  refine putTerminator_at h4 (hclear2.extend hext h2.wellFormed) hsemicolon (fun s hs => ?_)
    fun w5 h5 _ => h5.next rfl
  exact (hgroupBy.extends.trans hext).parent_eq_none (h1.lt_size_of (hsemicolon s hs))
    (hoff.parent_of_mem (by simp [hs]))

lemma readDefinition_safe (hw : w.Sound K) (pivot : Nat) : Safe K P (readDefinition pivot) w :=
  ends_forest (ends_need hw fun _ _ => ends_need hw fun _ _ => ends_need hw fun _ _ =>
    ends_need hw fun _ _ => safe_pure hw)

lemma convertPivot_safe (hw : w.Sound K) (pivot : Nat) : Safe K P (convertPivot pivot) w := by
  refine ends_forest ?_
  split <;> [rename_i pivotClause hclause; exact safe_pure hw]
  refine (readDefinition_safe hw pivot).bind fun d w1 hnext1 => ?_
  have hw1 := hnext1.1
  refine ends_forest (ends_need hw1 fun statement hstatement => ?_)
  refine ends_bind (removeChild_sound hw1 hstatement fun w2 h2 _ => ?_)
  refine ends_forest (ends_need h2.sound fun select hselect => ?_)
  refine Ends.bind (aggregateColumns_at (.unmoved h2.sound) fun column hcolumn x hx =>
    h2.wellFormed.parent_of_mem_column hcolumn hx) fun grouped w3 _ h3 => ?_
  have hnext3 := (h2.next rfl).trans (h3.next rfl)
  refine ends_ite (fun _ => ?_) fun _ => ends_pure hnext3
  exact (addGroupBy_safe h3.sound statement grouped).imp (fun _ _ h => hnext3.trans h)

lemma convertPivots_safe (hw : w.Sound K) : Safe K P convertPivots w :=
  forEachMatch_safe hw fun pivot _ _ hw' _ => convertPivot_safe hw' pivot

/-! ## Unpivot -/

/-- The fields are copied before they are changed. -/
lemma appendUnnest_at {clause fields : Nat} {asTexts : Bool}
    (h : At K S f w) (hclause : clause < w.forest.size)
    (hQ : ∀ w', At K S f w' → Extends w.forest w'.forest → Q () w') :
    Ends (appendUnnest clause fields asTexts) w Q E := by
  refine ends_bind (appendLeaf_at h hclause fun w1 h1 hleaf => ?_)
  refine ends_bind (append_at h1 (hleaf.lt_size hclause) fun parens w2 h2 hparens => ?_)
  refine ends_bind (appendLeaves_at h2 hparens.lt_size fun w3 h3 hleaves => ?_)
  have hlt3 := hleaves.lt_size hparens.lt_size
  refine ends_forest (ends_bind (ends_forM (fun _ w' => At K S f w' ∧ Extends w3.forest w'.forest)
    ⟨h3, .refl _⟩ ?_ ?_))
  · rintro field rest w4 ⟨h4, hext4⟩
    refine ends_bind (copy_at h4 fun n w5 h5 hcopy hn hlt hnone => ends_forest ?_)
    refine ends_optional (R := fun w' => At K S f w' ∧ Retagged w5.forest w'.forest n)
      (fun _ => setTag_at h5 fun w6 h6 htag => ⟨h6, htag⟩)
      (fun _ => ⟨h5, rfl, fun _ => rfl, fun _ _ => rfl⟩) fun w6 ⟨h6, htag⟩ => ?_
    have hext5 := hext4.trans hcopy
    have hp : parens < w5.forest.size := hext5.lt_size hlt3
    have hnone6 : w6.forest.parent n = none := (htag.parent_eq n).trans hnone
    have hoff : ¬ w6.forest.Under parens n := by
      rw [htag.under_iff]
      exact hcopy.not_under_new h4.wellFormed (hext4.lt_size hlt3) hn.ge
    refine addChild_off_at h6 (htag.size_eq ▸ hp) (.inr (hn ▸ h4.since.size_le))
      (htag.size_eq ▸ hlt) hnone6 hoff fun w7 h7 hon => ⟨h7, ?_⟩
    refine hext4.trans ⟨?_, fun x hx => ?_, fun x hx => ?_⟩
    · rw [hon.size_eq, htag.size_eq]
      exact hcopy.size_le
    · rw [hon.parent_of_notMem (by simp; omega), htag.parent_eq, hcopy.parent_eq x hx]
    · rw [hon.tag_eq, htag.tag_eq x (by omega), hcopy.tag_eq x hx]
  · rintro w4 ⟨h4, hext4⟩
    refine appendLeaf_at h4 (hext4.lt_size hlt3) fun w5 h5 hclose => hQ w5 h5 ?_
    exact ((hleaf.trans hparens.extends).trans hleaves).trans (hext4.trans hclose)

/-- The nodes of an unpivot: the table is in the selection target, the alias and the join condition
are in the clause of the unpivot, and the selection target is in a clause before that. -/
structure Unpivoting.Within (f : Forest) (unpivotClause : Nat) (u : Unpivoting) : Prop where
  table : f.parent u.table = some u.target
  tableAlias : f.parent u.tableAlias = some unpivotClause
  joinOn : ∀ id, u.joinOn = some id → f.parent id = some unpivotClause
  target : ∃ clause, f.Siblings unpivotClause clause ∧ f.parent u.target = some clause

lemma readUnpivoting_ends {Q : Unpivoting → Workspace → Prop} {unpivot : Nat}
    (hw : w.Sound K) (hunpivot : w.forest.parent unpivot = some unpivotClause)
    (hQ : ∀ u : Unpivoting, u.Within w.forest unpivotClause → Q u w) :
    Ends (readUnpivoting unpivotClause unpivot) w Q (Halts K P) := by
  have hf := hw.wellFormed
  refine ends_forest (ends_need hw fun target htarget => ?_)
  obtain ⟨clause, hclause, htarget⟩ := Option.bind_eq_some_iff.1 htarget
  refine ends_need hw fun table htable => ends_need hw fun parens hparens => ?_
  have hparens := (hf.siblings_of_nextSibling hparens).parent hunpivot
  refine ends_need hw fun fields _ => ends_need hw fun valueColumn _ => ?_
  refine ends_need hw fun nameColumn _ => ends_need hw fun tableAlias halias => ?_
  have halias := (hf.siblings_of_nextSibling halias).parent hparens
  refine ends_pure (hQ _ ⟨hf.parent_of_child htable, halias, fun id hid => ?_, clause, ?_, ?_⟩)
  · exact (hf.siblings_of_nextSibling hid).parent halias
  · exact (hf.precedes_of_previousSibling hclause).siblings
  · exact hf.parent_of_child htarget

/-- The selection target is not in the clause of the unpivot. -/
lemma Unpivoting.Within.not_under {u : Unpivoting} (hf : f.WellFormed)
    (hu : u.Within f unpivotClause) : ¬ f.Under u.target unpivotClause := by
  obtain ⟨clause, ⟨hne, p, hunpivot, hclause⟩, htarget⟩ := hu.target
  exact fun hunder =>
    hne (hf.eq_of_under_of_parent hunder (under_of_parent htarget) hunpivot hclause)

lemma Unpivoting.Within.loose {u : Unpivoting} {id : Nat} (hf : f.WellFormed)
    (hu : u.Within f unpivotClause) (hid : f.parent id = some unpivotClause) :
    f.Loose u.target id :=
  ⟨⟨unpivotClause, hid⟩, fun hunder => hu.not_under hf (hunder.tail hid)⟩

lemma fillDerivedTable_at {derived : Nat} {u : Unpivoting}
    (h : At K S f w) (hclear : Clear S w.forest derived) (htable : S u.table)
    (hnone : w.forest.parent u.table = none) (hQ : ∀ w', At K S f w' → Q () w') :
    Ends (fillDerivedTable derived u) w Q E := by
  refine ends_bind (append_at h hclear.lt_size fun select w1 h1 hselect => ?_)
  refine ends_bind (appendLeaf_at h1 hselect.lt_size fun w2 h2 hleaf => ?_)
  refine ends_forest ?_
  have hlt2 := hleaf.lt_size hselect.lt_size
  refine ends_bind (appendUnnest_at h2 hlt2 fun w3 h3 hnames => ?_)
  refine ends_bind (appendLeaves_at h3 (hnames.lt_size hlt2) fun w4 h4 hleaves4 => ?_)
  have hlt4 := hleaves4.lt_size (hnames.lt_size hlt2)
  refine ends_bind (appendUnnest_at h4 hlt4 fun w5 h5 hvalues => ?_)
  refine ends_bind (appendLeaves_at h5 (hvalues.lt_size hlt4) fun w6 h6 hleaves6 => ?_)
  have hext6 : Extends w.forest w6.forest :=
    ((hselect.extends.trans hleaf).trans (hnames.trans hleaves4)).trans (hvalues.trans hleaves6)
  have hclear6 := hclear.extend hext6 h.wellFormed
  refine appendWithLeaf_clear h6 hclear6 fun source w8 h8 hfrom hclear8 => ?_
  refine ends_bind (append_clear h8 hclear8 fun target w9 h9 hclear9 htarget => ?_)
  have hext : Extends w.forest w9.forest := hext6.trans (hfrom.trans htarget.extends)
  exact addChild_at h9 hclear9 htable
    (hext.parent_eq_none (h.lt_size_of htable) hnone) fun w' h' _ => hQ w' h'

lemma convertUnpivot_safe (hw : w.Sound K) (unpivot : Nat) :
    Safe K P (convertUnpivot unpivot) w := by
  have hf := hw.wellFormed
  refine ends_forest ?_
  split <;> [rename_i unpivotClause hclause; exact safe_pure hw]
  refine ends_bind (readUnpivoting_ends hw hclause fun u hu => ?_)
  have htable := hf.loose_of_parent hu.table
  have halias := hu.loose hf hu.tableAlias
  have hclear := clear_loose (hf.parent_lt hu.table)
  -- The table is not among the nodes that are taken from the clause.
  have hne {id : Nat} (hid : w.forest.parent id = some unpivotClause) : u.table ≠ id := by
    rintro rfl
    have htarget : u.target = unpivotClause := Option.mem_unique hu.table hid
    exact hu.not_under hf (htarget ▸ Under.refl _ _)
  refine ends_bind (removeChild_at (.of_loose hw u.target) (.inl htable) hu.table
    fun w1 h1 hoff => ?_)
  refine ends_bind (append_clear h1 (h1.clear hclear) fun derived w2 h2 hclear2 hderived => ?_)
  refine ends_bind (moveTo_at h2 (h2.clear hclear) halias fun w3 h3 hmoved3 => ?_)
  have hclear3 := hclear2.relinked hmoved3 (by simpa using halias)
  have hjoin : ∀ id, u.joinOn = some id → w.forest.Loose u.target id := fun id hid =>
    hu.loose hf (hu.joinOn id hid)
  refine ends_bind (forM_moveTo_at h3 (h3.clear hclear) hjoin fun w4 h4 hmoved4 => ?_)
  have hclear4 := hclear3.relinked hmoved4 fun i hi => hjoin i (Option.mem_toList.1 hi)
  have hnone : w4.forest.parent u.table = none := by
    rw [hmoved4.parent_of_notMem fun hmem => hne (hu.joinOn _ (Option.mem_toList.1 hmem)) rfl,
      hmoved3.parent_of_notMem (by simpa using hne hu.tableAlias)]
    exact hderived.extends.parent_eq_none (h1.lt_size_of htable) (hoff.parent_of_mem (by simp))
  refine ends_bind (fillDerivedTable_at h4 hclear4 htable hnone fun w5 h5 => ?_)
  refine ends_forest (ends_need h5.sound fun holder hholder => ?_)
  exact removeChild_sound h5.sound hholder fun w6 h6 _ => (h5.next rfl).trans (h6.next rfl)

lemma convertUnpivots_safe (hw : w.Sound K) : Safe K P convertUnpivots w :=
  forEachMatch_safe hw fun unpivot _ _ hw' _ => convertUnpivot_safe hw' unpivot

/-! ## Names that are no pivots -/

end SqlDialect.Pivot
