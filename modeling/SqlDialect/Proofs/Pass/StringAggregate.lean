import SqlDialect.Pass.StringAggregate
import SqlDialect.Proofs.Pass.FunctionCall

/-!
# Aggregated strings keep the workspace sound
-/

namespace SqlDialect.StringAggregate

open Conversion Forest FunctionCall

variable {select : Nat} {Q : PUnit → Workspace → Prop} {K : String → Prop} {P : Prop}
  {w : Workspace} {S : Nat → Prop} {f : Forest} {E : ConversionError → Workspace → Prop}

/-! ## Orderings -/

/-- Apart from the arguments, no node gets a child. -/
lemma moveOrdering_at {arguments part : Nat} (h : At K S f w)
    (hclear : Clear S w.forest arguments) (hpart : S part)
    (hchildren : ∀ x : Nat, w.forest.parent x = some part → S x)
    (hQ : ∀ w', At K S f w' → (∀ x q : Nat, w'.forest.parent x = some q → q ≠ arguments →
      w.forest.parent x = some q) → Q () w') : Ends (moveOrdering arguments part) w Q E := by
  have hkeep {w' : Workspace} {ids : List Nat}
      (hmoved : Relinked w.forest w'.forest ids (some arguments)) (x q : Nat)
      (hx : w'.forest.parent x = some q) (hq : q ≠ arguments) : w.forest.parent x = some q := by
    rw [hmoved.parent_eq] at hx
    split at hx
    · exact absurd (Option.some.inj hx).symm hq
    · exact hx
  refine ends_forest ?_
  split
  · exact moveTo_at h hclear hpart fun w1 h1 hmoved => hQ w1 h1 (hkeep hmoved)
  · exact moveAllTo_at h hclear (fun i hi => hchildren i (h.wellFormed.parent_of_mem hi))
      fun w1 h1 hmoved => hQ w1 h1 (hkeep hmoved)

lemma convertOrdering_safe (hw : w.Sound K) (function : Nat) :
    Safe K P (convertOrdering function) w := by
  have hf := hw.wellFormed
  refine ends_forest (ends_need hw fun clause hclause => ?_)
  split <;> [rename_i within hwithin; exact safe_pure hw]
  refine ends_need hw fun group hgroup => ends_need hw fun ordering hordering => ?_
  have hgroup := hf.siblings_of_nextSibling hgroup
  have hordering := hf.parent_of_child hordering
  refine ends_need hw fun arguments harguments => ?_
  have hparens := (Option.filter_eq_some_iff.1 harguments).2
  have harguments := (siblings_of_argumentsOf hf harguments).parent hclause
  have hwithinParent := hf.parent_of_childWithText hwithin
  have hne : arguments ≠ within := by
    rintro rfl
    rw [tag_of_childWithText hwithin] at hparens
    cases hparens
  -- The arguments are in the clause before the group.
  have hoff : ¬ w.forest.Under arguments group := fun hunder => by
    obtain ⟨hne, p, hclause', hgroup'⟩ := hgroup
    exact hne (hf.eq_of_under_of_parent (under_of_parent harguments) hunder hclause' hgroup')
  have hloose : ∀ x : Nat, w.forest.Below x group → w.forest.Loose arguments x := fun x hx =>
    ⟨(below_iff.1 hx).imp fun _ hp => hp.1, fun hunder => hoff (hunder.trans hx.under)⟩
  have hclear := clear_loose (lt_size_of_parent harguments)
  refine ends_bind (removeChild_at (.of_loose hw arguments) (.inl ⟨⟨clause, hwithinParent⟩,
    hf.not_under_of_siblings ⟨hne, clause, harguments, hwithinParent⟩⟩) hwithinParent
    fun w1 h1 hoff1 => ?_)
  refine ends_bind (detach_at h1 (.inl ⟨hgroup.2.imp fun _ h => h.2, hoff⟩) fun w2 h2 hoff2 => ?_)
  have hback : ∀ x q : Nat, w2.forest.parent x = some q → w.forest.parent x = some q :=
    fun x q hx => hoff1.parent_of_some (hoff2.parent_of_some hx)
  refine ends_forest (ends_forM (fun rest w' => At K (w.forest.Loose arguments) w.forest w' ∧
    (∀ x q : Nat, w'.forest.parent x = some q → q ≠ arguments → w.forest.parent x = some q) ∧
    ∀ part ∈ rest, w.forest.parent part = some ordering)
    ⟨h2, fun x q hx _ => hback x q hx, fun part hpart => ?_⟩ ?_ fun _ h => h.1.next rfl)
  · exact hback part ordering (h2.wellFormed.parent_of_mem hpart)
  · rintro part rest w3 ⟨h3, hkeep, hrest⟩
    have hpart : w.forest.Below part group :=
      (below_of_parent (hrest part (.head _))).tail hordering
    have hpartNe : part ≠ arguments := fun heq => hoff (heq ▸ hpart.under)
    refine moveOrdering_at h3 (h3.clear hclear) (hloose part hpart) (fun x hx => ?_) ?_
    · exact hloose x ((below_of_parent (hkeep x part hx hpartNe)).trans hpart)
    · exact fun w4 h4 hkeep4 => ⟨h4, fun x q hx hq => hkeep x q (hkeep4 x q hx hq) hq,
        fun p hp => hrest p (.tail _ hp)⟩

lemma convertOrderings_safe (hw : w.Sound K) : Safe K P convertOrderings w :=
  forEachMatch_safe hw fun function _ _ hw' _ => convertOrdering_safe hw' function

/-! ## XML paths -/

lemma takeSeparator_at {Q : String → Workspace → Prop} (hw : w.Sound K)
    (hQ : ∀ separator w', At K (w.forest.parent · = some select) w.forest w' →
      (∀ x : Nat, w'.forest.parent x = some select → w.forest.parent x = some select) →
      Q separator w') : Ends (takeSeparator select) w Q E := by
  have hf := hw.wellFormed
  have hstart := At.of_children hw select
  refine ends_forest ?_
  split <;> [rename_i literal hliteral; exact ends_pure (hQ _ w hstart fun _ hx => hx)]
  have hliteral := hf.parent_of_child hliteral
  split <;> [rename_i plus hplus; exact ends_pure (hQ _ w hstart fun _ hx => hx)]
  have hsiblings := hf.siblings_of_nextSibling (Option.filter_eq_some_iff.1 hplus).1
  refine ends_bind (removeChild_at hstart (.inl hliteral) hliteral fun w1 h1 hoff1 => ?_)
  have hplus1 : w1.forest.parent plus = some select :=
    (hoff1.parent_of_notMem (by simpa using hsiblings.1.symm)).trans (hsiblings.parent hliteral)
  refine ends_bind (removeChild_at h1 (.inl (hsiblings.parent hliteral)) hplus1
    fun w2 h2 hoff2 => ends_pure (hQ _ w2 h2 fun x hx => ?_))
  exact hoff1.parent_of_some (hoff2.parent_of_some hx)

lemma dropTrailingWhiteSpace_at {id : Nat} (h : At K S f w)
    (hchildren : ∀ x : Nat, w.forest.parent x = some id → S x)
    (hQ : ∀ w', At K S f w' → w'.forest.size = w.forest.size → Q () w') :
    Ends (dropTrailingWhiteSpace id) w Q E := by
  have hsublist : ((w.forest.children id).reverse.takeWhile w.forest.isWhiteSpace).Sublist
      (w.forest.children id).reverse := List.takeWhile_sublist _
  have hparent : ∀ i ∈ (w.forest.children id).reverse.takeWhile w.forest.isWhiteSpace,
      w.forest.parent i = some id := fun i hi =>
    h.wellFormed.parent_of_mem (List.mem_reverse.1 (hsublist.subset hi))
  exact ends_forest (removeAll_at h (fun i hi => hchildren i (hparent i hi)) hparent
    (hsublist.nodup (List.nodup_reverse.2 (h.wellFormed.nodup_children id)))
    fun w' h' hoff => hQ w' h' hoff.size_eq)

/-- The columns move from the select clause into new brackets at its end. -/
lemma aggregateColumns_at {separator : String} (h : At K S f w) (hclear : Clear S w.forest select)
    (hchildren : ∀ x : Nat, w.forest.parent x = some select → S x)
    (hQ : ∀ w', At K S f w' → Q () w') : Ends (aggregateColumns select separator) w Q E := by
  refine ends_forest ?_
  refine ends_bind (appendLeaf_at h hclear.lt_size fun w1 h1 hleaf => ?_)
  have hclear1 := hclear.extend hleaf h.wellFormed
  refine ends_bind (append_clear h1 hclear1 fun arguments w2 h2 hclear2 harguments => ?_)
  have hcolumns : ∀ i ∈ (w.forest.children select).filter
      (some · != w.forest.childWithText select .otherKeyword "select"), S i := fun i hi =>
    hchildren i (h.wellFormed.parent_of_mem (List.mem_of_mem_filter hi))
  refine ends_bind (moveAllTo_at h2 hclear2 hcolumns fun w3 h3 hmoved => ?_)
  have hinside : ∀ x : Nat, w3.forest.parent x = some arguments → S x := fun x hx => by
    rw [hmoved.parent_eq] at hx
    split at hx
    · exact hcolumns x ‹_›
    · -- The brackets are new, so nothing was in them.
      rw [harguments.parent_eq] at hx
      split at hx
      · exact absurd (Option.some.inj hx) fun heq =>
          absurd (heq ▸ hclear1.lt_size) (by rw [harguments.id_eq]; omega)
      · exact absurd (h1.wellFormed.parent_lt hx) (by rw [harguments.id_eq]; omega)
  refine ends_bind (dropTrailingWhiteSpace_at h3 hinside fun w4 h4 hsize => ?_)
  have hlt : arguments < w4.forest.size := by
    rw [hsize, hmoved.size_eq]
    exact harguments.lt_size
  exact appendLeaves_at h4 hlt fun w5 h5 _ => hQ w5 h5

/-- The aggregate takes the place of the call of `stuff` around it. -/
lemma replaceStuff_safe {query outer function holder : Nat} (hw : w.Sound K)
    (hquery : w.forest.parent query = some outer) (hcall : w.forest.Siblings outer function)
    (hholder : w.forest.parent outer = some holder) :
    Safe K P (do
      moveAfter holder query outer
      removeChild holder function
      removeChild holder outer) w := by
  have hf := hw.wellFormed
  have hfunction := hcall.parent hholder
  have hne : outer ≠ query := fun heq => hf.not_under_of_child hquery (heq ▸ Under.refl _ _)
  have hfunctionNe : function ≠ query := fun heq =>
    hf.not_under_of_siblings hcall.symm (heq ▸ under_of_parent hquery)
  refine ends_bind (moveAfter_at (.of_loose hw holder) (clear_loose (hf.parent_lt hholder))
    (hf.loose_of_below ((below_of_parent hquery).tail hholder)) hholder hne fun w1 h1 hmoved => ?_)
  refine (removeCall_ends h1.sound hcall.1.symm ?_ ?_).imp fun _ _ h => (h1.next rfl).trans h.1
  · rw [hmoved.parent_of_notMem (by simpa using hfunctionNe), hfunction]
  · rw [hmoved.parent_of_notMem (by simpa using hne), hholder]

lemma convertXmlPath_safe (hw : w.Sound K) (xml : Nat) : Safe K P (convertXmlPath xml) w := by
  have hf := hw.wellFormed
  refine ends_forest (ends_ite (fun _ => safe_pure hw) fun _ => ?_)
  refine ends_need hw fun forClause hxml => ends_need hw fun query hforClause => ?_
  refine ends_need hw fun outer hquery => ?_
  generalize hstuff : (w.forest.previousSibling outer).filter _ = stuff
  refine ends_need hw fun select hselect => ?_
  have hselect := hf.parent_of_childContaining hselect
  refine ends_bind (removeChild_sound hw hforClause fun w1 h1 hoff => ?_)
  have hselectLt : select < w1.forest.size := h1.lt_size (lt_size_of_parent hselect)
  -- What is above the query stays there while its clauses are changed.
  have hkeep {w' : Workspace} (h' : At K (w1.forest.parent · = some select) w1.forest w')
      {x p : Nat} (hx : w.forest.parent x = some p) (hup : w.forest.Under outer p) :
      w'.forest.parent x = some p := by
    have hbelow {q : Nat} (hq : w.forest.Below q outer) : p ≠ q := fun heq =>
      hf.acyclic outer (hup.trans_below (heq ▸ hq))
    have hx1 : w1.forest.parent x = some p := by
      rw [hoff.parent_of_notMem, hx]
      rintro hmem
      cases List.mem_singleton.1 hmem
      exact hbelow (below_of_parent hquery) (Option.mem_unique hx hforClause)
    refine (h'.parent_eq (fun hS => ?_) (lt_size_of_parent hx1)).trans hx1
    exact hbelow ((below_of_parent hselect).tail hquery) (Option.mem_unique hx1 hS)
  refine ends_choice (R := fun _ w' => At K (w1.forest.parent · = some select) w1.forest w' ∧
    ∀ x : Nat, w'.forest.parent x = some select → w1.forest.parent x = some select)
    (fun _ => takeSeparator_at h1.sound fun _ w2 h2 hback => ⟨h2, hback⟩)
    (fun _ => ends_pure ⟨.of_children h1.sound select, fun _ hx => hx⟩) ?_
  rintro separator w2 ⟨h2, hback⟩
  refine ends_bind (aggregateColumns_at h2 (h2.clear (h1.wellFormed.clear_children hselectLt)) hback
    fun w3 h3 => ?_)
  have hnext3 : Next K w w3 := (h1.next rfl).trans (h3.next rfl)
  cases stuff with
  | none => exact ends_pure hnext3
  | some function =>
    have hcall := (hf.precedes_of_previousSibling (Option.filter_eq_some_iff.1 hstuff).1).siblings
    refine ends_forest (ends_need h3.sound fun holder hholder => ?_)
    obtain ⟨hcallNe, p, houter, hfunction⟩ := hcall
    have hup := under_of_parent houter
    exact (replaceStuff_safe h3.sound (hkeep h3 hquery (Under.refl _ _))
      ⟨hcallNe, p, hkeep h3 houter hup, hkeep h3 hfunction hup⟩ hholder).imp
      (fun _ _ hnext => hnext3.trans hnext)

lemma convertXmlPaths_safe (hw : w.Sound K) : Safe K P convertXmlPaths w :=
  forEachMatch_safe hw fun xml _ _ hw' _ => convertXmlPath_safe hw' xml

end SqlDialect.StringAggregate
