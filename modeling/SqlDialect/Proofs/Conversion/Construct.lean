import SqlDialect.Proofs.Conversion.Steps

/-!
# Constructs that several passes share

What the shared constructions do to the links: how a terminator is taken and put elsewhere, and how
the statements of a container come into a block and the rest of a clause into brackets.
-/

namespace SqlDialect.Conversion

open Forest

variable {node : Option NodeId} {Q : PUnit → Workspace → Prop} {K : String → Prop} {S : Nat → Prop}
  {f : Forest} {w : Workspace} {E : ConversionError → Workspace → Prop} {id p : Nat}

/-! ## Terminators -/

lemma forM_detach_at (h : At K S f w) (hS : ∀ s, node = some s → S s)
    (hQ : ∀ w', At K S f w' → Relinked w.forest w'.forest node.toList none → Q () w') :
    Ends (node.forM detach) w Q E := by
  cases node with
  | none => exact ends_pure (hQ w h (.nil _ _))
  | some s => exact detach_at h (.inl (hS s rfl)) fun w' h' hoff => hQ w' h' hoff

lemma forM_moveTo_at (h : At K S f w) (hclear : Clear S w.forest p) (hS : ∀ s, node = some s → S s)
    (hQ : ∀ w', At K S f w' → Relinked w.forest w'.forest node.toList (some p) → Q () w') :
    Ends (node.forM (moveTo p)) w Q E := by
  cases node with
  | none => exact ends_pure (hQ w h (.nil _ _))
  | some s => exact moveTo_at h hclear (hS s rfl) fun w' h' hon => hQ w' h' hon

lemma takeTerminator_at (h : At K S f w) {Q : Option NodeId → Workspace → Prop}
    (hS : ∀ s, w.forest.terminator id = some s → S s)
    (hQ : ∀ w', At K S f w' →
      Relinked w.forest w'.forest (w.forest.terminator id).toList none →
      Q (w.forest.terminator id) w') :
    Ends (takeTerminator id) w Q E :=
  ends_forest (ends_bind (forM_detach_at h hS fun w' h' hoff => ends_pure (hQ w' h' hoff)))

lemma putTerminator_at (h : At K S f w) {semicolon : Option NodeId}
    (hclear : Clear S w.forest p) (hS : ∀ s : Nat, semicolon = some s → S s)
    (hnone : ∀ s : Nat, semicolon = some s → w.forest.parent s = none)
    (hQ : ∀ w', At K S f w' → Relinked w.forest w'.forest semicolon.toList (some p) → Q () w') :
    Ends (putTerminator p semicolon) w Q E := by
  cases semicolon with
  | none => exact ends_pure (hQ w h (.nil _ _))
  | some s =>
    exact addChild_at h hclear (hS s rfl) (hnone s rfl) fun w' h' hon => hQ w' h' hon

/-! ## Blocks -/

/-- What is below the container moves into the new block; the block itself is new. -/
lemma wrapInBeginEnd_at (h : At K S f w)
    (hclear : Clear S f id) (hS : ∀ i ∈ w.forest.children id, S i)
    (hQ : ∀ w', At K S f w' → Q () w') : Ends (wrapInBeginEnd id) w Q E := by
  refine ends_forest (ends_ite (fun _ => ends_pure (hQ w h)) fun _ => ?_)
  refine ends_bind (create_at h fun statement w1 h1 hstatement => ?_)
  have hclear1 := h.clear_created hstatement
  refine ends_bind (append_clear h1 hclear1 fun clause w2 h2 hclear2 hclause => ?_)
  refine ends_bind (append_clear h2 hclear2 fun block w3 h3 hclear3 hblock => ?_)
  refine ends_bind (append_at h3 hblock.lt_size fun opener w4 h4 hopener => ?_)
  refine ends_bind (ends_discard (append_at h4 hopener.lt_size fun begin w5 h5 hbegin => ?_))
  have hext : Extends w3.forest w5.forest := hopener.extends.trans hbegin.extends
  have hclear5 := hclear3.extend hext h3.wellFormed
  refine ends_bind (append_clear h5 hclear5 fun body w6 h6 hclear6 hbody => ?_)
  -- The container has no other children than before.
  have hchildren : ∀ i ∈ w6.forest.children id, S i := by
    intro i hi
    have hid : id < w.forest.size := h.lt_size hclear.lt_size
    have := hstatement.id_eq
    have := hclause.id_eq
    have := hblock.id_eq
    have := hopener.id_eq
    have := hstatement.size_eq
    have := hclause.size_eq
    have := hblock.size_eq
    refine hS i (h.wellFormed.mem_children_iff.2 ?_)
    rw [← hstatement.parent_eq]
    refine hclause.parent_of_ne (by omega) (hblock.parent_of_ne (by omega) ?_)
    refine hopener.parent_of_ne (by omega) (hbegin.parent_of_ne (by omega) ?_)
    exact hbody.parent_of_ne (by omega) (h6.wellFormed.parent_of_mem hi)
  refine ends_forest (ends_bind (moveAllTo_at h6 hclear6 hchildren
    fun w7 h7 hmoved => ?_))
  have hext6 : Extends w1.forest w6.forest :=
    (hclause.extends.trans hblock.extends).trans (hext.trans hbody.extends)
  have hnone7 : w7.forest.parent statement = none := by
    have hnew := h.not_mem_new (hstatement.id_eq ▸ h.since.size_le)
    rw [hmoved.parent_of_notMem fun hmem => hnew (hchildren statement hmem)]
    exact hext6.parent_eq_none hstatement.lt_size hstatement.parent_new
  have hlt7 : statement < w7.forest.size := hmoved.size_eq ▸ hext6.lt_size hstatement.lt_size
  refine appendWithLeaf_at h7 (hmoved.size_eq ▸ hbody.extends.lt_size hclear5.lt_size)
    fun closer w9 h9 hext9 _ => ?_
  have hold : f.size ≤ statement := hstatement.id_eq ▸ h.since.size_le
  exact addChild_off_at h9 (h9.lt_size hclear.lt_size) (.inr hold) (hext9.lt_size hlt7)
    (hext9.parent_eq_none hlt7 hnone7) (h9.not_under_new hclear hold) fun w' h' _ => hQ w' h'

/-- What follows the keyword of a clause moves into the new brackets. -/
lemma wrapInParens_at (h : At K S f w) {P : Prop} {Q : NodeId → Workspace → Prop}
    (hclear : Clear S w.forest id)
    (hS : ∀ i ∈ w.forest.children id, S i)
    (hQ : ∀ (parens : Nat) w', At K S f w' → w'.forest.parent parens = some id → Q parens w') :
    Ends (wrapInParens id) w Q (Halts K P) := by
  refine ends_forest (ends_need h.sound fun keyword hkeyword => ?_)
  have hparent := h.wellFormed.parent_of_child hkeyword
  refine ends_bind (insertNewAfter_at h hparent fun parens w1 h1 hparens => ?_)
  have hclear1 := h.clear_sprouted hclear hparens
  have hcontent : ∀ i ∈ (w.forest.siblingsAfter keyword).filter (!w.forest.is · .semicolon),
      S i := by
    intro i hi
    have hsibling := h.wellFormed.siblings_of_mem_siblingsAfter (List.mem_of_mem_filter hi)
    exact hS i (h.wellFormed.mem_children_iff.2 (hsibling.parent hparent))
  refine ends_bind (moveAllTo_at h1 hclear1 hcontent fun w2 h2 hmoved => ?_)
  refine ends_pure (hQ parens w2 h2 ?_)
  have hnew := h.not_mem_new (hparens.id_eq ▸ h.since.size_le)
  rw [hmoved.parent_of_notMem fun hmem => hnew (hcontent parens hmem), hparens.parent_new]

end SqlDialect.Conversion
