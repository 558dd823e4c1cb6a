import SqlDialect.Proofs.Declaration.Clause
import SqlDialect.Proofs.SyntaxTree.Parts

/-!
# Dropping declarations

The last pass takes the statement of every declaration block away, unless it stands in a container.
The walk is inside of the statement when this happens, and goes on there: what it still meets in the
statement is no longer in the tree.
-/

namespace SqlDialect

open List

variable {rest trees : List SyntaxTree} {block tree : SyntaxTree} {attributes : Dict String}
  {text : String} {parent : Tag}

namespace SyntaxTree

/-- A statement with a declaration clause, in a node that is not a container. -/
def isDropped (parent : Tag) (tree : SyntaxTree) : Bool :=
  tree.tag == .statement && parent != .containerGeneralContent && tree.children.any isDeclaration

mutual

/-- The tree without the statements that have a declaration clause, those in containers apart. The
tree is a child of a node of the kind `parent`. -/
def pruned (parent : Tag) : SyntaxTree → List SyntaxTree
  | .node tag text attributes children =>
    if isDropped parent (node tag text attributes children) then []
    else [node tag text attributes (prunedAll tag children)]

def prunedAll (parent : Tag) : List SyntaxTree → List SyntaxTree
  | [] => []
  | tree :: rest => pruned parent tree ++ prunedAll parent rest

end

lemma prunedAll_eq (parent : Tag) (trees : List SyntaxTree) :
    prunedAll parent trees = trees.flatMap (pruned parent) := by
  induction trees with
  | nil => rfl
  | cons tree rest ih => rw [prunedAll, ih, flatMap_cons]

lemma pruned_of_isDropped (h : tree.isDropped parent) : tree.pruned parent = [] := by
  obtain ⟨tag, text, attributes, children⟩ := tree
  rw [pruned, if_pos h]

lemma pruned_node {tag : Tag} {children : List SyntaxTree}
    (h : (node tag text attributes children).isDropped parent = false) :
    pruned parent (.node tag text attributes children) =
      [.node tag text attributes (children.flatMap (pruned tag))] := by
  rw [pruned, h, prunedAll_eq]
  rfl

lemma isDropped_of_tag_ne (h : tree.tag ≠ .statement) : tree.isDropped parent = false := by
  simp [isDropped, h]

lemma not_isDeclaration_of_avoids (h : tree.Avoids [.ddlDeclareBlock]) :
    tree.isDeclaration = false := by
  rw [← Bool.not_eq_true]
  intro hdeclaration
  obtain ⟨text, attributes, block, rest, rfl, hblock⟩ := isDeclaration_iff.1 hdeclaration
  have hmem := (avoidsAll_iff.1 h.2 block (.head _)).tag_notMem
  simp [hblock] at hmem

mutual

/-- There is nothing to drop from a tree without declaration blocks. -/
lemma pruned_of_avoids : ∀ {tree : SyntaxTree} (parent : Tag), tree.Avoids [.ddlDeclareBlock] →
    tree.pruned parent = [tree]
  | .node tag text attributes children, parent, h => by
    have hnone : (node tag text attributes children).isDropped parent = false := by
      have hany : children.any isDeclaration = false := any_eq_false.2 fun tree htree => by
        simp [not_isDeclaration_of_avoids (avoidsAll_iff.1 h.2 tree htree)]
      simp [isDropped, SyntaxTree.children, hany]
    rw [pruned, hnone, prunedAll_of_avoids tag h.2]
    rfl

lemma prunedAll_of_avoids : ∀ {trees : List SyntaxTree} (parent : Tag),
    AvoidsAll [.ddlDeclareBlock] trees → prunedAll parent trees = trees
  | [], _, _ => rfl
  | tree :: rest, parent, h => by
    rw [prunedAll, pruned_of_avoids parent h.1, prunedAll_of_avoids parent h.2, singleton_append]

end

/-- A declaration clause stays as it is if its statement stays. -/
lemma pruned_declaration (hblock : block.tag = .ddlDeclareBlock)
    (h : ProperDeclaration block rest) :
    pruned parent (.node .clause text attributes (block :: rest)) =
      [.node .clause text attributes (block :: rest)] := by
  have hself : pruned .clause block = [block] := by
    obtain ⟨tag, words, values, children⟩ := block
    have hinner : prunedAll tag children = children := prunedAll_of_avoids tag h.block_avoids
    rw [pruned, isDropped_of_tag_ne (by rw [hblock]; decide), hinner]
    rfl
  rw [pruned, isDropped_of_tag_ne (by simp [SyntaxTree.tag]), prunedAll, hself,
    prunedAll_of_avoids _ h.rest_avoids]
  rfl

end SyntaxTree

namespace DeclareSection

open Conversion Forest SyntaxTree

variable {w w1 : Workspace} {b c q s : Nat} {before after : List Nat}

/-! ## One block -/

/-- The statement that a declaration block is in. -/
lemma closestAncestor_block {f : Forest} (hf : f.WellFormed) (hb : f.parent b = some c)
    (hc : f.parent c = some s) (hclause : f.tag c = .clause) (hs : f.tag s = .statement) :
    f.closestAncestor b .statement = some s := by
  rw [closestAncestor, hf.ancestors_eq_cons hb, hf.ancestors_eq_cons hc, find?_cons_of_neg,
    find?_cons_of_pos]
  · simp [is, hs]
  · simp [is, hclause]

/-- A statement in a container, or one that has been taken away. -/
def Kept (w : Workspace) (s : Nat) : Prop :=
  w.forest.tag s = .statement ∧
    ∀ q, w.forest.parent s = some q → w.forest.tag q = .containerGeneralContent

lemma stable_kept : Stable Kept := by
  intro w w' s trees hw hkept h
  refine ⟨stable_tag .statement w w' s trees hw hkept.1 h, fun q hq => ?_⟩
  rw [h.grafted.parent_eq] at hq
  have hf := hw.wellFormed
  rw [Forest.tag, h.grafted.node_eq q (hf.parent_lt hq) (hf.not_under_of_child hq)]
  exact hkept.2 q hq

lemma dropBlock_kept (hf : w.forest.WellFormed) (hb : w.forest.parent b = some c)
    (hc : w.forest.parent c = some s) (hclause : w.forest.tag c = .clause) (hs : Kept w s) :
    Succeeds (dropBlock b) w fun _ w' => w' = w := by
  apply ends_forest
  refine ends_need_some (closestAncestor_block hf hb hc hclause hs.1) ?_
  cases hq : w.forest.parent s with
  | none => exact ends_pure rfl
  | some q =>
    apply ends_ite
    · intro hnot
      simp [is, hs.2 q hq] at hnot
    · intro _
      exact ends_pure rfl

lemma dropBlock_removes (hw : Whole w) (hb : w.forest.parent b = some c)
    (hc : w.forest.parent c = some s) (hclause : w.forest.tag c = .clause)
    (hs : w.forest.tag s = .statement) (hq : w.forest.tag q ≠ .containerGeneralContent)
    (hchildren : w.forest.children q = before ++ s :: after) :
    Succeeds (dropBlock b) w fun _ w' => Exchanged w q before [] after [] w' ∧
      Rearranged w.forest q [s] w'.forest ∧ w'.forest.parent s = none := by
  have hf := hw.wellFormed
  have hparent := hf.parent_of_split hchildren
  obtain ⟨g, hok, hre, hchildren1, hnone⟩ := hf.rearranged_removeChild hchildren
  apply ends_forest
  refine ends_need_some (closestAncestor_block hf hb hc hclause hs) ?_
  rw [hparent]
  apply ends_ite
  · intro _
    have hself : ∀ a ∈ [s], w.forest.Under a s := by simp [Under.refl]
    exact ends_relink hok
      ⟨.of_rearranged hre hw rfl hchildren (by simpa using hchildren1) hself rfl, hre, hnone⟩
  · intro hnot
    simp [is, hq] at hnot

/-! ## The whole tree -/

lemma renews_kept_declaration (hblock : block.tag = .ddlDeclareBlock)
    (h : ProperDeclaration block rest) :
    Renews (blockVisit dropBlock) Kept (.node .clause text attributes (block :: rest))
      [.node .clause text attributes (block :: rest)] := by
  refine .of_walkFrom fun limit s c before after w hlimit hw hs hchildren htree => ?_
  have hf := hw.wellFormed
  have hc := hf.parent_of_split hchildren
  refine walkFrom_declaration hw htree hblock h.rest_avoids hlimit fun b others hb _ => ?_
  have hparent : w.forest.parent b = some c := hf.parent_of_mem (by simp [hb])
  refine (dropBlock_kept hf hparent hc (hf.of_subtree_eq htree).1 hs).imp ?_
  rintro - w' rfl
  exact ⟨⟨[c], .of_turned (htree ▸ .refl hw c) hw hchildren⟩, hf, rfl⟩

/-- The clauses of a statement that is kept. -/
lemma renews_kept (hplaced : Placed .statement tree)
    (h : tree.isDeclaration = false → Renews (blockVisit dropBlock)
      (fun w id => w.forest.tag id = .statement) tree (pruned .statement tree)) :
    Renews (blockVisit dropBlock) Kept tree (pruned .statement tree) := by
  by_cases hdeclaration : tree.isDeclaration
  · obtain ⟨text, attributes, block, rest, rfl, hblock⟩ := isDeclaration_iff.1 hdeclaration
    have hproper := ((placed_declaration_iff hblock).1 hplaced).2
    rw [pruned_declaration hblock hproper]
    exact renews_kept_declaration hblock hproper
  · exact (h (by simpa using hdeclaration)).mono (fun w id hkept => hkept.1) le_rfl

/-- The first declaration clause of a statement that is in no container. -/
lemma walkFrom_dropped {limit : Nat} (hw : Whole w) (hblock : block.tag = .ddlDeclareBlock)
    (h : ProperDeclaration block rest)
    (htree : w.forest.subtree c = .node .clause text attributes (block :: rest))
    (hlimit : (SyntaxTree.node .clause text attributes (block :: rest)).size ≤ limit)
    (hc : w.forest.parent c = some s) (hs : w.forest.tag s = .statement)
    (hq : w.forest.tag q ≠ .containerGeneralContent)
    (hchildren : w.forest.children q = before ++ s :: after) :
    Succeeds (walkFrom (fun id (_ : Unit) => return (← blockVisit dropBlock id, ())) limit c ()) w
      fun _ w' => Exchanged w q before [] after [] w' ∧ Rearranged w.forest q [s] w'.forest ∧
        w'.forest.parent s = none := by
  have hf := hw.wellFormed
  have hsq := hf.parent_of_split hchildren
  refine walkFrom_declaration hw htree hblock h.rest_avoids hlimit fun b others hb _ => ?_
  have hparent : w.forest.parent b = some c := hf.parent_of_mem (by simp [hb])
  refine (dropBlock_removes hw hparent hc (hf.of_subtree_eq htree).1 hs hq hchildren).imp ?_
  rintro - w' ⟨hexchanged, hre, hnone⟩
  refine ⟨⟨hexchanged, hre, hnone⟩, hre.wellFormed, map_congr_left fun o ho => ?_⟩
  have ho : w.forest.parent o = some c := hf.parent_of_mem (by simp [hb, ho])
  exact (hre.of_removed hf hsq).2 o ((below_of_parent ho).trans (below_of_parent hc))

/-- A statement that has a declaration clause, and is in no container, goes. -/
lemma renews_dropped (hplaced : ∀ tree ∈ trees, Placed .statement tree)
    (hparent : parent ≠ .containerGeneralContent) (hany : trees.any isDeclaration)
    (hrenews : ∀ tree ∈ trees, tree.isDeclaration = false →
      Renews (blockVisit dropBlock) (fun w id => w.forest.tag id = .statement) tree
        (pruned .statement tree)) :
    Renews (blockVisit dropBlock) (fun w id => w.forest.tag id = parent)
      (.node .statement text attributes trees) [] := by
  refine .of_walkFrom fun limit q s before after w hlimit hw hq hchildren htree => ?_
  have hf := hw.wellFormed
  obtain ⟨hs, -, -, htrees⟩ := hf.of_subtree_eq htree
  have hsq := hf.parent_of_split hchildren
  -- the first declaration clause, and what is before and after it
  obtain ⟨clause, hclause⟩ := Option.isSome_iff_exists.1 (find?_isSome.2 (any_eq_true.1 hany))
  obtain ⟨hdeclaration, first, last, rfl, hfirst⟩ := find?_eq_some_iff_append.1 hclause
  obtain ⟨words, values, block, rest, rfl, hblock⟩ := isDeclaration_iff.1 hdeclaration
  have hproper : ProperDeclaration block rest :=
    ((placed_declaration_iff hblock).1
      (hplaced (.node .clause words values (block :: rest)) (by simp))).2
  obtain ⟨firstIds, lastIds, hids, hfirstIds, hlastIds⟩ := map_eq_append_iff.1 htrees
  obtain ⟨c, lastIds, rfl, hc, hlastIds⟩ := map_eq_cons_iff.1 hlastIds
  rw [SyntaxTree.size, sizeAll_append, sizeAll] at hlimit
  obtain ⟨limit, rfl⟩ : ∃ n, limit = n + 1 := ⟨limit - 1, by omega⟩
  apply succeeds_walkFrom (blockVisit_descend (by simp [hs]))
  rw [hids, walkAlong, foldlM_append]
  -- what is before the clause is renewed as usual
  apply ends_bind
  refine (Sweeps.flatMap (stable_tag .statement) (fun tree hmem => hrenews tree (by simp [hmem])
    (by simpa using hfirst tree hmem)) le_rfl limit s [] firstIds (c :: lastIds) w
      (by omega) hw hs hids
    hfirstIds).imp ?_
  rintro - w1 ⟨ids1, h1⟩
  have hw1 := h1.turned.whole hw
  have hf1 := hw1.wellFormed
  have hself1 : w1.forest.children s = ids1 ++ c :: lastIds := by simp [h1.children_eq]
  have hs1 := stable_tag .statement w w1 s _ hw hs h1.turned
  have hup := Exchanged.of_turned h1.turned hw hchildren
  have hchildren1 : w1.forest.children q = before ++ s :: after := by simp [hup.children_eq]
  have hq1 : w1.forest.tag q = parent := stable_tag parent w w1 q _ hw hq hup.turned
  have hviews := h1.map_subtree.2.2
  rw [map_cons, map_cons, List.cons.injEq] at hviews
  have hc1 := hf1.parent_of_split hself1
  have hsq1 := hf1.parent_of_split hchildren1
  -- the clause has the statement taken away
  refine walkAlong_cons hc1
    ((walkFrom_dropped hw1 hblock hproper (hviews.1.trans hc) (by omega) hc1 hs1
    (hq1 ▸ hparent) hchildren1).imp ?_)
  rintro - w2 ⟨h2, hre, hnone⟩
  have hw2 := h2.turned.whole hw1
  have hslt := lt_size_of_parent hsq1
  obtain ⟨hself2, hbelow2⟩ := hre.of_removed hf1 hsq1
  have hplace2 : w2.forest.children s = ids1 ++ [c] ++ lastIds ++ [] := by simp [hself2, hself1]
  have hlast : lastIds.map w2.forest.subtree = last := by
    rw [← hlastIds, ← hviews.2]
    refine map_congr_left fun x hx => hbelow2 x (below_of_parent ?_)
    exact hf1.parent_of_mem (by simp [hself1, hx])
  -- what is after it is renewed in a statement that is nowhere
  have hkept : Kept w2 s := ⟨(hre.tag_eq s hslt).trans hs1, by simp [hnone]⟩
  refine (Sweeps.flatMap stable_kept (fun tree hmem => renews_kept (hplaced tree (by simp [hmem]))
    (hrenews tree (by simp [hmem]))) le_rfl limit s _ lastIds [] w2 (by omega) hw2 hkept hplace2
    hlast).imp ?_
  rintro - w3 ⟨ids3, h3⟩
  have hqlt := hf.parent_lt hsq
  have hqs : ¬ w1.forest.Under q s := hf1.not_under_of_child hsq1
  refine ⟨[], (hup.trans hw h2).of_detached hqlt hnone ?_ ?_ h3.turned⟩
  · rwa [hre.under_iff hf1 (hf1.parent_lt hsq1) (by simpa using hqs)]
  · intro x hx hunder
    have hold : w1.forest.Under x s := by
      by_contra hnot
      have hx1 := hx.trans_le h1.turned.grafted.size_le
      rw [hre.under_iff hf1 hx1 (by simpa using hnot)] at hunder
      exact hnot hunder
    exact (h1.turned.grafted.under_of_under hf hx hold).trans (under_of_parent hsq)

lemma renews_pruned (h : Placed parent tree) (hdeclaration : tree.isDeclaration = false) :
    Renews (blockVisit dropBlock) (fun w id => w.forest.tag id = parent) tree
      (pruned parent tree) := by
  induction tree using SyntaxTree.induction generalizing parent with
  | node kind words values trees ih =>
    obtain ⟨hblock, htrees⟩ := (placed_node_iff hdeclaration).1 h
    rw [placedAll_iff] at htrees
    have hvisit : ∀ (id : Nat) (w : Workspace), w.forest.tag id = kind → w.forest.text id = words →
        Succeeds (blockVisit dropBlock id) w fun decision w' => decision = .descend ∧ w' = w :=
      fun id w hid _ => blockVisit_descend (hid ▸ hblock)
    by_cases hany : trees.any isDeclaration
    · -- only statements have declaration clauses
      obtain rfl : kind = .statement := by
        obtain ⟨tree, hmem, htree⟩ := any_eq_true.1 hany
        by_contra hkind
        rw [(htrees tree hmem).isDeclaration_eq_false hkind] at htree
        cases htree
      have hrenews := fun tree hmem => ih tree hmem (htrees tree hmem)
      by_cases hparent : parent = .containerGeneralContent
      · have hstays : (SyntaxTree.node .statement words values trees).isDropped parent = false := by
          simp [isDropped, hparent]
        rw [pruned_node hstays]
        refine (Sweeps.flatMap stable_kept (fun tree hmem => renews_kept (htrees tree hmem)
          (hrenews tree hmem)) le_rfl).node (by rw [SyntaxTree.size]; omega) hvisit
            fun w id c hid hc hkind => ⟨hkind, fun q hq => ?_⟩
        obtain rfl := Option.mem_unique hc hq
        exact hid.trans hparent
      · have hgoes : (SyntaxTree.node .statement words values trees).isDropped parent := by
          simp [isDropped, hparent, SyntaxTree.tag, SyntaxTree.children, hany]
        rw [pruned_of_isDropped hgoes]
        exact renews_dropped htrees hparent hany hrenews
    · have hstays : (SyntaxTree.node kind words values trees).isDropped parent = false := by
        simp [isDropped, SyntaxTree.children, hany]
      rw [pruned_node hstays]
      rw [Bool.not_eq_true, any_eq_false] at hany
      exact (Sweeps.flatMap (stable_tag kind) (fun tree hmem => ih tree hmem (htrees tree hmem)
        (by simpa using hany tree hmem)) le_rfl).node (by rw [SyntaxTree.size]; omega) hvisit
          fun w id c _ _ hkind => hkind

/-- The pass that drops declarations takes away the statements that have a declaration clause,
except for those in containers. -/
lemma dropDeclarations_turned {kind : Tag} {words : String} {values : Dict String} (hw : Whole w)
    (htree : w.forest.tree = .node kind words values trees)
    (h : Placed .root (.node kind words values trees)) : Succeeds dropDeclarations w fun _ =>
      Turned w root (.node kind words values (trees.flatMap (pruned kind))) := by
  obtain ⟨hblock, hplaced⟩ := (placed_node_iff (h.isDeclaration_eq_false (by decide))).1 h
  rw [placedAll_iff] at hplaced
  have hroot := (hw.wellFormed.of_subtree_eq htree).1
  have hvisit : Succeeds (blockVisit dropBlock root) w fun decision w' =>
      decision = .descend ∧ w' = w := blockVisit_descend (hroot ▸ hblock)
  have hsize := sizeAll_le_size hw htree
  by_cases hkind : kind = .statement
  · subst hkind
    exact (Sweeps.flatMap stable_kept (fun tree hmem => renews_kept (hplaced tree hmem)
      (renews_pruned (hplaced tree hmem))) hsize).walk hw htree ⟨hroot, by simp [hw.root_parent]⟩
        hvisit
  · exact (Sweeps.flatMap (stable_tag kind) (fun tree hmem => renews_pruned (hplaced tree hmem)
      ((hplaced tree hmem).isDeclaration_eq_false hkind)) hsize).walk hw htree hroot hvisit

end DeclareSection

end SqlDialect
