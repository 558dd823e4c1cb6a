import SqlDialect.Proofs.Conversion.Editing
import SqlDialect.Proofs.Forest.Graft
import SqlDialect.Proofs.Sexpr.Reread

/-!
# Copies

A copy of a node and of all below it consists of new nodes, numbered in pre-order (`Duplicated`), as
when they are copied one by one (`cloneTo`).  Edits of nodes that are not under a node do not change
its view, in whatever order they come; and as nothing is under both the node and its copy, each of
the two can be edited without the other.
-/

namespace SqlDialect

open Forest Conversion

variable {f : Forest} {n : Nat} {w w' : Workspace}

/-- Edits of nodes that exist, and of which none is in `S`, lead from one workspace to another. -/
inductive EditedOff (S : Nat → Prop) (w : Workspace) : Workspace → Prop
  | refl : EditedOff S w w
  | tail {w₁ : Workspace} {edit : Edit} : EditedOff S w w₁ →
    (∀ id ∈ edit.nodes, (id : Nat) < w₁.forest.size ∧ ¬ S id) → EditedOff S w (leaves edit.run w₁)

/-- Each edit spares what is under the node, since the parent of a node that is not under it is not
under it either. -/
lemma EditedOff.spares (hf : w.forest.WellFormed) (hn : n < w.forest.size)
    (h : EditedOff (w.forest.Under · n) w w') : w'.forest.WellFormed ∧
      w.forest.size ≤ w'.forest.size ∧
      ∀ x, w.forest.Under x n → w'.forest.node x = w.forest.node x := by
  induction h with
  | refl => exact ⟨hf, le_rfl, fun _ _ => rfl⟩
  | tail _ hnodes ih =>
    obtain ⟨hf₁, hsize, hsame⟩ := ih
    have hspares := Edit.spares hf₁ fun id hid => (hnodes id hid).1
    refine ⟨hspares.wellFormed, hsize.trans hspares.size_le, fun x hx => ?_⟩
    rw [← hsame x hx]
    refine hspares.node_eq x ((hx.lt_size hn).trans_le hsize) (fun hmem => (hnodes x hmem).2 hx)
      fun c hc hcx => ?_
    have hchild : c ∈ w.forest.children x := by
      rw [Forest.children, ← hsame x hx]
      exact hf₁.mem_children_iff.2 hcx
    exact (hnodes c hc).2 ((under_of_parent (hf.parent_of_mem hchild)).trans hx)

lemma EditedOff.subtree_eq (hf : w.forest.WellFormed) (hn : n < w.forest.size)
    (h : EditedOff (w.forest.Under · n) w w') : w'.forest.subtree n = w.forest.subtree n := by
  obtain ⟨hwf, -, hsame⟩ := h.spares hf hn
  exact subtree_eq_of_sameContent hf hwf rfl fun x hx => sameContent_of_node_eq (hsame x hx)

/-- In `g` there are further nodes, `m` and those below it, which look like `n` and those below
it. -/
structure Duplicated (f : Forest) (n m : Nat) (g : Forest) : Prop where
  size_eq : g.size = f.size + (n :: f.descendants n).length
  node_eq : ∀ x < f.size, g.node x = f.node x
  parent_eq : g.parent m = none
  numbers : m :: g.descendants m = List.range' f.size (n :: f.descendants n).length
  views : (m :: g.descendants m).map g.subtree = (n :: f.descendants n).map f.subtree
  disjoint : ∀ x : Nat, g.Under x n → ¬ g.Under x m

lemma duplicated_copy (hf : f.WellFormed) (hn : n < f.size) :
    Duplicated f n f.size (f.copy n).2 := by
  have h : SowSpec f (f.copy n).2 (f.subtree n) := sow_spec (f.subtree n) f
  have hg := hf.copy n
  have hviews :=
    (map_subtree_preorder hg (h.sown.subtree_eq hg)).trans (map_subtree_preorder hf rfl).symm
  have hnumbers := h.sown.preorder_eq hg
  have hlength : (f.subtree n).size = (n :: f.descendants n).length := by
    simpa [hnumbers] using congrArg List.length hviews
  refine ⟨hlength ▸ h.size_eq, h.node_eq, h.top_parent, hlength ▸ hnumbers, hviews,
    fun x hx hx' => ?_⟩
  -- of two nodes above one node, one is above the other
  obtain hunder | hunder := hx.total hx'
  · have hold : f.Under n f.size := (under_congr fun z hz => by
      rw [Forest.parent, Forest.parent, h.node_eq z (hf.lt_size_of_under hz hn)]).1 hunder
    exact absurd (hf.lt_size_of_under hold hn) (lt_irrefl _)
  · obtain heq | ⟨p, hp, -⟩ := under_iff.1 hunder
    · exact absurd hn (heq ▸ lt_irrefl _)
    · cases h.top_parent.symm.trans hp

namespace Forest

/-- Copies a node and, one after the other, its children, down to the given number of levels. Each
is read from the forest as it has grown. -/
def cloneTo : Nat → NodeId → Forest → NodeId × Forest
  | 0, id, f => f.push { tag := f.tag id, text := f.text id, attributes := f.attributes id }
  | levels + 1, id, f =>
    let (copy, f) := f.push { tag := f.tag id, text := f.text id, attributes := f.attributes id }
    (copy, (f.children id).foldl (fun f child =>
      let (childCopy, f) := cloneTo levels child f
      f.placeLast copy childCopy) f)

/-- What is copied is older than the copies, so it is read as it was at the start. -/
lemma cloneTo_eq (hf : f.WellFormed) (levels id : Nat) {g : Forest} (hid : id < f.size)
    (hsize : f.size ≤ g.size) (hold : ∀ x < f.size, g.node x = f.node x) :
    cloneTo levels id g = g.sow (f.subtreeTo levels id) := by
  induction levels generalizing id g with
  | zero => rw [cloneTo, tag, text, attributes, hold id hid]; rfl
  | succ levels ih =>
    have hlist (ids : List Nat) (hids : ids ⊆ f.children id) {g₁ : Forest}
        (hsize₁ : g.size < g₁.size) (hold₁ : ∀ x < f.size, g₁.node x = f.node x) :
        ids.foldl (fun f child => (cloneTo levels child f).2.placeLast g.size
          (cloneTo levels child f).1) g₁ = g₁.sowUnder g.size (ids.map (f.subtreeTo levels)) := by
      induction ids generalizing g₁ with
      | nil => rfl
      | cons c ids ihids =>
        rw [List.cons_subset] at hids
        have hspec := sow_spec (f.subtreeTo levels c) g₁
        have hpos := one_le_size (f.subtreeTo levels c)
        have hgrown := hspec.size_eq
        rw [List.foldl_cons, ih c (hf.child_lt hids.1) (by omega) hold₁, sow_fst, List.map_cons,
          sowUnder_cons]
        refine ihids hids.2 (by simp [placeLast]; omega) fun x hx => ?_
        rw [node_placeLast _ (by omega) (by omega) (by omega), if_neg (by omega), if_neg (by omega),
          hspec.node_eq x (by omega), hold₁ x hx]
    have hpushed (n : Node) (x : Nat) (hx : x < f.size) : (g.push n).2.node x = f.node x := by
      rw [node_push, if_neg (by omega), hold x hx]
    rw [subtreeTo, sow, cloneTo]
    simp only [tag, text, attributes, children, hold id hid, hpushed _ id hid]
    exact Prod.ext rfl (hlist (f.children id) (List.Subset.refl _) (by simp) (hpushed _))

lemma copy_eq_cloneTo (hf : f.WellFormed) (hn : n < f.size) : f.copy n = cloneTo f.size n f :=
  (cloneTo_eq hf f.size n hn le_rfl fun _ _ => rfl).symm

end Forest

/-- A copy is made of new nodes, and after that neither the node nor the copy sees edits of the
other. -/
theorem copy_separates (hf : w.forest.WellFormed) (hn : n < w.forest.size) :
    ∃ w₁ : Workspace, Conversion.copy n w = .ok w.forest.size w₁ ∧ w₁.notes = w.notes ∧
      Duplicated w.forest n w.forest.size w₁.forest ∧
      (∀ w', EditedOff (w₁.forest.Under · n) w₁ w' → w'.forest.subtree n = w.forest.subtree n) ∧
      ∀ w', EditedOff (w₁.forest.Under · w.forest.size) w₁ w' →
        w'.forest.subtree w.forest.size = w.forest.subtree n := by
  have h := duplicated_copy hf hn
  have hwf := hf.copy n
  have hlt : w.forest.size < (w.forest.copy n).2.size := by
    rw [h.size_eq]
    simp
  refine ⟨{ w with forest := (w.forest.copy n).2 }, ?_, rfl, h, fun w' hw' => ?_, fun w' hw' => ?_⟩
  · rw [← copy_fst w.forest n]
    rfl
  · rw [hw'.subtree_eq hwf (hn.trans hlt)]
    exact subtree_eq_of_sameContent hf hwf rfl fun x hx =>
      sameContent_of_node_eq (h.node_eq x (hx.lt_size hn))
  · rw [hw'.subtree_eq hwf hlt]
    exact (List.cons.inj h.views).1

/-- A copy of a list keeps its comma when that of the list is taken away. -/
theorem copy_separates_list :
    let tree : SyntaxTree := .node .root "" .empty [.node .comma "," .empty []]
    ∃ w₁ : Workspace, Conversion.copy 0 { forest := ofTree tree } = .ok 2 w₁ ∧
      (leaves (Edit.removeChild 0 1).run w₁).forest.subtree 2 = tree := by
  intro tree
  have hsize : (ofTree tree).size = 2 := size_ofTree tree
  obtain ⟨w₁, hcopy, -, h, -, hedit⟩ :=
    copy_separates (w := { forest := ofTree tree }) (n := 0) (wellFormed_ofTree tree)
      (by simp [hsize])
  rw [hsize] at hcopy h hedit
  have hparent : w₁.forest.parent 1 = some 0 := by
    rw [Forest.parent, h.node_eq 1 (by simp [hsize])]
    decide +kernel
  refine ⟨w₁, hcopy, (hedit _ (.tail .refl ?_)).trans (tree_ofTree tree)⟩
  have hlt : 1 < w₁.forest.size := by
    rw [h.size_eq]
    exact (by decide : 1 < 2).trans_le (hsize ▸ Nat.le_add_right _ _)
  simp only [Edit.nodes, List.forall_mem_cons]
  exact ⟨⟨Nat.zero_lt_one.trans hlt, h.disjoint 0 (.refl _ 0)⟩,
    ⟨hlt, h.disjoint 1 (under_of_parent hparent)⟩, by simp⟩

end SqlDialect
