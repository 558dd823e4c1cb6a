import SqlDialect.Pipeline
import SqlDialect.Proofs.Conversion.Walk
import SqlDialect.Proofs.Forest.Graft

/-!
# Walks that rewrite trees

A visit that looks at nothing but the node it is given and what is under it, and changes nothing
else, rewrites a syntax tree.  `Acts visit tree tree'` says that, wherever `tree` is the view of a
node, a visit of the node succeeds and makes `tree'` of it; `Walks visit tree tree'` says the same
of a walk from the node.  A walk rewrites a tree as its visits do: first the tree as a whole, then
the children that it has now (`Acts.walks`).  A limit of as many levels as the tree that comes out
has nodes is enough for the walk.
-/

namespace SqlDialect

variable {trees : List SyntaxTree} {limit : Nat} {w' : Workspace}

/-! ## Trees without nodes of some kinds -/

namespace SyntaxTree

mutual

/-- No node of the tree is of one of the kinds. -/
def Avoids (tags : List Tag) : SyntaxTree → Prop
  | .node tag _ _ children => tag ∉ tags ∧ AvoidsAll tags children

/-- No node of the trees is of one of the kinds. -/
def AvoidsAll (tags : List Tag) : List SyntaxTree → Prop
  | [] => True
  | tree :: rest => Avoids tags tree ∧ AvoidsAll tags rest

end

lemma avoidsAll_iff {tags : List Tag} :
    AvoidsAll tags trees ↔ ∀ tree ∈ trees, Avoids tags tree := by
  induction trees with
  | nil => simp [AvoidsAll]
  | cons tree rest ih => simp [AvoidsAll, ih]

lemma Avoids.tag_notMem {tags : List Tag} {tree : SyntaxTree} (h : tree.Avoids tags) :
    tree.tag ∉ tags := by
  cases tree
  exact h.1

lemma Avoids.children {tags : List Tag} {tree : SyntaxTree} (h : tree.Avoids tags) :
    AvoidsAll tags tree.children := by
  cases tree
  exact h.2

end SyntaxTree

open Forest

namespace Conversion

variable {α : Type} {w w1 w2 : Workspace} {id : Nat} {tree tree' : SyntaxTree}

/-- The step succeeds, and `Q` holds afterwards. -/
abbrev Succeeds (step : Conversion α) (w : Workspace) (Q : α → Workspace → Prop) : Prop :=
  Ends step w Q fun _ _ => False

lemma Succeeds.exists_ok {step : Conversion α} {Q : α → Workspace → Prop}
    (h : Succeeds step w Q) : ∃ a w', step w = .ok a w' ∧ Q a w' := by
  obtain ⟨hok, herror⟩ := ends_iff.1 h
  cases hstep : step w with
  | ok a w' => exact ⟨a, w', rfl, hok a w' hstep⟩
  | error e w' => exact (herror e w' hstep).elim

/-- A sound workspace, with any keys. -/
abbrev Whole (w : Workspace) : Prop :=
  w.Sound fun _ => True

lemma whole_ofTree (tree : SyntaxTree) : Whole { forest := Forest.ofTree tree } :=
  sound_ofTree tree.keysIn_true

/-- A workspace with the same notes whose forest has not become smaller, and has the same root. -/
lemma whole_of_size_le (hw : Whole w) (hf : w'.forest.WellFormed)
    (hsize : w.forest.size ≤ w'.forest.size) (hroot : w'.forest.parent root = w.forest.parent root)
    (hnotes : w'.notes = w.notes) : Whole w' where
  wellFormed := hf
  size_pos := hw.size_pos.trans_le hsize
  root_parent := hroot.trans hw.root_parent
  keys _ _ _ := trivial
  notes := by
    rw [hnotes]
    exact ⟨fun d hd x hx => (hw.notes.declarations d hd x hx).trans_le hsize,
      fun entry hentry => (hw.notes.tempTables entry hentry).trans_le hsize⟩

/-- The view of a node has become `tree`. Nothing else has changed that can be seen from outside of
it, and the notes are the same. -/
structure Turned (w : Workspace) (id : Nat) (tree : SyntaxTree) (w' : Workspace) : Prop where
  grafted : Grafted w.forest id tree w'.forest
  notes_eq : w'.notes = w.notes

namespace Turned

lemma refl (hw : Whole w) (id : Nat) : Turned w id (w.forest.subtree id) w :=
  ⟨.refl hw.wellFormed id, rfl⟩

lemma trans (h : Turned w id tree w1) (hw : Whole w) (h' : Turned w1 id tree' w2) :
    Turned w id tree' w2 :=
  ⟨h.grafted.trans hw.wellFormed h'.grafted, h'.notes_eq.trans h.notes_eq⟩

/-- Seen from further up, the part at the path to the node has changed. -/
lemma path {x : Nat} {tags : List Tag} (h : Turned w x tree w1) (hw : Whole w)
    (hpath : w.forest.path id tags = some x) :
    Turned w id (SyntaxTree.changeAt (fun _ => tree) tags (w.forest.subtree id)) w1 :=
  ⟨h.grafted.path hw.wellFormed hpath, h.notes_eq⟩

/-- Seen from the parent, the child has its new view and the other children their old ones. -/
lemma up {c : Nat} {before after : List Nat} (h : Turned w c tree w1) (hw : Whole w)
    (hchildren : w.forest.children id = before ++ c :: after) :
    SameContent w.forest w1.forest id ∧
      before.map w1.forest.subtree = before.map w.forest.subtree ∧
      after.map w1.forest.subtree = after.map w.forest.subtree ∧
      Turned w id (.node (w.forest.tag id) (w.forest.text id) (w.forest.attributes id)
        (before.map w.forest.subtree ++ tree :: after.map w.forest.subtree)) w1 := by
  have hf := hw.wellFormed
  have hparent := hf.parent_of_split hchildren
  have hup := h.grafted.up hf hchildren
  have hid := sameContent_of_node_eq (h.grafted.node_of_child hf hparent)
  have hviews := (h.grafted.wellFormed.of_subtree_eq hup.subtree_eq).2.2.2
  rw [hid.children_eq, hchildren, List.map_append, List.map_cons] at hviews
  obtain ⟨hbefore, hviews⟩ := List.append_inj hviews (by simp)
  exact ⟨hid, hbefore, (List.cons.inj hviews).2, hup, h.notes_eq⟩

lemma whole (h : Turned w id tree w1) (hw : Whole w) : Whole w1 := by
  refine whole_of_size_le hw h.grafted.wellFormed h.grafted.size_le ?_ h.notes_eq
  by_cases hroot : root = id
  · rw [hroot, h.grafted.parent_eq]
  · rw [parent, h.grafted.node_eq root hw.size_pos fun hunder =>
      hroot ((under_iff_eq_of_parent_eq_none hw.root_parent).1 hunder)]
    rfl

end Turned

/-! ## Visits and walks -/

/-- Wherever `tree` is the view of a node, a visit of the node makes `tree'` of it and goes on to
its children. -/
def Acts (visit : NodeId → Conversion Visit) (tree tree' : SyntaxTree) : Prop :=
  ∀ (id : Nat) (w : Workspace), Whole w → id < w.forest.size → w.forest.subtree id = tree →
    Succeeds (visit id) w fun decision w' => decision = .descend ∧ Turned w id tree' w'

/-- Wherever `tree` is the view of a node, a walk from the node makes `tree'` of it. -/
def Walks (visit : NodeId → Conversion Visit) (tree tree' : SyntaxTree) : Prop :=
  ∀ (limit id : Nat) (w : Workspace), tree'.size ≤ limit → Whole w → id < w.forest.size →
    w.forest.subtree id = tree →
      Succeeds (walkFrom (fun id (_ : Unit) => return (← visit id, ())) limit id ()) w
        fun _ => Turned w id tree'

variable {visit : NodeId → Conversion Visit}

/-- A walk of the whole tree rewrites it, if the limit is not felt. -/
lemma Walks.walk (h : Walks visit tree tree') (hw : Whole w) (htree : w.forest.tree = tree)
    (hsize : tree'.size ≤ walkLimit w.forest) :
    Succeeds (walk root visit) w fun _ => Turned w root tree' :=
  ends_forest (h _ root w hsize hw hw.size_pos htree)

lemma size_le_bulk (f : Forest) : f.size ≤ f.bulk := by
  have hsum (nodes : List Node) :
      nodes.length ≤ nodes.foldr (fun n sum => n.text.length + 1 + sum) 0 := by
    induction nodes with
    | nil => simp
    | cons n rest ih =>
      simp only [List.length_cons, List.foldr_cons]
      omega
  have hlength := hsum f.nodes.toList
  rwa [Array.length_toList] at hlength

/-- The limit is not felt by trees that are not much larger than the forest. -/
lemma le_walkLimit {f : Forest} {n : Nat} (h : n ≤ 16 * (f.size + 4)) : n ≤ walkLimit f := by
  have hbulk := size_le_bulk f
  calc
    n ≤ 4 * 4 * (f.size + 4) := h
    _ ≤ (f.bulk + 4) * (f.bulk + 4) * (f.bulk + 4) :=
      Nat.mul_le_mul (Nat.mul_le_mul (by omega) (by omega)) (by omega)
    _ ≤ walkLimit f := Nat.le_mul_of_pos_right _ (by omega)

/-- A visit that leaves a tree alone. -/
lemma acts_self (h : ∀ (id : Nat) (w : Workspace), Whole w → w.forest.subtree id = tree →
    Succeeds (visit id) w fun decision w' => decision = .descend ∧ w' = w) :
    Acts visit tree tree := by
  intro id w hw _ htree
  refine (h id w hw htree).imp ?_
  rintro decision w' ⟨hdecision, rfl⟩
  exact ⟨hdecision, htree ▸ .refl hw id⟩

/-! ## Passes one after the other -/

/-- What holds of the outcome of a computation can be decided by running it. -/
instance {ε : Type} (result : Except ε α) (P : α → Prop) [DecidablePred P] :
    Decidable (∃ a, result = .ok a ∧ P a) :=
  match result with
  | .ok a => decidable_of_iff (P a) ⟨fun h => ⟨a, rfl, h⟩, fun ⟨_, hok, h⟩ => Except.ok.inj hok ▸ h⟩
  | .error _ => .isFalse fun ⟨_, hok, _⟩ => by cases hok

lemma runPasses_append {passes passes' : List Pass} {w : Workspace}
    (h : runPasses passes w = .ok w') : runPasses (passes ++ passes') w = runPasses passes' w' := by
  induction passes generalizing w with
  | nil =>
    cases h
    rfl
  | cons pass passes ih =>
    rw [List.cons_append, runPasses]
    rw [runPasses] at h
    cases hpass : pass.run w with
    | ok _ w1 =>
      rw [hpass] at h
      exact ih h
    | error cause w1 =>
      rw [hpass] at h
      cases h

lemma runPasses_of_ok {pass : Pass} {passes : List Pass} {w : Workspace}
    (h : pass.run w = .ok () w') : runPasses (pass :: passes) w = runPasses passes w' := by
  rw [runPasses, h]

lemma ok_of_runPasses_singleton {pass : Pass} {w : Workspace}
    (h : runPasses [pass] w = .ok w') : pass.run w = .ok () w' := by
  rw [runPasses] at h
  cases hpass : pass.run w with
  | ok _ w1 =>
    rw [hpass] at h
    obtain rfl : w1 = w' := Except.ok.inj h
    rfl
  | error cause w1 =>
    rw [hpass] at h
    cases h

lemma runPasses_of_walks {visit : NodeId → Conversion Visit} {tree tree' : SyntaxTree}
    {name : String} {passes : List Pass} {w : Workspace} (hwalks : Walks visit tree tree')
    (hw : Whole w) (htree : w.forest.tree = tree) (hsize : tree'.size ≤ 16 * (w.forest.size + 4)) :
    ∃ w', Turned w root tree' w' ∧
      runPasses (⟨name, walk root visit⟩ :: passes) w = runPasses passes w' := by
  obtain ⟨_, w', hrun, hturned⟩ := (hwalks.walk hw htree (le_walkLimit hsize)).exists_ok
  exact ⟨w', hturned, runPasses_of_ok hrun⟩

end Conversion

end SqlDialect
