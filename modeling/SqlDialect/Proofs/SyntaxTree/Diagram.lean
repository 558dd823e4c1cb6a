import SqlDialect.Proofs.Conversion.Preorder
import SqlDialect.Proofs.Sexpr.Grammar
import SqlDialect.Proofs.SyntaxTree.Parts
import SqlDialect.SyntaxTree.Diagram

/-!
# What diagrams show

The line of a node in the diagram of a tree is said here by where the node stands in its forest
(`Forest.diagramLine`), without the margins that the drawing carries along.  A diagram consists of
these lines in pre-order, whatever the texts of the nodes are; one without white space is the
diagram of a tree without white space.
-/

namespace SqlDialect

open List SyntaxTree

/-! ## White space left out -/

namespace SyntaxTree

mutual

/-- The tree without the white space below its top. -/
def withoutBlanks : SyntaxTree → SyntaxTree
  | .node tag text attributes children => .node tag text attributes (dropBlanks children)

/-- The trees without those of white space, and without the white space below the others. -/
def dropBlanks : List SyntaxTree → List SyntaxTree
  | [] => []
  | tree :: rest =>
    if tree.tag == .whiteSpace then dropBlanks rest else tree.withoutBlanks :: dropBlanks rest

end

lemma all_hidden_eq (trees : List SyntaxTree) :
    trees.all (hiddenFrom true) = (dropBlanks trees).all (hiddenFrom false) := by
  induction trees with
  | nil => rfl
  | cons tree rest ih => by_cases h : tree.tag = .whiteSpace <;>
    simp [dropBlanks, hiddenFrom, h, ih]

mutual

lemma diagramLines_true (rails : List Bool) (last : Option Bool) : ∀ tree : SyntaxTree,
    diagramLines true rails last tree = diagramLines false rails last tree.withoutBlanks
  | .node tag text attributes children => by
    rw [withoutBlanks, diagramLines, diagramLines, diagramBelow_true]

lemma diagramBelow_true (rails : List Bool) : ∀ trees : List SyntaxTree,
    diagramBelow true rails trees = diagramBelow false rails (dropBlanks trees)
  | [] => rfl
  | tree :: rest => by
    rw [diagramBelow, dropBlanks, diagramBelow_true rails rest, all_hidden_eq, diagramLines_true]
    by_cases h : tree.tag = .whiteSpace <;> simp [hiddenFrom, h, diagramBelow]

end

/-! ## Lines -/

/-- The label of a node fits on a line, and ends with the kind of the node. -/
lemma lineLabel_spec (tag : Tag) (text : String) :
    '\n' ∉ (lineLabel tag text).toList ∧ ∃ front, lineLabel tag text = front ++ tag.name := by
  have hname : '\n' ∉ tag.name.toList := fun hmem =>
    nomatch Sexpr.not_isSpace_of_isNameChar ((Sexpr.isName_name tag).2 _ hmem)
  rw [lineLabel]
  split
  · exact ⟨hname, "", by simp⟩
  · refine ⟨?_, _, rfl⟩
    have hline : '\n' ∉ (onOneLine text).toList := by
      simp only [onOneLine, String.toList_ofList, mem_flatMap, not_exists, not_and]
      intro c _
      split <;> [decide; split <;> [decide; grind]]
    simpa [hline] using hname

end SyntaxTree

namespace Forest

variable {f : Forest} {id n top : Nat}

/-- Whether siblings of the node come after it. -/
def isFollowed (f : Forest) (id : NodeId) : Bool :=
  !(f.siblingsAfter id).isEmpty

/-- The ancestors of a node below `top`, from there down. -/
def lineage (f : Forest) (top id : NodeId) : List NodeId :=
  ((f.ancestors id).takeWhile (· != top)).reverse

/-- The line of a node: at the top its label, and below that a cell for each ancestor that is not
the top, a connector and its label. -/
def diagramLine (f : Forest) (top id : NodeId) : String :=
  if id = top then lineLabel (f.tag id) (f.text id) else
    String.join ((f.lineage top id).map fun a => if f.isFollowed a then "│ " else "  ") ++
      (if f.isFollowed id then "├─" else "└─") ++ lineLabel (f.tag id) (f.text id)

lemma diagramLine_spec (f : Forest) (top id : NodeId) : '\n' ∉ (f.diagramLine top id).toList ∧
    ∃ front, f.diagramLine top id = front ++ (f.tag id).name := by
  obtain ⟨hline, front, hfront⟩ := lineLabel_spec (f.tag id) (f.text id)
  rw [diagramLine]
  split
  · exact ⟨hline, front, hfront⟩
  · refine ⟨?_, _, by rw [hfront, ← String.append_assoc]⟩
    simp only [String.toList_append, String.toList_join, mem_append, mem_flatMap, mem_map, not_or]
    refine ⟨⟨?_, by split <;> decide⟩, hline⟩
    rintro ⟨_, ⟨a, -, rfl⟩, hmem⟩
    split at hmem <;> simp at hmem

section

variable (hf : f.WellFormed)
include hf

lemma WellFormed.lineage_of_parent {c : Nat} (h : f.parent c = some n) :
    f.lineage top c = if n = top then [] else f.lineage top n ++ [n] := by
  rw [lineage, hf.ancestors_eq_cons h, takeWhile_cons]
  by_cases hn : n = top <;> simp [hn, lineage]

lemma WellFormed.depth_eq_lineage (h : f.Below n top) :
    f.depth n = f.depth top + (f.lineage top n).length + 1 := by
  induction h using Relation.TransGen.head_induction_on with
  | single hparent => simp [hf.depth_of_parent hparent, hf.lineage_of_parent hparent]
  | head hparent hbelow ih =>
    have hne : _ ≠ top := fun heq => hf.acyclic top (heq ▸ hbelow)
    rw [hf.depth_of_parent hparent, ih, hf.lineage_of_parent hparent, if_neg hne]
    simp
    omega

/-- Below a node the margin carries a cell for each ancestor. -/
lemma WellFormed.diagramBelow_eq (top : Nat) (rails : List Bool) (ids before : List Nat)
    (hlist : f.children n = before ++ ids)
    (hrails : ∀ c ∈ ids, rails = (f.lineage top c).map f.isFollowed)
    (h : ∀ c ∈ ids, diagramLines false ((f.lineage top c).map f.isFollowed)
      (some !f.isFollowed c) (f.subtree c) =
      (c :: f.descendants c).map (f.diagramLine top · ++ "\n")) :
    diagramBelow false rails (ids.map f.subtree) =
      (ids.flatMap fun c => c :: f.descendants c).map (f.diagramLine top · ++ "\n") := by
  induction ids generalizing before with
  | nil => rfl
  | cons c ids ih =>
    have hlast : (ids.map f.subtree).all (hiddenFrom false) = !f.isFollowed c := by
      rw [isFollowed, hf.siblingsAfter_eq hlist]
      cases ids <;> simp [hiddenFrom]
    rw [map_cons, diagramBelow, if_neg (by simp [hiddenFrom]), hlast,
      hrails c (.head _), h c (.head _), ← hrails c (.head _), flatMap_cons, map_append,
      ih (before ++ [c]) (by simpa using hlist) (fun c hc => hrails c (.tail _ hc)) fun c hc =>
        h c (.tail _ hc)]

lemma WellFormed.diagramLines_eq (h : f.Below n top) :
    diagramLines false ((f.lineage top n).map f.isFollowed) (some !f.isFollowed n) (f.subtree n) =
      (n :: f.descendants n).map (f.diagramLine top · ++ "\n") := by
  induction n using hf.induction_children with
  | _ n ih =>
    have hne : n ≠ top := fun heq => hf.acyclic top (heq ▸ h)
    have hbelow := hf.diagramBelow_eq top
      (innerRails ((f.lineage top n).map f.isFollowed) (some !f.isFollowed n)) (f.children n) [] rfl
      (fun c hc => by simp [hf.lineage_of_parent (hf.parent_of_mem hc), hne, innerRails])
      fun c hc => ih c hc ((below_of_parent (hf.parent_of_mem hc)).trans h)
    rw [hf.subtree_eq, diagramLines, hbelow, ← hf.descendants_eq, map_cons, diagramLine, if_neg hne]
    congr 4
    · simp [railCell, Function.comp_def]
    · cases f.isFollowed n <;> rfl

end

/-- A diagram draws each node on a line of its own, with the rails of its ancestors and its
connector; one without white space is the diagram of the tree without white space. -/
theorem diagram_draws (hf : f.WellFormed) (id : NodeId) :
    (f.subtree id).diagram false = String.join
      ((id :: f.descendants id).map (f.diagramLine id · ++ "\n")) ∧
    (∀ n ∈ f.descendants id, f.depth n = f.depth id + (f.lineage id n).length + 1) ∧
    (∀ n, '\n' ∉ (f.diagramLine id n).toList ∧ ∃ front,
    f.diagramLine id n = front ++ (f.tag n).name) ∧
    (f.subtree id).diagram true = (f.subtree id).withoutBlanks.diagram false := by
  refine ⟨?_, fun n hn => hf.depth_eq_lineage (hf.mem_descendants_iff.1 hn),
    f.diagramLine_spec id, ?_⟩
  · have hbelow := hf.diagramBelow_eq id [] (f.children id) [] rfl
      (fun c hc => by simp [hf.lineage_of_parent (hf.parent_of_mem hc)])
      fun c hc => hf.diagramLines_eq (below_of_parent (hf.parent_of_mem hc))
    rw [diagram, hf.subtree_eq, diagramLines, innerRails, hbelow, ← hf.descendants_eq, map_cons,
      diagramLine, if_pos rfl]
    simp [connector]
  · rw [diagram, diagram, diagramLines_true]

theorem diagram_draws_comma :
    let f := ofTree (group .root [group .clause [group .comma []], group .whiteSpace []])
    f.tree.diagram false = "Root\n├─Clause\n│ └─Comma\n└─WhiteSpace\n" :=
  (diagram_draws (wellFormed_ofTree _) root).1.trans (by decide)

end Forest

end SqlDialect
