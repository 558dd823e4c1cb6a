import SqlDialect.Proofs.Pipeline
import SqlDialect.Proofs.Sexpr.RoundTrip

/-!
# Forests that were read

What is read becomes a forest whose nodes are numbered in the order in which they begin in the text,
which is pre-order.  `readForest_eq_ok_iff` says which texts are read and what forest each of them
gives.

A node of a well-formed forest is written with all below it.  Reading this gives a forest of its
own, which holds the same nodes with numbers in pre-order (`RereadAs`).  The only condition is that
the keys of attributes are names.  Keys that were read are, and the passes add none that is not, so
whatever the passes make of a tree that was read can be written and read again.
-/

namespace SqlDialect

open Forest Conversion

variable {f : Forest}

/-! ## Pre-order -/

namespace SyntaxTree

mutual

/-- The tree and all trees below it, in pre-order. -/
def nodes : SyntaxTree → List SyntaxTree
  | .node tag text attributes children => .node tag text attributes children :: nodesAll children

/-- The trees and all below them, in pre-order. -/
def nodesAll : List SyntaxTree → List SyntaxTree
  | [] => []
  | tree :: rest => nodes tree ++ nodesAll rest

end

end SyntaxTree

mutual

/-- The nodes below a node come in the order in which its view lists them. -/
lemma map_subtree_preorder (hf : f.WellFormed) : ∀ {tree : SyntaxTree} {id : Nat},
    f.subtree id = tree → (id :: f.descendants id).map f.subtree = tree.nodes
  | .node tag text attributes children, id, htree => by
    have hview := (hf.subtree_eq id).symm.trans htree
    rw [SyntaxTree.node.injEq] at hview
    rw [List.map_cons, hf.descendants_eq, map_subtree_preorder_all hf hview.2.2.2, htree,
      SyntaxTree.nodes]

lemma map_subtree_preorder_all (hf : f.WellFormed) : ∀ {trees : List SyntaxTree} {ids : List Nat},
    ids.map f.subtree = trees →
      (ids.flatMap fun id => id :: f.descendants id).map f.subtree = SyntaxTree.nodesAll trees
  | [], [], _ => rfl
  | tree :: trees, id :: ids, h => by
    obtain ⟨htree, htrees⟩ := List.cons.inj h
    rw [List.flatMap_cons, List.map_append, map_subtree_preorder hf htree,
      map_subtree_preorder_all hf htrees, SyntaxTree.nodesAll]

end

/-- The nodes of the forest of a tree are numbered in pre-order. -/
lemma map_subtree_ofTree (tree : SyntaxTree) :
    (List.range (ofTree tree).size).map (ofTree tree).subtree = tree.nodes := by
  rw [← preorder_ofTree]
  exact map_subtree_preorder (wellFormed_ofTree tree) (tree_ofTree tree)

/-- The forest `g` is the node `id` with all below it, and nothing else, with numbers in
pre-order. -/
structure PreorderCopy (f : Forest) (id : Nat) (g : Forest) : Prop where
  tree_eq : g.tree = f.subtree id
  size_eq : g.size = (id :: f.descendants id).length
  preorder : root :: g.descendants root = List.range g.size
  subtree_eq : (List.range g.size).map g.subtree = (id :: f.descendants id).map f.subtree

lemma preorderCopy_ofTree (hf : f.WellFormed) (id : Nat) :
    PreorderCopy f id (ofTree (f.subtree id)) := by
  have hnodes : (List.range (ofTree (f.subtree id)).size).map (ofTree (f.subtree id)).subtree =
      (id :: f.descendants id).map f.subtree :=
    (map_subtree_ofTree (f.subtree id)).trans (map_subtree_preorder hf rfl).symm
  refine ⟨tree_ofTree _, ?_, preorder_ofTree _, hnodes⟩
  simpa using congrArg List.length hnodes

/-! ## Main results -/

open Sexpr

/-- A text is read exactly if the grammar has it as the text of a tree; the forest is then that of
the tree, its nodes being numbered in the order in which they begin in the text. -/
theorem readForest_eq_ok_iff (input : String) (f : Forest) :
    (read input).map ofTree = .ok f ↔ ∃ tree, Document input.toList tree ∧ f = ofTree tree ∧
      f.tree = tree ∧ (List.range f.size).map f.subtree = tree.nodes := by
  constructor
  · intro h
    cases hread : read input with
    | error e =>
      rw [hread] at h
      cases h
    | ok tree =>
      rw [hread] at h
      obtain rfl : ofTree tree = f := Except.ok.inj h
      exact ⟨tree, read_eq_ok_iff.1 hread, rfl, tree_ofTree tree, map_subtree_ofTree tree⟩
  · rintro ⟨tree, hdocument, rfl, -, -⟩
    rw [read_eq_ok_iff.2 hdocument]
    rfl

/-- What is written of a node is read as the forest `g`, which holds the node and those below it
with numbers in pre-order. -/
structure RereadAs (f : Forest) (id : Nat) (g : Forest) : Prop extends PreorderCopy f id g where
  read_eq : (read (write (f.subtree id))).map ofTree = .ok g

lemma exists_rereadAs (hf : f.WellFormed) {id : Nat} (hkeys : (f.subtree id).KeysIn IsName) :
    ∃ g, RereadAs f id g := by
  refine ⟨ofTree (f.subtree id), preorderCopy_ofTree hf id, ?_⟩
  rw [read_write hkeys]
  rfl

/-- What is written of any node of a well-formed forest whose attributes have names as keys is read
again with the same nodes; so it is of any node after standard passes on a tree that was read. -/
theorem reread_of_names :
    (∀ f : Forest, f.WellFormed → ∀ id : Nat, (f.subtree id).KeysIn IsName → ∃ g, RereadAs f id g) ∧
      ∀ (input : String) (tree : SyntaxTree) (passes : List Pass), read input = .ok tree →
        (∀ pass ∈ passes, pass ∈ standardPasses) →
          ∀ id : Nat, ∃ g, RereadAs (leaveAll passes { forest := ofTree tree }).forest id g := by
  refine ⟨fun f hf id hkeys => exists_rereadAs hf hkeys, fun input tree passes hread hpasses id =>
    ?_⟩
  have hkey : IsName simpleTextKey := by decide
  have hsound := leaveAll_sound hkey hpasses (sound_ofTree (keysIn_of_read hread))
  exact exists_rereadAs hsound.wellFormed (hsound.keys.subtree id)

/-- Two nodes with quotes, brackets, braces and line ends in their texts and values. -/
def awkwardTexts : SyntaxTree :=
  let attributes : Dict String :=
    (Dict.empty.insert "note" "x, y=\"\x7d\t").insert "simpleText" "(\\"
  .node .root "\r\n" .empty [.node .statement "\") (Root" attributes []]

lemma keysIn_awkwardTexts : awkwardTexts.KeysIn IsName := by
  refine ⟨by decide, ⟨?_, trivial⟩, trivial⟩
  decide

theorem reread_awkwardTexts :
    (∃ g, RereadAs (ofTree awkwardTexts) 1 g) ∧
      ∃ g, RereadAs (leaveAll standardPasses { forest := ofTree awkwardTexts }).forest root g :=
  ⟨reread_of_names.1 _ (wellFormed_ofTree _) 1 ((keysIn_ofTree keysIn_awkwardTexts).subtree 1),
    reread_of_names.2 _ _ _ (read_write keysIn_awkwardTexts) (fun _ hpass => hpass) root⟩

end SqlDialect
