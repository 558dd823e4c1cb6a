import SqlDialect.Proofs.ControlFlow.Command
import SqlDialect.Proofs.Conversion.Rebuild

/-!
# Statements that come into a block

`wrapInBeginEnd` builds a block beside the tree, moves the statements of a container into it and
hangs it up in their place.  Seen from the container, its statements have been put between `begin`
and `end` (`wrapInBeginEnd_turns`), and nothing else has changed.
-/

namespace SqlDialect

open List

variable {attributes : Dict String} {trees : List SyntaxTree}

namespace Forest

variable {f g : Forest} {c n : Nat} {statements : List Nat} {tag : Tag} {text : String}

/-- The nodes of a block from its own statement at `n` on, without those that close it: `statements`
are in the block, and `closing` comes after them. -/
def openBlock (n : Nat) (statements closing : List Nat) : List Node :=
  [{ tag := .statement, children := [n + 1] },
    { tag := .clause, children := [n + 2] },
    { tag := .beginEndBlock, children := (n + 3) :: (n + 5) :: closing },
    { tag := .containerOpen, children := [n + 4] },
    { tag := .otherKeyword, text := "begin" },
    { tag := .containerMultiStatement, children := statements }]

def blockNodes (n : Nat) (statements : List Nat) : List Node :=
  openBlock n statements [n + 6] ++
    [{ tag := .containerClose, children := [n + 7] }, { tag := .otherKeyword, text := "end" }]

lemma WellFormed.subtree_block (hf : f.WellFormed)
    (h : ∀ k : Nat, k < 8 → f.content (n + k) = (blockNodes n statements).getD k {}) : f.subtree n =
      SyntaxTree.asStatement [ControlFlow.enclosed [SyntaxTree.opener "begin"]
        (statements.map f.subtree) [SyntaxTree.closer "end"]] := by
  have hview (k : Nat) (hk : k < 8) (node : Node)
      (hnode : (blockNodes n statements).getD k {} = node) :
      f.subtree (n + k) = .node node.tag node.text node.attributes
        (node.children.map f.subtree) := by
    rw [hf.subtree_eq, ← hnode, ← h k hk]
    rfl
  rw [show f.subtree n = _ from hview 0 (by omega) _ rfl]
  simp [hview, blockNodes, openBlock, SyntaxTree.asStatement, ControlFlow.enclosed,
    SyntaxTree.opener, SyntaxTree.closer, SyntaxTree.keyword, SyntaxTree.group]

/-- The children of `c` have been put into a new block, and the block into their place. -/
abbrev Blocked (f : Forest) (c : Nat) (g : Forest) : Prop :=
  Rebuilt f c [f.size] (blockNodes f.size (f.children c)) g

/-- Seen from `c`, its children have been put between `begin` and `end`. -/
lemma Blocked.grafted (h : Blocked f c g) (hf : f.WellFormed)
    (htree : f.subtree c = .node tag text attributes trees) :
    Grafted f c (.node tag text attributes
      [SyntaxTree.asStatement [ControlFlow.enclosed [SyntaxTree.opener "begin"] trees
        [SyntaxTree.closer "end"]]]) g := by
  obtain ⟨htag, htext, hattributes, htrees⟩ := hf.of_subtree_eq htree
  have hviews : (f.children c).map g.subtree = trees := by
    rw [← htrees]
    exact map_congr_left fun a ha => h.subtree_of_child hf ha
  have hgrafted := Rebuilt.grafted h hf (by simp) (by simp +contextual [blockNodes, openBlock])
  rwa [map_singleton, h.wellFormed.subtree_block fun k _ => h.content_new k, hviews, htag, htext,
    hattributes] at hgrafted

end Forest

open Forest ControlFlow
open SyntaxTree (asStatement opener closer)

namespace Conversion

variable {w : Workspace} {c : Nat} {tag : Tag} {text : String}

lemma wrapInBeginEnd_shows (hf : w.forest.WellFormed) (hc : c < w.forest.size)
    (hnot : w.forest.holdsBlock c = false) :
    Does (wrapInBeginEnd c) w fun _ w' => Blocked w.forest c w'.forest := by
  unfold wrapInBeginEnd
  refine ends_forest (ends_ite (fun h => absurd h (by simp [hnot])) fun _ => ?_)
  refine ends_bind ((create_rebuilt (.refl hf hc) (k := 0) rfl).imp ?_)
  rintro _ w1 ⟨rfl, h1⟩
  refine ends_bind ((append_new h1 rfl (k := 1) rfl).imp ?_)
  rintro _ w2 ⟨rfl, h2⟩
  refine ends_bind ((append_new h2 rfl (k := 2) rfl).imp ?_)
  rintro _ w3 ⟨rfl, h3⟩
  refine ends_bind ((append_new h3 rfl (k := 3) rfl).imp ?_)
  rintro _ w4 ⟨rfl, h4⟩
  refine ends_bind (ends_discard ((append_new h4 rfl (k := 4) rfl).imp ?_))
  rintro _ w5 ⟨rfl, h5⟩
  refine ends_bind ((append_new h5 rfl (k := 5) rfl).imp ?_)
  rintro _ w6 ⟨rfl, h6⟩
  change Rebuilt w.forest c _ (openBlock w.forest.size [] []) _ at h6
  refine ends_forest (ends_bind ?_)
  rw [h6.children_self]
  refine (moveAllTo_new h6 [] [] rfl (by simp)).imp fun _ w7 h7 => ?_
  refine ends_bind ((append_new h7 rfl (k := 6) rfl).imp ?_)
  rintro _ w8 ⟨rfl, h8⟩
  refine ends_bind (ends_discard ((append_new h8 rfl (k := 7) rfl).imp ?_))
  rintro _ w9 ⟨rfl, h9⟩
  exact (addChild_top h9 (by simp)).imp fun _ w10 h10 => h10

set_option synthInstance.maxSize 20000 in
lemma wrapInBeginEnd_blocked (hw : Whole w) (hc : c < w.forest.size)
    (hnot : w.forest.holdsBlock c = false) :
    Succeeds (wrapInBeginEnd c) w fun _ w' => w'.notes = w.notes ∧
    Blocked w.forest c w'.forest := by
  have : Keeps SameNotes (wrapInBeginEnd c) := .bind
  refine (wrapInBeginEnd_shows hw.wellFormed hc hnot).noted.succeeds (K := fun _ => True) ?_
  exact wrapInBeginEnd_at (.of_loose hw c) (clear_loose hc)
    (fun _ hi => hw.wellFormed.loose_of_parent (hw.wellFormed.parent_of_mem hi))
    fun _ h' => h'.next rfl

lemma wrapInBeginEnd_turns (hw : Whole w)
    (hc : c < w.forest.size) (htree : w.forest.subtree c = .node tag text attributes trees)
    (hnot : w.forest.holdsBlock c = false) :
    Succeeds (wrapInBeginEnd c) w fun _ => Turned w c (.node tag text attributes
      [asStatement [enclosed [opener "begin"] trees [closer "end"]]]) :=
  (wrapInBeginEnd_blocked hw hc hnot).imp
    (fun _ _ h => ⟨h.2.grafted hw.wellFormed htree, h.1⟩)

end Conversion

end SqlDialect
