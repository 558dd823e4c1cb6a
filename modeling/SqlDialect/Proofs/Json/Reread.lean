import SqlDialect.Proofs.Json.RoundTrip
import SqlDialect.Proofs.Sexpr.Reread

/-!
# Forests that were read from JSON

The document of a well-formed forest is read as a forest that holds the same nodes with numbers in
pre-order, as long as brackets do not nest too deep in it (`reread_document`).  What the notation
gives for the same tree is then the very same forest, so it does not matter in which of the two
forms a tree is kept.
-/

namespace SqlDialect

open Forest

/-- The document of a well-formed forest can be read exactly if no node stands below level 64 and
those on it have no attributes.  It is then read as a forest of the nodes below the root, numbered
in pre-order, which is also what the notation is read as if it can hold the keys of the
attributes. -/
theorem reread_document (f : Forest) (hf : f.WellFormed) :
    ((Json.read? (Json.write f.tree)).isSome ↔ f.tree.height ≤ 64 ∧ f.tree.BareAt 63) ∧
      ∀ g, (Json.read? (Json.write f.tree)).map ofTree = some g →
        PreorderCopy f root g ∧ (f.tree.KeysIn Sexpr.IsName →
          (Sexpr.read (Sexpr.write f.tree)).map ofTree = .ok g) := by
  rw [Json.read?_write, ← Json.fitsWithin_maxNesting]
  split_ifs with hfits
  · refine ⟨by simp [hfits], fun g hg => ?_⟩
    obtain rfl : ofTree f.tree = g := Option.some.inj hg
    refine ⟨preorderCopy_ofTree hf root, fun hkeys => ?_⟩
    rw [Sexpr.read_write hkeys]
    rfl
  · exact ⟨by simp [hfits], fun g hg => nomatch hg⟩

theorem reread_document_awkwardTexts :
    ∃ g, (Json.read? (Json.write (ofTree awkwardTexts).tree)).map ofTree = some g ∧
      PreorderCopy (ofTree awkwardTexts) root g ∧
        (Sexpr.read (Sexpr.write (ofTree awkwardTexts).tree)).map ofTree = .ok g := by
  obtain ⟨hread, hcopy⟩ := reread_document (ofTree awkwardTexts) (wellFormed_ofTree awkwardTexts)
  rw [tree_ofTree] at hread hcopy ⊢
  obtain ⟨tree, htree⟩ := Option.isSome_iff_exists.1 (hread.2 ⟨by decide, by trivial⟩)
  rw [htree] at hcopy ⊢
  obtain ⟨hpreorder, hnotation⟩ := hcopy _ rfl
  exact ⟨_, rfl, hpreorder, hnotation keysIn_awkwardTexts⟩

/-- A chain of nodes of which the lowest has an attribute. -/
def chain : Nat → SyntaxTree
  | 0 => .node .otherNode "" (Dict.empty.insert "simpleText" "x") []
  | levels + 1 => .node .statement "" .empty [chain levels]

lemma height_chain (levels : Nat) : (chain levels).height = levels + 1 := by
  induction levels with
  | zero => rfl
  | succ levels ih =>
    rw [chain, SyntaxTree.height, SyntaxTree.heightAll, SyntaxTree.heightAll, ih]
    omega

/-- A tree of 64 levels whose document cannot be read. -/
theorem reread_chain_eq_none :
    (ofTree (chain 63)).WellFormed ∧ (ofTree (chain 63)).tree.height = 64 ∧
      Json.read? (Json.write (ofTree (chain 63)).tree) = none := by
  refine ⟨wellFormed_ofTree _, ?_, ?_⟩
  · rw [tree_ofTree, height_chain]
  · rw [tree_ofTree, Json.read?_write]
    decide

end SqlDialect
