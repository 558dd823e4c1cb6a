import SqlDialect.Proofs.Terminator.Settled

/-!
# Trees without their terminators

A pass that puts a statement somewhere else takes the semicolon that ends it away first.
`unterminated` is the tree that is left, and `withoutTerminator` the forest.
-/

namespace SqlDialect

open List

namespace Terminator

open SyntaxTree

mutual

/-- The tree without the semicolon that ends it. -/
def unterminated : SyntaxTree → SyntaxTree
  | .node tag text attributes children => .node tag text attributes
    (if has .semicolon children then children.eraseP (·.tag == .semicolon)
      else unterminatedLast children)

/-- The trees without the semicolon that ends the last of them, white space not counted. -/
def unterminatedLast : List SyntaxTree → List SyntaxTree
  | [] => []
  | tree :: rest =>
    if tree.tag != .whiteSpace && rest.all (·.tag == .whiteSpace) then unterminated tree :: rest
    else tree :: unterminatedLast rest

end

lemma unterminatedLast_append {tree : SyntaxTree} {blanks : List SyntaxTree}
    (htree : tree.tag ≠ .whiteSpace) (hblanks : ∀ t ∈ blanks, t.tag = .whiteSpace)
    (before : List SyntaxTree) :
    unterminatedLast (before ++ tree :: blanks) = before ++ unterminated tree :: blanks := by
  have hall : blanks.all (·.tag == .whiteSpace) = true := by simpa using hblanks
  induction before with
  | nil => simp [unterminatedLast, htree, hall]
  | cons t before ih =>
    have hnot : (before ++ tree :: blanks).all (·.tag == .whiteSpace) = false := by
      simp [htree]
    rw [cons_append, unterminatedLast, hnot, Bool.and_false, if_neg (by simp), ih, cons_append]

lemma unterminatedLast_blank {trees : List SyntaxTree} (h : ∀ t ∈ trees, t.tag = .whiteSpace) :
    unterminatedLast trees = trees := by
  induction trees with
  | nil => rfl
  | cons tree rest ih =>
    have htree := h tree (.head _)
    rw [unterminatedLast, htree, ih fun t ht => h t (mem_cons_of_mem _ ht)]
    rfl

end Terminator

namespace Forest

open Terminator

variable {f : Forest} {a id p x : Nat}

/-- The forest without the semicolon that the search finds. -/
def withoutTerminatorTo (f : Forest) (levels id : Nat) : Forest :=
  (f.terminatorTo levels id).elim f f.detach

/-- The forest without the semicolon that ends a node. -/
def withoutTerminator (f : Forest) (id : Nat) : Forest :=
  (f.terminator id).elim f f.detach

lemma WellFormed.grafted_withoutTerminatorTo (hf : f.WellFormed) :
    ∀ (levels id : Nat), id < f.size → f.size ≤ levels + f.depth id →
      Grafted f id (unterminated (f.subtree id)) (f.withoutTerminatorTo levels id)
  | 0, id, hid, hlevels => by
    have hdepth := hf.depth_lt_size hid
    omega
  | levels + 1, id, hid, hlevels => by
    have htree := hf.subtree_eq id
    rw [withoutTerminatorTo, terminatorTo, htree, unterminated, ← isSome_child_eq hf htree]
    cases hchild : f.child id .semicolon with
    | some semicolon =>
      exact grafted_detach_first hf htree hchild
    | none =>
      cases hc : f.lastNonWhiteSpaceChild id with
      | none =>
        have hblank : ∀ t ∈ (f.children id).map f.subtree, t.tag = .whiteSpace := by
          intro t ht
          obtain ⟨x, hx, rfl⟩ := mem_map.1 ht
          have hspace := find?_eq_none.1 hc x (mem_reverse.2 hx)
          simpa [isWhiteSpace, is] using hspace
        have hself : Grafted f id (f.subtree id) f := .refl hf id
        rw [htree] at hself
        simpa [unterminatedLast_blank hblank] using hself
      | some c =>
        obtain ⟨hnot, blanks, before, hreverse, hblank⟩ := find?_eq_some_iff_append.1 hc
        have hchildren : f.children id = before.reverse ++ c :: blanks.reverse := by
          have heq := congrArg List.reverse hreverse
          simpa using heq
        have hparent := hf.parent_of_split hchildren
        have hdepth := hf.depth_of_parent hparent
        have hgraft := (hf.grafted_withoutTerminatorTo levels c (lt_size_of_parent hparent)
          (by omega)).up hf hchildren
        have hlast : unterminatedLast ((f.children id).map f.subtree) =
            before.reverse.map f.subtree ++ unterminated (f.subtree c) ::
              blanks.reverse.map f.subtree := by
          rw [hchildren, map_append, map_cons, unterminatedLast_append]
          · simpa [isWhiteSpace, is] using hnot
          · intro t ht
            obtain ⟨x, hx, rfl⟩ := mem_map.1 ht
            have hspace := hblank x (mem_reverse.1 hx)
            simpa [isWhiteSpace, is] using hspace
        simpa [hlast, withoutTerminatorTo] using hgraft

lemma WellFormed.grafted_withoutTerminator (hf : f.WellFormed) (hid : id < f.size) :
    Grafted f id (unterminated (f.subtree id)) (f.withoutTerminator id) :=
  hf.grafted_withoutTerminatorTo f.size id hid (Nat.le_add_right _ _)

/-- Nothing but the semicolon has left its place. -/
lemma WellFormed.rearranged_withoutTerminator (hf : f.WellFormed) (p id : Nat) :
    Rearranged f p (f.terminator id).toList (f.withoutTerminator id) := by
  rw [withoutTerminator]
  cases hs : f.terminator id with
  | none => exact .refl hf p
  | some s => exact hf.rearranged_detach p s

/-- The search for a child of another kind does not come to the semicolon. -/
lemma WellFormed.child_withoutTerminator {tag : Tag} (hf : f.WellFormed) (htag : tag ≠ .semicolon)
    (x : Nat) : (f.withoutTerminator id).child x tag = f.child x tag := by
  rw [withoutTerminator]
  cases hs : f.terminator id with
  | none => rfl
  | some s =>
    obtain ⟨hbelow, hkind⟩ := hf.below_of_terminator hs
    obtain ⟨p, hp, -⟩ := below_iff.1 hbelow
    have hchildren : (f.detach s).children x = (f.children x).filter (· ∉ [s]) := by
      rw [Forest.children, hf.node_detach]
    change (f.detach s).child x tag = _
    rw [child_eq_find?, child_eq_find?, hchildren, find?_filter]
    refine find?_congr fun y _ => ?_
    rw [is, is, (hf.detach s).2.tag_eq]
    grind

end Forest

namespace Conversion

open Forest Terminator

variable {w : Workspace} {id : Nat} {E : ConversionError → Workspace → Prop}

lemma takeTerminator_ends {Q : Option NodeId → Workspace → Prop}
    (h : Q (w.forest.terminator id) { w with forest := w.forest.withoutTerminator id }) :
    Ends (takeTerminator id) w Q E := by
  rw [withoutTerminator] at h
  refine ends_forest (ends_bind ?_)
  cases hs : w.forest.terminator id with
  | none =>
    rw [hs] at h
    exact ends_pure (ends_pure h)
  | some s =>
    rw [hs] at h
    change Ends (edit (·.detach s)) w _ _
    exact ends_edit (ends_pure h)

end Conversion

end SqlDialect
