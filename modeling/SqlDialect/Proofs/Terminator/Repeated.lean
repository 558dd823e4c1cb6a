import SqlDialect.Proofs.Conversion.Content
import SqlDialect.Proofs.Terminator.Brackets

/-!
# Terminating a second time

The terminators that the pass adds can be told from what was there before: they are the new nodes of
the forest, and without them the forest is the one that the pass was given.  A clause that has been
given a terminator does not lack one any more, and one that has been passed over is not made to lack
one by the terminators around it and below it.  So a second run finds nothing to do
(`addTerminators_conservative`).
-/

namespace SqlDialect.Forest

variable {f : Forest}

/-- The forest without the nodes from number `count` on. -/
def firstNodes (f : Forest) (count : Nat) : Forest :=
  ⟨(f.nodes.take count).map fun node => { node with children := node.children.filter (· < count) }⟩

lemma size_firstNodes {count : Nat} (hcount : count ≤ f.size) :
    (f.firstNodes count).size = count := by
  simpa [firstNodes, size] using hcount

lemma node_firstNodes {count x : Nat} (hx : x < count) :
    (f.firstNodes count).node x =
      { f.node x with children := (f.children x).filter (· < count) } := by
  have htake : (f.nodes.take count)[x]? = f.nodes[x]? := by grind
  rw [Forest.children, node, node, firstNodes, Array.getD_eq_getD_getElem?,
    Array.getD_eq_getD_getElem?, Array.getElem?_map, htake]
  cases f.nodes[x]? <;> rfl

end SqlDialect.Forest

namespace SqlDialect.Terminator

open Conversion Forest SyntaxTree

/-! ## What the tags decide -/

section

variable {trees trees' : List SyntaxTree}

lemma has_eq_of_tags (htags : trees'.map SyntaxTree.tag = trees.map SyntaxTree.tag) (kind : Tag) :
    has kind trees' = has kind trees := by
  have hhas (l : List SyntaxTree) : has kind l = (l.map SyntaxTree.tag).any (· == kind) := by
    rw [List.any_map]
    rfl
  rw [hhas, hhas, htags]

/-- Of two clauses with parts of the same kinds, the one that is not terminated lacks a terminator
if the other one does. -/
lemma lacks_of_tags {owners : List Bool}
    (htags : trees'.map SyntaxTree.tag = trees.map SyntaxTree.tag)
    (hlast : (lastTerminated trees).getD false = true → (lastTerminated trees').getD false = true)
    (hlacks : lacks owners trees' = true) : lacks owners trees = true := by
  have hkind (p : Tag → Bool) :
      trees'.getLast?.any (fun tree => p tree.tag) = trees.getLast?.any fun tree => p tree.tag := by
    have hany (l : List SyntaxTree) :
        l.getLast?.any (fun tree => p tree.tag) = (l.map SyntaxTree.tag).getLast?.any p := by
      rw [List.getLast?_map, Option.any_map]
    rw [hany, hany, htags]
  have hnot : (lastTerminated trees').getD false = false →
    (lastTerminated trees).getD false = false :=
    fun hfalse => Bool.eq_false_iff.2 fun htrue => Bool.eq_false_iff.1 hfalse (hlast htrue)
  rw [lacks, hkind fun tag => tag != .ddlProceduralBlock && tag != .ifStatement] at hlacks
  simp only [has_eq_of_tags htags, Bool.and_eq_true, Bool.not_eq_true'] at hlacks
  obtain ⟨⟨hparts, hterminated⟩, helse⟩ := hlacks
  simp only [lacks, Bool.and_eq_true, Bool.not_eq_true']
  exact ⟨⟨hparts, hnot hterminated⟩, helse⟩

end

/-! ## Nothing comes to lack a terminator -/

namespace Ending

variable {f g : Forest} {S : Nat → Prop} {x : Nat}

/-- Without the terminators that have been added, the forest is as it was. -/
lemma firstNodes_eq (h : Ending f S g) (hf : f.WellFormed) : g.firstNodes f.size = f := by
  refine eq_of_node_eq (size_firstNodes h.size_le) fun x hx => ?_
  rw [node_firstNodes hx, h.filter_children hf hx, h.old x hx]

/-- If no clause has been terminated, the forest is as it was. -/
lemma eq_of_not_mem (h : Ending f S g) (hS : ∀ x, ¬ S x) : g = f := by
  have hsize : g.size = f.size := by
    refine Nat.le_antisymm (Nat.le_of_not_lt fun hlt => ?_) h.size_le
    obtain ⟨-, -, -, x, -, hx, -⟩ := h.new f.size le_rfl hlt
    exact hS x hx
  refine eq_of_node_eq hsize fun x hx => ?_
  have hchildren := h.children_eq x hx (hS x)
  rw [← h.old x hx, ← hchildren]
  rfl

lemma whole {w w' : Workspace} (h : Ending w.forest S w'.forest) (hw : Whole w)
    (hnotes : w'.notes = w.notes) : Whole w' :=
  whole_of_size_le hw h.wellFormed h.size_le (h.parent_eq hw.size_pos) hnotes

section

variable (h : Ending f S g)
include h

/-- The terminator of a clause that has been terminated is among its children. -/
lemma exists_semicolon (hx : x < f.size) (hS : S x) : ∃ n ∈ g.children x, g.tag n = .semicolon := by
  obtain ⟨before, after, n, hn, -, hended, -⟩ := h.children_ended x hx hS
  have hmem : n ∈ g.children x := by simp [hended]
  exact ⟨n, hmem, (h.new n hn (h.wellFormed.child_lt hmem)).1⟩

lemma has_semicolon (hx : x < f.size) (hS : S x) :
    has .semicolon ((g.children x).map g.subtree) = true := by
  obtain ⟨n, hmem, htag⟩ := h.exists_semicolon hx hS
  rw [has, List.any_map, List.any_eq_true]
  exact ⟨n, hmem, by simp [tag_subtree, htag]⟩

section

variable (hf : f.WellFormed) (hx : x < f.size) (hS : ¬ S x)
include hf hx hS

/-- The parts of a node that has not been terminated are of the kinds that they were of. -/
lemma tags_eq : ((g.children x).map g.subtree).map SyntaxTree.tag =
      ((f.children x).map f.subtree).map SyntaxTree.tag := by
  rw [h.children_eq x hx hS, List.map_map, List.map_map]
  refine List.map_congr_left fun c hc => ?_
  simp [tag_subtree, h.tag_eq (hf.child_lt hc)]

lemma lastNonWhiteSpaceChild_eq : g.lastNonWhiteSpaceChild x = f.lastNonWhiteSpaceChild x := by
  rw [lastNonWhiteSpaceChild, lastNonWhiteSpaceChild, h.children_eq x hx hS]
  refine List.find?_congr fun c hc => ?_
  rw [isWhiteSpace, isWhiteSpace, is, is, h.tag_eq (hf.child_lt (List.mem_reverse.1 hc))]

/-- If the last child is still ended by a semicolon, then so are the children. -/
lemma lastTerminated_of (hchild : ∀ c ∈ f.children x, isTerminated (f.subtree c) = true →
      isTerminated (g.subtree c) = true)
    (hlast : (lastTerminated ((f.children x).map f.subtree)).getD false = true) :
    (lastTerminated ((g.children x).map g.subtree)).getD false = true := by
  rw [lastTerminated_views] at hlast ⊢
  rw [h.lastNonWhiteSpaceChild_eq hf hx hS]
  cases hc : f.lastNonWhiteSpaceChild x with
  | none => simp [hc] at hlast
  | some c =>
    rw [hc] at hlast
    exact hchild c (hf.mem_children_iff.2 (hf.parent_of_lastNonWhiteSpaceChild hc)) hlast

end

/-- A node that a semicolon ended is still ended by one. -/
lemma isTerminated_of (hf : f.WellFormed) (tree : SyntaxTree) :
    ∀ x : Nat, x < f.size → f.subtree x = tree → isTerminated tree = true →
      isTerminated (g.subtree x) = true := by
  -- the search goes down the last children, and stops at the latest where it did before
  induction tree using SyntaxTree.induction with
  | node tag text attributes trees ih =>
    intro x hx htree hterminated
    have hviews := (hf.of_subtree_eq htree).2.2.2
    rw [h.wellFormed.subtree_eq, isTerminated, Bool.or_eq_true]
    by_cases hS : S x
    · exact .inl (h.has_semicolon hx hS)
    · rw [isTerminated, ← hviews, Bool.or_eq_true] at hterminated
      rw [has_eq_of_tags (h.tags_eq hf hx hS)]
      refine hterminated.imp_right (h.lastTerminated_of hf hx hS fun c hc => ?_)
      exact ih (f.subtree c) (hviews ▸ List.mem_map_of_mem hc) c (hf.child_lt hc) rfl

/-- A clause that lacks a terminator has lacked it before, and neither it nor the node around it has
been terminated. -/
lemma lacksTerminator_of (hf : f.WellFormed) (hx : x < f.size)
    (hclause : f.tag x = .clause) (hlacks : lacksTerminator g x = true) :
    ¬ S x ∧ lacksTerminator f x = true ∧ ∀ p, f.parent x = some p → ¬ S p := by
  rw [lacksTerminator_eq h.wellFormed (hx.trans_le h.size_le) (h.wellFormed.subtree_eq x),
    Bool.and_eq_true, h.ownersAbove_eq hf hx] at hlacks
  obtain ⟨hlast, hlacks⟩ := hlacks
  have hS : ¬ S x := fun hS => by
    simp [lacks, h.has_semicolon hx hS] at hlacks
  have haround := (h.isLast_iff hf hx hclause).1 hlast
  refine ⟨hS, ?_, haround.2⟩
  rw [lacksTerminator_eq hf hx (hf.subtree_eq x), haround.1, Bool.true_and]
  refine lacks_of_tags (h.tags_eq hf hx hS) (h.lastTerminated_of hf hx hS fun c hc => ?_) hlacks
  exact h.isTerminated_of hf _ c (hf.child_lt hc) rfl

lemma under_iff (hf : f.WellFormed) (hx : x < f.size) {a : Nat} : g.Under x a ↔ f.Under x a :=
  under_congr fun _ hz => h.parent_eq (hf.lt_size_of_under hz hx)

lemma isOpen_of (hf : f.WellFormed) (hx : x < f.size) (hopen : IsOpen g x) : IsOpen f x := by
  intro a ha
  obtain ⟨p, hp, hpa⟩ := below_iff.1 ha
  have hlt : p < f.size := hf.parent_lt hp
  have hbelow : g.Below x a :=
    below_iff.2 ⟨p, (h.parent_eq hx).trans hp, (h.under_iff hf hlt).2 hpa⟩
  rw [← h.tag_eq (hf.lt_size_of_under hpa hlt)]
  exact hopen a hbelow

/-- If all clauses have been terminated that were to be, then none is left that lacks a
terminator. -/
lemma not_lacking (hf : f.WellFormed)
    (hended : ∀ x, f.Under x root → IsEnded f S x → S x) (hunder : g.Under x root)
    (hclause : g.tag x = .clause) (hopen : IsOpen g x) : lacksTerminator g x = false := by
  refine Bool.eq_false_iff.2 fun hlacks => ?_
  have hx : x < f.size := by
    by_contra hnew
    have hlt : x < g.size := by
      by_contra hout
      rw [Forest.tag, node_of_size_le (Nat.le_of_not_lt hout)] at hclause
      cases hclause
    rw [(h.new x (Nat.le_of_not_lt hnew) hlt).1] at hclause
    cases hclause
  have htag : f.tag x = .clause := (h.tag_eq hx).symm.trans hclause
  obtain ⟨hS, hbefore, haround⟩ := h.lacksTerminator_of hf hx htag hlacks
  refine hS (hended x ((h.under_iff hf hx).1 hunder) ?_)
  exact ⟨htag, h.isOpen_of hf hx hopen, hbefore, haround⟩

end

end Ending

/-! ## The pass, once and again -/

section

variable {f : Forest} {clause : Nat} {w : Workspace}

/-- A clause that lacks a terminator is the last child of its parent, and no semicolon ends it. -/
lemma of_lacksTerminator (h : lacksTerminator f clause = true) :
    (∃ p, f.parent clause = some p ∧ (f.children p).getLast? = some clause) ∧
      f.isTerminated clause = false := by
  rw [lacksTerminator] at h
  split at h
  · rename_i p last hparent hlast
    simp only [Bool.and_eq_true, Bool.not_eq_true', beq_iff_eq] at h
    obtain ⟨⟨⟨⟨⟨hend, -⟩, -⟩, -⟩, hterminated⟩, -⟩ := h
    exact ⟨⟨p, hparent, hend⟩, hterminated⟩
  · cases h

/-- Where no clause lacks a terminator, the pass does nothing. -/
lemma addTerminators_idle (hw : Whole w)
    (hnone : ∀ x, w.forest.Under x root → w.forest.tag x = .clause → IsOpen w.forest x →
      lacksTerminator w.forest x = false) : addTerminators w = .ok () w := by
  obtain ⟨_, w', hrun, hnotes, S, hending, hreached, hended⟩ := (addTerminators_ending hw).exists_ok
  have hsame : w'.forest = w.forest := hending.eq_of_not_mem fun x hS => by
    have hunder := hreached x hS
    obtain ⟨htag, hopen, hlacks, -⟩ := (hended x hunder).1 hS
    rw [hnone x hunder htag hopen] at hlacks
    cases hlacks
  obtain ⟨forest, notes⟩ := w'
  obtain rfl : forest = w.forest := hsame
  obtain rfl : notes = w.notes := hnotes
  exact hrun

end

/-- The pass succeeds. What it adds are terminators, and without them the forest is the one that it
was given. Each is the only new child of a clause that was the last child of its parent and that no
semicolon ended; at most one white space follows it there. No clause that the pass looks at lacks a
terminator afterwards, and a second run changes nothing. -/
theorem addTerminators_conservative {w : Workspace} (hw : Whole w) :
    ∃ w', addTerminators w = .ok () w' ∧ w'.notes = w.notes ∧
      w'.forest.firstNodes w.forest.size = w.forest ∧
      (∀ n, w.forest.size ≤ n → n < w'.forest.size → w'.forest.subtree n = semicolon ∧
        ∃ clause before after, w'.forest.parent n = some clause ∧ w.forest.tag clause = .clause ∧
          (∃ p, w.forest.parent clause = some p ∧
            (w.forest.children p).getLast? = some clause) ∧
          w.forest.isTerminated clause = false ∧
          w.forest.children clause = before ++ after ∧
          w'.forest.children clause = before ++ n :: after ∧
          (after = [] ∨ ∃ blank, after = [blank] ∧ w.forest.isWhiteSpace blank = true)) ∧
      (∀ clause, w'.forest.Under clause root → w'.forest.tag clause = .clause →
        IsOpen w'.forest clause → lacksTerminator w'.forest clause = false) ∧
      addTerminators w' = .ok () w' := by
  obtain ⟨_, w', hrun, hnotes, S, hending, hreached, hended⟩ := (addTerminators_ending hw).exists_ok
  have hf := hw.wellFormed
  have hnone (x : Nat) (hunder : w'.forest.Under x root) (htag : w'.forest.tag x = .clause)
      (hopen : IsOpen w'.forest x) : lacksTerminator w'.forest x = false :=
    hending.not_lacking hf (fun y hy => (hended y hy).2) hunder htag hopen
  refine ⟨w', hrun, hnotes, hending.firstNodes_eq hf, fun n hn hlt => ⟨?_, ?_⟩, hnone,
    addTerminators_idle (hending.whole hw hnotes) hnone⟩
  · exact hending.subtree_new hn hlt
  · obtain ⟨-, -, -, x, hx, hS, hparent⟩ := hending.new n hn hlt
    obtain ⟨before, after, m, hm, hold, hnew, hwhite, hone⟩ := hending.children_ended x hx hS
    obtain ⟨htag, -, hlacks, -⟩ := (hended x (hreached x hS)).1 hS
    obtain ⟨hlast, hterminated⟩ := of_lacksTerminator hlacks
    -- the new child is the terminator in question
    obtain rfl : n = m := by
      have hmem : n ∈ before ++ m :: after := hnew ▸ hending.wellFormed.mem_children_iff.2 hparent
      have hnot : n ∉ w.forest.children x := fun hc => absurd (hf.child_lt hc) (Nat.not_lt.2 hn)
      rw [hold] at hnot
      simp only [List.mem_append, List.mem_cons] at hmem hnot
      tauto
    refine ⟨x, before, after, hparent, htag, hlast, hterminated, hold, hnew, ?_⟩
    match after, hwhite, hone with
    | [], _, _ => exact .inl rfl
    | [blank], hwhite, _ => exact .inr ⟨blank, rfl, hwhite blank List.mem_cons_self⟩

theorem addTerminators_conservative_twoSelects :
    Whole { forest := ofTree (twoSelects [blank] []) } ∧
      ∃ w', addTerminators { forest := ofTree (twoSelects [blank] []) } = .ok () w' ∧
        w'.forest.firstNodes (ofTree (twoSelects [blank] [])).size =
          ofTree (twoSelects [blank] []) ∧ addTerminators w' = .ok () w' := by
  have hw : Whole { forest := ofTree (twoSelects [blank] []) } := whole_ofTree _
  obtain ⟨w', hrun, -, hfirst, -, -, hagain⟩ := addTerminators_conservative hw
  exact ⟨hw, w', hrun, hfirst, hagain⟩

end SqlDialect.Terminator
