import SqlDialect.Proofs.Conversion.Renew
import SqlDialect.Proofs.SyntaxTree.Parts

/-!
# Where terminators are put

The pass that terminates statements asks about a clause more than what is below it: whether anything
follows the clause, and whether the block in it ends the first branch of a condition.  `settle` is
the pass as a function on syntax trees, which is told what there is to know about the nodes above.
-/

namespace SqlDialect.Terminator

open SyntaxTree List

/-! ## The pass as a function on trees -/

/-- One of the trees is of the kind. -/
def has (tag : Tag) (trees : List SyntaxTree) : Bool :=
  trees.any (·.tag == tag)

/-- The last tree is white space. -/
def endsBlank (trees : List SyntaxTree) : Bool :=
  trees.getLast?.any (·.tag == .whiteSpace)

mutual

/-- A semicolon ends the tree: one among its children, or else the one that ends its last child. -/
def isTerminated : SyntaxTree → Bool
  | .node _ _ _ children => has .semicolon children || (lastTerminated children).getD false

/-- Whether a semicolon ends the last of the trees, white space not counted. -/
def lastTerminated : List SyntaxTree → Option Bool
  | [] => none
  | tree :: rest =>
    (lastTerminated rest).or (if tree.tag == .whiteSpace then none else some (isTerminated tree))

end

/-- A condition with an else branch. -/
def isElseOwner (tag : Tag) (children : List SyntaxTree) : Bool :=
  tag == .ifStatement && has .elseClause children

/-- A clause with these children, if nothing follows it, needs a terminator. For each node above the
clause, the nearest first, `owners` says whether it is a condition with an else branch. -/
def lacks (owners : List Bool) (children : List SyntaxTree) : Bool :=
  children.getLast?.any (fun last =>
      last.tag != .ddlProceduralBlock && last.tag != .ifStatement)
    && !has .semicolon children && !has .whileLoop children && !has .tryBlock children
    && !(lastTerminated children).getD false
    && !(has .beginEndBlock children && owners[2]?.getD false)

/-- A semicolon after the trees, or before white space at their end. -/
def putSemicolon (trees : List SyntaxTree) : List SyntaxTree :=
  if endsBlank trees then trees.dropLast ++ semicolon :: trees.getLast?.toList
  else trees ++ [semicolon]

/-- The brackets that are not looked into. -/
def brackets : List Tag := [.expressionParens, .functionParens, .selectionTargetParens]

mutual

/-- The tree with its clauses terminated; `last` says whether nothing follows it. -/
def settle (owners : List Bool) (last : Bool) : SyntaxTree → SyntaxTree
  | .node tag text attributes children =>
    if tag ∈ brackets then .node tag text attributes children
    else
      let lacking := tag == .clause && last && lacks owners children
      let settled := settleAll (isElseOwner tag children :: owners)
        (!lacking || endsBlank children) children
      .node tag text attributes (if lacking then putSemicolon settled else settled)

/-- The trees with their clauses terminated; `last` says whether nothing follows the last one. -/
def settleAll (owners : List Bool) (last : Bool) : List SyntaxTree → List SyntaxTree
  | [] => []
  | tree :: rest => settle owners (last && rest.isEmpty) tree :: settleAll owners last rest

end

section

variable {owners : List Bool} {last : Bool}

@[simp] lemma tag_settle (owners : List Bool) (last : Bool) (tree : SyntaxTree) :
    (settle owners last tree).tag = tree.tag := by
  cases tree with
  | node tag text attributes children =>
    rw [settle]
    split <;> rfl

lemma settleAll_append (trees trees' : List SyntaxTree) :
    settleAll owners last (trees ++ trees') =
      settleAll owners (last && trees'.isEmpty) trees ++ settleAll owners last trees' := by
  induction trees with
  | nil => rfl
  | cons tree trees ih =>
    rw [cons_append, settleAll, settleAll, ih, cons_append]
    cases trees <;> cases trees' <;> simp

lemma settleAll_concat (before : List SyntaxTree) (tree : SyntaxTree) :
    settleAll owners last (before ++ [tree]) =
      settleAll owners false before ++ [settle owners last tree] := by
  rw [settleAll_append, settleAll, settleAll]
  simp

lemma endsBlank_concat (before : List SyntaxTree) (tree : SyntaxTree) :
    endsBlank (before ++ [tree]) = (tree.tag == .whiteSpace) := by
  simp [endsBlank]

lemma putSemicolon_concat (before : List SyntaxTree) (tree : SyntaxTree) :
    putSemicolon (before ++ [tree]) =
      before ++ if tree.tag == .whiteSpace then [semicolon, tree] else [tree, semicolon] := by
  rw [putSemicolon, endsBlank_concat]
  split <;> simp

lemma settle_semicolon (owners : List Bool) (last : Bool) :
    settle owners last semicolon = semicolon := by
  cases last <;> rfl

/-- The children are settled after the semicolon has been put among them. -/
lemma settleAll_putSemicolon (trees : List SyntaxTree) :
    settleAll owners true (putSemicolon trees) =
      putSemicolon (settleAll owners (endsBlank trees) trees) := by
  obtain rfl | ⟨before, tree, rfl⟩ := eq_nil_or_concat' trees
  · change settle owners true semicolon :: [] = [semicolon]
    rw [settle_semicolon]
  · rw [endsBlank_concat, settleAll_concat, putSemicolon_concat, putSemicolon_concat, tag_settle]
    by_cases hblank : tree.tag == .whiteSpace
    · rw [if_pos hblank, if_pos hblank, settleAll_append]
      simp [settleAll, settle_semicolon, hblank]
    · rw [if_neg hblank, if_neg hblank, settleAll_append]
      simp [settleAll, settle_semicolon, hblank]

lemma mem_putSemicolon {tree : SyntaxTree} {trees : List SyntaxTree} :
    tree ∈ putSemicolon trees ↔ tree ∈ trees ∨ tree = semicolon := by
  obtain rfl | ⟨before, last, rfl⟩ := eq_nil_or_concat' trees
  · simp [putSemicolon, endsBlank]
  · rw [putSemicolon_concat]
    split <;> simp [or_assoc, or_comm, or_left_comm]

/-- The children of a clause, with the semicolon that it lacks. -/
def completed (owners : List Bool) (last : Bool) (tag : Tag) (children : List SyntaxTree) :
    List SyntaxTree :=
  if tag == .clause && last && lacks owners children then putSemicolon children else children

/-- A tree is settled by terminating it and then settling its children. -/
lemma settle_eq {tag : Tag} (htag : tag ∉ brackets) (text : String) (attributes : Dict String)
    (children : List SyntaxTree) :
    settle owners last (.node tag text attributes children) =
      .node tag text attributes (settleAll (isElseOwner tag children :: owners) true
        (completed owners last tag children)) := by
  rw [settle, if_neg htag, completed]
  split <;> rename_i hlacking
  · rw [settleAll_putSemicolon, hlacking]
    rfl
  · rw [Bool.eq_false_iff.2 hlacking]
    rfl

end

/-! ## What the pass asks about a node -/

section

open Forest

variable {f g : Forest} {c id x : Nat} {tag : Tag} {text : String} {attributes : Dict String}
  {trees : List SyntaxTree} {tree : SyntaxTree}

lemma lastTerminated_eq (trees : List SyntaxTree) :
    lastTerminated trees = (trees.reverse.find? (·.tag != .whiteSpace)).map isTerminated := by
  induction trees with
  | nil => rfl
  | cons tree rest ih =>
    rw [lastTerminated, ih, reverse_cons, find?_append]
    cases hrest : rest.reverse.find? (·.tag != .whiteSpace) with
    | some last => rfl
    | none =>
      by_cases hblank : tree.tag = .whiteSpace <;> simp [hblank]

lemma isSome_child_eq (hf : f.WellFormed) (htree : f.subtree id = .node tag text attributes trees)
    (kind : Tag) : (f.child id kind).isSome = has kind trees := by
  rw [hf.isSome_child, htree, Bool.eq_iff_iff]
  simp [child?, SyntaxTree.children, has]

/-- The last child that is no white space says whether the children are terminated. -/
lemma lastTerminated_views (f : Forest) (id : Nat) :
    lastTerminated ((f.children id).map f.subtree) =
      (f.lastNonWhiteSpaceChild id).map fun c => isTerminated (f.subtree c) := by
  rw [lastTerminated_eq, ← map_reverse, find?_map, Option.map_map, lastNonWhiteSpaceChild]
  congr 2
  funext c
  simp [isWhiteSpace, is_eq, bne]

lemma isSome_terminatorTo (hf : f.WellFormed) : ∀ (levels id : Nat), id < f.size →
    f.size ≤ levels + f.depth id → (f.terminatorTo levels id).isSome = isTerminated (f.subtree id)
  | 0, id, hid, hlevels => by
    have hdepth := hf.depth_lt_size hid
    omega
  | levels + 1, id, hid, hlevels => by
    have htree := hf.subtree_eq id
    rw [terminatorTo, htree, isTerminated, ← isSome_child_eq hf htree, lastTerminated_views]
    cases hchild : f.child id .semicolon with
    | some semicolon => rfl
    | none =>
      cases hc : f.lastNonWhiteSpaceChild id with
      | none => rfl
      | some c =>
        have hparent := hf.parent_of_lastNonWhiteSpaceChild hc
        have hdepth := hf.depth_of_parent hparent
        exact isSome_terminatorTo hf levels c (lt_size_of_parent hparent) (by omega)

lemma isTerminated_eq (hf : f.WellFormed) (hid : id < f.size) :
    f.isTerminated id = isTerminated (f.subtree id) :=
  isSome_terminatorTo hf f.size id hid (Nat.le_add_right _ _)

/-- Nothing follows the node among the children of its parent. -/
def isLast (f : Forest) (id : NodeId) : Bool :=
  (f.parent id).any fun parent => (f.children parent).getLast? == some id

/-- The node is a condition with an else branch. -/
def ownsElse (f : Forest) (id : NodeId) : Bool :=
  f.is id .ifStatement && (f.child id .elseClause).isSome

/-- Which of the nodes above are conditions with an else branch, the nearest first. -/
def ownersAbove (f : Forest) (id : NodeId) : List Bool :=
  (f.ancestors id).map (ownsElse f)

section

variable (hf : f.WellFormed)
include hf

lemma ownsElse_eq (htree : f.subtree id = .node tag text attributes trees) :
    ownsElse f id = isElseOwner tag trees := by
  rw [ownsElse, isElseOwner, isSome_child_eq hf htree, is_eq, htree, SyntaxTree.tag]

lemma ownersAbove_of_parent (h : f.parent c = some id) :
    ownersAbove f c = ownsElse f id :: ownersAbove f id := by
  rw [ownersAbove, hf.ancestors_eq_cons h, map_cons, ownersAbove]

lemma third_ancestor (id : Nat) :
    (f.parent id >>= f.parent >>= f.parent) = (f.ancestors id)[2]? := by
  cases h1 : f.parent id with
  | none => rw [ancestors_of_parent_eq_none h1]; rfl
  | some p =>
    rw [hf.ancestors_eq_cons h1, getElem?_cons_succ]
    change (f.parent p >>= f.parent) = _
    cases h2 : f.parent p with
    | none => rw [ancestors_of_parent_eq_none h2]; rfl
    | some q =>
      rw [hf.ancestors_eq_cons h2, getElem?_cons_succ]
      change f.parent q = _
      cases h3 : f.parent q with
      | none => rw [ancestors_of_parent_eq_none h3]; rfl
      | some r => rw [hf.ancestors_eq_cons h3]; rfl

lemma precedesElse_eq (htree : f.subtree id = .node tag text attributes trees) :
    precedesElse f id = (has .beginEndBlock trees && (ownersAbove f id)[2]?.getD false) := by
  rw [precedesElse, isSome_child_eq hf htree, third_ancestor hf, ownersAbove, getElem?_map]
  cases (f.ancestors id)[2]? with
  | none => rfl
  | some owner => cases hif : f.is owner .ifStatement <;> simp [Option.filter, ownsElse, hif]

lemma lacksTerminator_eq (hid : id < f.size)
    (htree : f.subtree id = .node tag text attributes trees) :
    lacksTerminator f id = (isLast f id && lacks (ownersAbove f id) trees) := by
  have hterminated : f.isTerminated id =
      (has .semicolon trees || (lastTerminated trees).getD false) := by
    rw [isTerminated_eq hf hid, htree, isTerminated]
  have hviews := (hf.of_subtree_eq htree).2.2.2
  have hlast : trees.getLast? = (f.children id).getLast?.map f.subtree := by
    rw [← hviews, getLast?_map]
  have hnone (kind : Tag) : (f.child id kind).isNone = !has kind trees := by
    rw [← isSome_child_eq hf htree, Option.not_isSome]
  rw [lacksTerminator, isLast, lacks, hlast]
  cases f.parent id with
  | none => rfl
  | some p =>
    cases (f.children id).getLast? with
    | none => simp
    | some last =>
      simp only [hterminated, precedesElse_eq hf htree, all_cons, all_nil, hnone, is_eq,
        Option.any_some, Option.map_some, bne, Bool.and_true]
      cases has .semicolon trees <;> simp [Bool.and_assoc, Bool.and_comm, Bool.and_left_comm]

end

end

end SqlDialect.Terminator
