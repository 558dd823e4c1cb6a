import SqlDialect.Proofs.Terminator.Settled

/-!
# Settling the parts of constructs

What `settle` makes of the trees that constructs are made of, and when a clause is left alone.
-/

namespace SqlDialect.Terminator

open SyntaxTree List

variable {tag : Tag} {owners owners' : List Bool} {last : Bool} {tags : List Tag}
  {tree : SyntaxTree} {trees : List SyntaxTree}

/-! ## Trees without blocks -/

lemma mem_settleAll {tree : SyntaxTree} (h : tree ∈ settleAll owners last trees) :
    ∃ part ∈ trees, ∃ last', tree = settle owners last' part := by
  induction trees with
  | nil => simp [settleAll] at h
  | cons part rest ih =>
    rw [settleAll, mem_cons] at h
    obtain rfl | h := h
    · exact ⟨part, mem_cons_self, _, rfl⟩
    · obtain ⟨part', hpart, heq⟩ := ih h
      exact ⟨part', mem_cons_of_mem _ hpart, heq⟩

lemma settleAll_congr
    (h : ∀ tree ∈ trees, ∀ last, settle owners last tree = settle owners' last tree) :
    settleAll owners last trees = settleAll owners' last trees := by
  induction trees with
  | nil => rfl
  | cons tree rest ih =>
    rw [settleAll, settleAll, h tree mem_cons_self,
      ih fun t ht => h t (.tail _ ht)]

lemma mem_completed (h : tree ∈ completed owners last tag trees) :
    tree ∈ trees ∨ tree = semicolon := by
  rw [completed] at h
  split at h
  · exact mem_putSemicolon.1 h
  · exact .inl h

lemma has_eq_false (htag : tag ∈ tags) (h : AvoidsAll tags trees) : has tag trees = false := by
  rw [has, any_eq_false]
  intro tree htree heq
  exact (avoidsAll_iff.1 h tree htree).tag_notMem (eq_of_beq heq ▸ htag)

/-- What is above a node does not matter to it, if it matters neither to the question whether the
node lacks a terminator nor to its children. -/
lemma settle_node_congr {text : String} {attributes : Dict String}
    (hlacks : lacks owners trees = lacks owners' trees) (h : ∀ part ∈ trees, ∀ owner last,
      settle (owner :: owners) last part = settle (owner :: owners') last part) :
    settle owners last (.node tag text attributes trees) =
      settle owners' last (.node tag text attributes trees) := by
  by_cases htag : tag ∈ brackets
  · rw [settle, settle, if_pos htag, if_pos htag]
  · have hcompleted : completed owners last tag trees = completed owners' last tag trees := by
      rw [completed, completed, hlacks]
    rw [settle_eq htag, settle_eq htag, hcompleted]
    congr 1
    refine settleAll_congr fun part hpart last => ?_
    obtain hpart | rfl := mem_completed hpart
    · exact h part hpart _ last
    · rw [settle_semicolon, settle_semicolon]

/-- What is above a tree without blocks does not matter to it. -/
lemma settle_owners (tree : SyntaxTree) (hblock : .beginEndBlock ∈ tags) (h : tree.Avoids tags) :
    ∀ (owners owners' : List Bool) (last : Bool),
      settle owners last tree = settle owners' last tree := by
  induction tree using SyntaxTree.induction with
  | node tag text attributes children ih =>
    intro owners owners' last
    refine settle_node_congr ?_ fun part hpart _ last =>
      ih part hpart (avoidsAll_iff.1 h.2 part hpart) _ _ last
    rw [lacks, lacks, has_eq_false hblock h.2, Bool.false_and, Bool.false_and]

lemma settleAll_owners (hblock : .beginEndBlock ∈ tags) (h : AvoidsAll tags trees)
    (owners : List Bool) : settleAll owners last trees = settleAll [] last trees :=
  settleAll_congr fun tree htree => settle_owners tree hblock (avoidsAll_iff.1 h tree htree) owners
    []

/-- No node above is a condition with an else branch. -/
def NoOwner (owners : List Bool) : Prop :=
  ∀ n : Nat, owners[n]?.getD false = false

lemma NoOwner.cons (h : NoOwner owners) : NoOwner (false :: owners)
  | 0 => rfl
  | n + 1 => h n

lemma noOwner_nil : NoOwner [] := fun _ => rfl

/-- Of the nodes above a tree only conditions with an else branch matter to it. -/
lemma settle_congr (tree : SyntaxTree) : ∀ {owners owners' : List Bool},
    (∀ n : Nat, owners[n]?.getD false = owners'[n]?.getD false) → ∀ last : Bool,
      settle owners last tree = settle owners' last tree := by
  induction tree using SyntaxTree.induction with
  | node tag text attributes children ih =>
    intro owners owners' hsame last
    refine settle_node_congr ?_ fun part hpart owner last => ih part hpart (fun n => ?_) last
    · rw [lacks, lacks, hsame 2]
    · cases n with
      | zero => rfl
      | succ n => exact hsame n

lemma NoOwner.settleAll_eq (h : NoOwner owners) (trees : List SyntaxTree) :
    settleAll owners last trees = settleAll [] last trees :=
  settleAll_congr fun tree _ => settle_congr tree fun n => by rw [h n]; rfl

lemma avoids_settle (tree : SyntaxTree) (hsemicolon : .semicolon ∉ tags) (h : tree.Avoids tags) :
    ∀ (owners : List Bool) (last : Bool), (settle owners last tree).Avoids tags := by
  induction tree using SyntaxTree.induction with
  | node tag text attributes children ih =>
    intro owners last
    by_cases htag : tag ∈ brackets
    · rwa [settle, if_pos htag]
    · rw [settle_eq htag]
      refine ⟨h.1, avoidsAll_iff.2 fun part hpart => ?_⟩
      obtain ⟨part, hmem, last, rfl⟩ := mem_settleAll hpart
      obtain hmem | rfl := mem_completed hmem
      · exact ih part hmem (avoidsAll_iff.1 h.2 part hmem) _ last
      · rw [settle_semicolon]
        exact ⟨hsemicolon, trivial⟩

lemma avoidsAll_settleAll (hsemicolon : .semicolon ∉ tags) (h : AvoidsAll tags trees) :
    AvoidsAll tags (settleAll owners last trees) := by
  refine avoidsAll_iff.2 fun tree htree => ?_
  obtain ⟨part, hpart, last, rfl⟩ := mem_settleAll htree
  exact avoids_settle part hsemicolon (avoidsAll_iff.1 h part hpart) owners last

/-! ## Nodes that are no clauses -/

lemma settle_node (htag : tag ∉ brackets) (hclause : tag ≠ .clause) (text : String)
    (attributes : Dict String) (children : List SyntaxTree) :
    settle owners last (.node tag text attributes children) = .node tag text attributes
      (settleAll (isElseOwner tag children :: owners) true children) := by
  have hcompleted : completed owners last tag children = children := by
    rw [completed, beq_false_of_ne hclause]
    rfl
  rw [settle_eq htag, hcompleted]

lemma settle_group (htag : tag ∉ brackets) (hclause : tag ≠ .clause)
    (children : List SyntaxTree) : settle owners last (group tag children) =
      group tag (settleAll (isElseOwner tag children :: owners) true children) :=
  settle_node htag hclause "" .empty children

/-- The parts of a statement are terminated, unless they do not need it, and then settled. -/
lemma settle_asStatement (parts : List SyntaxTree) : settle owners last (asStatement parts) =
    asStatement (settleAll (false :: false :: owners) true
      (if lacks (false :: owners) parts then putSemicolon parts else parts)) := by
  have hclause : settle (false :: owners) true (group .clause parts) =
      group .clause (settleAll (false :: false :: owners) true
        (if lacks (false :: owners) parts then putSemicolon parts else parts)) := by
    rw [group, settle_eq (by decide), completed]
    rfl
  rw [asStatement, settle_group (by decide) (by decide), settleAll, settleAll]
  change group .statement [settle (false :: owners) true (group .clause parts)] = _
  rw [hclause, asStatement]

lemma settle_asStatement_of_lacks {parts : List SyntaxTree}
    (hlacks : lacks (false :: owners) parts = false) : settle owners last (asStatement parts) =
      asStatement (settleAll (false :: false :: owners) true parts) := by
  rw [settle_asStatement, hlacks, if_neg (by decide)]

/-- A tree in which there is nothing to terminate. -/
def Still (tree : SyntaxTree) : Prop :=
  ∀ (owners : List Bool) (last : Bool), settle owners last tree = tree

lemma settleAll_of_still (h : ∀ tree ∈ trees, Still tree) :
    settleAll owners last trees = trees := by
  induction trees with
  | nil => rfl
  | cons tree rest ih =>
    rw [settleAll, h tree mem_cons_self, ih fun t ht => h t (mem_cons_of_mem _ ht)]

section

variable (htag : tag ∉ brackets) (hclause : tag ≠ .clause) (h : ∀ tree ∈ trees, Still tree)
include htag hclause h

lemma still_node (text : String) (attributes : Dict String) :
    Still (.node tag text attributes trees) := by
  intro owners last
  rw [settle_node htag hclause, settleAll_of_still h]

lemma still_group : Still (group tag trees) :=
  still_node htag hclause h "" .empty

end

lemma still_semicolon : Still semicolon :=
  settle_semicolon

lemma still_keyword (text : String) : Still (keyword text) :=
  still_node (by decide) (by decide) (fun _ h => absurd h not_mem_nil) text .empty

lemma still_opener (text : String) : Still (opener text) :=
  still_group (by decide) (by decide) (forall_mem_singleton.2 (still_keyword text))

lemma still_closer (text : String) : Still (closer text) :=
  still_group (by decide) (by decide) (forall_mem_singleton.2 (still_keyword text))

/-! ## Clauses that need no terminator -/

lemma lastTerminated_concat (before : List SyntaxTree) (hblank : tree.tag ≠ .whiteSpace) :
    lastTerminated (before ++ [tree]) = some (isTerminated tree) := by
  rw [lastTerminated_eq, reverse_concat, find?_cons_of_pos (by simpa using hblank)]
  rfl

lemma isTerminated_group_concat (tag : Tag) (before : List SyntaxTree)
    (hblank : tree.tag ≠ .whiteSpace) : isTerminated (group tag (before ++ [tree])) =
      (has .semicolon (before ++ [tree]) || isTerminated tree) := by
  rw [group, isTerminated, lastTerminated_concat before hblank, Option.getD_some]

lemma lacks_of_has (htag : tag ∈ [.semicolon, .whileLoop, .tryBlock])
    (h : has tag trees = true) : lacks owners trees = false := by
  rw [mem_cons, mem_cons, mem_singleton] at htag
  obtain rfl | rfl | rfl := htag <;> simp [lacks, h]

lemma lacks_of_lastTerminated (h : lastTerminated trees = some true) :
    lacks owners trees = false := by
  simp [lacks, h]

lemma lacks_of_ifStatement (h : tree.tag = .ifStatement) : lacks owners [tree] = false := by
  simp [lacks, h]

lemma lacks_of_owner (hblock : has .beginEndBlock trees = true)
    (howner : owners[2]?.getD false = true) : lacks owners trees = false := by
  simp [lacks, hblock, howner]

end SqlDialect.Terminator
