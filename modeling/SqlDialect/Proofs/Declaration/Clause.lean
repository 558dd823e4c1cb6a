import SqlDialect.Proofs.Conversion.Renew
import SqlDialect.Proofs.Declaration.Entry
import SqlDialect.Proofs.SyntaxTree.Parts

/-!
# Declaration clauses

A declaration block stands at the start of a clause of a statement.  `Placed` says this of all
blocks of a tree, and that they hold entries only and no other blocks.

Two passes walk a tree to do something about its declaration blocks, and leave all other nodes
alone.
-/

namespace SqlDialect

variable {block tree : SyntaxTree} {attributes : Dict String} {rest : List SyntaxTree} {limit : Nat}
  {text : String} {parent : Tag}

namespace SyntaxTree

/-- The declaration block that a clause starts with. -/
def block? (tree : SyntaxTree) : Option SyntaxTree :=
  if tree.tag == .clause then tree.children.head?.filter (·.tag == .ddlDeclareBlock) else none

/-- A clause that starts with a declaration block. -/
def isDeclaration (tree : SyntaxTree) : Bool :=
  tree.block?.isSome

lemma block?_eq_some_iff : tree.block? = some block ↔
    block.tag = .ddlDeclareBlock ∧
      ∃ text attributes rest, tree = .node .clause text attributes (block :: rest) := by
  obtain ⟨tag, text, attributes, children⟩ := tree
  rw [block?]
  cases children with
  | nil => simp [children]
  | cons first rest =>
    by_cases htag : tag = .clause
    · subst htag
      have hfilter : (some first).filter (·.tag == .ddlDeclareBlock) = some block ↔
          first = block ∧ block.tag = .ddlDeclareBlock := by
        rw [Option.filter_eq_some_iff, Option.some.injEq, beq_iff_eq]
      refine hfilter.trans ⟨?_, ?_⟩
      · rintro ⟨rfl, hblock⟩
        exact ⟨hblock, text, attributes, rest, rfl⟩
      · rintro ⟨hblock, _, _, _, heq⟩
        cases heq
        exact ⟨rfl, hblock⟩
    · simp [SyntaxTree.tag, htag]

lemma isDeclaration_iff : tree.isDeclaration ↔
    ∃ text attributes block rest, tree = .node .clause text attributes (block :: rest) ∧
      block.tag = .ddlDeclareBlock := by
  rw [isDeclaration, Option.isSome_iff_exists]
  constructor
  · rintro ⟨block, h⟩
    obtain ⟨hblock, text, attributes, rest, htree⟩ := block?_eq_some_iff.1 h
    exact ⟨text, attributes, block, rest, htree, hblock⟩
  · rintro ⟨text, attributes, block, rest, htree, hblock⟩
    exact ⟨block, block?_eq_some_iff.2 ⟨hblock, text, attributes, rest, htree⟩⟩

/-- The block holds entries, and there is no other declaration block in the clause. -/
structure ProperDeclaration (block : SyntaxTree) (rest : List SyntaxTree) : Prop where
  holdsEntries : block.holdsEntries
  block_avoids : AvoidsAll [.ddlDeclareBlock] block.children
  rest_avoids : AvoidsAll [.ddlDeclareBlock] rest

mutual

/-- Every declaration block stands at the start of a clause of a statement and is proper. The tree
is a child of a node of the kind `parent`. -/
def Placed (parent : Tag) : SyntaxTree → Prop
  | .node tag text attributes children =>
    match (node tag text attributes children).block? with
    | some block => parent = .statement ∧ ProperDeclaration block children.tail
    | none => tag ≠ .ddlDeclareBlock ∧ PlacedAll tag children

def PlacedAll (parent : Tag) : List SyntaxTree → Prop
  | [] => True
  | tree :: rest => Placed parent tree ∧ PlacedAll parent rest

end

mutual

instance decidableAvoids (tags : List Tag) : ∀ tree, Decidable (Avoids tags tree)
  | .node tag _ _ children =>
    have := decidableAvoidsAll tags children
    inferInstanceAs (Decidable (tag ∉ tags ∧ _))

instance decidableAvoidsAll (tags : List Tag) : ∀ trees, Decidable (AvoidsAll tags trees)
  | [] => .isTrue trivial
  | tree :: rest =>
    have := decidableAvoids tags tree
    have := decidableAvoidsAll tags rest
    inferInstanceAs (Decidable (_ ∧ _))

end

instance : Decidable (ProperDeclaration block rest) :=
  decidable_of_iff (_ ∧ _ ∧ _) ⟨fun ⟨h, h', h''⟩ => ⟨h, h', h''⟩, fun ⟨h, h', h''⟩ => ⟨h, h', h''⟩⟩

mutual

instance decidablePlaced (parent : Tag) : ∀ tree, Decidable (Placed parent tree)
  | .node tag text attributes children =>
    have := decidablePlacedAll tag children
    match h : (node tag text attributes children).block? with
    | some block => decidable_of_iff (_ ∧ ProperDeclaration block children.tail) (by rw [Placed, h])
    | none => decidable_of_iff (_ ∧ PlacedAll tag children) (by rw [Placed, h])

instance decidablePlacedAll (parent : Tag) : ∀ trees, Decidable (PlacedAll parent trees)
  | [] => .isTrue trivial
  | tree :: rest =>
    have := decidablePlaced parent tree
    have := decidablePlacedAll parent rest
    inferInstanceAs (Decidable (_ ∧ _))

end

lemma placedAll_iff {trees : List SyntaxTree} :
    PlacedAll parent trees ↔ ∀ tree ∈ trees, Placed parent tree := by
  induction trees with
  | nil => simp [PlacedAll]
  | cons tree trees ih => simp [PlacedAll, ih]

lemma placed_declaration_iff (hblock : block.tag = .ddlDeclareBlock) :
    Placed parent (.node .clause text attributes (block :: rest)) ↔
      parent = .statement ∧ ProperDeclaration block rest := by
  rw [Placed, block?_eq_some_iff.2 ⟨hblock, text, attributes, rest, rfl⟩, List.tail_cons]

lemma placed_node_iff {tag : Tag}
    {children : List SyntaxTree} (h : (node tag text attributes children).isDeclaration = false) :
    Placed parent (.node tag text attributes children) ↔
      tag ≠ .ddlDeclareBlock ∧ PlacedAll tag children := by
  rw [isDeclaration, Option.isSome_eq_false_iff, Option.isNone_iff_eq_none] at h
  rw [Placed, h]

/-- A tree with placed blocks is a declaration clause or a node whose children have placed
blocks. -/
@[elab_as_elim]
lemma Placed.induction {motive : ∀ {parent tree}, Placed parent tree → Prop}
    (declaration : ∀ parent text attributes block rest, block.tag = .ddlDeclareBlock →
      ProperDeclaration block rest →
      ∀ h : Placed parent (.node .clause text attributes (block :: rest)), motive h)
    (node : ∀ parent tag text attributes children, tag ≠ .ddlDeclareBlock →
      (SyntaxTree.node tag text attributes children).isDeclaration = false →
      ∀ (h : Placed parent (.node tag text attributes children))
        (hchildren : ∀ tree ∈ children, Placed tag tree),
        (∀ tree hmem, motive (hchildren tree hmem)) → motive h)
    {parent : Tag} {tree : SyntaxTree} (h : Placed parent tree) : motive h := by
  induction tree using SyntaxTree.induction generalizing parent with
  | node tag text attributes children ih =>
    cases hnot : (SyntaxTree.node tag text attributes children).isDeclaration with
    | true =>
      obtain ⟨_, _, block, rest, heq, hblock⟩ := isDeclaration_iff.1 hnot
      cases heq
      exact declaration parent _ _ block rest hblock ((placed_declaration_iff hblock).1 h).2 h
    | false =>
      obtain ⟨hblock, hchildren⟩ := (placed_node_iff hnot).1 h
      exact node parent tag text attributes children hblock hnot h (placedAll_iff.1 hchildren)
        fun tree hmem => ih tree hmem _

/-- There are no declaration clauses outside of statements. -/
lemma Placed.isDeclaration_eq_false (h : Placed parent tree)
    (hparent : parent ≠ .statement) : tree.isDeclaration = false := by
  rw [← Bool.not_eq_true]
  intro hdeclaration
  obtain ⟨text, attributes, block, rest, rfl, hblock⟩ := isDeclaration_iff.1 hdeclaration
  exact hparent ((placed_declaration_iff hblock).1 h).1

end SyntaxTree

/-! ## Walks to declaration blocks -/

namespace DeclareSection

open Conversion Forest SyntaxTree

variable {w : Workspace} {act : NodeId → Conversion Unit} {c id : Nat}

lemma blockVisit_descend (h : w.forest.tag id ≠ .ddlDeclareBlock) :
    Succeeds (blockVisit act id) w fun decision w' => decision = .descend ∧ w' = w := by
  apply ends_forest
  apply ends_ite
  · intro hblock
    exact absurd (tag_of_is hblock) h
  · intro _
    exact ends_pure ⟨rfl, rfl⟩

lemma walkFrom_block {Q : Workspace → Prop} (h : w.forest.tag id = .ddlDeclareBlock)
    (hact : Succeeds (act id) w fun _ => Q) :
    Succeeds (walkFrom (fun id (_ : Unit) => return (← blockVisit act id, ())) (limit + 1) id ()) w
      fun _ => Q := by
  rw [walkFrom_succ]
  apply ends_bind
  apply ends_bind
  apply ends_forest
  apply ends_ite
  · intro _
    exact ends_bind (hact.imp (fun _ _ hQ => ends_pure (ends_pure (ends_pure hQ))))
  · intro hnot
    simp [is, h] at hnot

/-- A walk from a declaration clause does what there is to do about its block. -/
lemma walkFrom_declaration {Q : Workspace → Prop}
    (hw : Whole w) (htree : w.forest.subtree c = .node .clause text attributes (block :: rest))
    (hblock : block.tag = .ddlDeclareBlock) (hrest : AvoidsAll [.ddlDeclareBlock] rest)
    (hlimit : (SyntaxTree.node .clause text attributes (block :: rest)).size ≤ limit)
    (hact : ∀ (b : Nat) (others : List Nat), w.forest.children c = b :: others →
      w.forest.subtree b = block → Succeeds (act b) w fun _ w' =>
        Q w' ∧ w'.forest.WellFormed ∧ others.map w'.forest.subtree = others.map w.forest.subtree) :
    Succeeds (walkFrom (fun id (_ : Unit) => return (← blockVisit act id, ())) limit c ()) w
      fun _ => Q := by
  have hf := hw.wellFormed
  obtain ⟨htag, -, -, htrees⟩ := hf.of_subtree_eq htree
  obtain ⟨b, others, hchildren, hb, hothers⟩ := List.map_eq_cons_iff.1 htrees
  have hparent : w.forest.parent b = some c := hf.parent_of_mem (by simp [hchildren])
  have hone := one_le_size block
  rw [SyntaxTree.size, SyntaxTree.sizeAll] at hlimit
  obtain ⟨limit, rfl⟩ : ∃ n, limit = n + 2 := ⟨limit - 2, by omega⟩
  apply succeeds_walkFrom (blockVisit_descend (by simp [htag]))
  rw [hchildren]
  have hblockTag : w.forest.tag b = .ddlDeclareBlock := by rw [← tag_subtree, hb, hblock]
  refine walkAlong_cons hparent ((walkFrom_block hblockTag (hact b others hchildren hb)).imp ?_)
  rintro - w' ⟨hQ, hf', hothers'⟩
  have hignores : Ignores (blockVisit act) (Avoids [.ddlDeclareBlock]) :=
    fun tag text attributes trees h =>
    ⟨avoidsAll_iff.1 h.2, fun id w hid _ => blockVisit_descend (by simpa [hid] using h.1)⟩
  refine (walkAlong_idle hignores hf' fun x hx => .inr ?_).imp ?_
  · have hmem : w'.forest.subtree x ∈ rest := hothers ▸ hothers' ▸ List.mem_map_of_mem hx
    have hsize := size_le_sizeAll hmem
    exact ⟨avoidsAll_iff.1 hrest _ hmem, by omega⟩
  rintro - w'' rfl
  exact hQ

end DeclareSection

end SqlDialect
