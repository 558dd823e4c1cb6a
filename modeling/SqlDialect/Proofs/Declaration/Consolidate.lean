import SqlDialect.Proofs.Declaration.Assign
import SqlDialect.Proofs.Declaration.Drop
import SqlDialect.Proofs.Declaration.Routines
import SqlDialect.Proofs.Wrapping.Bodies

/-!
# Declarations come to the start of a routine

Three passes together move the declarations of a routine to its start.  After the first one each
routine with declarations has its section; what the other two make of a tree is said by `settle`.  A
declaration clause gives way to the assignments of its initial values.  A statement goes if there is
a declaration clause in it that has no initial values, unless it stands in a container, and with it
go the assignments that other clauses of the statement have given.
-/

namespace SqlDialect

variable {block new : SyntaxTree} {rest : List SyntaxTree} {kind : Tag}

namespace SyntaxTree

open DeclareSection List

variable {parent tag : Tag} {text : String} {attributes : Dict String}
  {children trees : List SyntaxTree} {tree : SyntaxTree}

/-! ## Trees without declarations -/

lemma placed_of_avoids (parent : Tag) (h : tree.Avoids [.ddlDeclareBlock]) :
    Placed parent tree := by
  induction tree using SyntaxTree.induction generalizing parent with
  | node tag text attributes children ih =>
    rw [placed_node_iff (not_isDeclaration_of_avoids h), placedAll_iff]
    refine ⟨by simpa using h.1, fun tree htree => ih tree htree tag ?_⟩
    exact avoidsAll_iff.1 h.2 tree htree

lemma routineEntries_of_avoids (h : AvoidsAll [.ddlDeclareBlock] tree.children) :
    tree.routineEntries = [] := by
  rw [routineEntries, asBlock?]
  split_ifs with hroutine
  · cases hblock : tree.child? .ddlAsBlock with
    | none => rfl
    | some block =>
      have hmem := mem_of_find?_eq_some hblock
      have hnone := declarationBlocks_of_avoids (avoidsAll_iff.1 h block hmem)
      rw [Option.elim_some, declaredIn, hnone, flatMap_nil]
  · rfl

lemma sectioned_node (h : (node tag text attributes children).routineEntries = []) :
    sectioned (.node tag text attributes children) =
      .node tag text attributes (children.map sectioned) := by
  rw [sectioned, h, sectionedAll_eq]
  rfl

lemma sectioned_of_avoids (h : tree.Avoids [.ddlDeclareBlock]) : tree.sectioned = tree := by
  induction tree using SyntaxTree.induction with
  | node tag text attributes children ih =>
    rw [sectioned_node (routineEntries_of_avoids h.2)]
    have hself : children.map sectioned = children.map id := map_congr_left fun tree htree =>
      ih tree htree (avoidsAll_iff.1 h.2 tree htree)
    rw [hself, map_id]

/-! ## Sections -/

lemma isDeclaration_eq : tree.isDeclaration =
    (tree.tag == .clause && tree.children.head?.map SyntaxTree.tag == some .ddlDeclareBlock) := by
  rw [isDeclaration, block?]
  by_cases htag : tree.tag = .clause
  · cases tree.children.head? with
    | none => simp [htag]
    | some first => by_cases hfirst : first.tag = .ddlDeclareBlock <;> simp [htag, hfirst]
  · simp [htag]

lemma isDeclaration_of_tag_ne (h : tree.tag ≠ .clause) : tree.isDeclaration = false := by
  rw [isDeclaration_eq, beq_eq_false_iff_ne.2 h, Bool.false_and]

/-- Whether a tree is a declaration clause depends on the kind of its first child. -/
lemma isDeclaration_congr {children' : List SyntaxTree}
    (h : children'.head?.map SyntaxTree.tag = children.head?.map SyntaxTree.tag) :
    (node tag text attributes children').isDeclaration =
      (node tag text attributes children).isDeclaration := by
  rw [isDeclaration_eq, isDeclaration_eq]
  simp only [SyntaxTree.tag, SyntaxTree.children, h]

lemma tag_changeAt {change : SyntaxTree → SyntaxTree} (kind : Tag) (tags : List Tag)
    (tree : SyntaxTree) : (changeAt change (kind :: tags) tree).tag = tree.tag := by
  cases tree
  rfl

lemma tag_sectioned (tree : SyntaxTree) : tree.sectioned.tag = tree.tag := by
  cases tree
  rw [sectioned]
  split_ifs
  · rfl
  · exact tag_changeAt _ _ _

lemma mem_changeFirst {change : SyntaxTree → SyntaxTree}
    (h : tree ∈ changeFirst kind change trees) :
    tree ∈ trees ∨ ∃ old ∈ trees, old.tag = kind ∧ tree = change old := by
  induction trees with
  | nil => cases h
  | cons first rest ih =>
    rw [changeFirst] at h
    split_ifs at h with hfirst
    · rw [mem_cons] at h
      obtain rfl | h := h
      · exact .inr ⟨first, mem_cons_self, by simpa using hfirst, rfl⟩
      · exact .inl (.tail _ h)
    · rw [mem_cons] at h
      obtain rfl | h := h
      · exact .inl (.head _)
      · obtain h | ⟨old, hold, hrest⟩ := ih h
        · exact .inl (.tail _ h)
        · exact .inr ⟨old, mem_cons_of_mem _ hold, hrest⟩

lemma mem_insertFirst (h : tree ∈ insertFirst kind new trees) : tree = new ∨ tree ∈ trees := by
  induction trees with
  | nil => cases h
  | cons first rest ih =>
    rw [insertFirst] at h
    split_ifs at h
    · simpa using h
    · rw [mem_cons] at h
      obtain rfl | h := h
      · exact .inr (.head _)
      · exact (ih h).imp_right (mem_cons_of_mem _)

/-- What a tree has by its children it still has with a new clause in the body of its routine. -/
lemma changeAt_bodyPath {Q : Tag → SyntaxTree → Prop}
    (hQ : ∀ {parent tag : Tag} {text attributes children}, tag ≠ .clause →
      Q parent (node tag text attributes children) → (∀ tree ∈ children, Q tag tree) ∧
        ∀ trees, (∀ tree ∈ trees, tree ∈ children ∨ Q tag tree ∧ (tag = .statement → tree = new)) →
          Q parent (node tag text attributes trees))
    (h : Q parent tree) (htree : tree.tag = .ddlProceduralBlock) (hnew : Q .statement new) :
    Q parent (changeAt (withClause new) bodyPath tree) := by
  have hstep {change : SyntaxTree → SyntaxTree} {kind parent tag : Tag} {tags : List Tag}
      {tree : SyntaxTree} (htree : tree.tag = tag) (htag : tag ≠ .clause ∧ tag ≠ .statement)
      (h : Q parent tree)
      (hchange : ∀ old, old.tag = kind → Q tag old → Q tag (changeAt change tags old)) :
      Q parent (changeAt change (kind :: tags) tree) := by
    obtain ⟨tag, text, attributes, children⟩ := tree
    subst htree
    obtain ⟨hold, hall⟩ := hQ htag.1 h
    refine hall _ fun tree htree => (mem_changeFirst htree).imp_right ?_
    rintro ⟨old, hmem, hkind, rfl⟩
    exact ⟨hchange old hkind (hold old hmem), fun htag' => absurd htag' htag.2⟩
  refine hstep htree (by decide) h fun asBlock hasBlock h => ?_
  refine hstep hasBlock (by decide) h fun body hbody h => ?_
  refine hstep hbody (by decide) h fun statement hstatement h => ?_
  obtain ⟨tag, text, attributes, children⟩ := statement
  obtain rfl : tag = .statement := hstatement
  refine (hQ (by decide) h).2 _ fun tree htree => ?_
  obtain rfl | htree := mem_insertFirst htree
  · exact .inr ⟨hnew, fun _ => rfl⟩
  · exact .inl htree

/-- The tokens of an entry have no declaration blocks in them. -/
lemma avoids_of_mem_entries {token : SyntaxTree} {e : Entry SyntaxTree}
    (h : AvoidsAll [.ddlDeclareBlock] block.children) (he : e ∈ block.entries)
    (htoken : token ∈ e.name :: (e.type ++ e.value)) : token.Avoids [.ddlDeclareBlock] := by
  have hmem : token ∈ block.declarationTokens :=
    (Entry.flatMap_entriesOf_sublist _).subset (mem_flatMap.2 ⟨e, he, htoken⟩)
  rw [declarationTokens, mem_append, mem_flatMap] at hmem
  rw [avoidsAll_iff] at h
  obtain hmem | ⟨body, hbody, hmem⟩ := hmem
  · exact h token ((takeWhile_sublist _).subset hmem)
  · have hbody := h body ((dropWhile_sublist _).subset hbody)
    exact avoidsAll_iff.1 hbody.children token hmem

lemma avoids_group {kinds : List Tag} (htag : tag ∉ kinds) (h : ∀ tree ∈ trees, tree.Avoids kinds) :
    (group tag trees).Avoids kinds :=
  ⟨htag, avoidsAll_iff.2 h⟩

lemma mem_markLast {α : Type} {view : α → SyntaxTree} {p : α → Bool} {mark : SyntaxTree}
    {tokens : List α} (h : tree ∈ Entry.markLast view p mark tokens) :
    tree = mark ∨ ∃ token ∈ tokens, tree = view token := by
  induction tokens with
  | nil => cases h
  | cons token rest ih =>
    rw [Entry.markLast] at h
    split_ifs at h
    · simp only [mem_cons, mem_map] at h
      obtain rfl | rfl | ⟨other, hother, rfl⟩ := h
      · exact .inr ⟨token, mem_cons_self, rfl⟩
      · exact .inl rfl
      · exact .inr ⟨other, mem_cons_of_mem _ hother, rfl⟩
    · rw [mem_cons] at h
      obtain rfl | h := h
      · exact .inr ⟨token, mem_cons_self, rfl⟩
      · obtain h | ⟨other, hother, h⟩ := ih h
        · exact .inl h
        · exact .inr ⟨other, mem_cons_of_mem _ hother, h⟩

variable {e : Entry SyntaxTree}

/-- A leaf of another kind has no declaration blocks in it. -/
lemma avoids_leaf {kinds : List Tag} (htag : tag ∉ kinds) :
    (node tag text attributes []).Avoids kinds :=
  ⟨htag, trivial⟩

section

variable (h : ∀ token ∈ e.name :: (e.type ++ e.value), token.Avoids [.ddlDeclareBlock])
include h

lemma avoids_declared : e.declared.Avoids [.ddlDeclareBlock] := by
  have hsignature : ∀ token ∈ e.signature fun token => token, token.Avoids [.ddlDeclareBlock] := by
    intro token htoken
    have hmem := (Entry.signature_sublist e).subset htoken
    exact h token (mem_cons.2 ((mem_cons.1 hmem).imp_right (mem_append_left _)))
  refine avoids_group (by decide) fun tree htree => ?_
  rw [mem_append, mem_cons, mem_flatMap] at htree
  obtain htree | rfl | ⟨comment, hcomment, htree⟩ := htree
  · rw [Entry.copied] at htree
    split_ifs at htree
    · obtain rfl | ⟨token, htoken, rfl⟩ := mem_markLast htree
      · exact avoids_leaf (by decide)
      · exact hsignature _ (mem_of_mem_filter htoken)
    · obtain ⟨token, htoken, rfl⟩ := mem_map.1 htree
      exact hsignature _ (mem_of_mem_filter htoken)
  · exact avoids_leaf (by decide)
  · obtain ⟨token, htoken, rfl⟩ := mem_map.1 hcomment
    rw [mem_cons, mem_singleton] at htree
    obtain rfl | rfl := htree
    · exact avoids_leaf (by decide)
    · obtain htoken | htoken := mem_append.1 (mem_of_mem_filter htoken)
      · exact h _ (.tail _ (mem_append_right _ htoken))
      · exact hsignature _ htoken

lemma avoids_assignment : e.assignment.Avoids [.ddlDeclareBlock] := by
  refine avoids_group (by decide) fun tree htree => ?_
  rw [mem_append, mem_cons, mem_cons, mem_singleton] at htree
  obtain (rfl | rfl | htree) | rfl := htree
  · exact h e.name (.head _)
  · exact avoids_leaf (by decide)
  · exact h tree (.tail _ (mem_append_right _ (mem_of_mem_filter htree)))
  · exact avoids_leaf (by decide)

end

/-- A section is a declaration clause. -/
lemma placed_sectionOf {es : List (Entry SyntaxTree)}
    (h : ∀ e ∈ es, e.declared.Avoids [.ddlDeclareBlock]) : Placed .statement (sectionOf es) := by
  refine (placed_declaration_iff rfl).2 ⟨rfl, by decide +kernel, ⟨avoids_leaf (by decide), trivial⟩,
    ?_⟩
  rw [avoidsAll_iff]
  intro tree htree
  obtain ⟨e, he, rfl⟩ := mem_map.1 htree
  exact h e he

lemma HoldsDeclarations.avoids_declared (h : tree.HoldsDeclarations)
    (he : e ∈ tree.routineEntries) : e.declared.Avoids [.ddlDeclareBlock] := by
  rw [routineEntries] at he
  cases hblock : tree.asBlock? with
  | none =>
    rw [hblock] at he
    cases he
  | some asBlock =>
    rw [hblock, Option.elim_some, declaredIn, mem_flatMap] at he
    obtain ⟨block, hmem, he⟩ := he
    have hchild : asBlock ∈ tree.children := by
      rw [asBlock?] at hblock
      split_ifs at hblock
      exact mem_of_find?_eq_some hblock
    obtain ⟨-, havoids⟩ := h.child hchild block hmem
    exact SyntaxTree.avoids_declared fun token => avoids_of_mem_entries havoids he

lemma map_sectioned_of_avoids (h : AvoidsAll [.ddlDeclareBlock] trees) :
    trees.map sectioned = trees := by
  have hself : trees.map sectioned = trees.map id := map_congr_left fun tree htree =>
    sectioned_of_avoids (avoidsAll_iff.1 h tree htree)
  rw [hself, map_id]

lemma sectioned_declaration
    (h : ProperDeclaration block rest) : sectioned (.node .clause text attributes (block :: rest)) =
      .node .clause text attributes (block :: rest) := by
  have hnone : (node .clause text attributes (block :: rest)).routineEntries = [] := rfl
  have hblock : block.sectioned = block := by
    obtain ⟨kind, words, values, parts⟩ := block
    rw [sectioned_node (routineEntries_of_avoids h.block_avoids)]
    exact congrArg _ (map_sectioned_of_avoids h.block_avoids)
  rw [sectioned_node hnone, map_cons, hblock, map_sectioned_of_avoids h.rest_avoids]

lemma tag_of_routineEntries (h : tree.routineEntries ≠ []) : tree.tag = .ddlProceduralBlock := by
  rw [routineEntries, asBlock?] at h
  split_ifs at h with hroutine
  · exact beq_iff_eq.1 (Bool.and_eq_true_iff.1 hroutine).1
  · exact absurd rfl h

lemma isDeclaration_sectioned (h : Placed parent tree) :
    tree.sectioned.isDeclaration = tree.isDeclaration := by
  induction h using Placed.induction with
  | declaration parent text attributes block rest hblock hproper =>
    rw [sectioned_declaration hproper]
  | node parent tag text attributes children =>
    by_cases hnone : (node tag text attributes children).routineEntries = []
    · rw [sectioned_node hnone]
      refine isDeclaration_congr ?_
      rw [head?_map, Option.map_map]
      congr 1
      exact funext tag_sectioned
    · have htag := tag_of_routineEntries hnone
      rw [isDeclaration_of_tag_ne (by simp [tag_sectioned, htag]),
        isDeclaration_of_tag_ne (by simp [htag])]

/-- Declaration blocks are still where they should be once there are sections. -/
lemma placed_sectioned (h : Placed parent tree) : Placed parent tree.sectioned := by
  induction h using Placed.induction with
  | declaration parent text attributes block rest hblock hproper h =>
    rwa [sectioned_declaration hproper]
  | node parent tag text attributes children hblock hnot h hchildren ih =>
    by_cases hnone : (node tag text attributes children).routineEntries = []
    · have hsame := isDeclaration_sectioned h
      rw [sectioned_node hnone, hnot] at hsame
      rw [sectioned_node hnone, placed_node_iff hsame, placedAll_iff]
      exact ⟨hblock, forall_mem_map.2 ih⟩
    · have hes := fun e he => h.holdsDeclarations.avoids_declared (e := e) he
      rw [sectioned, if_neg (by simpa using hnone)]
      refine changeAt_bodyPath (fun htag h => ?_) h (tag_of_routineEntries hnone)
        (placed_sectionOf hes)
      obtain ⟨hblock, hchildren⟩ := (placed_node_iff (isDeclaration_of_tag_ne htag)).1 h
      rw [placedAll_iff] at hchildren
      refine ⟨hchildren, fun trees htrees => ?_⟩
      rw [placed_node_iff (isDeclaration_of_tag_ne htag), placedAll_iff]
      exact ⟨hblock, fun tree htree => (htrees tree htree).elim (hchildren tree) And.left⟩

/-! ## What is left of declarations -/

lemma block?_eq_none (h : tree.isDeclaration = false) : tree.block? = none := by
  rwa [isDeclaration, Option.isSome_eq_false_iff, Option.isNone_iff_eq_none] at h

/-- A declaration clause without initial values. -/
def isSpent (tree : SyntaxTree) : Bool :=
  tree.block?.any (·.assignments.isEmpty)

mutual

/-- What becomes of a child of a node of the kind `parent`: a declaration clause gives way to its
assignments, and a statement goes if there are no assignments in the place of one of its clauses. -/
def settled (parent : Tag) : SyntaxTree → List SyntaxTree
  | .node tag text attributes children =>
    match (node tag text attributes children).block? with
    | some block =>
      if block.assignments.isEmpty then [node tag text attributes children] else block.assignments
    | none =>
      if tag == .statement && parent != .containerGeneralContent && children.any isSpent then []
      else [node tag text attributes (settledAll tag children)]

def settledAll (parent : Tag) : List SyntaxTree → List SyntaxTree
  | [] => []
  | tree :: rest => settled parent tree ++ settledAll parent rest

end

/-- The tree with nothing left of its declarations but assignments. -/
def settle : SyntaxTree → SyntaxTree
  | .node tag text attributes children => .node tag text attributes (children.flatMap (settled tag))

lemma settledAll_eq (parent : Tag) (trees : List SyntaxTree) :
    settledAll parent trees = trees.flatMap (settled parent) := by
  induction trees with
  | nil => rfl
  | cons tree rest ih => rw [settledAll, ih, flatMap_cons]

lemma settled_declaration (hblock : block.tag = .ddlDeclareBlock) :
    settled parent (.node .clause text attributes (block :: rest)) =
      if block.assignments.isEmpty then [.node .clause text attributes (block :: rest)]
      else block.assignments := by
  rw [settled, block?_eq_some_iff.2 ⟨hblock, text, attributes, rest, rfl⟩]

lemma settled_node (h : (node tag text attributes children).isDeclaration = false) :
    settled parent (.node tag text attributes children) =
      if tag == .statement && parent != .containerGeneralContent && children.any isSpent then []
      else [.node tag text attributes (children.flatMap (settled tag))] := by
  rw [settled, block?_eq_none h, settledAll_eq]

lemma avoids_of_mem_assignments
    (h : AvoidsAll [.ddlDeclareBlock] block.children) (htree : tree ∈ block.assignments) :
    tree.Avoids [.ddlDeclareBlock] := by
  obtain ⟨e, he, rfl⟩ := mem_map.1 htree
  exact avoids_assignment fun token => avoids_of_mem_entries h (mem_of_mem_filter he)

/-- A node that is no declaration clause is none after assignment. -/
lemma isDeclaration_assigned (h : Placed parent (.node tag text attributes children))
    (hnot : (node tag text attributes children).isDeclaration = false) :
    (node tag text attributes (children.flatMap assigned)).isDeclaration = false := by
  by_cases htag : tag = .clause
  · -- a clause starts with a child of the same kind as before
    rw [← hnot]
    refine isDeclaration_congr ?_
    cases children with
    | nil => rfl
    | cons first rest =>
      obtain ⟨kind, words, values, parts⟩ := first
      have hfirst := placedAll_iff.1 ((placed_node_iff hnot).1 h).2 _ (.head _)
      have hplain := hfirst.isDeclaration_eq_false (by simp [htag])
      rw [flatMap_cons, assigned_node hplain]
      rfl
  · exact isDeclaration_of_tag_ne htag

lemma placed_assigned (h : Placed parent tree) : ∀ new ∈ tree.assigned, Placed parent new := by
  induction h using Placed.induction with
  | declaration parent text attributes block rest hblock hproper h =>
    intro new hnew
    rw [assigned_declaration hblock] at hnew
    split_ifs at hnew
    · rwa [mem_singleton.1 hnew]
    · exact placed_of_avoids parent (avoids_of_mem_assignments hproper.block_avoids hnew)
  | node parent tag text attributes children hblock hnot h hchildren ih =>
    intro new hnew
    rw [assigned_node hnot, mem_singleton] at hnew
    rw [hnew, placed_node_iff (isDeclaration_assigned h hnot), placedAll_iff]
    refine ⟨hblock, fun tree htree => ?_⟩
    obtain ⟨old, hold, htree⟩ := mem_flatMap.1 htree
    exact ih old hold tree htree

lemma any_isDeclaration_assigned (h : Placed parent tree) :
    tree.assigned.any isDeclaration = tree.isSpent := by
  induction h using Placed.induction with
  | declaration parent text attributes block rest hblock hproper =>
    have hsome := block?_eq_some_iff.2 ⟨hblock, text, attributes, rest, rfl⟩
    rw [assigned_declaration hblock, isSpent, hsome, Option.any_some]
    split_ifs with hnone
    · simp [isDeclaration, hsome, hnone]
    · rw [Bool.not_eq_true] at hnone
      rw [hnone, any_eq_false]
      intro tree htree
      simp [not_isDeclaration_of_avoids (avoids_of_mem_assignments hproper.block_avoids htree)]
  | node parent tag text attributes children hblock hnot h =>
    rw [assigned_node hnot, any_cons, isDeclaration_assigned h hnot, isSpent, block?_eq_none hnot]
    rfl

/-- Dropping what is left after assignment is settling. -/
lemma flatMap_pruned_assigned (h : Placed parent tree) :
    tree.assigned.flatMap (pruned parent) = settled parent tree := by
  induction h using Placed.induction with
  | declaration parent text attributes block rest hblock hproper =>
    rw [assigned_declaration hblock, settled_declaration hblock]
    split_ifs
    · rw [flatMap_singleton, pruned_declaration hblock hproper]
    · have hself : block.assignments.flatMap (pruned parent) =
          block.assignments.flatMap fun tree => [tree] := flatMap_congr fun tree htree =>
        pruned_of_avoids parent (avoids_of_mem_assignments hproper.block_avoids htree)
      rw [hself, flatMap_singleton']
  | node parent tag text attributes children hblock hnot h hchildren ih =>
    have hflat : (children.flatMap assigned).flatMap (pruned tag) =
        children.flatMap (settled tag) := by
      rw [flatMap_assoc]
      exact flatMap_congr ih
    have hany : (children.flatMap assigned).any isDeclaration = children.any isSpent := by
      rw [any_flatMap, Bool.eq_iff_iff, any_eq_true, any_eq_true]
      refine exists_congr fun tree => and_congr_right fun htree => ?_
      rw [any_isDeclaration_assigned (hchildren tree htree)]
    rw [assigned_node hnot, flatMap_singleton, settled_node hnot, pruned,
      isDropped, SyntaxTree.tag, SyntaxTree.children, hany, prunedAll_eq, hflat]

/-! ## The sections are all that is left -/

mutual

/-- The declaration blocks in statements of containers are of the form `p`. The tree is a child of a
node of the kind `parent`. -/
def Sheltered (p : SyntaxTree → Prop) (parent : Tag) : SyntaxTree → Prop
  | .node tag _ _ children =>
    (tag = .statement → parent = .containerGeneralContent →
      ∀ clause ∈ children, ∀ block, clause.block? = some block → p block) ∧
    ShelteredAll p tag children

def ShelteredAll (p : SyntaxTree → Prop) (parent : Tag) : List SyntaxTree → Prop
  | [] => True
  | tree :: rest => Sheltered p parent tree ∧ ShelteredAll p parent rest

end

mutual

/-- There are no declarations in statements of containers. -/
def isClear (parent : Tag) : SyntaxTree → Bool
  | .node tag _ _ children =>
    !(tag == .statement && parent == .containerGeneralContent && children.any isDeclaration) &&
      areClear tag children

def areClear (parent : Tag) : List SyntaxTree → Bool
  | [] => true
  | tree :: rest => isClear parent tree && areClear parent rest

end

section

variable {p q : SyntaxTree → Prop}

lemma shelteredAll_iff : ShelteredAll p parent trees ↔ ∀ tree ∈ trees, Sheltered p parent tree := by
  induction trees with
  | nil => simp [ShelteredAll]
  | cons tree trees ih => simp [ShelteredAll, ih]

lemma Sheltered.mono (h : Sheltered p parent tree) (hpq : ∀ block, p block → q block) :
    Sheltered q parent tree := by
  induction tree using SyntaxTree.induction generalizing parent with
  | node tag text attributes children ih =>
    refine ⟨fun htag hparent clause hclause block hblock => hpq block ?_, shelteredAll_iff.2 ?_⟩
    · exact h.1 htag hparent clause hclause block hblock
    · exact fun tree htree => ih tree htree (shelteredAll_iff.1 h.2 tree htree)

lemma sheltered_of_isClear (h : isClear parent tree) : Sheltered (fun _ => False) parent tree := by
  induction tree using SyntaxTree.induction generalizing parent with
  | node tag text attributes children ih =>
    have hall : ∀ trees : List SyntaxTree, areClear tag trees → ∀ tree ∈ trees,
        isClear tag tree := by
      intro trees
      induction trees with
      | nil => simp
      | cons first rest ih => simpa [areClear] using fun hfirst hrest => ⟨hfirst, ih hrest⟩
    rw [isClear, Bool.and_eq_true] at h
    refine ⟨fun htag hparent clause hclause block hblock => ?_, shelteredAll_iff.2 fun tree htree =>
      ?_⟩
    · have hdeclares : children.any isDeclaration :=
        any_eq_true.2 ⟨clause, hclause, by simp [isDeclaration, hblock]⟩
      simp [htag, hparent, hdeclares] at h
    · exact ih tree htree (hall children h.2 tree htree)

lemma sheltered_of_avoids (p : SyntaxTree → Prop) (parent : Tag)
    (h : tree.Avoids [.ddlDeclareBlock]) : Sheltered p parent tree := by
  induction tree using SyntaxTree.induction generalizing parent with
  | node tag text attributes children ih =>
    have hchildren := avoidsAll_iff.1 h.2
    refine ⟨fun _ _ clause hclause block hblock => ?_, shelteredAll_iff.2 fun tree htree => ?_⟩
    · rw [block?_eq_none (not_isDeclaration_of_avoids (hchildren clause hclause))] at hblock
      cases hblock
    · exact ih tree htree tag (hchildren tree htree)

lemma sheltered_sectionOf {es : List (Entry SyntaxTree)}
    (h : ∀ e ∈ es, e.declared.Avoids [.ddlDeclareBlock]) :
    Sheltered p .statement (sectionOf es) := by
  refine ⟨Tag.noConfusion, ⟨Tag.noConfusion, ⟨Tag.noConfusion, trivial⟩, trivial⟩, ?_⟩
  rw [shelteredAll_iff]
  intro tree htree
  obtain ⟨e, he, rfl⟩ := mem_map.1 htree
  exact sheltered_of_avoids p .clause (h e he)

end

/-- In containers there are no declarations but the sections. -/
lemma sheltered_sectioned (h : Placed parent tree)
    (hsheltered : Sheltered (fun _ => False) parent tree) :
    Sheltered (· = sectionHeader) parent tree.sectioned := by
  induction h using Placed.induction with
  | declaration parent text attributes block rest hblock hproper =>
    rw [sectioned_declaration hproper]
    exact hsheltered.mono fun _ => False.elim
  | node parent tag text attributes children _ _ h hchildren ih =>
    by_cases hnone : (node tag text attributes children).routineEntries = []
    · rw [sectioned_node hnone]
      refine ⟨fun htag hparent clause hclause block hsome => ?_,
        shelteredAll_iff.2 fun tree htree => ?_⟩
      · obtain ⟨old, hold, rfl⟩ := mem_map.1 hclause
        have hnot : old.isDeclaration = false := by
          rw [isDeclaration, Option.isSome_eq_false_iff, Option.isNone_iff_eq_none,
            Option.eq_none_iff_forall_ne_some]
          exact hsheltered.1 htag hparent old hold
        rw [block?_eq_none ((isDeclaration_sectioned (hchildren old hold)).trans hnot)] at hsome
        cases hsome
      · obtain ⟨old, hold, rfl⟩ := mem_map.1 htree
        exact ih old hold (shelteredAll_iff.1 hsheltered.2 old hold)
    · -- the body of the routine is a container, and the new clause is a section
      have hes := fun e he => h.holdsDeclarations.avoids_declared (e := e) he
      have htag := tag_of_routineEntries hnone
      rw [sectioned, if_neg (by simpa using hnone)]
      have hsheltered := hsheltered.mono (q := (· = sectionHeader)) fun _ => False.elim
      refine changeAt_bodyPath (fun _ h => ?_) hsheltered htag (sheltered_sectionOf hes)
      have hchildren := shelteredAll_iff.1 h.2
      refine ⟨hchildren, fun trees htrees =>
        ⟨fun htag hparent clause hclause block hblock => ?_, ?_⟩⟩
      · obtain hclause | ⟨-, hnew⟩ := htrees clause hclause
        · exact h.1 htag hparent clause hclause block hblock
        · rw [hnew htag] at hblock
          exact (Option.some.inj hblock).symm
      · exact shelteredAll_iff.2 fun tree htree =>
          (htrees tree htree).elim (hchildren tree) And.left

/-- Every declaration block that is left in a node is that of a section. -/
lemma eq_sectionHeader_of_mem (h : Placed parent tree)
    (hnot : tree.isDeclaration = false) (hsheltered : Sheltered (· = sectionHeader) parent tree)
    (hspent : tree.tag = .statement → parent ≠ .containerGeneralContent →
      tree.children.any isSpent = false) (hmem : block ∈ tree.settle.declarationBlocks) :
    block = sectionHeader := by
  induction tree using SyntaxTree.induction generalizing parent with
  | node tag text attributes children ih =>
    obtain ⟨htag, hchildren⟩ := (placed_node_iff hnot).1 h
    rw [placedAll_iff] at hchildren
    rw [settle, @declarationBlocks_of_tag_ne (.node tag text attributes _) htag, mem_flatMap]
      at hmem
    obtain ⟨new, hnew, hmem⟩ := hmem
    obtain ⟨clause, hclause, hnew⟩ := mem_flatMap.1 hnew
    by_cases hdeclaration : clause.isDeclaration
    · obtain ⟨words, values, own, rest, rfl, hown⟩ := isDeclaration_iff.1 hdeclaration
      obtain ⟨rfl, hproper⟩ := (placed_declaration_iff hown).1 (hchildren _ hclause)
      rw [settled_declaration hown] at hnew
      split_ifs at hnew with hnone
      · -- the statement would have gone if it were not in a container
        have hblock := block?_eq_some_iff.2 ⟨hown, words, values, rest, rfl⟩
        have hparent : parent = .containerGeneralContent := by
          by_contra hparent
          have hfalse := any_eq_false.1 (hspent rfl hparent) _ hclause
          rw [isSpent, hblock, Option.any_some] at hfalse
          exact hfalse hnone
        rw [mem_singleton.1 hnew, declarationBlocks_declaration hown hproper,
          mem_singleton] at hmem
        rw [hmem]
        exact hsheltered.1 rfl hparent _ hclause own hblock
      · have havoids := avoids_of_mem_assignments hproper.block_avoids hnew
        rw [declarationBlocks_of_avoids havoids] at hmem
        cases hmem
    · have hdeclaration : clause.isDeclaration = false := by simpa using hdeclaration
      have hinner := shelteredAll_iff.1 hsheltered.2 clause hclause
      obtain ⟨kind, words, values, parts⟩ := clause
      rw [settled_node hdeclaration] at hnew
      split_ifs at hnew with hgone
      · cases hnew
      refine ih _ hclause (hchildren _ hclause) hdeclaration hinner (fun hkind hparent => ?_) ?_
      · rw [← Bool.not_eq_true]
        intro hany
        refine hgone ?_
        rw [Bool.and_eq_true, Bool.and_eq_true]
        exact ⟨⟨beq_iff_eq.2 hkind, bne_iff_ne.2 hparent⟩, hany⟩
      · rw [mem_singleton.1 hnew] at hmem
        exact hmem

end SyntaxTree

/-! ## The three passes -/

namespace DeclareSection

open Conversion Forest SyntaxTree

variable {w : Workspace}

/-- The passes that move declarations to the start of a routine. -/
def declarationPasses : List Pass :=
  ["declare_section", "declare_to_assign", "cleanup_declare"].filterMap standardPass?

lemma declarationPasses_eq : declarationPasses = [⟨"declare_section", addSections⟩,
    ⟨"declare_to_assign", assignInitialValues⟩, ⟨"cleanup_declare", dropDeclarations⟩] := by
  rfl

/-- The last pass settles a tree with assignments. -/
lemma dropDeclarations_settles {tree : SyntaxTree} (hw : Whole w) (h : Placed .root tree)
    (htree : tree.assigned = [w.forest.tree]) :
    ∃ w', dropDeclarations w = .ok () w' ∧ w'.forest.tree = tree.settle := by
  have hplaced : Placed .root w.forest.tree := placed_assigned h _ (by simp [htree])
  obtain ⟨tag, text, attributes, children⟩ := tree
  have hnot := h.isDeclaration_eq_false (by decide)
  have hchildren := placedAll_iff.1 ((placed_node_iff hnot).1 h).2
  rw [assigned_node hnot, List.cons.injEq] at htree
  rw [← htree.1] at hplaced
  obtain ⟨_, w', hrun, h'⟩ := (dropDeclarations_turned hw htree.1.symm hplaced).exists_ok
  refine ⟨w', hrun, h'.grafted.subtree_eq.trans ?_⟩
  rw [settle, List.flatMap_assoc]
  exact congrArg _ (List.flatMap_congr fun tree htree =>
    flatMap_pruned_assigned (hchildren tree htree))

/-- The three passes succeed. Each routine with declarations then starts with a section of all its
entries in their order, and at the place of a declaration clause stand the assignments of its
initial values. A statement with a declaration clause that has none is gone, unless it stands in a
container. If there were no declarations in containers, the blocks of the sections are the only ones
left. -/
theorem runPasses_sectioned_settle (hw : Whole w) (hplaced : Placed .root w.forest.tree)
    (htakes : w.forest.tree.takesSections) :
    ∃ w', runPasses declarationPasses w = .ok w' ∧
      w'.forest.tree = w.forest.tree.sectioned.settle ∧
      (w.forest.tree.tag ≠ .statement → isClear .root w.forest.tree →
        ∀ block ∈ w'.forest.tree.declarationBlocks, block = sectionHeader) := by
  have hsectioned := placed_sectioned hplaced
  have hnot := hsectioned.isDeclaration_eq_false (by decide)
  have hholds := hplaced.holdsDeclarations
  obtain ⟨_, w₁, hrun₁, hw₁, htree₁⟩ := (addSections_sectioned hw rfl hholds htakes).exists_ok
  obtain ⟨_, w₂, hrun₂, tree₂, hassigned, h₂⟩ :=
    (assignInitialValues_turned hw₁ htree₁ hsectioned).exists_ok
  have hview : w₂.forest.tree = tree₂ := h₂.grafted.subtree_eq
  obtain ⟨w₃, hrun₃, htree₃⟩ :=
    dropDeclarations_settles (h₂.whole hw₁) hsectioned (hassigned.trans (by rw [hview]))
  refine ⟨w₃, ?_, htree₃, fun hroot hclear block hblock => ?_⟩
  · rw [declarationPasses_eq, runPasses_of_ok hrun₁, runPasses_of_ok hrun₂, runPasses_of_ok hrun₃]
    rfl
  · rw [htree₃] at hblock
    have hsheltered := sheltered_sectioned hplaced (sheltered_of_isClear hclear)
    refine eq_sectionHeader_of_mem hsectioned hnot hsheltered (fun htag => ?_) hblock
    exact absurd ((tag_sectioned _).symm.trans htag) hroot

/-! ## Procedures with declarations -/

def leavesOf (tokens : List (Tag × String)) : List SyntaxTree :=
  tokens.map fun token => .node token.1 token.2 .empty []

/-- The declaration block of some tokens. -/
def blockOf (tokens : List (Tag × String)) : SyntaxTree :=
  group .ddlDeclareBlock (leavesOf ((.otherKeyword, "declare") :: tokens))

/-- The tokens `@x int = 5`. -/
def initialisedEntry : List (Tag × String) :=
  [(.otherNode, "@x"), (.dataTypeKeyword, "int"), (.equalsSign, "="), (.numberValue, "5")]

/-- The tokens `@y int`. -/
def plainEntry : List (Tag × String) :=
  [(.otherNode, "@y"), (.dataTypeKeyword, "int")]

/-- The tokens `, @t dbo.items`. -/
def tableEntry : List (Tag × String) :=
  [(.comma, ","), (.otherNode, "@t"), (.otherNode, "dbo"), (.period, "."), (.otherNode, "items")]

/-- A procedure whose body is a block of the given statements. -/
def blockProcedure (statements : List SyntaxTree) : SyntaxTree :=
  Routine.procedureOf
    [asStatement [ControlFlow.enclosed [opener "begin"] statements [closer "end"]]]

/-- The declarations are in two statements, and a third one follows. -/
def separateDeclarations : SyntaxTree :=
  blockProcedure [asStatement [blockOf (initialisedEntry ++ tableEntry)],
    asStatement [blockOf plainEntry], Routine.selectOf "@x"]

/-- The declarations are two clauses of one statement. -/
def jointDeclarations : SyntaxTree :=
  blockProcedure [group .statement
    [group .clause [blockOf initialisedEntry], group .clause [blockOf plainEntry]]]

lemma placed_separateDeclarations : Placed .root separateDeclarations := by decide +kernel

theorem runPasses_separateDeclarations :
    Placed .root separateDeclarations ∧ separateDeclarations.takesSections ∧
      isClear .root separateDeclarations ∧
      ∃ w, runPasses declarationPasses { forest := ofTree separateDeclarations } = .ok w ∧
        w.forest.tree.render =
        "create procedure p as declare @x int; @t items[]; @y int; begin @x := 5; select @x; end" ∧
        ∀ block ∈ w.forest.tree.declarationBlocks, block = sectionHeader := by
  have htree := tree_ofTree separateDeclarations
  have htakes : separateDeclarations.takesSections := by decide +kernel
  have hclear : isClear .root separateDeclarations := by decide +kernel
  obtain ⟨w, hrun, hresult, hheaders⟩ := runPasses_sectioned_settle (whole_ofTree _)
    (by rw [htree]; exact placed_separateDeclarations) (by rw [htree]; exact htakes)
  rw [htree] at hresult hheaders
  refine ⟨placed_separateDeclarations, htakes, hclear, w, hrun, ?_, hheaders Tag.noConfusion hclear⟩
  rw [hresult]
  decide +kernel

/-- The assignment of the first clause goes with the statement of the second one. -/
theorem runPasses_jointDeclarations :
    ∃ w, runPasses declarationPasses { forest := ofTree jointDeclarations } = .ok w ∧
      w.forest.tree.render = "create procedure p as declare @x int; @y int; begin end" := by
  decide +kernel

end DeclareSection

end SqlDialect
