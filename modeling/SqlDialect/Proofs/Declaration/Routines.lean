import SqlDialect.Proofs.Declaration.Section

/-!
# Sections of all routines

A routine gets a section with the entries of all declaration blocks in it, in front of the first
clause of its body (`sectioned`).  This presupposes that there is such a clause, and that a routine
with declarations does not have another one inside (`TakesSections`).
-/

namespace SqlDialect

open List

variable {blocks : List Nat} {trees : List SyntaxTree} {tree : SyntaxTree}

namespace SyntaxTree

/-! ## Declaration blocks of a tree -/

mutual

/-- The declaration blocks of a tree, in its order. -/
def declarationBlocks : SyntaxTree → List SyntaxTree
  | .node tag text attributes children =>
    if tag == .ddlDeclareBlock then [node tag text attributes children]
    else declarationBlocksAll children

def declarationBlocksAll : List SyntaxTree → List SyntaxTree
  | [] => []
  | tree :: rest => declarationBlocks tree ++ declarationBlocksAll rest

end

/-- The entries of all declaration blocks of a tree. -/
def declaredIn (tree : SyntaxTree) : List (Entry SyntaxTree) :=
  tree.declarationBlocks.flatMap entries

/-- All declaration blocks hold entries, and no other blocks. -/
def HoldsDeclarations (tree : SyntaxTree) : Prop :=
  ∀ block ∈ tree.declarationBlocks,
    block.holdsEntries ∧ AvoidsAll [.ddlDeclareBlock] block.children

lemma declarationBlocksAll_eq (trees : List SyntaxTree) :
    declarationBlocksAll trees = trees.flatMap declarationBlocks := by
  induction trees with
  | nil => rfl
  | cons tree trees ih => rw [declarationBlocksAll, ih, flatMap_cons]

lemma declarationBlocks_block (h : tree.tag = .ddlDeclareBlock) :
    tree.declarationBlocks = [tree] := by
  obtain ⟨tag, text, attributes, children⟩ := tree
  rw [declarationBlocks]
  exact if_pos (beq_iff_eq.2 h)

lemma declarationBlocks_of_tag_ne (h : tree.tag ≠ .ddlDeclareBlock) :
    tree.declarationBlocks = tree.children.flatMap declarationBlocks := by
  obtain ⟨tag, text, attributes, children⟩ := tree
  rw [declarationBlocks, declarationBlocksAll_eq]
  exact if_neg (mt beq_iff_eq.1 h)

lemma declarationBlocks_of_avoids (h : tree.Avoids [.ddlDeclareBlock]) :
    tree.declarationBlocks = [] := by
  induction tree using SyntaxTree.induction with
  | node tag text attributes children ih =>
    have htag : (node tag text attributes children).tag ≠
      .ddlDeclareBlock := by simpa using h.tag_notMem
    rw [declarationBlocks_of_tag_ne htag, flatMap_eq_nil_iff]
    exact fun tree htree => ih tree htree (avoidsAll_iff.1 h.children tree htree)

lemma declarationBlocks_declaration {text : String} {attributes : Dict String} {block : SyntaxTree}
    {rest : List SyntaxTree} (hblock : block.tag = .ddlDeclareBlock)
    (h : ProperDeclaration block rest) :
    (node .clause text attributes (block :: rest)).declarationBlocks = [block] := by
  have hrest : rest.flatMap declarationBlocks = [] := flatMap_eq_nil_iff.2 fun tree htree =>
    declarationBlocks_of_avoids (avoidsAll_iff.1 h.rest_avoids tree htree)
  rw [declarationBlocks_of_tag_ne Tag.noConfusion, children, flatMap_cons,
    declarationBlocks_block hblock, hrest, append_nil]

lemma Placed.holdsDeclarations {parent : Tag} (h : Placed parent tree) :
    tree.HoldsDeclarations := by
  induction h using Placed.induction with
  | declaration parent text attributes first rest hfirst hproper =>
    intro block hblock
    rw [declarationBlocks_declaration hfirst hproper, mem_singleton] at hblock
    rw [hblock]
    exact ⟨hproper.holdsEntries, hproper.block_avoids⟩
  | node parent tag text attributes children htag hnot h hchildren ih =>
    intro block hblock
    rw [@declarationBlocks_of_tag_ne (.node tag text attributes children) htag,
      mem_flatMap] at hblock
    obtain ⟨tree, htree, hblock⟩ := hblock
    exact ih tree htree block hblock

lemma HoldsDeclarations.child {child : SyntaxTree} (h : tree.HoldsDeclarations)
    (hchild : child ∈ tree.children) : child.HoldsDeclarations := by
  intro block hblock
  by_cases htag : tree.tag = .ddlDeclareBlock
  · obtain ⟨-, havoids⟩ := h tree (by simp [declarationBlocks_block htag])
    rw [declarationBlocks_of_avoids (avoidsAll_iff.1 havoids child hchild)] at hblock
    cases hblock
  · refine h block ?_
    rw [declarationBlocks_of_tag_ne htag]
    exact mem_flatMap.2 ⟨child, hchild, hblock⟩

end SyntaxTree

/-! ## Declarations of a node -/

namespace Forest

open Entry SyntaxTree

variable {f : Forest} {a b id s x : Nat}

lemma WellFormed.declarations_eq (hf : f.WellFormed) (id : Nat) :
    f.declarations id = if f.is id .ddlDeclareBlock then f.extract id
      else (f.children id).flatMap f.declarations := by
  have hone : f.declarations id = f.declarationsTo (f.size + 1) id :=
    hf.levels_succ (fun _ hnil => by simp [declarationsTo, hnil])
      (fun _ _ h => by rw [declarationsTo, declarationsTo, flatMap_congr h]) id
  rw [hone, declarationsTo]
  rfl

lemma WellFormed.holdsDeclarations_of_under (hf : f.WellFormed)
    (h : (f.subtree id).HoldsDeclarations) (hx : f.Under x id) :
    (f.subtree x).HoldsDeclarations := by
  induction hx using Relation.ReflTransGen.head_induction_on with
  | refl => exact h
  | @head x y hxy _ ih =>
    refine ih.child ?_
    rw [hf.children_subtree]
    exact mem_map_of_mem (hf.mem_children_iff.2 hxy)

/-- An entry of a declaration block at or below a node. -/
def DeclaresAt (f : Forest) (id : Nat) (e : Entry Nat) : Prop :=
  isProper f.subtree e ∧ ∃ b, f.Under b id ∧ f.tag b = .ddlDeclareBlock ∧
    e ∈ entriesOf f.subtree (f.declarationTokens b)

/-- What is declared at or below a node can be seen in its view. -/
lemma WellFormed.exists_entries (hf : f.WellFormed) (h : (f.subtree id).HoldsDeclarations) :
    ∃ es : List (Entry Nat), f.declarations id = es.map (toDeclaration f) ∧
      es.map (Entry.map f.subtree) = (f.subtree id).declaredIn ∧ ∀ e ∈ es, DeclaresAt f id e := by
  induction id using hf.induction_children with
  | _ id ih =>
    rw [hf.declarations_eq]
    by_cases hblock : f.is id .ddlDeclareBlock
    · have htag : (f.subtree id).tag = .ddlDeclareBlock := by rw [tag_subtree, tag_of_is hblock]
      obtain ⟨hholds, -⟩ := h (f.subtree id) (by simp [declarationBlocks_block htag])
      obtain ⟨hextract, hentries, hproper⟩ := hf.extract_eq hholds
      refine ⟨entriesOf f.subtree (f.declarationTokens id), ?_, ?_, fun e he => ?_⟩
      · rw [if_pos hblock, hextract]
      · rw [hentries, declaredIn, declarationBlocks_block htag, flatMap_singleton]
      · exact ⟨hproper e he, id, .refl f id, tag_of_is hblock, he⟩
    · have htag : (f.subtree id).tag ≠ .ddlDeclareBlock := by simpa [is_eq] using hblock
      have hall : ∀ ids : List Nat, ids ⊆ f.children id → ∃ es : List (Entry Nat),
          ids.flatMap f.declarations = es.map (toDeclaration f) ∧
            es.map (Entry.map f.subtree) = (ids.map f.subtree).flatMap declaredIn ∧
            ∀ e ∈ es, DeclaresAt f id e := by
        intro ids
        induction ids with
        | nil => exact fun _ => ⟨[], rfl, rfl, by simp⟩
        | cons c ids ihs =>
          intro hids
          have hc : c ∈ f.children id := hids (.head _)
          have hchild : f.subtree c ∈ (f.subtree id).children := by
            rw [hf.children_subtree]
            exact mem_map_of_mem hc
          obtain ⟨es, hes, hviews, hat⟩ := ih c hc (h.child hchild)
          obtain ⟨es', hes', hviews', hat'⟩ := ihs fun x hx => hids (.tail _ hx)
          refine ⟨es ++ es', by simp [hes, hes'], by simp [hviews, hviews'], fun e he => ?_⟩
          rw [mem_append] at he
          obtain he | he := he
          · obtain ⟨hproper, b, hb, hrest⟩ := hat e he
            exact ⟨hproper, b, hb.trans (under_of_parent (hf.parent_of_mem hc)), hrest⟩
          · exact hat' e he
      obtain ⟨es, hes, hviews, hat⟩ := hall (f.children id) fun _ hx => hx
      refine ⟨es, by rw [if_neg hblock, hes], ?_, hat⟩
      rw [hviews, ← hf.children_subtree, declaredIn, declarationBlocks_of_tag_ne htag,
        flatMap_assoc]
      rfl

/-- The tokens that an entry is copied from are tokens of its block, and no two are the same. -/
lemma WellFormed.tokens_of_mem_entriesOf (hf : f.WellFormed) {e : Entry Nat}
    (he : e ∈ entriesOf f.subtree (f.declarationTokens b)) :
    (e.toDeclaration f).value ++ (e.toDeclaration f).signature ⊆ f.declarationTokens b ∧
      (e.signature f.subtree).Nodup := by
  have hall : (e.name :: (e.type ++ e.value)).Sublist (f.declarationTokens b) := by
    have hsub := @flatMap_entriesOf_sublist _ f.subtree (f.declarationTokens b)
    rw [flatMap_def] at hsub
    exact .trans (sublist_flatten_of_mem (mem_map.2 ⟨e, he, rfl⟩)) hsub
  have hsignature : (e.signature f.subtree).Sublist (f.declarationTokens b) := by
    refine (signature_sublist e).trans (.trans ?_ hall)
    exact (sublist_append_left _ _).cons_cons e.name
  have hvalue : (e.toDeclaration f).value.Sublist (f.declarationTokens b) := by
    refine (trimWhiteSpace_sublist f e.value).trans (.trans ?_ hall)
    exact (sublist_append_right _ _).trans (sublist_cons_self _ _)
  exact ⟨append_subset.2 ⟨hvalue.subset, hsignature.subset⟩,
    (hf.declarationTokens_apart b).1.sublist hsignature⟩

/-- A token is a child of its block or of the container in it. -/
lemma WellFormed.parent_of_mem_declarationTokens (hf : f.WellFormed)
    (h : x ∈ f.declarationTokens b) : f.parent x = some b ∨
      ∃ body, f.parent x = some body ∧ f.tag body = .containerGeneralContent ∧
        f.parent body = some b := by
  rw [declarationTokens] at h
  split at h
  · rename_i body hbody
    obtain h | h := mem_append.1 h
    · exact .inl (hf.parent_of_mem (mem_of_mem_filter h))
    · exact .inr ⟨body, hf.parent_of_mem h, tag_of_child hbody, hf.parent_of_child hbody⟩
  · exact .inl (hf.parent_of_mem h)

/-- What is above the first statement of a body. -/
lemma WellFormed.under_of_body (hf : f.WellFormed) {body : Nat}
    (hbody : f.child a .containerGeneralContent = some body) (hs : f.child body .statement = some s)
    (h : f.Under s x) : s = x ∨ body = x ∨ f.Under a x := by
  rw [under_iff, hf.parent_of_child hs] at h
  obtain rfl | ⟨p, hp, h⟩ := h
  · exact .inl rfl
  rw [← Option.some.inj hp, under_iff, hf.parent_of_child hbody] at h
  obtain rfl | ⟨p, hp, h⟩ := h
  · exact .inr (.inl rfl)
  · exact .inr (.inr (Option.some.inj hp ▸ h))

/-- The place of the section is not in a token. -/
lemma WellFormed.not_under_token (hf : f.WellFormed) {body : Nat} (ha : f.tag a = .ddlAsBlock)
    (hbody : f.child a .containerGeneralContent = some body)
    (hs : f.child body .statement = some s) (hb : f.Under b a) (hblock : f.tag b = .ddlDeclareBlock)
    (hx : x ∈ f.declarationTokens b) : ¬ f.Under s x := by
  have hbodyTag := tag_of_child hbody
  have hbodyParent := hf.parent_of_child hbody
  -- the nodes above the statement have kinds that tokens and the nodes above them do not have
  have hparent {p : Nat} (hp : f.parent x = some p) (hkind : f.tag p ≠ .ddlDeclareBlock) :
      f.tag p = .containerGeneralContent ∧ f.parent p = some b := by
    obtain hown | ⟨k, hk, hkTag, hkParent⟩ := hf.parent_of_mem_declarationTokens hx
    · obtain rfl := Option.mem_unique hp hown
      exact absurd hblock hkind
    · obtain rfl := Option.mem_unique hp hk
      exact ⟨hkTag, hkParent⟩
  intro hunder
  obtain rfl | rfl | hunder := hf.under_of_body hbody hs hunder
  · have hup := (hparent (hf.parent_of_child hs) (by simp [hbodyTag])).2
    obtain rfl := Option.mem_unique hbodyParent hup
    simp [ha] at hblock
  · have hkind := (hparent hbodyParent (by simp [ha])).1
    simp [ha] at hkind
  exact hf.not_under_of_below (.trans_left (hf.below_of_mem_declarationTokens hx) hb) hunder

end Forest

/-! ## Routines of a tree -/

namespace SyntaxTree

/-- The word that says which sort of routine is defined. -/
def isRoutineWord (tree : SyntaxTree) : Bool :=
  tree.tag == .otherKeyword && ["procedure", "proc", "function"].any (Text.sameWord tree.text)

/-- The block that holds the body of a routine, if the tree is one. -/
def asBlock? (tree : SyntaxTree) : Option SyntaxTree :=
  if tree.tag == .ddlProceduralBlock && tree.children.any isRoutineWord then tree.child? .ddlAsBlock
  else none

/-- What is declared in a routine. -/
def routineEntries (tree : SyntaxTree) : List (Entry SyntaxTree) :=
  tree.asBlock?.elim [] declaredIn

/-- The statement with another clause in front of its first one. -/
def withClause (new : SyntaxTree) : SyntaxTree → SyntaxTree
  | .node tag text attributes children =>
    .node tag text attributes (insertFirst .clause new children)

/-- The way from a routine to the first statement of its body. -/
def bodyPath : List Tag :=
  [.ddlAsBlock, .containerGeneralContent, .statement]

mutual

/-- The tree with a section in each routine that has declarations. -/
def sectioned : SyntaxTree → SyntaxTree
  | .node tag text attributes children =>
    if (node tag text attributes children).routineEntries.isEmpty then
      node tag text attributes (sectionedAll children)
    else changeAt (withClause (DeclareSection.sectionOf
      (node tag text attributes children).routineEntries)) bodyPath
        (node tag text attributes children)

def sectionedAll : List SyntaxTree → List SyntaxTree
  | [] => []
  | tree :: rest => sectioned tree :: sectionedAll rest

end

mutual

/-- No routine of the tree has declarations. -/
def declaresNothing : SyntaxTree → Bool
  | .node tag text attributes children =>
    (node tag text attributes children).routineEntries.isEmpty && declareNothing children

def declareNothing : List SyntaxTree → Bool
  | [] => true
  | tree :: rest => declaresNothing tree && declareNothing rest

end

mutual

/-- Each routine with declarations has a clause in its body that the section can come before, and
there is no other routine with declarations in it. -/
def takesSections : SyntaxTree → Bool
  | .node tag text attributes children =>
    if (node tag text attributes children).routineEntries.isEmpty then takeSections children
    else ((node tag text attributes children).path? (bodyPath ++ [.clause])).isSome &&
      declareNothing children

def takeSections : List SyntaxTree → Bool
  | [] => true
  | tree :: rest => takesSections tree && takeSections rest

end

lemma sectionedAll_eq (trees : List SyntaxTree) : sectionedAll trees = trees.map sectioned := by
  induction trees with
  | nil => rfl
  | cons tree trees ih => rw [sectionedAll, ih, map_cons]

lemma declareNothing_iff : declareNothing trees ↔ ∀ tree ∈ trees, tree.declaresNothing := by
  induction trees with
  | nil => simp [declareNothing]
  | cons tree trees ih => simp [declareNothing, ih]

lemma takeSections_iff : takeSections trees ↔ ∀ tree ∈ trees, tree.takesSections := by
  induction trees with
  | nil => simp [takeSections]
  | cons tree trees ih => simp [takeSections, ih]

end SyntaxTree

namespace Forest

open SyntaxTree

variable {f g : Forest} {b id : Nat}

lemma WellFormed.map_subtree_routineAsBlock (hf : f.WellFormed) (id : Nat) :
    (f.routineAsBlock id).map f.subtree = (f.subtree id).asBlock? := by
  have hword : (f.routineKeyword id).isSome = (f.subtree id).children.any isRoutineWord := by
    have hkeyword : ∀ c, isRoutineWord (f.subtree c) =
        f.isKeyword c ["procedure", "proc", "function"] := fun c => by
      rw [isRoutineWord, ← is_eq, text_subtree]
      rfl
    rw [Bool.eq_iff_iff, routineKeyword, find?_isSome, hf.children_subtree, any_map,
      any_eq_true]
    simp only [Function.comp_apply, hkeyword]
  rw [routineAsBlock, asBlock?, hword, is_eq]
  split_ifs
  · exact hf.map_subtree_child id .ddlAsBlock
  · rfl

/-- The body blocks of the routines at or below a node. -/
def asBlocksFrom (f : Forest) (id : Nat) : List Nat :=
  (id :: f.descendants id).filterMap f.routineAsBlock

section

variable (hf : f.WellFormed)
include hf

lemma WellFormed.asBlocksFrom_eq (id : Nat) :
    f.asBlocksFrom id = (f.routineAsBlock id).toList ++ (f.children id).flatMap f.asBlocksFrom := by
  have hbelow : ∀ ids : List Nat, (ids.flatMap fun c => c :: f.descendants c).filterMap
      f.routineAsBlock = ids.flatMap f.asBlocksFrom := by
    intro ids
    induction ids with
    | nil => rfl
    | cons c ids ih => rw [flatMap_cons, filterMap_append, ih, flatMap_cons]; rfl
  rw [asBlocksFrom, hf.descendants_eq, filterMap_cons, hbelow]
  cases f.routineAsBlock id <;> rfl

/-- The routines are the same in forests that agree below a node. -/
lemma WellFormed.asBlocksFrom_congr (hg : g.WellFormed)
    (hsame : ∀ x, f.Under x id → SameContent f g x) : g.asBlocksFrom id = f.asBlocksFrom id := by
  induction id using hf.induction_children with
  | _ id ih =>
    have hid := hsame id (.refl f id)
    have hchild : ∀ c ∈ f.children id, ∀ x, f.Under x c → SameContent f g x := fun c hc x hx =>
      hsame x (hx.trans (under_of_parent (hf.parent_of_mem hc)))
    have hblock := (hf.sameChildren hsame).routineAsBlock_eq hid.tag_eq
    rw [hg.asBlocksFrom_eq, hf.asBlocksFrom_eq, hblock, hid.children_eq]
    congr 1
    exact flatMap_congr fun c hc => ih c hc (hchild c hc)

lemma WellFormed.declaredIn_of_declaresNothing
    (h : (f.subtree id).declaresNothing) (hb : b ∈ f.asBlocksFrom id) :
    (f.subtree b).declaredIn = [] := by
  induction id using hf.induction_children with
  | _ id ih =>
    rw [hf.subtree_eq, declaresNothing, ← hf.subtree_eq, Bool.and_eq_true, List.isEmpty_iff,
      routineEntries, ← hf.map_subtree_routineAsBlock, declareNothing_iff] at h
    rw [hf.asBlocksFrom_eq, mem_append, Option.mem_toList, mem_flatMap] at hb
    obtain hb | ⟨c, hc, hb⟩ := hb
    · rw [hb] at h
      exact h.1
    · exact ih c hc (h.2 _ (mem_map_of_mem hc)) hb

lemma WellFormed.exists_of_mem_asBlocksFrom (hb : b ∈ f.asBlocksFrom id) :
    ∃ r, f.Under r id ∧ f.routineAsBlock r = some b := by
  obtain ⟨r, hr, hblock⟩ := mem_filterMap.1 hb
  exact ⟨r, hf.mem_preorder_iff.1 hr, hblock⟩

/-- The first statement of a routine is not in the body of another one inside. -/
lemma WellFormed.not_under_asBlock {a body r s : Nat}
    (ha : f.routineAsBlock id = some a) (hbody : f.child a .containerGeneralContent = some body)
    (hs : f.child body .statement = some s) (hr : f.Below r id) (hb : f.routineAsBlock r = some b) :
    ¬ f.Under s b := by
  have hparent := hf.parent_of_routineAsBlock hb
  have htag := (tag_of_routineAsBlock hb).2
  intro hunder
  obtain rfl | rfl | hunder := hf.under_of_body hbody hs hunder
  · rw [tag_of_child hs] at htag
    cases htag
  · rw [tag_of_child hbody] at htag
    cases htag
  rw [under_iff, hf.parent_of_routineAsBlock ha] at hunder
  obtain rfl | ⟨p, hp, hunder⟩ := hunder
  · rw [hf.parent_of_routineAsBlock ha] at hparent
    exact hf.acyclic r (Option.some.inj hparent ▸ hr)
  · rw [← Option.some.inj hp] at hunder
    exact hf.not_under_of_below ((under_of_parent hparent).trans_below hr) hunder

end

/-- A clause that has been put in front of the first one. -/
lemma Planted.grafted_withClause {c n s : Nat} {before after : List Nat}
    (h : Planted f s before (c :: after) n tree g) (hf : f.WellFormed)
    (hchildren : f.children s = before ++ c :: after) (hbefore : ∀ x ∈ before, f.tag x ≠ .clause)
    (hc : f.tag c = .clause) : Grafted f s (withClause tree (f.subtree s)) g := by
  have hself := h.grafted_self hf hchildren (hf.subtree_eq s)
  rw [hf.subtree_eq s, withClause, hchildren, map_append, map_cons, insertFirst_append]
  · exact hself
  · simpa using hbefore
  · simpa using hc

end Forest

/-! ## One routine -/

namespace DeclareSection

open Conversion Forest SyntaxTree

variable {w : Workspace} {a body c n s : Nat} {before after : List Nat}

lemma addSection_of_none (hw : Whole w) (hholds : (w.forest.subtree a).HoldsDeclarations)
    (hnone : (w.forest.subtree a).declaredIn = []) :
    Succeeds (addSection a) w fun _ w' => w' = w := by
  obtain ⟨es, hes, hviews, -⟩ := hw.wellFormed.exists_entries hholds
  rw [hnone, map_eq_nil_iff] at hviews
  apply ends_forest
  apply ends_ite
  · intro _
    exact ends_pure rfl
  · intro hsome
    simp [hes, hviews] at hsome

/-- The section comes before the first clause of the body. -/
lemma addSection_planted (hw : Whole w) (hholds : (w.forest.subtree a).HoldsDeclarations)
    (hsome : (w.forest.subtree a).declaredIn ≠ []) (ha : w.forest.tag a = .ddlAsBlock)
    (hbody : w.forest.child a .containerGeneralContent = some body)
    (hs : w.forest.child body .statement = some s) (hc : w.forest.child s .clause = some c)
    (hchildren : w.forest.children s = before ++ c :: after) :
    Succeeds (addSection a) w fun _ w' => w'.notes = w.notes ∧
      ∃ n, Planted w.forest s before (c :: after) n (sectionOf (w.forest.subtree a).declaredIn)
        w'.forest := by
  have hf := hw.wellFormed
  obtain ⟨es, hes, hviews, hat⟩ := hf.exists_entries hholds
  apply ends_forest
  apply ends_ite
  · intro hempty
    rw [hes, List.isEmpty_map, List.isEmpty_iff] at hempty
    rw [hempty] at hviews
    exact absurd hviews.symm hsome
  intro _
  have hplace : (w.forest.routineBody a >>= fun body => w.forest.child body .statement) =
      some s := by
    rw [routineBody, hbody, Option.bind_eq_bind, Option.bind_some, hs]
  refine ends_need_some hplace (ends_need_some hc ?_)
  refine ends_insertNewBefore hf hchildren fun w1 hnotes hplanted => ?_
  have hw1 := whole_of_planted hw hplanted hnotes
  -- the tokens are not above the new clause
  have hcopyable : Copyable w.forest w.forest.size (es.flatMap fun e =>
      (e.toDeclaration w.forest).value ++ (e.toDeclaration w.forest).signature) w1 := by
    intro x hx
    obtain ⟨e, he, hx⟩ := mem_flatMap.1 hx
    obtain ⟨-, b, hb, hblock, hmem⟩ := hat e he
    have htoken := (hf.tokens_of_mem_entriesOf hmem).1 hx
    have hlt : x < w.forest.size := (hf.below_of_mem_declarationTokens htoken).lt_size
    have hnot := hf.not_under_token ha hbody hs hb hblock htoken
    exact ⟨hplanted.apart hf hlt hnot, hplanted.subtree_of_not_under hf hlt hnot⟩
  rw [hes]
  refine (fillSection_built (.start hw1 (lt_size_of_parent hplanted.parent_new) hplanted.subtree_eq)
    (fun e he => ?_) hcopyable fun e he x hx => mem_flatMap.2 ⟨e, he, hx⟩).imp ?_
  · obtain ⟨hproper, b, -, -, hmem⟩ := hat e he
    exact ⟨hproper, (hf.tokens_of_mem_entriesOf hmem).2⟩
  · intro _ w2 h2
    rw [hviews] at h2
    exact ⟨h2.notes_eq.trans hnotes, w.forest.size, hplanted.grafted hf h2.grafted⟩

/-! ## All routines -/

lemma forM_append_succeeds {blocks' : List Nat} {Q : Workspace → Prop}
    (h : Succeeds (blocks.forM addSection) w fun _ w' =>
      Succeeds (blocks'.forM addSection) w' fun _ => Q) :
    Succeeds ((blocks ++ blocks').forM addSection) w fun _ => Q := by
  have hsplit : (blocks ++ blocks').forM addSection =
      blocks.forM addSection >>= fun _ => blocks'.forM addSection := by
    rw [List.forM_eq_forM, List.forM_append]
  rw [hsplit]
  exact ends_bind h

/-- Nothing is done about routines without declarations. -/
lemma forM_addSection_of_none (hw : Whole w)
    (h : ∀ b ∈ blocks, (w.forest.subtree b).HoldsDeclarations ∧
    (w.forest.subtree b).declaredIn = []) :
    Succeeds (blocks.forM addSection) w fun _ w' => w' = w := by
  induction blocks with
  | nil => exact ends_pure rfl
  | cons b blocks ih =>
    obtain ⟨hholds, hnone⟩ := h b (.head _)
    apply ends_bind
    refine (addSection_of_none hw hholds hnone).imp ?_
    rintro - w' rfl
    exact ih fun x hx => h x (.tail _ hx)

variable {id : Nat}

/-- A routine with declarations gets its section. -/
lemma addSection_turned (hw : Whole w) (hholds : (w.forest.subtree id).HoldsDeclarations)
    (hsome : (w.forest.subtree id).routineEntries ≠ [])
    (hpath : ((w.forest.subtree id).path? (bodyPath ++ [.clause])).isSome)
    (hquiet : ∀ c ∈ w.forest.children id, (w.forest.subtree c).declaresNothing) :
    Succeeds ((w.forest.asBlocksFrom id).forM addSection) w fun _ => Turned w id
      (changeAt (withClause (sectionOf (w.forest.subtree id).routineEntries)) bodyPath
        (w.forest.subtree id)) := by
  have hf := hw.wellFormed
  have hentries := congrArg (Option.elim · [] declaredIn) (hf.map_subtree_routineAsBlock id)
  -- the way to the clause that the section comes before
  rw [← hf.map_subtree_path, Option.isSome_map, Option.isSome_iff_exists] at hpath
  obtain ⟨c, hpath⟩ := hpath
  simp only [bodyPath, cons_append, nil_append, Forest.path, Option.bind_eq_bind,
    Option.bind_eq_some_iff, Option.some.injEq] at hpath
  obtain ⟨a, ha, body, hbody, s, hs, c, hc, rfl⟩ := hpath
  have hblock : w.forest.routineAsBlock id = some a := by
    cases hblock : w.forest.routineAsBlock id with
    | none =>
      rw [hblock] at hentries
      exact absurd hentries.symm hsome
    | some b =>
      rw [routineAsBlock] at hblock
      split at hblock
      · rw [← hblock, ha]
      · cases hblock
  rw [hblock] at hentries
  have hentries : (w.forest.subtree a).declaredIn = (w.forest.subtree id).routineEntries := hentries
  obtain ⟨before, after, hchildren, hbefore, htag⟩ := exists_of_child hc
  have hup := hf.parent_of_child ha
  have hholds' : ∀ x, w.forest.Under x id → (w.forest.subtree x).HoldsDeclarations :=
    fun x hx => hf.holdsDeclarations_of_under hholds hx
  rw [hf.asBlocksFrom_eq, hblock]
  apply forM_append_succeeds
  apply ends_bind
  refine (addSection_planted hw (hholds' a (under_of_parent hup)) (hentries ▸ hsome)
    (tag_of_child ha) hbody hs hc hchildren).imp ?_
  rintro - w1 ⟨hnotes, n, hplanted⟩
  apply ends_pure
  have hw1 := whole_of_planted hw hplanted hnotes
  -- the other routines are not above the section, and have no declarations
  refine (forM_addSection_of_none hw1 fun b hb => ?_).imp ?_
  · obtain ⟨x, hx, hb⟩ := mem_flatMap.1 hb
    obtain ⟨r, hr, hrb⟩ := hf.exists_of_mem_asBlocksFrom hb
    have hr : w.forest.Below r id := hr.trans_below (below_of_parent (hf.parent_of_mem hx))
    have hbid := (under_of_parent (hf.parent_of_routineAsBlock hrb)).trans_below hr
    have hview : w1.forest.subtree b = w.forest.subtree b :=
      hplanted.subtree_of_not_under hf hbid.lt_size
        (hf.not_under_asBlock hblock hbody hs hr hrb)
    rw [hview]
    exact ⟨hholds' b hbid.under, hf.declaredIn_of_declaresNothing (hquiet x hx) hb⟩
  · rintro - w' rfl
    rw [hentries] at hplanted
    have hturned : Turned w s (withClause (sectionOf (w.forest.subtree id).routineEntries)
        (w.forest.subtree s)) w' := ⟨hplanted.grafted_withClause hf hchildren hbefore htag, hnotes⟩
    have hroute : w.forest.path id bodyPath = some s := by
      simp [bodyPath, Forest.path, ha, hbody, hs]
    have hpart : (w.forest.subtree id).path? bodyPath = some (w.forest.subtree s) := by
      rw [← hf.map_subtree_path, hroute, Option.map_some]
    have hchange : changeAt (fun _ => withClause (sectionOf (w.forest.subtree id).routineEntries)
        (w.forest.subtree s)) bodyPath (w.forest.subtree id) =
          changeAt (withClause (sectionOf (w.forest.subtree id).routineEntries)) bodyPath
            (w.forest.subtree id) := changeAt_congr hpart rfl
    rw [← hchange]
    exact hturned.path hw hroute

/-- Wherever `tree` is the view of a node, its routines get their sections. -/
def Sections (tree : SyntaxTree) : Prop :=
  ∀ (id : Nat) (w : Workspace), Whole w → id < w.forest.size → w.forest.subtree id = tree →
    Succeeds ((w.forest.asBlocksFrom id).forM addSection) w fun _ => Turned w id tree.sectioned

/-- The children of a node get their sections one after the other. -/
lemma forM_addSection_children {done rest : List Nat} (hw : Whole w)
    (hchildren : w.forest.children id = done ++ rest)
    (hrest : ∀ c ∈ rest, Sections (w.forest.subtree c)) :
    Succeeds ((rest.flatMap w.forest.asBlocksFrom).forM addSection) w fun _ => Turned w id
      (.node (w.forest.tag id) (w.forest.text id) (w.forest.attributes id)
        (done.map w.forest.subtree ++ rest.map fun c => (w.forest.subtree c).sectioned)) := by
  induction rest generalizing w done with
  | nil =>
    have hview := hw.wellFormed.subtree_eq id
    rw [hchildren, append_nil] at hview
    rw [map_nil, append_nil, ← hview]
    exact ends_pure (.refl hw id)
  | cons c rest ih =>
    have hf := hw.wellFormed
    have hmem : ∀ x ∈ c :: rest, w.forest.parent x = some id := fun x hx =>
      hf.parent_of_mem (by rw [hchildren]; exact mem_append_right _ hx)
    have hc := hmem c (.head _)
    rw [flatMap_cons]
    apply forM_append_succeeds
    refine (hrest c (.head _) c w hw (lt_size_of_parent hc) rfl).imp ?_
    intro _ w1 h1
    obtain ⟨hid, hdone, hafter, hup⟩ := h1.up hw hchildren
    -- the other children have not changed, and neither have the routines in them
    have hne : ∀ x ∈ rest, x ≠ c := by
      have hnodup := hf.nodup_children id
      rw [hchildren, nodup_middle, nodup_cons] at hnodup
      rintro x hx rfl
      exact hnodup.1 (mem_append_right _ hx)
    have hblocks : rest.flatMap w.forest.asBlocksFrom = rest.flatMap w1.forest.asBlocksFrom := by
      refine flatMap_congr fun x hx => (hf.asBlocksFrom_congr h1.grafted.wellFormed ?_).symm
      intro y hy
      have hx' := hmem x (.tail _ hx)
      refine sameContent_of_node_eq (h1.grafted.node_eq y (hy.lt_size (lt_size_of_parent hx')) ?_)
      exact fun hunder => hne x hx (hf.eq_of_under_of_parent hy hunder hx' hc)
    have hchildren1 : w1.forest.children id = (done ++ [c]) ++ rest := by
      simp [hid.children_eq, hchildren]
    have hviews := map_inj_left.1 hafter
    rw [hblocks]
    refine (ih (h1.whole hw) hchildren1 fun x hx => hviews x hx ▸
      hrest x (.tail _ hx)).imp ?_
    intro _ w2 h2
    have hsections : (rest.map fun x => (w1.forest.subtree x).sectioned) =
        rest.map fun x => (w.forest.subtree x).sectioned :=
      map_congr_left fun x hx => by rw [hviews x hx]
    rw [hid.tag_eq, hid.text_eq, hid.attributes_eq, map_append, map_singleton, hdone,
      h1.grafted.subtree_eq, hsections, append_assoc, singleton_append] at h2
    exact hup.trans hw h2

/-- The sections of a tree come about node by node. -/
lemma sections_of_takesSections (hholds : tree.HoldsDeclarations)
    (htakes : tree.takesSections) : Sections tree := by
  induction tree using SyntaxTree.induction with
  | node tag text attributes children ih =>
    intro id w hw hid htree
    have hf := hw.wellFormed
    obtain ⟨htag, htext, hattributes, hviews⟩ := hf.of_subtree_eq htree
    rw [sectioned, ← htree]
    rw [takesSections, ← htree] at htakes
    by_cases hnone : (w.forest.subtree id).routineEntries.isEmpty
    · rw [if_pos hnone, sectionedAll_eq]
      rw [if_pos hnone, takeSections_iff] at htakes
      have hchild : ∀ c ∈ w.forest.children id, w.forest.subtree c ∈ children := fun c hc => by
        rw [← hviews]
        exact mem_map_of_mem hc
      have hsections : ∀ c ∈ w.forest.children id, Sections (w.forest.subtree c) := fun c hc =>
        ih _ (hchild c hc) (hholds.child (hchild c hc)) (htakes _ (hchild c hc))
      rw [hf.asBlocksFrom_eq]
      apply forM_append_succeeds
      refine (forM_addSection_of_none hw fun b hb => ?_).imp ?_
      · rw [Option.mem_toList] at hb
        have hparent := hf.parent_of_routineAsBlock hb
        refine ⟨hf.holdsDeclarations_of_under (htree ▸ hholds) (under_of_parent hparent), ?_⟩
        rw [List.isEmpty_iff, routineEntries, ← hf.map_subtree_routineAsBlock, hb] at hnone
        exact hnone
      · rintro - w' rfl
        refine (forM_addSection_children hw (nil_append _).symm hsections).imp ?_
        intro _ w' h'
        rw [htag, htext, hattributes, map_nil, nil_append] at h'
        rw [← hviews, map_map]
        exact h'
    · rw [if_neg hnone]
      rw [if_neg hnone, Bool.and_eq_true, declareNothing_iff, ← hviews] at htakes
      refine addSection_turned hw (htree ▸ hholds) (by simpa using hnone) htakes.1 ?_
      exact fun c hc => htakes.2 _ (mem_map_of_mem hc)

/-- The pass that adds sections makes notes of the declarations, and gives every routine its
section. -/
lemma addSections_sectioned (hw : Whole w) (htree : w.forest.tree = tree)
    (hholds : tree.HoldsDeclarations) (htakes : tree.takesSections) :
    Succeeds addSections w fun _ w' => Whole w' ∧ w'.forest.tree = tree.sectioned := by
  apply ends_forest
  apply ends_bind
  apply ends_note
  have hnotes : Notes.Within { w.notes with
      declarations := w.forest.declarations root
      arrayVariables := w.notes.arrayVariables ++
        (w.forest.declarations root).filterMap (arrayName w.forest) } w.forest.size := by
    refine ⟨fun d hd x hx => ?_, hw.notes.tempTables⟩
    exact (hw.wellFormed.below_of_mem_declarations hd hx).lt_size
  have hnoted := hw.withNotes hnotes
  refine (sections_of_takesSections hholds htakes root _ hnoted hw.size_pos htree).imp ?_
  intro _ w' h'
  exact ⟨h'.whole hnoted, h'.grafted.subtree_eq⟩

end DeclareSection

end SqlDialect
