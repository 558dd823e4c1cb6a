import SqlDialect.Proofs.ControlFlow.Block
import SqlDialect.Proofs.ControlFlow.Stages
import SqlDialect.Proofs.Conversion.Renew

/-!
# What the passes do at a construct

Each pass over conditions and loops edits a construct when it comes to the construct's top node, and
all its edits are below that node.  Here they are followed on syntax trees.
-/

namespace SqlDialect.ControlFlow

open Conversion Forest SyntaxTree List

variable {opening parts statements trees : List SyntaxTree} {branch x id : Nat} {tag : Tag}
  {w w1 : Workspace}

/-! ## Words -/

/-- The only child of a node is a keyword; it is given another text. -/
lemma setText_turns {word : String} (hw : Whole w)
    (htree : w.forest.subtree id = group tag [keyword word]) (words : String) :
    ∃ k, (w.forest.children id).head? = some k ∧
      Succeeds (setText k words) w fun _ => Turned w id (group tag [keyword words]) := by
  obtain ⟨htag, htext, hattributes, hviews⟩ := hw.wellFormed.of_subtree_eq htree
  obtain ⟨k, hk, hview⟩ := map_eq_singleton_iff.1 hviews
  have hlt : k < w.forest.size := hw.wellFormed.child_lt (hk ▸ mem_singleton_self k)
  have hplace : w.forest.children id = [] ++ k :: [] := hk
  have hup := (grafted_setText hw.wellFormed hlt hview words).up hw.wellFormed hplace
  rw [htag, htext, hattributes] at hup
  exact ⟨k, by rw [hk]; rfl, ends_edit ⟨hup, rfl⟩⟩

lemma closeBlock_turns (hw : Whole w) (hid : id < w.forest.size)
    (htree : w.forest.subtree id = closer "end") (words : String) :
    Succeeds (closeBlock id words) w fun _ => Turned w id (terminated words) := by
  obtain ⟨k, hk, hset⟩ := setText_turns hw htree words
  refine ends_forest (ends_need_some hk (ends_bind (hset.imp ?_)))
  intro _ w1 h1
  have hf1 := h1.grafted.wellFormed
  have happended := grafted_append hf1 (hid.trans_le h1.grafted.size_le) h1.grafted.subtree_eq
    .semicolon ";"
  refine ends_forest (ends_ite (fun _ => ?_) fun hsome => absurd ?_ hsome)
  · exact ends_discard (ends_grow (h1.trans hw ⟨happended, rfl⟩))
  · rw [← Option.not_isSome, hf1.isSome_child, h1.grafted.subtree_eq]
    exact Bool.not_false

/-! ## Blocks -/

lemma beginBranch_turns {closing : List SyntaxTree} (hw : Whole w)
    (htree : w.forest.subtree id = enclosed [opener "begin"] trees closing) :
    Succeeds (beginBranch branch id) w fun _ => Turned w id (enclosed
      (if w.forest.is branch .elseClause then [] else [opener "then"]) trees closing) := by
  have hf := hw.wellFormed
  have hchild : (w.forest.subtree id).child? .containerOpen = some (opener "begin") := by
    rw [htree]
    rfl
  obtain ⟨o, ho, hview⟩ := hf.exists_child hchild
  refine ends_forest (ends_need_some ho (ends_ite (fun helse => ?_) fun helse => ?_))
  · rw [if_pos helse]
    exact ends_relink (hf.removeChild_eq (hf.parent_of_child ho)) ⟨grafted_detach_first hf htree ho,
      rfl⟩
  · obtain ⟨k, hk, hset⟩ := setText_turns hw hview "then"
    rw [if_neg helse]
    refine ends_need_some hk (hset.imp (fun _ w1 h1 => ?_))
    have hup := h1.path hw (path_of_child ho)
    rw [htree] at hup
    exact hup

lemma changeAt_enclosed {tree : SyntaxTree}
    (hopening : ∀ tree ∈ opening, tree.tag ≠ .containerClose) :
    changeAt (fun _ => tree) [.containerClose] (enclosed opening trees [closer "end"]) =
      enclosed opening trees [tree] := by
  have hbefore : ∀ tree ∈ opening ++ [group .containerMultiStatement trees],
      tree.tag ≠ .containerClose := by
    intro tree htree
    obtain htree | htree := mem_append.1 htree
    · exact hopening tree htree
    · simp [mem_singleton.1 htree]
  have hchange : changeFirst .containerClose (fun _ => tree)
      ((opening ++ [group .containerMultiStatement trees]) ++ [closer "end"]) =
        (opening ++ [group .containerMultiStatement trees]) ++ [tree] :=
    changeFirst_append hbefore rfl
  rw [append_assoc, append_assoc] at hchange
  exact congrArg (group .beginEndBlock) hchange

lemma endBranch_turns (hw : Whole w) (hopening : ∀ tree ∈ opening, tree.tag ≠ .containerClose)
    (htree : w.forest.subtree id = enclosed opening trees [closer "end"]) :
    Succeeds (endBranch branch id) w fun _ => Turned w id (enclosed opening trees
      (if (w.forest.child branch .elseClause).isSome then [] else [terminated "end if"])) := by
  have hf := hw.wellFormed
  have hnone : opening.find? (·.tag == .containerClose) = none := by
    simpa using hopening
  have hchild : (w.forest.subtree id).child? .containerClose = some (closer "end") := by
    rw [htree]
    change (opening ++ group .containerMultiStatement trees :: [closer "end"]).find? _ = _
    rw [find?_append, hnone]
    rfl
  obtain ⟨o, ho, hview⟩ := hf.exists_child hchild
  refine ends_forest (ends_need_some ho (ends_ite (fun helse => ?_) fun helse => ?_))
  · have hg := grafted_detach_first hf htree ho
    rw [eraseP_append_right _ (by simpa using hopening)] at hg
    rw [if_pos helse]
    exact ends_relink (hf.removeChild_eq (hf.parent_of_child ho)) ⟨hg, rfl⟩
  · have hlt : o < w.forest.size := hf.child_lt (hf.mem_children_iff.2 (hf.parent_of_child ho))
    rw [if_neg helse]
    refine (closeBlock_turns hw hlt hview "end if").imp (fun _ w1 h1 => ?_)
    have hup := h1.path hw (path_of_child ho)
    rw [htree, changeAt_enclosed hopening] at hup
    exact hup

/-! ## Branches and loop bodies -/

/-- A construct whose body is a statement with the given parts. -/
def around (kind : Tag) (before parts rest : List SyntaxTree) : SyntaxTree :=
  group kind (before ++ held (asStatement parts) :: rest)

variable {kind : Tag} {before after rest : List SyntaxTree} {part tree : SyntaxTree}

lemma path?_around (tag : Tag) (hbefore : ∀ tree ∈ before, tree.tag ≠ .containerSingleStatement) :
    (around kind before parts rest).path? [.containerSingleStatement, .statement, .clause, tag] =
      parts.find? (·.tag == tag) := by
  have hnone : before.find? (·.tag == .containerSingleStatement) = none := by
    simpa using hbefore
  have hheld : (around kind before parts rest).child? .containerSingleStatement =
      some (held (asStatement parts)) := by
    change (before ++ held (asStatement parts) :: rest).find? _ = _
    rw [find?_append, hnone]
    rfl
  rw [path?, hheld]
  change (group .clause parts).path? [tag] = _
  rw [path?]
  exact Option.bind_fun_some _

lemma changeAt_around (hbefore : ∀ tree ∈ before, tree.tag ≠ .containerSingleStatement)
    (hpart : part.tag = tag) :
    changeAt (fun _ => tree) [.containerSingleStatement, .statement, .clause, tag]
      (around kind before (part :: after) rest) = around kind before (tree :: after) rest := by
  have hfirst : changeFirst tag (fun _ => tree) (part :: after) = tree :: after := by
    rw [changeFirst, if_pos (by simp [hpart])]
  rw [around, group, changeAt, changeFirst_append hbefore rfl]
  change group kind (before ++ held (group .statement [group .clause (changeFirst tag
    (fun _ => tree) (part :: after))]) :: rest) = _
  rw [hfirst]
  rfl

/-- The first part of a body has changed. -/
lemma turned_around (hw : Whole w)
    (htree : w.forest.subtree id = around kind before (part :: after) rest)
    (hbefore : ∀ tree ∈ before, tree.tag ≠ .containerSingleStatement) (hpart : part.tag = tag)
    (hpath : w.forest.path id [.containerSingleStatement, .statement, .clause, tag] = some x)
    (h : Turned w x tree w1) : Turned w id (around kind before (tree :: after) rest) w1 := by
  have hup := h.path hw hpath
  rwa [htree, changeAt_around hbefore hpart] at hup

/-- The words of a branch: an else branch needs none at its start, and only the last branch of a
chain closes it. -/
lemma openBranch_turns (hw : Whole w) (htree : w.forest.subtree id =
      around kind before (enclosed [opener "begin"] trees [closer "end"] :: after) rest)
    (hbefore : ∀ tree ∈ before, tree.tag ≠ .containerSingleStatement)
    (hpath : w.forest.path id blockPath = some x) :
    Succeeds (openBranch id x) w fun _ => Turned w id (around kind before
      (enclosed (if kind == .elseClause then [] else [opener "then"]) trees
        (if (before ++ rest).any (·.tag == .elseClause) then [] else [terminated "end if"]) ::
          after)
      rest) := by
  have hview : w.forest.subtree x = enclosed [opener "begin"] trees [closer "end"] := by
    have hmap := hw.wellFormed.map_subtree_path blockPath id
    rw [hpath, htree, blockPath, path?_around .beginEndBlock hbefore] at hmap
    exact Option.some.inj hmap
  refine ends_bind ((beginBranch_turns hw hview).imp (fun _ w1 h1 => ?_))
  have hkind : w.forest.is id .elseClause = (kind == .elseClause) := by
    rw [is_eq, htree]
    rfl
  rw [hkind] at h1
  have hup := turned_around hw htree hbefore rfl hpath h1
  have hpath1 := h1.grafted.path_eq hw.wellFormed (by rw [← tag_subtree, hview]; rfl) hpath
  have helse : (w1.forest.child id .elseClause).isSome =
      (before ++ rest).any (·.tag == .elseClause) := by
    rw [hup.grafted.wellFormed.isSome_child, hup.grafted.subtree_eq]
    change ((before ++ _ :: rest).find? (·.tag == .elseClause)).isSome = _
    rw [Bool.eq_iff_iff]
    simp [held]
  refine (endBranch_turns (h1.whole hw) ?_ h1.grafted.subtree_eq).imp (fun _ w2 h2 => ?_)
  · intro tree htree
    split at htree
    · cases htree
    · rw [mem_singleton.1 htree]
      decide
  · rw [helse] at h2
    exact hup.trans hw
      (turned_around (h1.whole hw) hup.grafted.subtree_eq hbefore rfl hpath1 h2)

/-- An else branch that is an if statement continues the chain. -/
lemma joinElseIf_turns (hw : Whole w) (htree : w.forest.subtree id =
      around .elseClause [opener "else"] [group .ifStatement (opener "if" :: parts)] []) :
    Succeeds (joinElseIf id) w fun _ => Turned w id
      (around .elseClause [opener "elsif"] [group .ifStatement parts] []) := by
  have hbefore (word : String) : ∀ tree ∈ [opener word], tree.tag ≠ .containerSingleStatement := by
    simp [opener]
  have hword : (w.forest.subtree id).path? [.containerOpen, .otherKeyword] =
      some (keyword "else") := by
    rw [htree]
    rfl
  obtain ⟨k, hk, hview⟩ := hw.wellFormed.exists_path hword
  have hlt := (hw.wellFormed.below_of_path hk).lt_size
  have h1 : Turned w k (keyword "elsif") { w with forest := w.forest.setText k "elsif" } :=
    ⟨grafted_setText hw.wellFormed hlt hview "elsif", rfl⟩
  have hup := h1.path hw hk
  rw [htree] at hup
  refine ends_forest (ends_need_some hk (ends_bind (ends_edit (ends_forest ?_))))
  generalize ({ w with forest := w.forest.setText k "elsif" } : Workspace) = w1 at hup
  have hw1 := hup.whole hw
  have htree1 : w1.forest.subtree id =
    around .elseClause [opener "elsif"] [group .ifStatement (opener "if" :: parts)] [] :=
      hup.grafted.subtree_eq
  have hnested : (w1.forest.subtree id).path? nestedIfPath =
      some (group .ifStatement (opener "if" :: parts)) := by
    rw [htree1, nestedIfPath, path?_around .ifStatement (hbefore _)]
    rfl
  obtain ⟨x, hx, hview1⟩ := hw1.wellFormed.exists_path hnested
  have hopener : (w1.forest.subtree x).child? .containerOpen = some (opener "if") := by
    rw [hview1]
    rfl
  obtain ⟨o, ho, -⟩ := hw1.wellFormed.exists_child hopener
  have hg := grafted_detach_first hw1.wellFormed hview1 ho
  have hok := hw1.wellFormed.removeChild_eq (hw1.wellFormed.parent_of_child ho)
  refine ends_need_some hx ?_
  rw [ho]
  exact ends_relink hok (hup.trans hw (turned_around hw1 htree1 (hbefore _) rfl hx ⟨hg, rfl⟩))

/-! ## The visits of the pass over conditions -/

lemma conditionVisit_idle (tree : SyntaxTree) (htag : tree.tag ∉ [.ifStatement, .elseClause]) :
    Acts conditionVisit tree tree := by
  refine acts_self fun id w _ htree => ends_forest (ends_ite (fun h => absurd h ?_) fun _ => ?_)
  · simpa [is_eq, htree] using htag
  · exact ends_pure ⟨rfl, rfl⟩

lemma conditionVisit_branch (hkind : kind = .ifStatement ∨ kind = .elseClause)
    (hbefore : ∀ tree ∈ before, tree.tag ≠ .containerSingleStatement) :
    Acts conditionVisit
      (around kind before (enclosed [opener "begin"] trees [closer "end"] :: after) rest)
      (around kind before (enclosed (if kind == .elseClause then [] else [opener "then"]) trees
        (if (before ++ rest).any (·.tag == .elseClause) then [] else [terminated "end if"]) ::
          after)
        rest) := by
  intro id w hw hid htree
  refine ends_forest (ends_ite (fun _ => ?_) fun h => absurd ?_ h)
  · have hblock : (w.forest.subtree id).path? blockPath =
        some (enclosed [opener "begin"] trees [closer "end"]) := by
      rw [htree, blockPath, path?_around .beginEndBlock hbefore]
      rfl
    obtain ⟨x, hx, -⟩ := hw.wellFormed.exists_path hblock
    refine ends_bind (ends_forest ?_)
    rw [hx]
    exact (openBranch_turns hw htree hbefore hx).imp (fun _ w1 h1 => ends_pure ⟨rfl, h1⟩)
  · simpa [is_eq, htree, around] using hkind

lemma conditionVisit_elseIf : Acts conditionVisit
      (around .elseClause [opener "else"] [group .ifStatement (opener "if" :: parts)] [])
      (around .elseClause [opener "elsif"] [group .ifStatement parts] []) := by
  intro id w hw hid htree
  have hkind : w.forest.is id .elseClause = true := by
    rw [is_eq, htree]
    rfl
  refine ends_forest (ends_ite (fun _ => ?_) fun h => absurd ?_ h)
  · have hnone : w.forest.path id blockPath = none := by
      rw [← Option.map_eq_none_iff, hw.wellFormed.map_subtree_path, htree, blockPath,
        path?_around .beginEndBlock (by simp [opener])]
      rfl
    refine ends_bind (ends_forest ?_)
    rw [hnone]
    refine ends_ite (fun _ => ?_) fun h => absurd hkind h
    exact (joinElseIf_turns hw htree).imp (fun _ w1 h1 => ends_pure ⟨rfl, h1⟩)
  · simp [hkind]

/-! ## Statements that come into a block -/

/-- One of the statements is a block. -/
def holdsBlockAll (statements : List SyntaxTree) : Bool :=
  statements.any fun statement => statement.children.any fun clause =>
    (clause.child? .beginEndBlock).isSome

lemma holdsBlock_eq {f : Forest} (hf : f.WellFormed) (id : Nat) :
    f.holdsBlock id = holdsBlockAll (f.subtree id).children := by
  simp [holdsBlock, holdsBlockAll, hf.children_subtree, any_map, Function.comp_def,
    hf.isSome_child]

/-- The statements of a container, and what they come to as a block: what is in the block and what
comes after it. -/
inductive Blocks : List SyntaxTree → List SyntaxTree → List SyntaxTree → Prop
  /-- A block stays as it is. -/
  | block (trees after : List SyntaxTree) :
    Blocks [asStatement (enclosed [opener "begin"] trees [closer "end"] :: after)] trees after
  /-- Other statements come into a new one. -/
  | wrapped {statements : List SyntaxTree} :
    holdsBlockAll statements = false → Blocks statements statements []

lemma wrapInBeginEnd_around (hw : Whole w) (htree : w.forest.subtree id =
      group kind (before ++ group .containerSingleStatement statements :: rest))
    (hbefore : ∀ tree ∈ before, tree.tag ≠ .containerSingleStatement)
    (hblocks : Blocks statements trees after) :
    ∃ c, w.forest.child id .containerSingleStatement = some c ∧
      Succeeds (wrapInBeginEnd c) w fun _ => Turned w id
        (around kind before (enclosed [opener "begin"] trees [closer "end"] :: after) rest) := by
  have hf := hw.wellFormed
  have hnone : before.find? (·.tag == .containerSingleStatement) = none := by
    simpa using hbefore
  have hchild : (w.forest.subtree id).child? .containerSingleStatement =
      some (group .containerSingleStatement statements) := by
    rw [htree]
    change (before ++ group .containerSingleStatement statements :: rest).find? _ = _
    rw [find?_append, hnone]
    rfl
  obtain ⟨c, hc, hview⟩ := hf.exists_child hchild
  have hlt := lt_size_of_parent (hf.parent_of_child hc)
  refine ⟨c, hc, ?_⟩
  cases hblocks with
  | block =>
    refine ends_forest (ends_ite (fun _ => ?_) fun h => absurd ?_ h)
    · have hrefl := Turned.refl hw id
      rw [htree] at hrefl
      exact ends_pure hrefl
    · rw [holdsBlock_eq hf, hview]
      rfl
  | wrapped hnot =>
    have hnot' : w.forest.holdsBlock c = false := by
      rw [holdsBlock_eq hf, hview]
      exact hnot
    refine (wrapInBeginEnd_turns hw hlt hview hnot').imp (fun _ w1 h1 => ?_)
    have hup := h1.path hw (path_of_child hc)
    rw [htree, group, changeAt, changeFirst_append hbefore rfl] at hup
    exact hup

/-! ## The visits of the pass over branches -/

lemma blockVisit_idle (tree : SyntaxTree) (htag : tree.tag ∉ [.ifStatement, .elseClause]) :
    Acts blockVisit tree tree := by
  refine acts_self fun id w _ htree => ends_bind (ends_forest ?_)
  have hidle : w.forest.tag id ∉ [Tag.ifStatement, .elseClause] := by
    rwa [← tag_subtree, htree]
  split
  · split <;> first | exact ends_pure (ends_pure ⟨rfl, rfl⟩) | simp_all
  · exact ends_pure (ends_pure ⟨rfl, rfl⟩)

lemma blockVisit_if (hbefore : ∀ tree ∈ before, tree.tag ≠ .containerSingleStatement)
    (hblocks : Blocks statements trees after) : Acts blockVisit
      (group .ifStatement (before ++ group .containerSingleStatement statements :: rest))
      (around .ifStatement before (enclosed [opener "begin"] trees [closer "end"] :: after)
        rest) := by
  intro id w hw hid htree
  obtain ⟨c, hc, hwrap⟩ := wrapInBeginEnd_around hw htree hbefore hblocks
  have htag : w.forest.tag id = .ifStatement := by rw [← tag_subtree, htree, tag_group]
  refine ends_bind (ends_forest ?_)
  rw [hc, htag]
  exact hwrap.imp (fun _ w1 h1 => ends_pure ⟨rfl, h1⟩)

lemma nestedIf_eq (hw : Whole w) (htree : w.forest.subtree id =
    group .elseClause [opener "else", held (group .statement parts)]) :
    (w.forest.path id nestedIfPath).isNone =
      ((group .statement parts).path? [.clause, .ifStatement]).isNone := by
  have hmap := hw.wellFormed.map_subtree_path nestedIfPath id
  rw [htree] at hmap
  rw [← Option.isNone_map, hmap]
  rfl

lemma blockVisit_else (hblocks : Blocks [group .statement parts] trees after)
    (hnot : (group .statement parts).path? [.clause, .ifStatement] = none) :
    Acts blockVisit (group .elseClause [opener "else", held (group .statement parts)])
      (around .elseClause [opener "else"]
        (enclosed [opener "begin"] trees [closer "end"] :: after) []) := by
  intro id w hw hid htree
  have hbefore : ∀ tree ∈ [opener "else"], tree.tag ≠ .containerSingleStatement := by simp [opener]
  have hplace : w.forest.subtree id = group .elseClause
    ([opener "else"] ++ group .containerSingleStatement [group .statement parts] :: []) := htree
  obtain ⟨c, hc, hwrap⟩ := wrapInBeginEnd_around hw hplace hbefore hblocks
  have htag : w.forest.tag id = .elseClause := by rw [← tag_subtree, htree, tag_group]
  refine ends_bind (ends_forest ?_)
  rw [hc, htag]
  refine ends_ite (fun _ => ?_) fun h => absurd ?_ h
  · exact hwrap.imp (fun _ w1 h1 => ends_pure ⟨rfl, h1⟩)
  · rw [nestedIf_eq hw htree, hnot]
    rfl

/-- An else branch that is an if statement gets no block. -/
lemma blockVisit_elseIf :
    Acts blockVisit (around .elseClause [opener "else"] [group .ifStatement parts] [])
      (around .elseClause [opener "else"] [group .ifStatement parts] []) := by
  refine acts_self fun id w hw htree => ends_bind (ends_forest ?_)
  have htag : w.forest.tag id = .elseClause := by rw [← tag_subtree, htree, around, tag_group]
  split
  · rw [htag]
    refine ends_ite (fun h => absurd h ?_) fun _ => ends_pure (ends_pure ⟨rfl, rfl⟩)
    rw [nestedIf_eq hw htree]
    exact Bool.false_ne_true
  · exact ends_pure (ends_pure ⟨rfl, rfl⟩)

/-! ## The visits of the pass over loops -/

lemma loopVisit_idle (tree : SyntaxTree) (htag : tree.tag ∉ [.whileLoop]) :
    Acts (matchVisit .whileLoop none convertLoop) tree tree := by
  refine acts_self fun id w _ htree => ends_forest (ends_ite (fun h => absurd h ?_) fun _ => ?_)
  · simpa [fits, is_eq, htree] using htag
  · exact ends_pure ⟨rfl, rfl⟩

/-- The words of a loop, when its body is a block. -/
lemma loopWords_turns (hw : Whole w)
    (htree : w.forest.subtree id =
      around kind before (enclosed [opener "begin"] trees [closer "end"] :: after) rest)
    (hbefore : ∀ tree ∈ before, tree.tag ≠ .containerSingleStatement) :
    Succeeds (do
      let f ← forest
      let block ← need "body of the loop" (f.path id blockPath)
      let keyword ← need "begin keyword of the loop" (f.path block [.containerOpen, .otherKeyword])
      setText keyword "loop"
      let closer ← need "end of the loop" ((← forest).child block .containerClose)
      closeBlock closer "end loop") w fun _ => Turned w id
        (around kind before
          (enclosed [opener "loop"] trees [terminated "end loop"] :: after) rest) := by
  have hblock : (w.forest.subtree id).path? blockPath =
      some (enclosed [opener "begin"] trees [closer "end"]) := by
    rw [htree, blockPath, path?_around .beginEndBlock hbefore]
    rfl
  obtain ⟨x, hx, hview⟩ := hw.wellFormed.exists_path hblock
  have hword : (w.forest.subtree x).path? [.containerOpen, .otherKeyword] =
      some (keyword "begin") := by
    rw [hview]
    rfl
  obtain ⟨k, hk, hkview⟩ := hw.wellFormed.exists_path hword
  have hlt := (hw.wellFormed.below_of_path hk).lt_size
  have h1 : Turned w k (keyword "loop") { w with forest := w.forest.setText k "loop" } :=
    ⟨grafted_setText hw.wellFormed hlt hkview "loop", rfl⟩
  have hup := h1.path hw hk
  rw [hview] at hup
  refine ends_forest (ends_need_some hx (ends_need_some hk (ends_bind (ends_edit ?_))))
  generalize ({ w with forest := w.forest.setText k "loop" } : Workspace) = w1 at hup
  have hw1 := hup.whole hw
  have hview1 : w1.forest.subtree x = enclosed [opener "loop"] trees [closer "end"] :=
    hup.grafted.subtree_eq
  have hcloser : (w1.forest.subtree x).child? .containerClose = some (closer "end") := by
    rw [hview1]
    rfl
  obtain ⟨o, ho, hoview⟩ := hw1.wellFormed.exists_child hcloser
  have holt := lt_size_of_parent (hw1.wellFormed.parent_of_child ho)
  refine ends_forest (ends_need_some ho ((closeBlock_turns hw1 holt hoview "end loop").imp
    (fun _ w2 h2 => ?_)))
  have hup2 := h2.path hw1 (path_of_child ho)
  rw [hview1, changeAt_enclosed (by simp [opener])] at hup2
  exact turned_around hw htree hbefore rfl hx (hup.trans hw hup2)

lemma loopVisit_loop (hbefore : ∀ tree ∈ before, tree.tag ≠ .containerSingleStatement)
    (hblocks : Blocks statements trees after) : Acts (matchVisit .whileLoop none convertLoop)
      (group .whileLoop (before ++ group .containerSingleStatement statements :: rest))
      (around .whileLoop before (enclosed [opener "loop"] trees [terminated "end loop"] :: after)
        rest) := by
  intro id w hw hid htree
  obtain ⟨c, hc, hwrap⟩ := wrapInBeginEnd_around hw htree hbefore hblocks
  refine ends_forest (ends_ite (fun _ => ?_) fun h => absurd ?_ h)
  · refine ends_bind (ends_forest ?_)
    rw [hc]
    refine ends_bind (hwrap.imp (fun _ w1 h1 => ?_))
    refine (loopWords_turns (h1.whole hw) h1.grafted.subtree_eq hbefore).imp (fun _ w2 h2 => ?_)
    exact ends_pure ⟨rfl, h1.trans hw h2⟩
  · simp [fits, is_eq, htree]

end SqlDialect.ControlFlow
