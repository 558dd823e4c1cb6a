import Mathlib.Data.List.TakeWhile
import SqlDialect.Proofs.Pipeline
import SqlDialect.Proofs.Wrapping.Enclose

/-!
# Passes that only wrap

Six passes give a routine and its branches their outer form: its parameters come into brackets, its
language is named, its body and its branches come into blocks, its body is quoted and its result
sets are opened on cursors.  All they do is to put new nodes around and between those that are
there.  Each visit plants new trees, wraps a container or brackets parameters, and so a run of these
passes that succeeds `Wraps` the forest it finds (`runPasses_wraps`).
-/

namespace SqlDialect

open Forest List

namespace Conversion

variable {α β σ : Type} {w w1 w2 : Workspace} {c mark n p : Nat}

/-! ## Steps -/

/-- The workspace is whole, and its forest wraps the one before. -/
structure Shaped (w w' : Workspace) : Prop where
  whole : Whole w'
  wraps : Wraps w.forest w'.forest

lemma Shaped.refl (hw : Whole w) : Shaped w w :=
  ⟨hw, .refl hw.wellFormed hw.size_pos⟩

lemma Shaped.trans (h : Shaped w w1) (h' : Shaped w1 w2) : Shaped w w2 :=
  ⟨h'.whole, h.wraps.trans h'.wraps⟩

/-- If it succeeds, the step only wraps. -/
abbrev Shapes (step : Conversion α) (w : Workspace) : Prop :=
  Ends step w (fun _ => Shaped w) (Halts (fun _ => True) True)

lemma shapes_pure {a : α} (hw : Whole w) : Shapes (pure a) w :=
  ends_pure (.refl hw)

lemma Shapes.bind {step : Conversion β} {next : β → Conversion α} (h : Shapes step w)
    (hnext : ∀ b w', Shaped w w' → Shapes (next b) w') : Shapes (step >>= next) w :=
  ends_bind (h.imp (fun b w1 h1 => (hnext b w1 h1).imp (fun _ _ h2 => h1.trans h2)))

/-- What follows a step that has left the workspace `w₁`. -/
lemma Shapes.after {step : Conversion α} (h : Shapes step w1) (h1 : Shaped w w1) :
    Ends step w1 (fun _ => Shaped w) (Halts (fun _ => True) True) :=
  h.imp (fun _ _ h2 => h1.trans h2)

/-! ## New leaves -/

/-- Leaves have come in, and the nodes that were there have their parents. -/
structure Grown (w w' : Workspace) : Prop where
  shaped : Shaped w w'
  extended : Extends w.forest w'.forest

lemma Grown.refl (hw : Whole w) : Grown w w :=
  ⟨.refl hw, .refl _⟩

lemma Grown.trans (h : Grown w w1) (h' : Grown w1 w2) : Grown w w2 :=
  ⟨h.shaped.trans h'.shaped, h.extended.trans h'.extended⟩

lemma Grown.whole (h : Grown w w1) : Whole w1 :=
  h.shaped.whole

lemma grown_of_planted {before after : List Nat} {tree : SyntaxTree} (hw : Whole w)
    (h : Planted w.forest p before after n tree w1.forest) (hnotes : w1.notes = w.notes)
    (hchildren : w.forest.children p = before ++ after) : Grown w w1 where
  shaped := ⟨whole_of_planted hw h hnotes,
    (h.enclosed hw.wellFormed hchildren).wraps hw.wellFormed hw.size_pos hw.root_parent⟩
  extended := h.extends

section Leaves

variable {kind : Tag} {words : String} {E : ConversionError → Workspace → Prop}
  {Q : NodeId → Workspace → Prop}

section

variable (hw : Whole w) (hmark : w.forest.parent mark = some p)
  (hQ : ∀ (n : Nat) w', Grown w w' → w'.forest.parent n = some p → Q n w')
include hw hmark hQ

lemma insertNewBefore_grows : Ends (insertNewBefore p kind words mark) w Q E := by
  have hf := hw.wellFormed
  obtain ⟨before, after, hchildren⟩ := append_of_mem (hf.mem_children_iff.2 hmark)
  rw [← bind_pure (insertNewBefore p kind words mark)]
  refine ends_insertNewBefore hf hchildren fun w1 hnotes hplanted => ends_pure ?_
  exact hQ _ w1 (grown_of_planted hw hplanted hnotes hchildren) hplanted.parent_new

lemma insertNewAfter_grows : Ends (insertNewAfter p kind words mark) w Q E := by
  have hf := hw.wellFormed
  obtain ⟨before, after, hchildren⟩ := append_of_mem (hf.mem_children_iff.2 hmark)
  rw [← bind_pure (insertNewAfter p kind words mark)]
  refine ends_insertNewAfter hf hchildren fun w1 hnotes hplanted => ends_pure ?_
  exact hQ _ w1 (grown_of_planted hw hplanted hnotes (by simp [hchildren])) hplanted.parent_new

end

section

variable (hw : Whole w) (hp : p < w.forest.size)
include hw hp

lemma append_grows (hQ : ∀ (n : Nat) w', Grown w w' → w'.forest.parent n = some p → Q n w') :
    Ends (append p kind words) w Q E := by
  have hplanted := hw.wellFormed.planted_append hp kind words
  exact ends_grow (hQ _ _ (grown_of_planted hw hplanted rfl (by simp)) hplanted.parent_new)

lemma appendLeaf_grows {Q : PUnit → Workspace → Prop}
    (hQ : ∀ w', Grown w w' → Q () w') : Ends (appendLeaf p kind words) w Q E :=
  ends_discard (append_grows hw hp fun _ w' h _ => hQ w' h)

lemma appendLeaves_grows {Q : PUnit → Workspace → Prop} {leaves : List (Tag × String)}
    (hQ : ∀ w', Grown w w' → Q () w') : Ends (appendLeaves p leaves) w Q E := by
  refine ends_forM (fun _ => Grown w) (.refl hw) (fun leaf rest w1 h1 => ?_) hQ
  exact appendLeaf_grows h1.whole (h1.extended.lt_size hp) fun w2 h2 => h1.trans h2

end

end Leaves

lemma shapes_wrapInBeginEnd (hw : Whole w) (hc : c < w.forest.size) :
    Shapes (wrapInBeginEnd c) w := by
  have hf := hw.wellFormed
  cases hholds : w.forest.holdsBlock c with
  | true =>
    refine ends_forest (ends_ite (fun _ => shapes_pure hw) fun hnot => ?_)
    exact absurd hholds hnot
  | false =>
    refine (wrapInBeginEnd_blocked hw hc hholds).mono ?_ fun _ _ he => he.elim
    rintro - w' ⟨hnotes, hblocked⟩
    exact ⟨((⟨hblocked.grafted hf (hf.subtree_eq c), hnotes⟩ : Turned w c _ w').whole hw),
      hblocked.enclosed.wraps hf hw.size_pos hw.root_parent⟩

/-! ## Walks -/

/-- A walk only wraps if its visits do. -/
lemma shapes_walkFrom {visit : NodeId → σ → Conversion (Visit × σ)}
    (hvisit : ∀ (id : Nat) (state : σ) (w : Workspace), Whole w → Shapes (visit id state) w) :
    ∀ (limit id : Nat) (state : σ) (w : Workspace), Whole w →
    Shapes (walkFrom visit limit id state) w
  | 0, _, _, w, hw => ends_throw ⟨hw, fun _ => trivial⟩
  | limit + 1, id, state, w, hw => by
    rw [walkFrom_succ]
    refine (hvisit id state w hw).bind ?_
    rintro ⟨decision, state1⟩ w1 h1
    cases decision with
    | skip => exact shapes_pure h1.whole
    | descend =>
      refine ends_forest (ends_foldlM (fun _ _ => Shaped w1) (.refl h1.whole) ?_ fun _ _ h => h)
      intro child rest state2 w2 h2
      refine ends_forest (ends_ite (fun _ => ends_pure h2) fun _ => ?_)
      exact (shapes_walkFrom hvisit limit child state2 w2 h2.whole).after h2

lemma shapes_walk {visit : NodeId → Conversion Visit}
    (hvisit : ∀ (id : Nat) (w : Workspace), Whole w → Shapes (visit id) w) (hw : Whole w) :
    Shapes (walk root visit) w := by
  refine ends_forest (shapes_walkFrom (fun id _ w' hw' => ?_) _ _ _ w hw)
  exact (hvisit id w' hw').bind fun _ _ h => shapes_pure h.whole

end Conversion

open Conversion

/-! ## The passes -/

namespace Routine

variable {w : Workspace}

lemma shapes_forEachRoutine {convertRoutine : NodeId → NodeId → Conversion Unit}
    (hconvert : ∀ (block asBlock : Nat) (w : Workspace), Whole w →
      w.forest.parent asBlock = some block → Shapes (convertRoutine block asBlock) w)
    (hw : Whole w) : Shapes (forEachRoutine convertRoutine) w := by
  refine shapes_walk (fun block w' hw' => ends_forest ?_) hw
  cases hblock : w'.forest.routineAsBlock block with
  | none => exact shapes_pure hw'
  | some asBlock =>
    exact (hconvert block asBlock w' hw' (hw'.wellFormed.parent_of_routineAsBlock hblock)).bind
      fun _ _ h => shapes_pure h.whole

/-- Of nodes in a row only white space is left out at the front when the ends are trimmed. -/
lemma exists_trimWhiteSpace (f : Forest) (ids : List NodeId) :
    ∃ blanks rest, ids = blanks ++ (f.trimWhiteSpace ids ++ rest) ∧
      ∀ b ∈ blanks, f.isWhiteSpace b = true := by
  have hback := takeWhile_append_dropWhile (p := f.isWhiteSpace)
    (l := (ids.dropWhile f.isWhiteSpace).reverse)
  refine ⟨ids.takeWhile f.isWhiteSpace,
    ((ids.dropWhile f.isWhiteSpace).reverse.takeWhile f.isWhiteSpace).reverse, ?_, fun b hb => ?_⟩
  · rw [trimWhiteSpace, ← reverse_append, hback, reverse_reverse,
      takeWhile_append_dropWhile]
  · exact mem_takeWhile_imp hb

lemma children_eq_siblingsAfter {f : Forest} {block name : Nat} (hf : f.WellFormed)
    (hname : f.parent name = some block) :
    ∃ before, f.children block = before ++ name :: f.siblingsAfter name := by
  obtain ⟨before, after, hchildren⟩ := append_of_mem (hf.mem_children_iff.2 hname)
  exact ⟨before, by rw [hf.siblingsAfter_eq hchildren, hchildren]⟩

/-- Parameters are put into new brackets after the name. -/
lemma shapes_bracket {block asBlock name : Nat} (hw : Whole w)
    (hname : w.forest.parent name = some block) :
    Shapes (do
      let parens ← insertNewAfter block .ddlParens "" name
      moveAllTo parens (w.forest.trimWhiteSpace
        ((w.forest.siblingsAfter name).takeWhile (· != asBlock)))) w := by
  have hf := hw.wellFormed
  obtain ⟨before, hchildren⟩ := children_eq_siblingsAfter hf hname
  have htaken := takeWhile_append_dropWhile (p := (· != asBlock)) (l := w.forest.siblingsAfter name)
  obtain ⟨blanks, back, htrim, hblanks⟩ :=
    exists_trimWhiteSpace w.forest ((w.forest.siblingsAfter name).takeWhile (· != asBlock))
  set parameters := w.forest.trimWhiteSpace ((w.forest.siblingsAfter name).takeWhile (· != asBlock))
  set more := (w.forest.siblingsAfter name).dropWhile (· != asBlock)
  have hafter : w.forest.siblingsAfter name = blanks ++ (parameters ++ (back ++ more)) := by
    rw [← htaken, htrim]
    simp
  rw [hafter] at hchildren
  have hplace : w.forest.children block =
      (before ++ [name]) ++ (blanks ++ (parameters ++ (back ++ more))) := by simp [hchildren]
  have hmoves : Does (do
      let parens ← insertNewAfter block .ddlParens "" name
      moveAllTo parens parameters) w fun _ w' =>
        Rebuilt w.forest block (before ++ [name] ++ w.forest.size :: (blanks ++ (back ++ more)))
          [{ tag := .ddlParens, children := parameters }] w'.forest := by
    refine ends_bind ((insertNewAfter_top (.refl hf (hf.parent_lt hname)) before _ hchildren
      rfl).imp ?_)
    rintro _ w1 ⟨rfl, h1⟩
    refine (moveAllTo_new h1 (before ++ name :: w.forest.size :: blanks) (back ++ more) rfl
      (by simp)).imp fun _ w2 h2 => ?_
    simpa using h2
  refine (hmoves.noted.succeeds (bracket_safe hw hname)).mono ?_ fun _ _ he => he.elim
  rintro - w' ⟨hnotes, h⟩
  have hgrafted := h.grafted hf (by simp [hplace]; grind) (by simp +contextual [hplace])
  exact ⟨Turned.whole ⟨hgrafted, hnotes⟩ hw,
    (h.bracketed rfl (by simp) hplace hblanks).wraps hf hw.size_pos hw.root_parent⟩

lemma shapes_bracketParameters (hw : Whole w) : Shapes bracketParameters w := by
  refine shapes_forEachRoutine (fun block asBlock w hw _ => ends_forest ?_) hw
  split <;> [rename_i keyword hkeyword; exact shapes_pure hw]
  refine ends_ite (fun _ => shapes_pure hw) fun _ => ?_
  refine ends_bind (nameNode_ends hw (hw.wellFormed.parent_of_routineKeyword hkeyword)
    fun name hname => ?_)
  dsimp only
  split
  · exact ends_ite (fun _ => shapes_pure hw) fun _ => shapes_bracket hw hname
  · exact shapes_bracket hw hname

lemma shapes_addLanguage (hw : Whole w) : Shapes addLanguage w := by
  refine shapes_forEachRoutine (fun block asBlock w hw hblock => ?_) hw
  refine ends_bind (insertNewBefore_grows hw hblock fun language w1 h1 hlanguage => ends_discard ?_)
  exact insertNewAfter_grows h1.whole hlanguage fun _ w2 h2 _ => (h1.trans h2).shaped

lemma shapes_blockBodies (hw : Whole w) : Shapes blockBodies w := by
  refine shapes_forEachRoutine (fun block asBlock w hw _ => ends_forest ?_) hw
  refine ends_need hw fun body hbody => ?_
  exact shapes_wrapInBeginEnd hw (lt_size_of_parent (hw.wellFormed.parent_of_routineBody hbody))

lemma shapes_quoteBodies (hw : Whole w) : Shapes quoteBodies w := by
  refine shapes_forEachRoutine (fun block asBlock w hw hblock => ends_forest ?_) hw
  refine ends_need hw fun opener hopener => ?_
  have hopener := lt_size_of_parent (hw.wellFormed.parent_of_child hopener)
  refine ends_bind (appendLeaf_grows hw hopener fun w1 h1 => ?_)
  have hblock1 := h1.extended.lt_size (lt_size_of_parent hblock)
  refine ends_bind (append_grows h1.whole hblock1 fun closer w2 h2 hcloser => ?_)
  exact appendLeaves_grows h2.whole (lt_size_of_parent hcloser) fun w3 h3 =>
    ((h1.trans h2).trans h3).shaped

end Routine

namespace ResultSet

variable {w : Workspace}

lemma shapes_openOnCursor {clause statement : Nat} (hw : Whole w) (routine : String) (n : Nat)
    (hclause : w.forest.parent clause = some statement) :
    Shapes (openOnCursor routine n clause statement) w := by
  refine ends_forest (ends_need hw fun container hcontainer => ?_)
  refine ends_bind (insertNewBefore_grows hw hclause fun opening w1 h1 hopening => ?_)
  refine ends_bind (appendLeaves_grows h1.whole (lt_size_of_parent hopening) fun w2 h2 => ?_)
  have hstatement := (h1.trans h2).extended.parent_of hcontainer
  refine ends_bind (insertNewBefore_grows h2.whole hstatement fun declaration w3 h3 hdeclaration =>
    ?_)
  refine ends_bind (append_grows h3.whole (lt_size_of_parent hdeclaration)
    fun declareClause w4 h4 hdeclareClause => ?_)
  refine ends_bind (append_grows h4.whole (lt_size_of_parent hdeclareClause)
    fun block w5 h5 hblock => ?_)
  refine appendLeaves_grows h5.whole (lt_size_of_parent hblock) fun w6 h6 => ?_
  exact (((h1.trans h2).trans h3).trans ((h4.trans h5).trans h6)).shaped

lemma shapes_capture (hw : Whole w) (routine : String) (keyword count : Nat) :
    Shapes (capture routine keyword count) w := by
  refine ends_forest ?_
  split <;> [rename_i clause statement hselect; exact shapes_pure hw]
  exact (shapes_openOnCursor hw routine _ (parent_of_plainSelect? hselect)).bind
    fun _ _ h => shapes_pure h.whole

lemma shapes_captureResultSets (hw : Whole w) : Shapes captureResultSets w := by
  refine Routine.shapes_forEachRoutine (fun block asBlock w hw _ => ?_) hw
  have hname : Shapes (routineName block) w :=
    ends_forest (ends_need hw fun _ _ => ends_need hw fun _ _ => shapes_pure hw)
  refine hname.bind fun routine w1 h1 => ends_discard (ends_forest ?_)
  refine shapes_walkFrom (fun id count w' hw' => ends_forest ?_) _ _ _ w1 h1.whole
  refine ends_ite (fun _ => ?_) fun _ => shapes_pure hw'
  exact (shapes_capture hw' _ _ _).bind fun _ _ h => shapes_pure h.whole

end ResultSet

namespace ControlFlow

variable {w : Workspace}

lemma shapes_blockBranch (hw : Whole w) (id : Nat) : Shapes (blockBranch id) w := by
  refine ends_forest ?_
  split <;> [rename_i container hcontainer; exact shapes_pure hw]
  have hwrap : Shapes (wrapInBeginEnd container) w :=
    shapes_wrapInBeginEnd hw (lt_size_of_parent (hw.wellFormed.parent_of_child hcontainer))
  split
  · exact hwrap
  · exact ends_ite (fun _ => hwrap) fun _ => shapes_pure hw
  · exact shapes_pure hw

lemma shapes_blockBranches (hw : Whole w) : Shapes blockBranches w :=
  shapes_walk (fun id _ hw' => (shapes_blockBranch hw' id).bind fun _ _ h => shapes_pure h.whole) hw

end ControlFlow

/-! ## Main result -/

variable {w w' : Workspace} {passes : List Pass}

/-- The passes that give a routine and its branches their outer form. -/
def shapingPasses : List Pass :=
  [⟨"ddl_parens", Routine.bracketParameters⟩,
    ⟨"language_clause", Routine.addLanguage⟩,
    ⟨"ddl_begin_end", Routine.blockBodies⟩,
    ⟨"block_wrapper", Routine.quoteBodies⟩,
    ⟨"result_sets", ResultSet.captureResultSets⟩,
    ⟨"if_begin_end", ControlFlow.blockBranches⟩]

lemma shapes_of_mem_shapingPasses {pass : Pass} (hpass : pass ∈ shapingPasses) (hw : Whole w) :
    Shapes pass.run w := by
  revert pass
  simp only [shapingPasses, forall_mem_cons, not_mem_nil, false_implies, implies_true, and_true]
  exact ⟨Routine.shapes_bracketParameters hw, Routine.shapes_addLanguage hw,
    Routine.shapes_blockBodies hw, Routine.shapes_quoteBodies hw,
    ResultSet.shapes_captureResultSets hw, ControlFlow.shapes_blockBranches hw⟩

lemma shaped_of_runPasses (hpasses : ∀ pass ∈ passes, pass ∈ shapingPasses) (hw : Whole w)
    (hrun : runPasses passes w = .ok w') : Shaped w w' := by
  induction passes generalizing w with
  | nil =>
    cases hrun
    exact .refl hw
  | cons pass rest ih =>
    have hpass := shapes_of_mem_shapingPasses (hpasses pass (.head _)) hw
    rw [runPasses] at hrun
    split at hrun
    · rename_i w1 hok
      have h1 := (ends_iff.1 hpass).1 _ w1 hok
      exact h1.trans (ih (fun pass hmem => hpasses pass (.tail _ hmem)) h1.whole hrun)
    · cases hrun

/-- A run of shaping passes, in any order and as often as one likes, leaves every node as it was,
reached from the root if it was, and in its place in the order of the tree; white space and what is
below it may come to stand elsewhere. All else that is reached is new. -/
theorem runPasses_wraps (hw : Whole w) (hpasses : ∀ pass ∈ passes, pass ∈ shapingPasses)
    (hrun : runPasses passes w = .ok w') : Wraps w.forest w'.forest :=
  (shaped_of_runPasses hpasses hw hrun).wraps

/-- `create procedure p @a int as if x select 1`, with white space around the parameter. -/
def plainRoutine : SyntaxTree :=
  let leaf (tag : Tag) (text : String) : SyntaxTree := .node tag text .empty []
  let branch : SyntaxTree := .node .statement "" .empty [.node .clause "" .empty
    [leaf .otherKeyword "select", leaf .numberValue "1"]]
  let body : SyntaxTree := .node .statement "" .empty [.node .clause "" .empty
    [.node .ifStatement "" .empty [.node .containerOpen "" .empty [leaf .otherKeyword "if"],
      .node .booleanExpression "" .empty [leaf .otherNode "x"],
      .node .containerSingleStatement "" .empty [branch]]]]
  .node .root "" .empty [.node .ddlProceduralBlock "" .empty
    [leaf .otherKeyword "create", leaf .otherKeyword "procedure", leaf .otherNode "p",
      leaf .whiteSpace " ", leaf .otherNode "@a", leaf .dataTypeKeyword "int", leaf .whiteSpace " ",
      .node .ddlAsBlock "" .empty [.node .containerOpen "" .empty [leaf .otherKeyword "as"],
        .node .containerGeneralContent "" .empty [body]]]]

/-- All six passes find something to do, and the white space before the parameter comes after it. -/
theorem wraps_plainRoutine :
    ∃ w', runPasses shapingPasses { forest := ofTree plainRoutine } = .ok w' ∧
      Wraps (ofTree plainRoutine) w'.forest ∧
      (root :: w'.forest.descendants root).filter (· < (ofTree plainRoutine).size) ≠
        root :: (ofTree plainRoutine).descendants root := by
  obtain ⟨w', hrun, horder⟩ :
      ∃ w', runPasses shapingPasses { forest := ofTree plainRoutine } = .ok w' ∧
      (root :: w'.forest.descendants root).filter (· < (ofTree plainRoutine).size) ≠
        root :: (ofTree plainRoutine).descendants root := by
    decide +kernel
  have hwhole : Whole { forest := ofTree plainRoutine } := whole_ofTree _
  have hwraps := runPasses_wraps hwhole (fun _ hpass => hpass) hrun
  exact ⟨w', hrun, hwraps, horder⟩

end SqlDialect
