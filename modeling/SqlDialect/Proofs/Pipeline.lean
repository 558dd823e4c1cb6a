import SqlDialect.Pipeline
import SqlDialect.Proofs.Conversion.Editing
import SqlDialect.Proofs.Pass.ControlFlow
import SqlDialect.Proofs.Pass.DataModification
import SqlDialect.Proofs.Pass.DataType
import SqlDialect.Proofs.Pass.DeclareSection
import SqlDialect.Proofs.Pass.ErrorHandling
import SqlDialect.Proofs.Pass.JsonFunction
import SqlDialect.Proofs.Pass.JsonQuery
import SqlDialect.Proofs.Pass.OutputClause
import SqlDialect.Proofs.Pass.Pivot
import SqlDialect.Proofs.Pass.ProcedureCall
import SqlDialect.Proofs.Pass.Routine
import SqlDialect.Proofs.Pass.Select
import SqlDialect.Proofs.Pass.StringAggregate
import SqlDialect.Proofs.Pass.TableVariable
import SqlDialect.Proofs.Pass.Wording

/-!
# What the passes keep, and when they fail to link

Every standard pass leaves a sound workspace, whether it succeeds or fails, so a run of passes in
any order does.  A pass that fails lacks a part of a construct or, in four of them only, tries to
link nodes in a way that the forest refuses: `LinkFault` lists the constructs on which they do so,
and `LinkFault.iff_eq_error` says that it lists them all.
-/

namespace SqlDialect

open Forest Conversion

variable {K : String → Prop} {w w' : Workspace} {pass : Pass} {passes : List Pass}

/-! ## Faults -/

/-- The constructs on which a standard pass asks for a link that the forest refuses. -/
inductive LinkFault (w : Workspace) : Pass → Prop
  /-- The body of a function stands where the name of the table that it returns should. -/
  | header {block asBlock : Nat} {w' : Workspace} :
    Routine.MeetsRoutine Routine.convertHeader w block asBlock w' →
    Routine.HeaderFault w' block asBlock → LinkFault w ⟨"procedural_blocks", Routine.convertHeaders⟩
  /-- A selected column has an equals sign, but its first name comes after the sign. -/
  | column {keyword : Nat} {w' : Workspace} :
    MeetsMatch .otherKeyword (some "select") Select.convertSelect w keyword w' →
    Select.SelectFault w' keyword → LinkFault w ⟨"select", Select.convertSelects⟩
  /-- The second or the third argument of `stuff` is empty. -/
  | overlay {function : Nat} {w' : Workspace} :
    MeetsMatch .functionKeyword (some "stuff") FunctionCall.convertOverlay w function w' →
    FunctionCall.OverlayFault w'.forest function →
    LinkFault w ⟨"stuff", FunctionCall.convertOverlays⟩
  /-- An output clause or its target ends the statement, or the statement has no place for the
  common table expression that the rows are taken from. -/
  | output {keyword : Nat} {w' : Workspace} :
    MeetsMatch .otherKeyword (some "output") OutputClause.convertOutputOf w keyword w' →
    OutputClause.OutputFault w' keyword → LinkFault w ⟨"output_clause", OutputClause.convertOutputs⟩

section

variable (hkey : K simpleTextKey) (hw : w.Sound K)
include hkey hw

/-- Every standard pass keeps the workspace sound and refuses no link without a fault. -/
lemma safe_of_mem_standardPasses
    (hpass : pass ∈ standardPasses) : Safe K (LinkFault w pass) pass.run w := by
  revert pass
  simp only [standardPasses, List.forall_mem_cons, List.not_mem_nil, false_implies, implies_true,
    and_true]
  exact ⟨Routine.convertHeaders_safe hw fun _ _ _ => .header,
    Routine.bracketParameters_safe hw,
    Routine.addLanguage_safe hw,
    Routine.blockBodies_safe hw,
    Routine.quoteBodies_safe hw,
    ResultSet.captureResultSets_safe hw,
    DeclareSection.addSections_safe hw,
    TableVariable.convertDeclarations_safe hw,
    TableVariable.unnestArrays_safe hw,
    DeclareSection.assignInitialValues_safe hw,
    DeclareSection.assignSets_safe hw,
    DeclareSection.dropDeclarations_safe hw,
    ControlFlow.convertGuardedDrops_safe hw,
    ControlFlow.blockBranches_safe hw,
    ControlFlow.convertConditions_safe hw,
    Select.convertSelects_safe hw fun _ _ => .column,
    Pivot.convertPivots_safe hw,
    Pivot.convertUnpivots_safe hw,
    DataModification.convertDeletes_safe hw,
    DataModification.convertTempTables_safe hw,
    ControlFlow.convertLoops_safe hw,
    DataModification.convertUpdates_safe hw,
    Terminator.dropStatements_safe hw,
    FunctionCall.renameFunctions_safe hw,
    StringAggregate.convertOrderings_safe hw,
    StringAggregate.convertXmlPaths_safe hw,
    FunctionCall.convertFormats_safe hw,
    DateFunction.convertParts_safe hw,
    DateFunction.convertSums_safe hw,
    DateFunction.convertDifferences_safe hw,
    FunctionCall.convertConditionals_safe hw,
    FunctionCall.convertOverlays_safe hw fun _ _ => .overlay,
    ProcedureCall.convertCalls_safe hw,
    TableVariable.insertIntoArrays_safe hw,
    ErrorHandling.dropTransactions_safe hw,
    ErrorHandling.convertErrorHandling_safe hkey hw,
    ProcedureCall.convertOutputParameters_safe hw,
    JsonFunction.convertFunctions_safe hw,
    JsonQuery.convertQueries_safe hw,
    OutputClause.convertOutputs_safe hkey hw fun _ _ => .output,
    Terminator.liftTerminators_safe hw,
    Terminator.addTerminators_safe hw,
    DataType.convertCasts_safe hw,
    DataType.convertTryCasts_safe hw,
    Wording.renameIdentifiers_safe hw,
    DataType.convertTypes_safe hw,
    DataType.convertIdentities_safe hw,
    Wording.convertNationalStrings_safe hw,
    Wording.moveCommas_safe hw,
    Wording.moveSemicolons_safe hw⟩

lemma LinkFault.eq_error (h : LinkFault w pass) :
    ∃ cause w', pass.run w = .error (.link cause) w' := by
  cases h with
  | header hmeets hfault => exact Routine.convertHeaders_eq_error hw hmeets hfault
  | column hmeets hfault => exact Select.convertSelects_eq_error hw hmeets hfault
  | overlay hmeets hfault => exact FunctionCall.convertOverlays_eq_error hw hmeets hfault
  | output hmeets hfault => exact OutputClause.convertOutputs_eq_error hkey hw hmeets hfault

/-- A standard pass asks for a link that is refused exactly on the constructs that are listed. -/
lemma LinkFault.iff_eq_error (hpass : pass ∈ standardPasses) :
    LinkFault w pass ↔ ∃ cause w', pass.run w = .error (.link cause) w' := by
  refine ⟨fun h => h.eq_error hkey hw, fun ⟨cause, w', hrun⟩ => ?_⟩
  exact ((ends_iff.1 (safe_of_mem_standardPasses hkey hw hpass)).2 _ w' hrun).2 ⟨cause, rfl⟩

end

/-! ## Runs of passes -/

/-- The workspace that passes leave behind, each run on what the ones before it left, whether
they succeeded or failed. -/
def leaveAll (passes : List Pass) (w : Workspace) : Workspace :=
  passes.foldl (fun w pass => leaves pass.run w) w

lemma leaveAll_sound (hkey : K simpleTextKey) (hpasses : ∀ pass ∈ passes, pass ∈ standardPasses)
    (hw : w.Sound K) : (leaveAll passes w).Sound K := by
  induction passes generalizing w with
  | nil => exact hw
  | cons pass rest ih =>
    have hpass := safe_of_mem_standardPasses hkey hw (hpasses pass (.head _))
    exact ih (fun pass h => hpasses pass (.tail _ h))
      (leaves_of_ends (hpass.mono (fun _ _ h => h.1) fun _ _ h => h.1))

/-- A run that succeeds leaves what its passes leave. -/
lemma leaveAll_of_runPasses (hrun : runPasses passes w = .ok w') : leaveAll passes w = w' := by
  induction passes generalizing w with
  | nil => exact Except.ok.inj hrun
  | cons pass rest ih =>
    rw [runPasses] at hrun
    split at hrun
    · rename_i w1 hpass
      rw [← ih hrun, leaveAll, List.foldl_cons, leaves, hpass]
      rfl
    · cases hrun

/-- A run fails at the first pass that does. -/
lemma runPasses_eq_error_iff {e : PassError} :
    runPasses passes w = .error e ↔ ∃ before pass after w1 w2, passes = before ++ pass :: after ∧
      runPasses before w = .ok w1 ∧ pass.run w1 = .error e.cause w2 ∧ pass.name = e.pass := by
  induction passes generalizing w with
  | nil => simp [runPasses]
  | cons pass rest ih =>
    rw [runPasses]
    split
    · rename_i w' hpass
      rw [ih]
      constructor
      · rintro ⟨before, pass', after, w1, w2, rfl, hbefore, hfail⟩
        exact ⟨pass :: before, pass', after, w1, w2, rfl, by rw [runPasses, hpass]; exact hbefore,
          hfail⟩
      · rintro ⟨_ | ⟨head, before⟩, pass', after, w1, w2, heq, hbefore, hfail, hname⟩
        · obtain ⟨rfl, rfl⟩ := List.cons.inj heq
          cases hbefore
          rw [hpass] at hfail
          cases hfail
        · obtain ⟨rfl, rfl⟩ := List.cons.inj heq
          rw [runPasses, hpass] at hbefore
          exact ⟨before, pass', after, w1, w2, rfl, hbefore, hfail, hname⟩
    · rename_i cause w' hpass
      constructor
      · rintro ⟨⟩
        exact ⟨[], pass, rest, w, w', rfl, rfl, hpass, rfl⟩
      · rintro ⟨_ | ⟨head, before⟩, pass', after, w1, w2, heq, hbefore, hfail, hname⟩
        · obtain ⟨rfl, rfl⟩ := List.cons.inj heq
          cases hbefore
          rw [hpass] at hfail
          obtain ⟨rfl, rfl⟩ : cause = e.cause ∧ w' = w2 := by simpa using hfail
          rw [hname]
        · obtain ⟨rfl, rfl⟩ := List.cons.inj heq
          rw [runPasses, hpass] at hbefore
          cases hbefore

/-! ## Main results -/

lemma eq_error_of_decide {ε α : Type} [DecidableEq ε] {result : Except ε α} {e : ε}
    (h : (match result with | .ok _ => false | .error cause => decide (cause = e)) = true) :
    result = .error e := by
  cases result with
  | ok a => cases h
  | error cause => rw [of_decide_eq_true h]

/-- `select 'total' = x`: the first name of the column comes after the equals sign. -/
def stringAlias : SyntaxTree :=
  let leaf (tag : Tag) (text : String) : SyntaxTree := .node tag text .empty []
  .node .root "" .empty [.node .statement "" .empty [.node .clause "" .empty
    [leaf .otherKeyword "select", leaf .string "total", leaf .equalsSign "=", leaf .otherNode "x"]]]

lemma runPasses_stringAlias : runPasses standardPasses { forest := ofTree stringAlias } =
    .error ⟨"select", .link (.alreadyAttached 6 2)⟩ :=
  eq_error_of_decide (by decide +kernel)

/-- Edits of nodes that exist and standard passes, in any order and however they end, leave the
forest of a tree well-formed; the passes also leave the root at the top and note no number that is
not a node's. -/
theorem wellFormed_of_edits_and_passes (tree : SyntaxTree) :
    (∀ w, Edited { forest := ofTree tree } w → w.forest.WellFormed) ∧
      ∀ passes : List Pass, (∀ pass ∈ passes, pass ∈ standardPasses) →
        let w := leaveAll passes { forest := ofTree tree }
        w.forest.WellFormed ∧ w.forest.parent root = none ∧ w.notes.Within w.forest.size := by
  refine ⟨fun w hedited => hedited.wellFormed (wellFormed_ofTree tree), fun passes hpasses => ?_⟩
  have hsound := leaveAll_sound trivial hpasses
    (sound_ofTree (SyntaxTree.keysIn_true tree))
  exact ⟨hsound.wellFormed, hsound.root_parent, hsound.notes⟩

/-- An edit that is refused, and all passes forwards and backwards after one that fails. -/
theorem wellFormed_stringAlias :
    let w : Workspace := { forest := ofTree stringAlias }
    (leaves (Edit.moveTo 3 1).run w).forest.WellFormed ∧
      (leaveAll (standardPasses ++ standardPasses.reverse) w).forest.WellFormed :=
  have hmain := wellFormed_of_edits_and_passes stringAlias
  ⟨hmain.1 _ (.tail .refl (by decide)), (hmain.2 _ (by simp)).1⟩

/-- A run of standard passes ends with a refused link exactly if one of them comes to a construct
that is at fault. -/
theorem runPasses_eq_link_error_iff (tree : SyntaxTree)
    (hpasses : ∀ pass ∈ passes, pass ∈ standardPasses) (name : String) :
    (∃ cause, runPasses passes { forest := ofTree tree } = .error ⟨name, .link cause⟩) ↔
      ∃ before pass after w, passes = before ++ pass :: after ∧ pass.name = name ∧
        runPasses before { forest := ofTree tree } = .ok w ∧ LinkFault w pass := by
  have hsound : ∀ before pass after w, passes = before ++ pass :: after →
      runPasses before { forest := ofTree tree } = .ok w →
      w.Sound (fun _ => True) ∧ pass ∈ standardPasses := by
    rintro before pass after w rfl hrun
    rw [← leaveAll_of_runPasses hrun]
    exact ⟨leaveAll_sound trivial (fun pass h => hpasses pass (by simp [h]))
      (sound_ofTree (SyntaxTree.keysIn_true tree)), hpasses pass (by simp)⟩
  simp only [runPasses_eq_error_iff]
  constructor
  · rintro ⟨cause, before, pass, after, w, w', hpasses', hrun, hfail, hname⟩
    obtain ⟨hw, hpass⟩ := hsound before pass after w hpasses' hrun
    exact ⟨before, pass, after, w, hpasses', hname, hrun,
      (LinkFault.iff_eq_error trivial hw hpass).2 ⟨cause, w', hfail⟩⟩
  · rintro ⟨before, pass, after, w, hpasses', hname, hrun, hfault⟩
    obtain ⟨hw, hpass⟩ := hsound before pass after w hpasses' hrun
    obtain ⟨cause, w', hfail⟩ := (LinkFault.iff_eq_error trivial hw hpass).1 hfault
    exact ⟨cause, before, pass, after, w, w', hpasses', hrun, hfail, hname⟩

/-- The pass on select clauses comes to a column that is at fault. -/
theorem linkFault_stringAlias :
    ∃ before pass after w, standardPasses = before ++ pass :: after ∧ pass.name = "select" ∧
      runPasses before { forest := ofTree stringAlias } = .ok w ∧ LinkFault w pass :=
  (runPasses_eq_link_error_iff stringAlias (fun _ h => h) "select").1 ⟨_, runPasses_stringAlias⟩

theorem convert_stringAlias :
    convert (ofTree stringAlias) = .error ⟨"select", .link (.alreadyAttached 6 2)⟩ :=
  runPasses_stringAlias

end SqlDialect
