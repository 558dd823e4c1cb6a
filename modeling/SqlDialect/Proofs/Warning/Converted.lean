import SqlDialect.Proofs.Warning.Count
import SqlDialect.Proofs.Conversion.Preorder
import SqlDialect.Proofs.Pipeline
import SqlDialect.Proofs.SyntaxTree.Parts

/-!
# Warnings of a conversion

A conversion counts the approximations that it makes, and marks each with a comment.  The comment
need not be in the result: a column that stands under the same name as a later one is dropped, with
all the warnings in it (`convert_droppedColumn`), and rows that are copied take their warnings
along.  What can be relied on is that each approximation which is counted was marked, and that a
result without any counted has no mark (`convert_accounts_for_warnings`).  If no mark was copied,
the count is exact just if every mark is still reached.
-/

namespace SqlDialect

open Forest Conversion SyntaxTree List

lemma accounts_of_runPasses {strict : Prop} {passes : List Pass} {w w' : Workspace}
    (hpasses : ∀ pass ∈ passes, Tidy strict pass.run) (hrun : runPasses passes w = .ok w') :
    Accounts strict w w' := by
  induction passes generalizing w with
  | nil =>
    obtain rfl := Except.ok.inj hrun
    exact Lax.refl w
  | cons pass rest ih =>
    rw [runPasses] at hrun
    split at hrun
    · rename_i w1 hpass
      have hstep := (ends_iff.1 ((hpasses pass (.head _)).ends w)).1 _ _ hpass
      exact hstep.trans (ih (fun pass h => hpasses pass (.tail _ h)) hrun)
    · cases hrun

/-- A run that succeeds is a run of the first passes and then one of the others. -/
lemma runPasses_append_eq_ok {first rest : List Pass} {w w' : Workspace}
    (hrun : runPasses (first ++ rest) w = .ok w') :
    ∃ w1, runPasses first w = .ok w1 ∧ runPasses rest w1 = .ok w' := by
  induction first generalizing w with
  | nil => exact ⟨w, rfl, hrun⟩
  | cons pass first ih =>
    rw [cons_append, runPasses] at hrun
    rw [runPasses]
    split at hrun
    · exact ih hrun
    · cases hrun

/-- The passes before the first that reports. -/
def quietPasses : List Pass :=
  standardPasses.take 32

/-- The passes from the first that reports on. -/
def countingPasses : List Pass :=
  standardPasses.drop 32

section

open Routine ResultSet DeclareSection ControlFlow Select Pivot DataModification StringAggregate
  FunctionCall DateFunction ErrorHandling Terminator DataType Wording

lemma tidy_of_mem_quietPasses {pass : Pass} (hpass : pass ∈ quietPasses) : Tidy False pass.run := by
  revert pass
  simp only [quietPasses, standardPasses, take_succ_cons, take_zero, forall_mem_cons,
    not_mem_nil, false_implies, implies_true, and_true, TableVariable.convertDeclarations,
    assignInitialValues, assignSets, dropDeclarations, blockBranches, convertConditions,
    convertSelects, convertPivots, convertUnpivots, convertDeletes, convertTempTables, convertLoops,
    convertUpdates, dropStatements, convertOrderings, convertXmlPaths, convertFormats, convertParts,
    convertDifferences, convertOverlays]
  and_intros <;> infer_instance

lemma tidy_of_mem_countingPasses {pass : Pass} (hpass : pass ∈ countingPasses) :
    Tidy True pass.run := by
  revert pass
  simp only [countingPasses, standardPasses, drop_succ_cons, drop_zero, forall_mem_cons,
    not_mem_nil, false_implies, implies_true, and_true, dropTransactions, JsonQuery.convertQueries,
    convertTryCasts, moveCommas, moveSemicolons]
  and_intros <;> infer_instance

end

/-! ## Warnings that are reached -/

namespace Forest

variable {f : Forest} (hf : f.WellFormed)
include hf

lemma WellFormed.warningCount_subtree (id : Nat) :
    (f.subtree id).warningCount = ((id :: f.descendants id).filter f.isWarning).length := by
  induction id using hf.induction_children with
  | _ id ih =>
    have hall (ids : List Nat) (hids : ids ⊆ f.children id) : warningCountAll (ids.map f.subtree) =
        ((ids.flatMap fun c => c :: f.descendants c).filter f.isWarning).length := by
      induction ids with
      | nil => rfl
      | cons c ids ihids =>
        rw [cons_subset] at hids
        rw [map_cons, warningCountAll, ih c hids.1, ihids hids.2, flatMap_cons,
          filter_append, length_append]
    rw [hf.subtree_eq, warningCount, hall _ (Subset.refl _), ← hf.descendants_eq,
      filter_cons, isWarning]
    split
    · rename_i h
      rw [h, length_cons, Bool.toNat_true, Nat.add_comm]
    · rename_i h
      rw [Bool.eq_false_iff.2 h, Bool.toNat_false, Nat.zero_add]

/-- All warnings are counted in the tree just if all are reached. -/
lemma WellFormed.warningCount_tree_eq_iff : f.tree.warningCount = f.warningComments.length ↔
    ∀ id ∈ f.warningComments, f.Under id root := by
  have hsub : (root :: f.descendants root).filter f.isWarning ⊆ f.warningComments := fun id hid =>
    mem_warningComments.2 (mem_filter.1 hid).2
  have hperm := subperm_of_subset ((hf.nodup_preorder root).filter _) hsub
  rw [Forest.tree, hf.warningCount_subtree]
  constructor
  · intro hlength id hid
    have hreached := (hperm.perm_of_length_le hlength.ge).mem_iff.2 hid
    exact hf.mem_preorder_iff.1 (mem_filter.1 hreached).1
  · intro hreached
    refine hperm.length_le.antisymm (subperm_of_subset (nodup_warningComments f) fun id hid =>
      ?_).length_le
    exact mem_filter.2 ⟨hf.mem_preorder_iff.2 (hreached id hid), mem_warningComments.1 hid⟩

end Forest

/-! ## Main results -/

/-- Of a tree without warnings, each approximation that its conversion counts is marked with a
comment of its own, and what the conversion gives has a warning only if approximations were counted.
If there are no other marks, as many are reached as were counted just if none has been dropped. -/
theorem convert_accounts_for_warnings {tree : SyntaxTree} {w : Workspace}
    (htree : tree.warningCount = 0) (hrun : convert (ofTree tree) = .ok w) :
    w.notes.warnings ≤ w.forest.warningComments.length ∧
      (w.notes.warnings = 0 ↔ w.forest.warningComments = []) ∧
      (w.notes.warnings = 0 → w.forest.tree.warningCount = 0) ∧
      (w.forest.warningComments.length = w.notes.warnings →
        (w.forest.tree.warningCount = w.notes.warnings ↔
          ∀ id ∈ w.forest.warningComments, w.forest.Under id root)) := by
  have hsound : Whole w := by
    rw [← leaveAll_of_runPasses hrun]
    exact leaveAll_sound trivial (fun _ hpass => hpass) (whole_ofTree tree)
  rw [convert, ← List.take_append_drop 32 standardPasses] at hrun
  obtain ⟨w₁, hquiet, hcounting⟩ := runPasses_append_eq_ok hrun
  have h₁ := accounts_of_runPasses (fun _ => tidy_of_mem_quietPasses) hquiet
  have h₂ := accounts_of_runPasses (fun _ => tidy_of_mem_countingPasses) hcounting
  have hzero : w₁.notes.warnings = 0 := h₁.silent not_false
  have hunmarked : w₁.forest.Unmarked := h₁.unmarked hzero (unmarked_ofTree htree)
  have hcounted := h₂.counted trivial
  rw [hzero, unmarked_iff.1 hunmarked, List.length_nil] at hcounted
  have hnone (h : w.notes.warnings = 0) : w.forest.Unmarked :=
    h₂.unmarked (h.trans hzero.symm) hunmarked
  refine ⟨by omega, ⟨fun h => unmarked_iff.1 (hnone h), fun h => ?_⟩, fun h => ?_, fun h => ?_⟩
  · rw [h, List.length_nil] at hcounted
    omega
  · exact (hnone h).warningCount_subtree root
  · rw [← h]
    exact hsound.wellFormed.warningCount_tree_eq_iff

/-- `select … for json auto`, or with another mode. -/
def jsonQuery (columns : List SyntaxTree) (mode : String) : List SyntaxTree :=
  [group .clause (keyword "select" :: columns),
    group .clause [keyword "for", .node .otherNode "json" .empty [],
    .node .otherNode mode .empty []]]

/-- `select a for json auto`. -/
def autoQuery : SyntaxTree :=
  group .root [group .statement (jsonQuery [.node .otherNode "a" .empty []] "auto")]

/-- The warning of a query is counted and stands in the result. -/
theorem convert_accounts_for_warnings_autoQuery : ∃ w, convert (ofTree autoQuery) = .ok w ∧
    w.notes.warnings = 1 ∧ w.forest.tree.warningCount = 1 ∧
      w.notes.warnings ≤ w.forest.warningComments.length := by
  obtain ⟨w, hconvert, hwarnings, hcount⟩ : ∃ w, convert (ofTree autoQuery) = .ok w ∧
      w.notes.warnings = 1 ∧ w.forest.tree.warningCount = 1 := by decide +kernel
  have htree : autoQuery.warningCount = 0 := by decide
  exact ⟨w, hconvert, hwarnings, hcount, (convert_accounts_for_warnings htree hconvert).1⟩

/-- A query for JSON of two columns that are both called `[x.y]`; the first is such a query, too. -/
def droppedColumn : SyntaxTree :=
  let name : SyntaxTree := .node .bracketQuotedName "x.y" .empty []
  let inner := group .expressionParens (jsonQuery [.node .otherNode "a" .empty []] "auto")
  group .root [group .statement (jsonQuery [inner, keyword "as", name, .node .comma "," .empty [],
    .node .otherNode "b" .empty [], keyword "as", name] "path")]

/-- The first column goes, and its warning with it; the warning has been counted. -/
theorem convert_droppedColumn : droppedColumn.warningCount = 0 ∧
    ∃ w, convert (ofTree droppedColumn) = .ok w ∧ w.notes.warnings = 1 ∧
      w.forest.tree.warningCount = 0 := by
  decide +kernel

end SqlDialect
