import SqlDialect.Pipeline
import SqlDialect.Proofs.Warning.Account

/-!
# Passes that report nothing

The passes up to the one that converts procedure calls report no approximation. They bring no
warning into a forest that has none: what they make are no comments, copies are made of what is
there, and a text that they give to a node is no warning.

A step is tidy if its parts are, which is a matter of instances; only where a step looks at what it
found are the cases split by hand, and where a text is not fixed it is seen that its node is no
comment.
-/

namespace SqlDialect

open Forest Conversion

variable {strict : Prop} {asBlock block branch clause fields function id keyword mark parens select
  statement : NodeId} {f : Forest} {name word : String}

-- the instance for a long conversion has as many parts as the conversion has steps
set_option synthInstance.maxSize 20000

/-! ## Constructs -/

namespace Conversion

instance : Tidy strict (wrapInBeginEnd id) := .bind

instance : Tidy strict (wrapInParens clause) := .bind

instance : Tidy strict (takeTerminator id) := .bind

instance {semicolon : Option NodeId} : Tidy strict (putTerminator id semicolon) :=
  inferInstanceAs (Tidy strict (semicolon.forM _))

end Conversion

/-! ## Routines -/

namespace Routine

variable {result : TableResult}

instance : IsWord "create" := ⟨rfl⟩

instance : IsWord "replace" := ⟨rfl⟩

lemma forEachRoutine_tidy {convertRoutine : NodeId → NodeId → Conversion Unit}
    (h : ∀ block asBlock, Tidy strict (convertRoutine block asBlock)) :
    Tidy strict (forEachRoutine convertRoutine) :=
  .walk fun _ => .next fun _ => by split <;> infer_instance

instance : Tidy False (createOrReplace block) := .next fun _ => by split <;> infer_instance

instance : Tidy strict (tableResult f block) := by
  rw [tableResult]
  repeat' split
  all_goals infer_instance

instance : Tidy strict (createResultTable result id) := by
  refine .next fun _ => .next fun _ => .next fun _ => .next fun _ => .next fun _ => .next fun _ =>
    .next fun _ => ?_
  split <;> infer_instance

instance : Tidy strict (dropReturned clause keyword) := .next fun _ => by split <;> infer_instance

instance : Tidy strict (returnQuery result id) := .bind

instance : Tidy strict (returnTable block asBlock) :=
  .next fun _ => .next fun _ => by split <;> infer_instance

instance : Tidy False (convertHeader block asBlock) := .bind

instance : Tidy False convertHeaders := forEachRoutine_tidy inferInstance

instance : Tidy strict (nameNode f keyword) := .next fun _ => by split <;> infer_instance

instance : Tidy strict bracketParameters := by
  refine forEachRoutine_tidy fun block asBlock => .next fun f => ?_
  split <;> [skip; infer_instance]
  split <;> [infer_instance; skip]
  refine .next fun name => ?_
  dsimp only
  split <;> infer_instance

instance : Tidy strict addLanguage := forEachRoutine_tidy inferInstance

instance {asBlock : NodeId} : Tidy strict (blockBody asBlock) := .bind

instance : Tidy strict blockBodies := forEachRoutine_tidy inferInstance

instance : Tidy strict quoteBodies := forEachRoutine_tidy inferInstance

end Routine

namespace ResultSet

instance {routine : String} {n : Nat} : Tidy strict (openOnCursor routine n clause statement) :=
  .bind

instance {routine : String} {count : Nat} : Tidy strict (capture routine keyword count) :=
  .next fun _ => by split <;> infer_instance

instance : Tidy strict (routineName block) := .bind

instance {routine : String} {id : NodeId} {count : Nat} :
    Tidy strict (captureVisit routine id count) := .bind

instance {asBlock : NodeId} : Tidy strict (captureRoutine block asBlock) := .bind

instance : Tidy strict captureResultSets := Routine.forEachRoutine_tidy inferInstance

end ResultSet

/-! ## Declarations -/

namespace DeclareSection

variable {d : Declaration}

instance : IsWord ":=" := ⟨rfl⟩

instance : Tidy strict (copySignature clause d) := .bind

instance : Tidy strict (addEntry clause d) := .bind

instance : Tidy strict (addSection asBlock) := .bind

instance : Tidy strict addSections := .next fun f => by
  have hnote : Tidy strict (note fun n => { n with
      declarations := f.declarations root
      arrayVariables := n.arrayVariables ++ (f.declarations root).filterMap (arrayName f) }) :=
    .note fun _ => rfl
  infer_instance

instance : Tidy strict (assignInitialValue statement mark d) := .bind

instance : Tidy strict (assignBlock block) := .bind

instance : Tidy strict (dropLeadingWhiteSpace id) := .next fun _ => by split <;> infer_instance

instance : Tidy False (assignSet keyword) := by
  refine .next fun f => ?_
  split <;> [skip; infer_instance]
  refine .next fun statement => ?_
  split <;> [infer_instance; skip]
  split <;> [infer_instance; skip]
  split <;> infer_instance

instance : Tidy strict (dropBlock block) :=
  .next fun _ => .next fun _ => by split <;> infer_instance

instance {act : NodeId → Conversion Unit} [∀ block, Tidy strict (act block)] :
    Tidy strict (blockVisit act id) := .bind

end DeclareSection

/-! ## Table variables -/

namespace TableVariable

instance {readonly : NodeId} : Tidy strict (arrayParameter parens readonly) := by
  refine .next fun f => ?_
  split <;> [skip; infer_instance]
  split <;> [skip; infer_instance]
  split <;> [skip; infer_instance]
  refine .next fun _ => .next fun _ => .next fun _ => .next fun _ => .next fun f => ?_
  split <;> infer_instance

instance : Tidy strict (arrayParameters parens) := .bind

/-- The name of a table variable is no comment, so it may be given any text. -/
instance {table : NodeId} : Tidy False (tempTable table) := by
  refine .next fun f => .next fun block => .next fun _ => .next fun f => .next fun keyword =>
    .next fun _ => .next fun _ => ⟨fun w => ends_forest (ends_part fun name hname => ?_)⟩
  have htag := tag_ne_of_previousSibling hname
  exact Keeps.after (setText_accounts (isWarning_of_tag htag) (isWarningLabel_of_tag htag _))

instance {target : NodeId} : Tidy strict (unnestTarget target) :=
  .next fun _ => by split <;> infer_instance

instance : Tidy strict unnestArrays := .bind

end TableVariable

/-! ## Branches and loops -/

namespace ControlFlow

instance : IsWord "elsif" := ⟨rfl⟩

instance : IsWord "then" := ⟨rfl⟩

instance : IsWord "end if" := ⟨rfl⟩

instance : IsWord "loop" := ⟨rfl⟩

instance : IsWord "end loop" := ⟨rfl⟩

instance : Tidy strict (unguardDrop id clause) := .bind

instance : Tidy strict convertGuardedDrops :=
  .walk fun _ => .next fun _ => by split <;> infer_instance

instance : Tidy strict (blockBranch branch) := by
  refine .next fun f => ?_
  split <;> [split; skip] <;> infer_instance

instance : Tidy strict (blockVisit id) := .bind

instance [IsWord word] : Tidy False (closeBlock id word) := .bind

instance : Tidy False (beginBranch branch block) := .bind

instance : Tidy False (endBranch branch block) := .bind

instance : Tidy False (openBranch branch block) := .bind

instance : Tidy False (joinElseIf branch) :=
  .next fun _ => .next fun _ => .next fun _ => .next fun _ =>
  .next fun _ => by split <;> infer_instance

instance : Tidy False (convertBranch branch) := .next fun _ => by split <;> infer_instance

instance : Tidy False (conditionVisit id) := .bind

instance : Tidy False (convertLoop id) := .bind

end ControlFlow

/-! ## Queries -/

namespace Select

instance : IsWord "as" := ⟨rfl⟩

instance : Tidy strict (intoTable clause) :=
  .next fun _ => .next fun _ => by split <;> infer_instance

instance {names : List String} : Tidy strict (appendNames id names) := by
  fun_induction appendNames id names <;> infer_instance

instance : Tidy strict (intoVariables clause) := .bind

instance : Tidy strict (selectInto clause) := .bind

instance {column : List NodeId} : Tidy False (aliasColumn clause column) :=
  .next fun _ => by split <;> infer_instance

instance : Tidy False (aliasColumns clause) := .bind

instance : Tidy strict (topToLimit clause) := .next fun _ => by split <;> infer_instance

instance : Tidy False (convertSelect keyword) := .next fun _ => by split <;> infer_instance

end Select

namespace Pivot

variable {d : Definition} {positions : List Nat} {asTexts : Bool} {u : Unpivoting}

instance : Tidy strict (readDefinition id) := .bind

instance {column : List NodeId} : Tidy strict (aggregateColumn d select name column) := .bind

instance {position : Nat} {columns : List (List NodeId)} :
    Tidy strict (aggregateColumns d select position columns) := by
  induction columns generalizing position with
  | nil => exact inferInstanceAs (Tidy strict (pure _))
  | cons column rest ih =>
    refine .next fun f => ?_
    split <;> infer_instance

instance : Tidy strict (appendPositions id positions) := by
  fun_induction appendPositions id positions <;> infer_instance

instance : Tidy strict (addGroupBy statement positions) := .bind

instance : Tidy strict (convertPivot id) := .next fun _ => by split <;> infer_instance

instance : Tidy False (appendUnnest clause fields asTexts) := .bind

instance : Tidy strict (readUnpivoting clause id) := .bind

instance : Tidy False (fillDerivedTable id u) := .bind

instance : Tidy False (convertUnpivot id) := .next fun _ => by split <;> infer_instance

end Pivot

/-! ## Changes of tables -/

namespace DataModification

instance : Tidy strict (convertDelete keyword) := by
  refine .next fun f => ?_
  split <;> [split; skip] <;> [split; infer_instance; infer_instance]
  · infer_instance
  · split <;> infer_instance

instance : Tidy strict (convertTempTable block) := by
  refine .next fun f => ?_
  split <;> [skip; infer_instance]
  refine .next fun _ => .next fun f => ?_
  split <;> [exact .note fun _ => rfl; infer_instance]

instance : Tidy strict (openCondition statement) := .next fun _ => by split <;> infer_instance

variable {update target selection mention : NodeId} {w : Workspace}

/-- What an update is given once its target has been found among the tables that it joins. The
target is a name, so it may be given any text. -/
lemma joinTarget_accounts (htarget : w.forest.tag target = .otherNode) : TidyAt False w (do
      let isAlias := (w.forest.indexOf selection mention).any (0 < ·)
      let table ←
        if isAlias then
          need "table of the aliased update target" (w.forest.child selection .otherNode)
        else pure mention
      let reference := w.forest.text ((aliasOf w.forest table).getD mention)
      if isAlias then setText target (w.forest.text table)
      appendLeaves update [(.otherKeyword, "as"), (.otherNode, updateAlias)]
      let (clause, mark) ← openCondition statement
      discard <| insertLeavesAfter clause mark
        [(.otherNode, updateAlias), (.period, "."), (.otherNode, "ctid"), (.equalsSign, "="),
          (.otherNode, reference), (.period, "."), (.otherNode, "ctid")]) := by
  have hne : w.forest.tag target ≠ .commentMultiLine := by rw [htarget]; decide
  have hjoin (reference : String) : Tidy False (do
      appendLeaves update [(.otherKeyword, "as"), (.otherNode, updateAlias)]
      let (clause, mark) ← openCondition statement
      discard <| insertLeavesAfter clause mark
        [(.otherNode, updateAlias), (.period, "."), (.otherNode, "ctid"), (.equalsSign, "="),
          (.otherNode, reference), (.period, "."), (.otherNode, "ctid")]) := .bind
  have htext (table : NodeId) : TidyAt False w (setText target (w.forest.text table)) :=
    setText_accounts (isWarning_of_tag hne) (isWarningLabel_of_tag hne _)
  refine ends_ite (fun halias => ends_part fun table _ => ?_) fun halias => ?_
  · exact ends_ite (fun _ => Keeps.after (htext table)) fun _ => (hjoin _).ends w
  · exact ends_ite (fun _ => Keeps.after (htext mention)) fun _ => (hjoin _).ends w

instance : Tidy False (convertUpdate keyword) := ⟨fun w => ends_forest <| by
  split <;> [skip; exact ends_pure (Lax.refl w)]
  split <;> [skip; exact ends_pure (Lax.refl w)]
  split <;> [skip; exact ends_pure (Lax.refl w)]
  split <;> [rename_i htarget; exact ends_pure (Lax.refl w)]
  split <;> [exact joinTarget_accounts (tag_of_child htarget); exact ends_pure (Lax.refl w)]⟩

end DataModification

/-! ## Functions -/

namespace FunctionCall

instance : IsWord "to_char" := ⟨rfl⟩

instance : IsWord "overlay" := ⟨rfl⟩

instance : IsWord "placing" := ⟨rfl⟩

instance : IsWord "from" := ⟨rfl⟩

instance : IsWord "for" := ⟨rfl⟩

instance [IsWord word] : Tidy False (toKeyword id word) := .bind

lemma tag_ne_of_newName (h : newName? f id = some name) : f.tag id ≠ .commentMultiLine := by
  intro htag
  simp [newName?, is, htag] at h

instance : Tidy False renameFunctions := by
  have hrename (id : NodeId) : Tidy False (do (newName? (← forest) id).forM (setText id)) := by
    refine ⟨fun w => ends_forest ?_⟩
    cases hname : newName? w.forest id with
    | none => exact ends_pure (Lax.refl w)
    | some name =>
      have hne := tag_ne_of_newName hname
      exact setText_accounts (isWarning_of_tag hne) (isWarningLabel_of_tag hne _)
  exact .bind

instance : Tidy False (convertFormat function) := ⟨fun w => ends_forest <| by
  split <;> [skip; exact ends_pure (Lax.refl w)]
  refine ends_part fun picture hpicture => ?_
  have hnamed : Tidy False (setText function "to_char") := inferInstance
  refine ends_bind ((hnamed.ends w).run.imp (fun _ w1 ⟨hrun, h1⟩ => ?_))
  obtain rfl : { w with forest := w.forest.setText function "to_char" } = w1 := by cases hrun; rfl
  have hne : (w.forest.setText function "to_char").tag picture ≠ .commentMultiLine := by
    rw [tag_setText, tag_of_child hpicture]
    decide
  exact Ends.imp (setText_accounts (isWarning_of_tag hne) (isWarningLabel_of_tag hne _))
    (fun _ _ h2 => h1.trans h2)⟩

/-- Conversions of calls make no nodes of the kind. -/
abbrev Unmade (kind : Tag) : Prop :=
  kind = .commentMultiLine ∨ kind = .otherNode ∨ kind = .functionKeyword

section

variable {R : Workspace → Workspace → Prop} {kind : Tag} [Lax R kind]

instance {ids : List NodeId} : Keeps R (moveAllBefore id mark ids) :=
  inferInstanceAs (Keeps R (ids.forM _))

lemma fillBranch_keeps (h : Unmade kind) (branch : NodeId) (word : String) (nodes : List NodeId) :
    Keeps R (fillBranch branch word nodes) := by
  rcases h with rfl | rfl | rfl <;> exact .bind

lemma convertConditional_keeps (h : Unmade kind) (function : NodeId) :
    Keeps R (convertConditional function) := by
  have hfill := fillBranch_keeps (R := R) h
  refine .next fun f => .next fun _ => .next fun _ => ?_
  split <;> rcases h with rfl | rfl | rfl <;> infer_instance

end

instance : Tidy strict convertConditionals :=
  have := convertConditional_keeps (R := Accounts strict) (.inl rfl)
  inferInstanceAs (Tidy strict (forEachMatch _ _ _))

instance {first second third start length replacement : NodeId} :
    Tidy strict (reorderOverlay id first second third start length replacement) := .bind

instance : Tidy False (convertOverlay function) :=
  .next fun _ => .next fun _ => by split <;> infer_instance

end FunctionCall

namespace StringAggregate

instance {part : NodeId} : Tidy strict (moveOrdering parens part) :=
  .next fun _ => by split <;> infer_instance

instance : Tidy strict (convertOrdering function) :=
  .next fun _ => .next fun _ => by split <;> infer_instance

instance : Tidy strict (takeSeparator select) := by
  refine .next fun f => ?_
  split <;> [split; skip] <;> infer_instance

instance : Tidy strict (dropTrailingWhiteSpace id) := .bind

instance : Tidy strict (aggregateColumns select word) := .bind

instance : Tidy strict (convertXmlPath id) := by
  refine .next fun f => ?_
  split <;> [infer_instance; skip]
  refine .next fun _ => .next fun _ => .next fun _ => .next fun _ => .next fun _ => ?_
  split <;> infer_instance

end StringAggregate

namespace DateFunction

instance : IsWord "extract" := ⟨rfl⟩

instance : IsWord "-" := ⟨rfl⟩

section

variable {R : Workspace → Workspace → Prop} {kind : Tag} [Lax R kind]

lemma appendInterval_keeps (h : FunctionCall.Unmade kind) (sum : NodeId) (amount : List NodeId)
    (unit : String) : Keeps R (appendInterval sum amount unit) := by
  refine .next fun f => ?_
  split <;> rcases h with rfl | rfl | rfl <;> infer_instance

lemma convertSum_keeps (h : FunctionCall.Unmade kind) (function : NodeId) :
    Keeps R (convertSum function) := by
  have hinterval := appendInterval_keeps (R := R) h
  refine .next fun f => .next fun _ => .next fun _ => ?_
  split <;> rcases h with rfl | rfl | rfl <;> infer_instance

end

instance : Tidy strict convertSums :=
  have := convertSum_keeps (R := Accounts strict) (.inl rfl)
  inferInstanceAs (Tidy strict (forEachMatch _ _ _))

instance : Tidy False (convertPart function) := by
  unfold convertPart
  infer_instance

instance : Tidy False (convertDifference function) :=
  .next fun _ => .next fun _ => by split <;> infer_instance

end DateFunction

end SqlDialect
