import SqlDialect.Pass.ControlFlow
import SqlDialect.Pass.DataType
import SqlDialect.Pass.DateFunction
import SqlDialect.Pass.DeclareSection
import SqlDialect.Pass.ErrorHandling
import SqlDialect.Pass.JsonFunction
import SqlDialect.Pass.JsonQuery
import SqlDialect.Pass.OutputClause
import SqlDialect.Pass.Pivot
import SqlDialect.Pass.ProcedureCall
import SqlDialect.Pass.ResultSet
import SqlDialect.Pass.Select
import SqlDialect.Pass.StringAggregate
import SqlDialect.Pass.Terminator
import SqlDialect.Pass.Wording

/-!
# The conversion

A conversion runs named passes one after the other on one workspace, so that a later pass finds
both the tree and the notes as the earlier ones left them.  The order of the standard passes
matters: routines and declarations come first, since they settle where statements stand;
statements follow, then functions, and names and punctuation come last, when no pass looks for a
word any more.
-/

namespace SqlDialect

/-- A named conversion of the whole tree. -/
structure Pass where
  name : String
  run : Conversion Unit

/-- A pass that failed, and why. -/
structure PassError where
  pass : String
  cause : ConversionError
  deriving DecidableEq

def PassError.message (e : PassError) : String :=
  "Pass '" ++ e.pass ++ "' failed: " ++ e.cause.message

/-- The passes of the conversion, in their order. -/
def standardPasses : List Pass :=
  [⟨"procedural_blocks", Routine.convertHeaders⟩,
    ⟨"ddl_parens", Routine.bracketParameters⟩,
    ⟨"language_clause", Routine.addLanguage⟩,
    ⟨"ddl_begin_end", Routine.blockBodies⟩,
    ⟨"block_wrapper", Routine.quoteBodies⟩,
    ⟨"result_sets", ResultSet.captureResultSets⟩,
    ⟨"declare_section", DeclareSection.addSections⟩,
    ⟨"table_variables", TableVariable.convertDeclarations⟩,
    ⟨"unnest_arrays", TableVariable.unnestArrays⟩,
    ⟨"declare_to_assign", DeclareSection.assignInitialValues⟩,
    ⟨"set_to_assign", DeclareSection.assignSets⟩,
    ⟨"cleanup_declare", DeclareSection.dropDeclarations⟩,
    ⟨"guarded_drop", ControlFlow.convertGuardedDrops⟩,
    ⟨"if_begin_end", ControlFlow.blockBranches⟩,
    ⟨"conditions", ControlFlow.convertConditions⟩,
    ⟨"select", Select.convertSelects⟩,
    ⟨"pivot", Pivot.convertPivots⟩,
    ⟨"unpivot", Pivot.convertUnpivots⟩,
    ⟨"delete", DataModification.convertDeletes⟩,
    ⟨"temp_tables", DataModification.convertTempTables⟩,
    ⟨"loops", ControlFlow.convertLoops⟩,
    ⟨"update_from", DataModification.convertUpdates⟩,
    ⟨"unnecessary_statements", Terminator.dropStatements⟩,
    ⟨"mapped_functions", FunctionCall.renameFunctions⟩,
    ⟨"string_agg", StringAggregate.convertOrderings⟩,
    ⟨"for_xml_path", StringAggregate.convertXmlPaths⟩,
    ⟨"format", FunctionCall.convertFormats⟩,
    ⟨"datepart", DateFunction.convertParts⟩,
    ⟨"dateadd", DateFunction.convertSums⟩,
    ⟨"datediff", DateFunction.convertDifferences⟩,
    ⟨"iif", FunctionCall.convertConditionals⟩,
    ⟨"stuff", FunctionCall.convertOverlays⟩,
    ⟨"procedure_calls", ProcedureCall.convertCalls⟩,
    ⟨"insert_into_arrays", TableVariable.insertIntoArrays⟩,
    ⟨"transactions", ErrorHandling.dropTransactions⟩,
    ⟨"try_catch", ErrorHandling.convertErrorHandling⟩,
    ⟨"output_parameters", ProcedureCall.convertOutputParameters⟩,
    ⟨"json_functions", JsonFunction.convertFunctions⟩,
    ⟨"for_json", JsonQuery.convertQueries⟩,
    ⟨"output_clause", OutputClause.convertOutputs⟩,
    ⟨"ddl_other_block_semicolon", Terminator.liftTerminators⟩,
    ⟨"missing_semicolons", Terminator.addTerminators⟩,
    ⟨"cast", DataType.convertCasts⟩,
    ⟨"try_cast", DataType.convertTryCasts⟩,
    ⟨"names", Wording.renameIdentifiers⟩,
    ⟨"data_types", DataType.convertTypes⟩,
    ⟨"identity", DataType.convertIdentities⟩,
    ⟨"nstrings", Wording.convertNationalStrings⟩,
    ⟨"commas_after_comments", Wording.moveCommas⟩,
    ⟨"semicolons_after_comments", Wording.moveSemicolons⟩]

/-- The standard pass of a name. -/
def standardPass? (name : String) : Option Pass :=
  standardPasses.find? (·.name == name)

/-- Runs passes one after the other. The first that fails ends the run. -/
def runPasses : List Pass → Workspace → Except PassError Workspace
  | [], w => .ok w
  | pass :: rest, w =>
    match pass.run w with
    | .ok _ w => runPasses rest w
    | .error cause _ => .error { pass := pass.name, cause }

/-- Runs the standard passes on a forest. -/
def convert (f : Forest) : Except PassError Workspace :=
  runPasses standardPasses { forest := f }

end SqlDialect
