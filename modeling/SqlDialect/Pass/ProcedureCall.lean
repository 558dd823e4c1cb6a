import SqlDialect.Pass.DataModification
import SqlDialect.Pass.TableVariable

/-!
# Procedure calls

`exec p @a = 1, @b out` becomes `call p(@a => 1, @b)`.  An `insert ... exec` is split in two: the
call, and an insert that reads the cursor over the first result set of the procedure.  How the
rows of that cursor are shaped is known when the table is a temporary one or a declared variable;
else the columns are left to be filled in by hand, with a warning.

The parameters that a procedure returns are marked in front, `out @a int`, and not at the end.
-/

namespace SqlDialect.ProcedureCall

open Conversion

/-- The words that mark an output parameter. -/
def outputWords : List String := ["output", "out"]

/-! ## Calls -/

/-- The last part of a qualified name; its first part is `name`, followed by the siblings `rest`. -/
def lastPart (f : Forest) (name : NodeId) (rest : List NodeId) : Conversion NodeId :=
  match rest with
  | [] => return name
  | [mark] => if f.is mark .period then throw (.shape "name after schema") else return name
  | mark :: part :: rest => if f.is mark .period then lastPart f part rest else return name

/-- Moves an argument into the brackets of the call; an output mark goes. -/
def bracketArgument (parens argument : NodeId) : Conversion Unit := do
  let f ← forest
  if f.isKeyword argument outputWords then
    detach argument
  else
    if f.is argument .equalsSign then setText argument "=>"
    moveTo parens argument

/-- Turns an `exec` into a `call` with bracketed arguments; gives its clause and the name of the
procedure. -/
def bracketCall (keyword : NodeId) : Conversion (NodeId × NodeId) := do
  let f ← forest
  let clause ← need "clause of the call" (f.parent keyword)
  let first ← need "called procedure" (f.nextSibling keyword)
  let name ← lastPart f first (f.siblingsAfter first)
  setText keyword "call"
  let arguments := f.trimWhiteSpace ((f.siblingsAfter name).filter (!f.is · .semicolon))
  let parens ← insertNewAfter clause .functionParens "" name
  arguments.forM (bracketArgument parens)
  return (clause, name)

/-! ## Inserting the result of a call -/

/-- How the rows of an insert target are shaped. -/
inductive RowShape where
  /-- By a list of columns. -/
  | columns (definition : NodeId)
  /-- By a type. -/
  | type (name : String)

/-- What is known of the rows of a table, from the temporary tables and the declared variables. -/
def rowShape? (f : Forest) (notes : Notes) (table : String) : Option RowShape :=
  match notes.tempTables.get? (Text.lowercase table) with
  | some definition => some (.columns definition)
  | none => do
    let renamed := TableVariable.withoutAtSigns table
    let d ← notes.declarations.find? fun d => d.declares f table || d.declares f renamed
    if d.isTable f then
      (d.signature.find? (f.is · .ddlParens)).map .columns
    else
      (d.signature.reverse.find? (f.is · .otherNode)).map fun id => .type (f.text id)

/-- Selects from all rows of a cursor; the brackets for their columns follow. -/
def fetchAll (target : NodeId) (cursor : String) : Conversion Unit := do
  appendLeaf target .functionKeyword "fetch_all_from"
  let parens ← append target .functionParens ""
  appendLeaf parens .string cursor
  appendLeaf target .otherKeyword "as"

/-- Selects from a cursor whose rows have a shape. -/
def fetchRows (target : NodeId) (cursor : String) : Option RowShape → Conversion Unit
  | some (.columns definition) => do
    fetchAll target cursor
    let columns ← copy definition
    setTag columns .expressionParens
    addChild target columns
  | some (.type name) => do
    appendLeaf target .functionKeyword "refcursor_populate_recordset"
    let parens ← append target .functionParens ""
    appendLeaves parens [(.otherKeyword, "null"), (.period, "::"), (.otherNode, name),
      (.comma, ","), (.string, cursor)]
  | none => do
    fetchAll target cursor
    let stub ← append target .expressionParens ""
    appendLeaf stub .commentMultiLine
      "converter warning: (TODO) inserting into a table with unknown columns. Add them here"
    warn

/-- Puts the insert that reads the result of a call behind the statement of the call. -/
def insertResult (statement insert name : NodeId) : Conversion Unit := do
  let f ← forest
  let procedure := Text.lowercase (f.text name)
  let container ← need "statement container" (f.parent statement)
  let insertion ← insertNewAfter container .statement "" statement
  moveTo insertion insert
  let f ← forest
  let table ← need "target table of insert exec" (f.child insert .otherNode)
  let tableName := f.text table
  let select ← append insertion .clause ""
  appendLeaves select [(.otherKeyword, "select"), (.asterisk, "*")]
  let source ← append insertion .clause ""
  appendLeaf source .otherKeyword "from"
  let target ← append source .selectionTarget ""
  fetchRows target (procedure ++ "_select1") (rowShape? (← forest) (← notes) tableName)

/-- Converts a call and, if its statement is an insert, splits the insert off. -/
def convertCall (keyword : NodeId) : Conversion Unit := do
  let (clause, name) ← bracketCall keyword
  let f ← forest
  let statement ← need "statement of the call" (f.parent clause)
  match (f.children statement).find? fun c =>
      c != clause && DataModification.isInsertClause f c with
  | some insert => insertResult statement insert name
  | none => pure ()

/-- Converts a node if it is an `exec`. -/
def callVisit (id : NodeId) : Conversion Visit := do
  if (← forest).isKeyword id ["exec", "execute"] then convertCall id
  return .descend

/-- Every `exec` becomes a call. -/
def convertCalls : Conversion Unit :=
  walk Forest.root callVisit

/-! ## Output parameters -/

/-- Moves an output mark to the front of its parameter. -/
def moveOutputMark (parens mark : NodeId) : Conversion Unit := do
  let f ← forest
  let (before, _) ← need "output marker" (f.around parens mark)
  detach mark
  setText mark "out"
  match before.reverse.find? (f.is · .comma) with
  | some comma => insertAfter parens mark comma
  | none =>
    let first ← need "first parameter" ((← forest).firstSignificantChild parens)
    insertBefore parens mark first

/-- Moves every output mark of a parameter list. -/
def moveOutputMarks (parens : NodeId) : Conversion Unit := do
  let f ← forest
  ((f.children parens).filter (f.isKeyword · outputWords)).forM (moveOutputMark parens)

/-- Turns `@a int output` in a parameter list into `out @a int`. -/
def convertOutputParameters : Conversion Unit :=
  forEach .ddlParens moveOutputMarks

end SqlDialect.ProcedureCall
