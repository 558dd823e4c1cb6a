import SqlDialect.Conversion.Construct

/-!
# Table variables

A variable with columns of its own becomes a temporary table.  A parameter or variable of a table
type becomes an array of that type, which is read with `unnest` and appended to with `array_cat`.
Which variables are arrays is kept in the notes.
-/

namespace SqlDialect.TableVariable

open Conversion

/-- The text with every at sign replaced by an underscore. -/
def withoutAtSigns (text : String) : String :=
  String.ofList (text.toList.map fun c => if c == '@' then '_' else c)

/-! ## Declarations -/

/-- Turns a parameter `@p schema.Type readonly` into `@p Type[]`; without a schema it is left
alone. -/
def arrayParameter (parens readonly : NodeId) : Conversion Unit := do
  let f ← forest
  let some typeName := f.previousSibling readonly | return
  let some period := (f.previousAdjacent typeName).filter (f.is · .period) | return
  let some schema := f.previousAdjacent period | return
  removeChild parens schema
  removeChild parens period
  removeChild parens readonly
  discard <| insertNewAfter parens .period "[]" typeName
  let f ← forest
  match f.previousSibling typeName with
  | some parameter => noteArray (f.text parameter)
  | none => pure ()

/-- A word that marks a parameter as a table that is only read. -/
def isReadonly (f : Forest) (id : NodeId) : Bool :=
  f.hasText id "readonly" && (f.is id .otherNode || f.is id .otherKeyword)

/-- The parameters of a table type in a list become arrays. -/
def arrayParameters (parens : NodeId) : Conversion Unit := do
  let f ← forest
  ((f.children parens).filter (isReadonly f)).forM (arrayParameter parens)

/-- Turns `declare @t table (...)` into `create temp table _t (...)`. -/
def tempTable (table : NodeId) : Conversion Unit := do
  let block ← need "declaration block" ((← forest).parent table)
  setTag block .ddlOtherBlock
  let keyword ← need "declare keyword" ((← forest).childWithText block .otherKeyword "declare")
  setText keyword "create"
  discard <| insertNewAfter block .otherKeyword "temp" keyword
  let f ← forest
  let name ← need "table variable name" (f.previousSibling table)
  setText name (withoutAtSigns (f.text name))
  moveAfter block name table

/-- Table types become arrays, inline tables become temporary tables. -/
def convertDeclarations : Conversion Unit :=
  walk Forest.root fun id => do
    let f ← forest
    if f.is id .ddlParens then
      arrayParameters id
    else if f.isText id .otherKeyword "table" && (f.parent id).any (f.is · .ddlDeclareBlock) then
      tempTable id
    return .descend

/-! ## Use -/

/-- Reads the array at the start of a selection target through `unnest`. -/
def unnestTarget (target : NodeId) : Conversion Unit := do
  let f ← forest
  let some name := f.firstSignificantChild target | return
  if !(f.is name .otherNode && (← notes).isArrayVariable (f.text name)) then return
  discard <| insertNewBefore target .functionKeyword "unnest" name
  let parens ← insertNewBefore target .functionParens "" name
  moveTo parens name

/-- Arrays that are selected from are read through `unnest`. -/
def unnestArrays : Conversion Unit := do
  if (← notes).arrayVariables.isEmpty then return
  forEach .selectionTarget unnestTarget

/-- The name given to the rows that are appended to an array. -/
def rowAlias : String := "_t"

/-- Makes the inserted values the rows of a derived table in their clause. -/
def deriveFromValues (values : NodeId) : Conversion Unit := do
  let nodes := (← forest).children values
  appendLeaf values .otherKeyword "from"
  let target ← append values .selectionTarget ""
  let parens ← append target .selectionTargetParens ""
  let rows ← append parens .clause ""
  moveAllTo rows nodes
  appendLeaf target .otherNode rowAlias

/-- Makes the query of an insert a derived table in a clause of its own. -/
def deriveFromQuery (statement insertClause : NodeId) (query : List NodeId) : Conversion Unit := do
  let wrapper ← insertNewAfter statement .clause "" insertClause
  appendLeaf wrapper .otherKeyword "from"
  let parens ← append wrapper .selectionTargetParens ""
  appendLeaf wrapper .otherNode rowAlias
  moveAllTo parens query

/-- Makes the rows that an insert adds a derived table. -/
def deriveRows (statement insertClause : NodeId) : Conversion Unit := do
  let f ← forest
  let tail := f.siblingsAfter insertClause
  match tail.find? fun c => (f.childWithText c .otherKeyword "values").isSome with
  | some values => deriveFromValues values
  | none => deriveFromQuery statement insertClause tail

/-- Puts the assignment that appends the rows of a derived table in front of a statement. -/
def appendRows (container statement insertClause table : NodeId) : Conversion Unit := do
  let assignment ← insertNewBefore container .statement "" statement
  let clause ← append assignment .clause ""
  appendCopy clause table
  appendLeaves clause [(.equalsSign, ":="), (.functionKeyword, "array_cat")]
  let concat ← append clause .functionParens ""
  appendCopy concat table
  appendLeaf concat .comma ","
  let rows ← append concat .expressionParens ""
  let aggregate ← append rows .clause ""
  appendLeaves aggregate [(.otherKeyword, "select"), (.functionKeyword, "array_agg")]
  let aggregateParens ← append aggregate .functionParens ""
  appendLeaf aggregateParens .otherNode rowAlias
  ((← forest).siblingsAfter insertClause).forM (appendCopy rows)
  appendLeaf clause .semicolon ";"

/-- Turns an insert into an array into an assignment to it. -/
def insertIntoArray (keyword : NodeId) : Conversion Unit := do
  let f ← forest
  let some insertClause := f.closestAncestor keyword .clause | return
  let some table := f.child insertClause .otherNode | return
  if !(← notes).isArrayVariable (f.text table) then return
  let statement ← need "insert statement" (f.parent insertClause)
  let container ← need "statement container" (f.parent statement)
  discard <| takeTerminator statement
  deriveRows statement insertClause
  appendRows container statement insertClause table
  removeChild container statement

/-- Inserts into arrays become assignments. -/
def insertIntoArrays : Conversion Unit := do
  if (← notes).arrayVariables.isEmpty then return
  forEachKeyword "insert" insertIntoArray

end SqlDialect.TableVariable
