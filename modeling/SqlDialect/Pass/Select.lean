import SqlDialect.Conversion.Construct

/-!
# Select statements

Four things change in a select clause: `select ... into t` becomes the creation of a temporary
table from the query, columns `@v = e` are selected into their variables, a column `name = e`
becomes `e as name`, and `top n` becomes a `limit n` at the end of the statement.
-/

namespace SqlDialect.Select

open Conversion

/-- A select whose next clause says `into` creates a temporary table of that name. -/
def intoTable (clause : NodeId) : Conversion Unit := do
  let f ← forest
  let statement ← need "select statement" (f.parent clause)
  let some into := (f.nextSibling clause).filter fun c =>
    (f.childWithText c .otherKeyword "into").isSome | return
  let name ← need "target table of select into" ((f.children into).find? f.isName)
  let tableName := f.text name
  removeChild statement into
  let creation ← insertNewBefore statement .clause "" clause
  appendLeaves creation [(.otherKeyword, "create"), (.otherKeyword, "temp"),
    (.otherKeyword, "table"), (.otherNode, tableName), (.otherKeyword, "as")]

/-- The names of the variables that the columns of a select clause assign to, in order. -/
def assignedNames (f : Forest) (clause : NodeId) : List String :=
  (f.selectColumns clause).filterMap fun column =>
    if f.isVariableAssignment column then (column.find? f.isName).map f.text else none

/-- Appends names with commas between them. -/
def appendNames (parent : NodeId) : List String → Conversion Unit
  | [] => pure ()
  | [name] => appendLeaf parent .otherNode name
  | name :: rest => do
    appendLeaves parent [(.otherNode, name), (.comma, ",")]
    appendNames parent rest

/-- Columns that assign to variables are selected into them. A semicolon in the clause goes. -/
def intoVariables (clause : NodeId) : Conversion Unit := do
  ((← forest).child clause .semicolon).forM (removeChild clause)
  let f ← forest
  let names := assignedNames f clause
  if names.isEmpty then return
  let statement ← need "select statement" (f.parent clause)
  let into ← insertNewAfter statement .clause "" clause
  appendLeaf into .otherKeyword "into"
  appendNames into names

/-- Where the rows of a select clause go. -/
def selectInto (clause : NodeId) : Conversion Unit := do
  intoTable clause
  intoVariables clause

/-- Turns a column `name = value` into `value as name`; comments of the value come last. -/
def aliasColumn (clause : NodeId) (column : List NodeId) : Conversion Unit := do
  let f ← forest
  match column.dropWhile (!f.is · .equalsSign) with
  | [] => return
  | equals :: rest =>
    let name ← need "column alias before =" (column.find? f.isName)
    let value := rest.filter (!f.isComment ·)
    removeChild clause name
    value.forM fun id => moveBefore clause id equals
    insertAfter clause name equals
    setTag equals .otherKeyword
    setText equals "as"

/-- Every column with an equals sign is given its alias with `as`. -/
def aliasColumns (clause : NodeId) : Conversion Unit := do
  ((← forest).selectColumns clause).forM (aliasColumn clause)

/-- Turns `top n` into a limit at the end of the statement. -/
def topToLimit (clause : NodeId) : Conversion Unit := do
  let f ← forest
  let some top := f.childWithText clause .otherKeyword "top" | return
  let count ← need "row count after top" (f.nextSibling top)
  removeChild clause top
  removeChild clause count
  let f ← forest
  let statement ← need "select statement" (f.parent clause)
  let last ← need "last clause of the select" (f.lastChild statement .clause)
  let semicolon ← takeTerminator last
  let limit ← append statement .clause ""
  appendLeaf limit .otherKeyword "limit"
  addChild limit count
  putTerminator limit semicolon

/-- Converts the clause of a `select` keyword. -/
def convertSelect (keyword : NodeId) : Conversion Unit := do
  let f ← forest
  let some clause := f.parent keyword | return
  if (f.parent clause).isNone then return
  selectInto clause
  aliasColumns clause
  topToLimit clause

/-- Converts every select clause. -/
def convertSelects : Conversion Unit :=
  forEachKeyword "select" convertSelect

end SqlDialect.Select
