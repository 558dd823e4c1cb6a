import SqlDialect.Conversion.Construct

/-!
# Routine definitions

The definition of a procedure or function is brought into the form of the target dialect: its header
creates or replaces, its parameters stand in brackets, its language is named, its body is one
begin/end block, and the body is quoted with dollar signs.  A function that returns the rows of a
table variable makes that variable a temporary table and returns a query of it.

Each of these is a pass of its own.  They look at every node that defines a routine and do not look
for further definitions inside of one.
-/

namespace SqlDialect.Routine

open Conversion

/-- Converts a node if it is a routine definition, given the node that holds its body. -/
def routineVisit (convertRoutine : NodeId → NodeId → Conversion Unit) (id : NodeId) :
    Conversion Visit := do
  match (← forest).routineAsBlock id with
  | some asBlock =>
    convertRoutine id asBlock
    return .skip
  | none => return .descend

/-- Converts each routine definition. -/
def forEachRoutine (convertRoutine : NodeId → NodeId → Conversion Unit) : Conversion Unit :=
  walk Forest.root (routineVisit convertRoutine)

/-! ## Headers -/

/-- An `alter` header becomes `create or replace`; in a header that says `create or alter` already,
only the last word changes. -/
def createOrReplace (block : NodeId) : Conversion Unit := do
  let f ← forest
  let some alter := f.childWithText block .otherKeyword "alter" | return
  if (f.childWithText block .otherKeyword "create").isSome then
    setText alter "replace"
  else
    setText alter "create"
    discard <| insertLeavesAfter block alter [(.otherKeyword, "or"), (.otherKeyword, "replace")]

/-- The variable that a table-returning function returns, and its list of columns. -/
structure TableResult where
  tableName : NodeId
  columns : NodeId

/-- The table variable after `returns`, if the function returns one; its columns must follow. -/
def tableResult (f : Forest) (block : NodeId) : Conversion (Option TableResult) := do
  let some returns := f.child block .ddlReturns | return none
  let some tableName := f.nextSibling returns | return none
  let some tableKeyword := f.nextSibling tableName | return none
  if !f.isText tableKeyword .otherKeyword "table" then return none
  let columns ← need "column list of the returned table" (f.nextSibling tableKeyword)
  return some { tableName, columns }

/-- The container of the statements of a routine whose body is a begin/end block. -/
def blockStatements (f : Forest) (asBlock : NodeId) : Option NodeId :=
  f.routineBody asBlock >>= fun body =>
    f.path body [.statement, .clause, .beginEndBlock, .containerMultiStatement]

/-- Puts the creation of the temporary table in front of the statements of the body. -/
def createResultTable (result : TableResult) (body : NodeId) : Conversion Unit := do
  let statement ← create .statement ""
  let clause ← append statement .clause ""
  appendLeaves clause [(.otherKeyword, "create"), (.otherKeyword, "temp"), (.otherKeyword, "table")]
  moveTo clause result.tableName
  appendCopy clause result.columns
  appendLeaf clause .semicolon ";"
  match ((← forest).children body).head? with
  | some first => insertBefore body statement first
  | none => addChild body statement

/-- A statement whose first significant child holds the keyword `return`. -/
def isReturn (f : Forest) (statement : NodeId) : Bool :=
  (f.firstSignificantChild statement).any fun clause =>
    (f.childWithText clause .otherKeyword "return").isSome

/-- Takes away what is returned, if anything is. -/
def dropReturned (clause keyword : NodeId) : Conversion Unit := do
  let f ← forest
  match f.nextSibling keyword with
  | some returned => if !f.is returned .semicolon then removeChild clause returned
  | none => pure ()

/-- Turns `return @t` into a query of the whole table. -/
def returnQuery (result : TableResult) (body : NodeId) : Conversion Unit := do
  let f ← forest
  let statement ← need "return statement of the table-returning function"
    ((f.children body).find? (isReturn f))
  let clause ← need "return clause" (f.firstSignificantChild statement)
  let keyword ← need "return keyword" (f.childWithText clause .otherKeyword "return")
  dropReturned clause keyword
  let semicolon := (← forest).child clause .semicolon
  semicolon.forM detach
  discard <| insertNewAfter clause .otherKeyword "query" keyword
  let select ← append statement .clause ""
  appendLeaves select [(.otherKeyword, "select"), (.asterisk, "*")]
  let source ← append statement .clause ""
  appendLeaf source .otherKeyword "from"
  let target ← append source .selectionTarget ""
  appendCopy target result.tableName
  putTerminator source semicolon

/-- A function that returns a table variable makes it a temporary table and queries it. -/
def returnTable (block asBlock : NodeId) : Conversion Unit := do
  let f ← forest
  let some result ← tableResult f block | return
  let body ← need "begin/end body of the table-returning function" (blockStatements f asBlock)
  createResultTable result body
  returnQuery result body

/-- A header creates or replaces, and a table-returning function returns a query. -/
def convertHeader (block asBlock : NodeId) : Conversion Unit := do
  createOrReplace block
  returnTable block asBlock

/-- Converts the header of every routine. -/
def convertHeaders : Conversion Unit :=
  forEachRoutine convertHeader

/-! ## Parameters -/

/-- The last part of the name of a routine: what follows its keyword or, after a period, its
schema. -/
def nameNode (f : Forest) (keyword : NodeId) : Conversion NodeId := do
  let first ← need "routine name" (f.nextSibling keyword)
  match f.nextSibling first with
  | some period =>
    if f.is period .period then need "routine name after schema" (f.nextSibling period)
    else return first
  | none => return first

/-- The parameters of a procedure stand in brackets, also when there are none. -/
def bracketParameters : Conversion Unit :=
  forEachRoutine fun block asBlock => do
    let f ← forest
    let some keyword := f.routineKeyword block | return
    if f.hasText keyword "function" then return
    let name ← nameNode f keyword
    let parameters := f.trimWhiteSpace ((f.siblingsAfter name).takeWhile (· != asBlock))
    match parameters with
    | [only] => if f.is only .ddlParens then return
    | _ => pure ()
    let parens ← insertNewAfter block .ddlParens "" name
    moveAllTo parens parameters

/-! ## Language and body -/

/-- The language is named in front of the body. -/
def addLanguage : Conversion Unit :=
  forEachRoutine fun block asBlock => do
    let language ← insertNewBefore block .otherKeyword "language" asBlock
    discard <| insertNewAfter block .string "plpgsql" language

/-- Gives the body of a routine its begin/end block. -/
def blockBody (asBlock : NodeId) : Conversion Unit := do
  let body ← need "routine body" ((← forest).routineBody asBlock)
  wrapInBeginEnd body

/-- The body is one begin/end block. -/
def blockBodies : Conversion Unit :=
  forEachRoutine fun _ asBlock => blockBody asBlock

/-- The body is quoted with dollar signs and terminated. -/
def quoteBodies : Conversion Unit :=
  forEachRoutine fun _ asBlock => do
    let opener ← need "as keyword of the routine" ((← forest).child asBlock .containerOpen)
    appendLeaf opener .otherKeyword "$$"
    let closer ← append asBlock .containerClose ""
    appendLeaves closer [(.otherKeyword, "$$"), (.semicolon, ";")]

end SqlDialect.Routine
