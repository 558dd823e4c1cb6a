import SqlDialect.Pass.FunctionCall

/-!
# Functions on JSON values

`json_query(x)` becomes a cast to json, `isjson(x)` becomes `(x is json)`, and `openjson` becomes
`json_each`, or `json_table` if it is given a list of columns.
-/

namespace SqlDialect.JsonFunction

open Conversion FunctionCall

/-- Turns `json_query(x)` into `cast(x as json)`; with a path it stays. -/
def convertQuery (function : NodeId) : Conversion Unit := do
  let f ← forest
  let parens ← need "arguments of json_query" (argumentsOf f function)
  if (f.child parens .comma).isSome then return
  setTag function .functionKeyword
  setText function "cast"
  appendLeaves parens [(.otherKeyword, "as"), (.dataTypeKeyword, "json")]

/-- Turns `isjson(x)` into `(x is json)`. -/
def convertTest (function : NodeId) : Conversion Unit := do
  let f ← forest
  let holder ← need "expression holding isjson" (f.parent function)
  let parens ← need "arguments of isjson" (argumentsOf f function)
  removeChild holder function
  setTag parens .expressionParens
  appendLeaves parens [(.otherKeyword, "is"), (.dataTypeKeyword, "json")]

/-! ## Opened documents -/

/-- Without a column list the members are listed; a path is first followed. -/
def listMembers (function parens : NodeId) (hasPath : Bool) : Conversion Unit := do
  setText function "json_each"
  if hasPath then
    let arguments := (← forest).children parens
    appendLeaf parens .functionKeyword "json_query"
    let inner ← append parens .functionParens ""
    moveAllTo inner arguments

/-- In a column list, the path of a column is announced, and `as json` becomes `with wrapper`. -/
def convertColumns (columns : NodeId) : Conversion Unit := do
  ((← forest).childrenOf columns .string).forM fun path =>
    discard <| insertNewBefore columns .otherKeyword "path" path
  ((← forest).childrenOf columns .otherKeyword).forM fun keyword => do
    let f ← forest
    if f.hasText keyword "as" then
      match (f.nextSibling keyword).filter (f.isText · .otherNode "json") with
      | some json =>
        setText keyword "with"
        setText json "wrapper"
      | none => pure ()

/-- With a column list the document becomes a table. -/
def tabulate (target function parens withKeyword : NodeId) (hasPath : Bool) : Conversion Unit := do
  let f ← forest
  let columns ← need "column list of openjson"
    ((f.nextSibling withKeyword).filter (f.is · .expressionParens))
  setText function "json_table"
  removeChild target withKeyword
  removeChild target columns
  if !hasPath then appendLeaves parens [(.comma, ","), (.string, "$")]
  let clause ← append parens .clause ""
  appendLeaf clause .otherKeyword "columns"
  addChild clause columns
  convertColumns columns

/-- Converts a call of `openjson`. -/
def convertOpen (function : NodeId) : Conversion Unit := do
  let f ← forest
  let target ← need "selection target of openjson" (f.parent function)
  let parens ← need "arguments of openjson" (argumentsOf f function)
  let hasPath := ((f.child parens .comma).bind f.nextSibling).any (f.is · .string)
  match f.childWithText target .otherKeyword "with" with
  | some withKeyword => tabulate target function parens withKeyword hasPath
  | none => listMembers function parens hasPath

/-- Converts every call of a function on JSON values. -/
def convertFunctions : Conversion Unit :=
  forEach .otherNode fun function => do
    let name := Text.lowercase ((← forest).text function)
    if name == "json_query" then convertQuery function
    else if name == "isjson" then convertTest function
    else if name == "openjson" then convertOpen function

end SqlDialect.JsonFunction
