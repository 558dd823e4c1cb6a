import SqlDialect.Conversion.Construct

/-!
# Queries for JSON

A query that ends in `for json path` becomes an aggregate over the query:

    select a, b from t for json path
    select json_agg(_to_json_temp) from (select a, b from t) _to_json_temp

Columns with a dotted alias such as `[a.b]` are regrouped into nested objects.  `for json auto` is
treated like `for json path`, with a warning.
-/

namespace SqlDialect.JsonQuery

open Conversion

/-- The name of a row of the aggregated query. -/
def rowName : String := "_to_json_temp"

/-- The comment left where `auto` is treated like `path`. -/
def autoWarning : String :=
  "CONVERTER WARNING: converted from /for json auto/ as if it was /for json path/. " ++
    "Output is potentially different, especially if query has joins"

/-! ## Nested objects -/

/-- The value of a key: the nodes of a column, or an object with keys of its own. -/
inductive Member where
  | value (nodes : List NodeId)
  | object (members : List (String × Member))

/-- Changes the member of a key in place, or adds one at the end. -/
def alterMember (key : String) (change : Option Member → Member) :
    List (String × Member) → List (String × Member)
  | [] => [(key, change none)]
  | (k, member) :: rest =>
    if k == key then (k, change (some member)) :: rest
    else (k, member) :: alterMember key change rest

/-- Puts a value under a path of keys. What stands in the way is replaced. -/
def insertMember (value : List NodeId) :
    List String → List (String × Member) → List (String × Member)
  | [], members => members
  | [key], members => alterMember key (fun _ => .value value) members
  | key :: next :: path, members =>
    alterMember key (fun
      | some (.object inner) => .object (insertMember value (next :: path) inner)
      | _ => .object (insertMember value (next :: path) [])) members

mutual

/-- Appends a value, or the call that makes an object. -/
def appendMember (parent : NodeId) : Member → Conversion Unit
  | .value nodes => nodes.forM (addChild parent)
  | .object members => do
    appendLeaf parent .functionKeyword "json_object"
    let parens ← append parent .functionParens ""
    appendMembers parens true members

/-- Appends the keys and values of an object, with commas between them. -/
def appendMembers (parens : NodeId) (isFirst : Bool) : List (String × Member) → Conversion Unit
  | [] => pure ()
  | (key, member) :: rest => do
    if !isFirst then appendLeaf parens .comma ","
    appendLeaves parens [(.string, key), (.period, ":")]
    appendMember parens member
    appendMembers parens false rest

end

/-! ## Dotted columns -/

/-- The dotted alias of a column. -/
def dottedAlias? (f : Forest) (column : List NodeId) : Option NodeId :=
  column.find? fun id => f.is id .bracketQuotedName && (f.text id).toList.contains '.'

/-- Tells the plain columns from those with dotted aliases, and nests the latter. -/
def nestColumns (f : Forest) : List (List NodeId) → List (List NodeId) → List (String × Member) →
    Conversion (List (List NodeId) × List (String × Member))
  | [], plain, nested => return (plain, nested)
  | column :: rest, plain, nested =>
    match dottedAlias? f column with
    | none => nestColumns f rest (plain ++ [column]) nested
    | some name => do
      if !column.any (f.isText · .otherKeyword "as") then
        throw (.shape "as keyword of a dotted column")
      let value := (column.takeWhile (!f.isText · .otherKeyword "as")).filter (!f.isWhiteSpace ·)
      nestColumns f rest plain (insertMember value (separateText '.' (f.text name)) nested)

/-- Attaches columns with commas between them. -/
def attachColumns (select : NodeId) : List (List NodeId) → Conversion Unit
  | [] => pure ()
  | [column] => column.forM (addChild select)
  | column :: rest => do
    column.forM (addChild select)
    appendLeaf select .comma ","
    attachColumns select rest

/-- Appends nested objects as columns, with commas between them. -/
def appendObjects (select : NodeId) : Bool → List (String × Member) → Conversion Unit
  | _, [] => pure ()
  | isFirst, (key, member) :: rest => do
    if !isFirst then appendLeaf select .comma ","
    appendMember select member
    appendLeaves select [(.otherKeyword, "as"), (.otherNode, key)]
    appendObjects select false rest

/-- Regroups the columns with dotted aliases, after the plain ones. -/
def regroupColumns (select : NodeId) : Conversion Unit := do
  let f ← forest
  let columns := f.selectColumns select
  if columns.all fun column => (dottedAlias? f column).isNone then return
  let (plain, nested) ← nestColumns f columns [] []
  let keyword := f.childWithText select .otherKeyword "select"
  ((f.children select).filter (some · != keyword)).forM detach
  attachColumns select plain
  appendObjects select (((← forest).children select).length == 1) nested

/-! ## Queries -/

/-- What a query for JSON gives. -/
inductive Shape where
  /-- One array with all rows. -/
  | array
  /-- A single object. -/
  | object
  deriving DecidableEq

/-- The function that makes the result. -/
def Shape.function : Shape → String
  | array => "json_agg"
  | object => "to_json"

/-- What a clause `for json` asks for: the shape of the result, and whether it says `auto`. -/
def request? (f : Forest) (keyword : NodeId) : Option (Shape × Bool) := do
  let json ← (f.nextSibling keyword).filter (f.isText · .otherNode "json")
  let mode ← (f.nextSibling json).filter fun id =>
    f.isText id .otherNode "path" || f.isText id .otherNode "auto"
  let option := ((f.nextSibling mode).filter (f.is · .comma)).bind f.nextSibling
  let shape :=
    if option.any (f.isText · .otherNode "without_array_wrapper") then Shape.object else .array
  some (shape, f.hasText mode "auto")

/-- The clauses of the query itself: all but a leading one that opens a cursor. -/
def queryClauses (f : Forest) (statement : NodeId) : List NodeId :=
  match f.children statement with
  | [] => []
  | first :: rest =>
    if (f.childWithText first .otherKeyword "open").isSome then rest else first :: rest

/-- Says in a comment that `auto` was taken for `path`. -/
def warnOfAuto (select : NodeId) : Conversion Unit := do
  appendLeaf select .commentMultiLine autoWarning
  warn

/-- Puts an aggregate around the clauses of a query; gives the brackets that hold them now. -/
def aggregateQuery (statement : NodeId) (shape : Shape) (isAuto : Bool) (clauses : List NodeId)
    (semicolon : Option NodeId) : Conversion NodeId := do
  let select ← append statement .clause ""
  appendLeaves select [(.otherKeyword, "select"), (.functionKeyword, shape.function)]
  let row ← append select .functionParens ""
  appendLeaf row .otherNode rowName
  if isAuto then warnOfAuto select
  let source ← append statement .clause ""
  appendLeaf source .otherKeyword "from"
  let target ← append source .selectionTarget ""
  let query ← append target .selectionTargetParens ""
  moveAllTo query clauses
  appendLeaf target .otherNode rowName
  putTerminator source semicolon
  return query

/-- Converts the statement of a clause `for json`. -/
def convertQuery (keyword : NodeId) : Conversion Unit := do
  let f ← forest
  let some (shape, isAuto) := request? f keyword | return
  let forClause ← need "for json clause" (f.parent keyword)
  let statement ← need "for json statement" (f.parent forClause)
  let semicolon ← takeTerminator forClause
  removeChild statement forClause
  let clauses := queryClauses (← forest) statement
  let query ← aggregateQuery statement shape isAuto clauses semicolon
  let inner ← need "select clause of the for json query"
    ((← forest).childContaining query .otherKeyword "select")
  regroupColumns inner

/-- Queries for JSON become aggregates. -/
def convertQueries : Conversion Unit :=
  forEachKeyword "for" convertQuery

end SqlDialect.JsonQuery
