import SqlDialect.Pass.FunctionCall

/-!
# Aggregated strings

`string_agg` takes its ordering inside the brackets.  The older way to join strings, a subquery that
ends in `for xml path('')` and often stands in `stuff` to cut off the first separator, becomes
`string_agg` too:

    stuff((select ', ' + x from t for xml path('')), 1, 2, '')
    (select string_agg(x, ', ') from t)
-/

namespace SqlDialect.StringAggregate

open Conversion FunctionCall

/-! ## Orderings -/

/-- Moves the parts of an ordering into the arguments; of a part with children, these. -/
def moveOrdering (arguments part : NodeId) : Conversion Unit := do
  match (← forest).children part with
  | [] => moveTo arguments part
  | nodes => moveAllTo arguments nodes

/-- Converts a call of `string_agg` that is followed by `within group`. -/
def convertOrdering (function : NodeId) : Conversion Unit := do
  let f ← forest
  let clause ← need "clause of string_agg" (f.parent function)
  let some within := f.childWithText clause .otherNode "within" | return
  let group ← need "within group clause" (f.nextSibling clause)
  let ordering ← need "ordering of the within group clause" (f.child group .expressionParens)
  let arguments ← need "arguments of string_agg" (argumentsOf f function)
  removeChild clause within
  detach group
  ((← forest).children ordering).forM (moveOrdering arguments)

/-- Turns `string_agg(x, ',') within group (order by x)` into
`string_agg(x, ',' order by x)`. -/
def convertOrderings : Conversion Unit :=
  forEachMatch .otherNode (some "string_agg") convertOrdering

/-! ## XML paths -/

/-- Whether the word `xml` is followed by `path('')`. -/
def hasEmptyPath (f : Forest) (xml : NodeId) : Bool :=
  ((f.nextSibling xml).filter (f.isText · .otherNode "path")).any fun path =>
    ((f.nextSibling path).filter (f.is · .functionParens)).any fun parens =>
      (f.childWithText parens .string "").isSome

/-- Takes the literal and the plus sign at the head of a select clause away; gives its text, which
is empty if there are none. -/
def takeSeparator (select : NodeId) : Conversion String := do
  let f ← forest
  let some literal := f.child select .string | return ""
  let some plus := (f.nextSibling literal).filter (f.isText · .otherOperator "+") | return ""
  removeChild select literal
  removeChild select plus
  return f.text literal

/-- Removes the white space at the end of the children of a node. -/
def dropTrailingWhiteSpace (id : NodeId) : Conversion Unit := do
  let f ← forest
  ((f.children id).reverse.takeWhile f.isWhiteSpace).forM (removeChild id)

/-- Makes the columns of a select clause the first argument of `string_agg`. -/
def aggregateColumns (select : NodeId) (separator : String) : Conversion Unit := do
  let f ← forest
  let keyword := f.childWithText select .otherKeyword "select"
  let columns := (f.children select).filter (some · != keyword)
  appendLeaf select .functionKeyword "string_agg"
  let arguments ← append select .functionParens ""
  moveAllTo arguments columns
  dropTrailingWhiteSpace arguments
  appendLeaves arguments [(.comma, ","), (.string, separator)]

/-- Converts the query around the word `xml`. -/
def convertXmlPath (xml : NodeId) : Conversion Unit := do
  let f ← forest
  if !hasEmptyPath f xml then return
  let forClause ← need "for xml clause" (f.parent xml)
  let query ← need "subquery of for xml path" (f.parent forClause)
  let outer ← need "parens around the subquery" (f.parent query)
  let stuff := (f.previousSibling outer).filter fun id =>
    f.is outer .functionParens && f.isText id .functionKeyword "stuff"
  let select ← need "select clause of the subquery"
    (f.childContaining query .otherKeyword "select")
  removeChild query forClause
  let separator ← if stuff.isSome then takeSeparator select else pure ""
  aggregateColumns select separator
  match stuff with
  | none => pure ()
  | some function =>
    let holder ← need "expression holding stuff" ((← forest).parent outer)
    moveAfter holder query outer
    removeChild holder function
    removeChild holder outer

/-- Queries for an empty XML path become aggregates. -/
def convertXmlPaths : Conversion Unit :=
  forEachMatch .dataTypeKeyword (some "xml") convertXmlPath

end SqlDialect.StringAggregate
