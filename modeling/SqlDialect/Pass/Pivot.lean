import SqlDialect.Conversion.Construct

/-!
# Pivot and unpivot

A pivot becomes one filtered aggregate for each pivoted column, grouped by the columns that are
left:

    select id, [a] from t pivot (sum(v) for k in ([a])) p
    select id, sum(v) filter (where k = 'a') as [a] from t group by 1

An unpivot becomes a derived table that unnests the names and the values of the columns side by
side:

    from t unpivot (val for attr in (a, b)) u
    from (select unnest(array['a', 'b']) as attr, unnest(array[a, b]) as val from t) u
-/

namespace SqlDialect.Pivot

open Conversion

/-! ## Pivot -/

/-- What the brackets of a pivot say. -/
structure Definition where
  /-- The tokens of the aggregate. -/
  aggregate : List NodeId
  /-- The column whose values become columns. -/
  source : NodeId
  /-- The names of the new columns, in lower case. -/
  pivoted : List String

/-- Reads the brackets after the word `pivot`. -/
def readDefinition (pivot : NodeId) : Conversion Definition := do
  let f ← forest
  let parens ← need "pivot definition" (f.nextSibling pivot)
  let list ← need "pivoted column list" (f.child parens .inParens)
  let pivoted := ((f.children list).filter f.isName).map fun id => Text.lowercase (f.text id)
  let keyword ← need "for keyword of the pivot" (f.childWithText parens .otherKeyword "for")
  let aggregate := ((f.children parens).takeWhile (· != keyword)).filter (!f.isWhiteSpace ·)
  let source ← need "pivot source column" (f.nextSibling keyword)
  return { aggregate, source, pivoted }

/-- The name under which a column is known: the last identifier in it, in lower case. -/
def columnName (f : Forest) (column : List NodeId) : Option String :=
  (column.reverse.find? f.isName).map fun id => Text.lowercase (f.text id)

/-- Puts the filtered aggregate in front of a column, which becomes its alias. -/
def aggregateColumn (d : Definition) (select : NodeId) (name : String) (column : List NodeId) :
    Conversion Unit := do
  let f ← forest
  let first ← need "first token of the pivoted column" (column.find? (!f.isWhiteSpace ·))
  d.aggregate.forM fun id => do
    let duplicate ← copy id
    insertBefore select duplicate first
  discard <| insertNewBefore select .functionKeyword "filter" first
  let filter ← insertNewBefore select .functionParens "" first
  appendLeaf filter .otherKeyword "where"
  appendCopy filter d.source
  appendLeaves filter [(.equalsSign, "="), (.string, name)]
  discard <| insertNewBefore select .otherKeyword "as" first

/-- Converts the columns of a select clause, of which the first has the given position; gives the
positions of those to group by. A column without a name counts as neither. -/
def aggregateColumns (d : Definition) (select : NodeId) :
    Nat → List (List NodeId) → Conversion (List Nat)
  | _, [] => return []
  | position, column :: rest => do
    match columnName (← forest) column with
    | none => aggregateColumns d select (position + 1) rest
    | some name =>
      if name ∈ d.pivoted then
        aggregateColumn d select name column
        aggregateColumns d select (position + 1) rest
      else
        return position :: (← aggregateColumns d select (position + 1) rest)

/-- Appends column positions with commas between them. -/
def appendPositions (parent : NodeId) : List Nat → Conversion Unit
  | [] => pure ()
  | [position] => appendLeaf parent .numberValue position.repr
  | position :: rest => do
    appendLeaves parent [(.numberValue, position.repr), (.comma, ",")]
    appendPositions parent rest

/-- Groups a statement by column positions, after its where clause or else its from clause. -/
def addGroupBy (statement : NodeId) (positions : List Nat) : Conversion Unit := do
  let f ← forest
  let anchor ← need "from clause of the pivot" <|
    f.clauseStartingWith statement .otherKeyword "where"
      <|> f.clauseStartingWith statement .otherKeyword "from"
  let semicolon ← takeTerminator anchor
  let groupBy ← insertNewAfter statement .clause "" anchor
  appendLeaf groupBy .compoundKeyword "group by"
  appendPositions groupBy positions
  putTerminator groupBy semicolon

/-- Converts the statement of a pivot. -/
def convertPivot (pivot : NodeId) : Conversion Unit := do
  let some pivotClause := (← forest).parent pivot | return
  let definition ← readDefinition pivot
  let statement ← need "pivot statement" ((← forest).parent pivotClause)
  removeChild statement pivotClause
  let f ← forest
  let select ← need "select clause of the pivot"
    (f.childContaining statement .otherKeyword "select")
  let grouped ← aggregateColumns definition select 1 (f.selectColumns select)
  if !grouped.isEmpty then addGroupBy statement grouped

/-- Pivots become filtered aggregates. -/
def convertPivots : Conversion Unit :=
  forEachMatch .otherNode (some "pivot") convertPivot

/-! ## Unpivot -/

/-- Appends `unnest(array[...])` over a list of fields, as names or as their texts. -/
def appendUnnest (clause fields : NodeId) (asTexts : Bool) : Conversion Unit := do
  appendLeaf clause .functionKeyword "unnest"
  let parens ← append clause .functionParens ""
  appendLeaves parens [(.functionKeyword, "array"), (.period, "[")]
  ((← forest).children fields).forM fun field => do
    let duplicate ← copy field
    if asTexts && (← forest).isName duplicate then setTag duplicate .string
    addChild parens duplicate
  appendLeaf parens .period "]"

/-- What an unpivot says: the table and where it is selected from, the fields, the columns for their
values and names, and the alias with a join condition that may follow it. -/
structure Unpivoting where
  target : NodeId
  table : NodeId
  fields : NodeId
  valueColumn : NodeId
  nameColumn : NodeId
  tableAlias : NodeId
  joinOn : Option NodeId

/-- Reads an unpivot and what is around it. -/
def readUnpivoting (unpivotClause unpivot : NodeId) : Conversion Unpivoting := do
  let f ← forest
  let target ← need "selection target before unpivot"
    (f.previousSibling unpivotClause >>= fun c => f.child c .selectionTarget)
  let table ← need "unpivoted table" (f.child target .otherNode)
  let parens ← need "unpivot definition" (f.nextSibling unpivot)
  let fields ← need "unpivoted column list" (f.child parens .inParens)
  let valueColumn ← need "value column of the unpivot" (f.child parens .otherNode)
  let nameColumn ← need "name column of the unpivot"
    (f.nextSibling valueColumn >>= f.nextSibling)
  let tableAlias ← need "unpivot alias" (f.nextSibling parens)
  let joinOn := f.nextSibling tableAlias
  return { target, table, fields, valueColumn, nameColumn, tableAlias, joinOn }

/-- Fills the brackets of the derived table. -/
def fillDerivedTable (derived : NodeId) (u : Unpivoting) : Conversion Unit := do
  let select ← append derived .clause ""
  appendLeaf select .otherKeyword "select"
  let f ← forest
  let valueName := f.text u.valueColumn
  let nameName := f.text u.nameColumn
  appendUnnest select u.fields true
  appendLeaves select [(.otherKeyword, "as"), (.otherNode, nameName), (.comma, ",")]
  appendUnnest select u.fields false
  appendLeaves select [(.otherKeyword, "as"), (.otherNode, valueName)]
  let source ← append derived .clause ""
  appendLeaf source .otherKeyword "from"
  let target ← append source .selectionTarget ""
  addChild target u.table

/-- Converts the selection target of an unpivot. -/
def convertUnpivot (unpivot : NodeId) : Conversion Unit := do
  let some unpivotClause := (← forest).parent unpivot | return
  let u ← readUnpivoting unpivotClause unpivot
  removeChild u.target u.table
  let derived ← append u.target .selectionTargetParens ""
  moveTo u.target u.tableAlias
  u.joinOn.forM (moveTo u.target)
  fillDerivedTable derived u
  let holder ← need "unpivot statement" ((← forest).parent unpivotClause)
  removeChild holder unpivotClause

/-- Unpivots become derived tables. -/
def convertUnpivots : Conversion Unit :=
  forEachMatch .otherNode (some "unpivot") convertUnpivot

end SqlDialect.Pivot
