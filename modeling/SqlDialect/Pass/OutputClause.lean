import SqlDialect.Pass.DataModification

/-!
# Output clauses

An insert, update, delete or merge can give out the rows it changes.  Without a target table the
rows are simply returned: `output` becomes `returning`, at the end of the statement.  With one,
the statement becomes a common table expression that an insert reads:

    insert into users (name) output inserted.id into @ids values ('x')
    with inserted as (insert into users (name) values ('x') returning id)
      insert into @ids select id from inserted
-/

namespace SqlDialect.OutputClause

open Conversion

/-- What the statement does to the rows that it gives out. -/
inductive Change where
  | inserted
  | updated
  | merged
  | deleted
  deriving DecidableEq

namespace Change

/-- The name of the common table expression that holds the rows. -/
def name : Change → String
  | inserted => "inserted"
  | updated => "updated"
  | merged => "merged"
  | deleted => "deleted"

/-- Whether a changed row has both an old and a new version. -/
def isVersioned : Change → Bool
  | updated | merged => true
  | inserted | deleted => false

end Change

/-- The clause that changes rows, and how it does. -/
def findChange (f : Forest) (statement : NodeId) : Conversion (NodeId × Change) := do
  let clauseWith (word : String) := f.childContaining statement .otherKeyword word
  let insert := (f.children statement).find? (DataModification.isInsertClause f)
  let update := clauseWith "update"
  let merge := clauseWith "merge"
  let delete := clauseWith "delete"
  let main ← need "statement producing the output" (insert <|> update <|> merge <|> delete)
  let change :=
    if update.isSome then .updated
    else if merge.isSome then .merged
    else if delete.isSome then .deleted
    else .inserted
  return (main, change)

/-- Turns `$action` into a call of `merge_action`. -/
def convertAction (output : NodeId) : Conversion Unit := do
  let some action := (← forest).childWithText output .pseudoName "$action" | return
  setTag action .functionKeyword
  setText action "merge_action"
  discard <| insertNewAfter output .functionParens "" action

/-- The tables `inserted` and `deleted` become the new and the old version of a row; where there is
only one version the qualifier goes. -/
def convertQualifier (output : NodeId) (change : Change) (period : NodeId) : Conversion Unit := do
  let f ← forest
  let some table := f.previousSibling period | return
  let name := Text.lowercase (f.text table)
  if name != "inserted" && name != "deleted" then return
  if change.isVersioned then
    setText table (if name == "inserted" then "new" else "old")
  else
    removeChild output table
    removeChild output period

/-- Gives the rows out as the result of the statement. -/
def returnRows (statement output keyword : NodeId) : Conversion Unit := do
  setText keyword "returning"
  let last ← need "last clause" ((← forest).lastChild statement .clause)
  let semicolon ← takeTerminator last
  moveTo statement output
  putTerminator output semicolon

/-! ## Rows that go to a table -/

/-- What an output column is called outside the common table expression: by its alias, or else by
the last name in it. A column without a name stands for itself. -/
def outputColumn (f : Forest) (column : List NodeId) : List NodeId :=
  let afterAs := (column.dropWhile (!f.isText · .otherKeyword "as")).drop 1
  match afterAs.find? (!f.isNoise ·) <|> column.reverse.find? f.isName with
  | some name => [name]
  | none => column.filter (!f.isNoise ·)

/-- The common table expressions of a statement, in the first clause that has some. -/
def expressions? (f : Forest) (statement : NodeId) : Option NodeId :=
  (f.children statement).findSome? (f.child · .cteWithClause)

/-- The common table expressions of the statement, ready for one more. -/
def openExpression (statement main : NodeId) : Conversion NodeId := do
  match expressions? (← forest) statement with
  | some expressions =>
    let separator ← append expressions .containerGeneralContent ""
    appendLeaf separator .comma ","
    return expressions
  | none =>
    let clause ← insertNewBefore statement .clause "" main
    let expressions ← append clause .cteWithClause ""
    let opener ← append expressions .containerOpen ""
    appendLeaf opener .otherKeyword "with"
    return expressions

/-- A common table expression with the name of the change; gives the brackets for its query. -/
def nameChange (statement main : NodeId) (change : Change) : Conversion NodeId := do
  let expressions ← openExpression statement main
  let holder ← append expressions .cteAlias ""
  appendLeaf holder .otherNode change.name
  let asBlock ← append expressions .cteAsBlock ""
  let opener ← append asBlock .containerOpen ""
  appendLeaf opener .otherKeyword "as"
  let body ← append asBlock .containerGeneralContent ""
  append body .selectionTargetParens ""

/-- Moves the statement, from its main clause on, into a common table expression that returns the
output columns. -/
def expressChange (statement main : NodeId) (change : Change) (columns : List NodeId) :
    Conversion Unit := do
  let parens ← nameChange statement main change
  let (_, after) ← need "main clause" ((← forest).around statement main)
  moveAllTo parens (main :: after)
  let returning ← append parens .clause ""
  appendLeaf returning .otherKeyword "returning"
  moveAllTo returning columns

/-- Appends copies of columns, with commas between them. -/
def appendColumns (parent : NodeId) : List (List NodeId) → Conversion Unit
  | [] => pure ()
  | [column] => column.forM (appendCopy parent)
  | column :: rest => do
    column.forM (appendCopy parent)
    appendLeaf parent .comma ","
    appendColumns parent rest

/-- Appends the insert that reads the common table expression. -/
def insertRows (statement table : NodeId) (tableColumns : Option NodeId) (change : Change)
    (columns : List NodeId) (semicolon : Option NodeId) : Conversion Unit := do
  let insert ← append statement .clause ""
  let keywords ← append insert .compoundKeyword ""
  appendLeaves keywords [(.otherKeyword, "insert"), (.otherKeyword, "into")]
  setAttribute keywords simpleTextKey "insert into"
  moveTo insert table
  tableColumns.forM (moveTo insert)
  let select ← append statement .clause ""
  appendLeaf select .otherKeyword "select"
  let f ← forest
  appendColumns select ((separate (f.is · .comma) columns).map (outputColumn f))
  let source ← append statement .clause ""
  appendLeaf source .otherKeyword "from"
  let target ← append source .selectionTarget ""
  appendLeaf target .otherNode change.name
  putTerminator source semicolon

/-- Takes the output clause and its target out of the statement, and the semicolon that ends it;
gives the semicolon. -/
def takeOutput (statement output into : NodeId) : Conversion (Option NodeId) := do
  let semicolon ← takeTerminator statement
  removeChild statement output
  removeChild statement into
  return semicolon

/-- The columns of an output clause, with the commas between them. -/
def outputTokens (f : Forest) (output keyword : NodeId) : List NodeId :=
  (f.children output).filter fun id => id != keyword && !f.is id .semicolon

/-- Sends the rows to the table that an into clause names. -/
def storeRows (statement main output keyword into : NodeId) (change : Change) :
    Conversion Unit := do
  let f ← forest
  let columns := outputTokens f output keyword
  let intoKeyword ← need "into keyword" (f.childWithText into .otherKeyword "into")
  let table ← need "output target table" (f.nextSibling intoKeyword)
  let tableColumns := (f.nextSibling table).filter fun id => (f.tag id).isParens
  let semicolon ← takeOutput statement output into
  expressChange statement main change columns
  insertRows statement table tableColumns change columns semicolon

/-- Finds out what the statement does, and writes the output columns accordingly. -/
def convertOutputColumns (statement output : NodeId) : Conversion (NodeId × Change) := do
  let (main, change) ← findChange (← forest) statement
  convertAction output
  ((← forest).childrenOf output .period).forM (convertQualifier output change)
  return (main, change)

/-- Converts the output clause of a statement. -/
def convertOutput (statement output keyword : NodeId) : Conversion Unit := do
  let (main, change) ← convertOutputColumns statement output
  let f ← forest
  match (f.nextSibling output).filter fun c => (f.childWithText c .otherKeyword "into").isSome with
  | some into => storeRows statement main output keyword into change
  | none => returnRows statement output keyword

/-- Converts the output clause of a keyword, if the clause is part of a statement. -/
def convertOutputOf (keyword : NodeId) : Conversion Unit := do
  let f ← forest
  let some output := f.parent keyword | return
  let some statement := (f.parent output).filter (f.is · .statement) | return
  convertOutput statement output keyword

/-- Converts every output clause. -/
def convertOutputs : Conversion Unit :=
  forEachKeyword "output" convertOutputOf

end SqlDialect.OutputClause
