import SqlDialect.Conversion.Construct

/-!
# Deletes, temporary tables and updates with joins

The target dialect wants a `from` in every delete, the word `temp` where a table is temporary, and
an update target that is apart from the joined tables.  An update that joins its own target
therefore updates the table under a new alias and asks in its where clause for the row to be the
joined one:

    update o set total = 0 from orders o where o.id = 1
    update orders as __target__ set total = 0 from orders o
      where (o.id = 1) and __target__.ctid = o.ctid
-/

namespace SqlDialect.DataModification

open Conversion

/-- A clause that begins an insert, whether its keywords stand alone or are joined. -/
def isInsertClause (f : Forest) (clause : NodeId) : Bool :=
  (f.children clause).any fun c =>
    match f.tag c with
    | .compoundKeyword =>
      "insert".toList.isPrefixOf (Text.lowercase (f.text c)).toList
        || (f.childWithText c .otherKeyword "insert").isSome
    | .otherKeyword => f.hasText c "insert"
    | _ => false

/-! ## Deletes -/

/-- Moves the table that follows `delete` into a from clause, unless the statement has one. -/
def convertDelete (keyword : NodeId) : Conversion Unit := do
  let f ← forest
  let some clause := f.parent keyword | return
  let some statement := f.parent clause | return
  if (f.childContaining statement .otherKeyword "from").isSome then return
  let some table := f.nextSibling keyword | return
  if f.is table .semicolon then return
  removeChild clause table
  let source ← insertNewAfter statement .clause "" clause
  appendLeaf source .otherKeyword "from"
  let target ← append source .selectionTarget ""
  addChild target table

/-- Turns `delete t where ...` into `delete from t where ...`. -/
def convertDeletes : Conversion Unit :=
  forEachKeyword "delete" convertDelete

/-! ## Temporary tables -/

/-- The `create` and the name of a block that creates a temporary table. -/
def tempTable? (f : Forest) (block : NodeId) : Option (NodeId × NodeId) := do
  let keyword ← f.childWithText block .otherKeyword "create"
  let _ ← f.childWithText block .otherKeyword "table"
  let name ← f.child block .otherNode
  if Text.startsWith (f.text name) '#' then some (keyword, name) else none

/-- Marks a temporary table as one, and notes its column list under its name. -/
def convertTempTable (block : NodeId) : Conversion Unit := do
  let some (keyword, name) := tempTable? (← forest) block | return
  discard <| insertNewAfter block .otherKeyword "temp" keyword
  let f ← forest
  match f.nextSibling name with
  | some columns =>
    let key := Text.lowercase (f.text name)
    note fun n => { n with tempTables := n.tempTables.insert key columns }
  | none => pure ()

/-- Turns `create table #t` into `create temp table #t`. -/
def convertTempTables : Conversion Unit :=
  walk Forest.root fun id => do
    if !(← forest).is id .ddlOtherBlock then return .descend
    convertTempTable id
    return .skip

/-! ## Updates -/

/-- The alias of the updated table where it is joined again. -/
def updateAlias : String := "__target__"

/-- The tables that a statement selects from: that of its from clause, then those of its joins. -/
def joinedTables (f : Forest) (statement source : NodeId) : List NodeId :=
  (f.child source .selectionTarget).toList ++
    ((f.children statement).filter fun c => (f.child c .compoundKeyword).isSome).filterMap
      (f.child · .selectionTarget)

/-- The first of the tables that mentions a name, and where it does. -/
def findMention (f : Forest) (tables : List NodeId) (name : String) : Option (NodeId × NodeId) :=
  tables.findSome? fun table => (f.childWithText table .otherNode name).map (table, ·)

/-- The alias that follows a table name, with or without `as`. -/
def aliasOf (f : Forest) (table : NodeId) : Option NodeId :=
  ((f.nextSibling table).bind fun next =>
    if f.isText next .otherKeyword "as" then f.nextSibling next else some next).filter
      (f.is · .otherNode)

/-- Makes room for one more condition of a statement; gives the where clause and the node after
which the condition goes. -/
def openCondition (statement : NodeId) : Conversion (NodeId × NodeId) := do
  let f ← forest
  match f.childContaining statement .otherKeyword "where" with
  | some clause =>
    let parens ← wrapInParens clause
    let conjunction ← insertNewAfter clause .andOperator "" parens
    appendLeaf conjunction .otherKeyword "and"
    return (clause, conjunction)
  | none =>
    let last ← need "last clause" (f.lastChild statement .clause)
    let semicolon ← takeTerminator last
    let clause ← append statement .clause ""
    let keyword ← append clause .otherKeyword "where"
    putTerminator clause semicolon
    return (clause, keyword)

/-- Converts an update whose target is one of the tables it joins. -/
def convertUpdate (keyword : NodeId) : Conversion Unit := do
  let f ← forest
  let some update := f.parent keyword | return
  let some statement := f.parent update | return
  let some source := f.childContaining statement .otherKeyword "from" | return
  let some target := f.child update .otherNode | return
  let some (selection, mention) :=
    findMention f (joinedTables f statement source) (f.text target) | return
  let isAlias := (f.indexOf selection mention).any (0 < ·)
  let table ←
    if isAlias then need "table of the aliased update target" (f.child selection .otherNode)
    else pure mention
  let reference := f.text ((aliasOf f table).getD mention)
  if isAlias then setText target (f.text table)
  appendLeaves update [(.otherKeyword, "as"), (.otherNode, updateAlias)]
  let (clause, mark) ← openCondition statement
  discard <| insertLeavesAfter clause mark
    [(.otherNode, updateAlias), (.period, "."), (.otherNode, "ctid"), (.equalsSign, "="),
      (.otherNode, reference), (.period, "."), (.otherNode, "ctid")]

/-- Updates that join their own target are told apart from it by an alias. -/
def convertUpdates : Conversion Unit :=
  forEachKeyword "update" convertUpdate

end SqlDialect.DataModification
