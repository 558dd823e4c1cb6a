import SqlDialect.Pass.Routine

/-!
# Result sets

A plain select in a procedure sends its rows to the caller.  In the target dialect it is opened on
a cursor instead: the `n`-th such select of a routine gets the leading clause `open _selectn for`,
and a statement before it declares `_selectn` as a cursor whose name is that of the routine, in
lower case, followed by `_selectn`.

A select is plain if its clause is the first of its statement, no clause of the statement says
`into` and no column assigns to a variable.  The leading clause makes sure that a select is
captured once.
-/

namespace SqlDialect.ResultSet

open Conversion

/-- The name of a routine without its schema: the text before the list of its parameters. -/
def routineName (block : NodeId) : Conversion String := do
  let f ← forest
  let parens ← need "parameter list of the routine" (f.child block .ddlParens)
  let name ← need "routine name before its parameters" (f.previousSibling parens)
  return f.text name

/-- The name of the cursor variable of the `n`-th result set. -/
def cursorVariable (n : Nat) : String := "_select" ++ n.repr

/-- The clause and the statement of a `select` keyword that sends rows to the caller. -/
def plainSelect? (f : Forest) (keyword : NodeId) : Option (NodeId × NodeId) := do
  let clause ← f.parent keyword
  let statement ← f.parent clause
  let sendsRows := f.is statement .statement
    && f.child statement .clause == some clause
    && !(f.children statement).any (fun c => (f.childWithText c .otherKeyword "into").isSome)
    && !(f.selectColumns clause).any f.isVariableAssignment
  if sendsRows then some (clause, statement) else none

/-- Opens the select on the `n`-th cursor of the routine and declares the cursor. -/
def openOnCursor (routine : String) (n : Nat) (clause statement : NodeId) : Conversion Unit := do
  let container ← need "statement container" ((← forest).parent statement)
  let opening ← insertNewBefore statement .clause "" clause
  appendLeaves opening [(.otherKeyword, "open"), (.otherNode, cursorVariable n),
    (.otherKeyword, "for")]
  let declaration ← insertNewBefore container .statement "" statement
  let declareClause ← append declaration .clause ""
  let block ← append declareClause .ddlDeclareBlock ""
  appendLeaves block [(.otherKeyword, "declare"), (.otherNode, cursorVariable n),
    (.dataTypeKeyword, "refcursor"), (.equalsSign, "="), (.string, routine ++ cursorVariable n)]

/-- Captures a `select` keyword, if it sends rows to the caller; `count` are captured already. -/
def capture (routine : String) (keyword : NodeId) (count : Nat) : Conversion Nat := do
  match plainSelect? (← forest) keyword with
  | some (clause, statement) =>
    openOnCursor routine (count + 1) clause statement
    return count + 1
  | none => return count

/-- Captures a node if it is a `select`. -/
def captureVisit (routine : String) (id : NodeId) (count : Nat) : Conversion (Visit × Nat) := do
  if (← forest).isText id .otherKeyword "select" then
    return (.descend, ← capture routine id count)
  else
    return (.descend, count)

/-- Captures the selects of a routine and counts them. -/
def captureRoutine (block asBlock : NodeId) : Conversion Unit := do
  let routine := Text.lowercase (← routineName block)
  discard <| walkWith asBlock 0 (captureVisit routine)

/-- Every plain select of a routine is opened on a cursor. -/
def captureResultSets : Conversion Unit :=
  Routine.forEachRoutine captureRoutine

end SqlDialect.ResultSet
