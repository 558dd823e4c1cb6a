import SqlDialect.Conversion.Construct

/-!
# Conditions and loops

Branches and loop bodies are blocks in the target dialect.  A first pass gives every branch that
is a single statement a begin/end block, except an else branch that is an if statement itself; a
second pass turns the `begin` of a branch into `then`, drops the inner begins and ends of a chain
of branches and closes the chain once with `end if`.  An else branch that is an if statement is
joined to the chain as `elsif`.  Loops are treated alike, with `loop` and `end loop`.
-/

namespace SqlDialect.ControlFlow

open Conversion

/-- From a branch or loop to the block that is its body. -/
def blockPath : List Tag := [.containerSingleStatement, .statement, .clause, .beginEndBlock]

/-- From an else branch to the if statement that it consists of. -/
def nestedIfPath : List Tag := [.containerSingleStatement, .statement, .clause, .ifStatement]

/-! ## Guarded drops -/

/-- The drop clause of an if statement that asks for an object and, without an else branch, drops
something. -/
def guardedDrop? (f : Forest) (id : NodeId) : Option NodeId := do
  if !f.is id .ifStatement then none
  let condition ← f.child id .booleanExpression
  let _ ← f.childWithText condition .functionKeyword "object_id"
  let clause ← f.path id [.containerSingleStatement, .statement, .clause]
  let _ ← f.childWithText clause .otherKeyword "drop"
  if (f.child id .elseClause).isSome then none
  some clause

/-- Puts the drop, made conditional, in the place of the if statement around it. -/
def unguardDrop (ifStatement dropClause : NodeId) : Conversion Unit := do
  let table ← need "dropped table name" ((← forest).child dropClause .otherNode)
  discard <| insertNewBefore dropClause .otherKeyword "if" table
  discard <| insertNewBefore dropClause .otherKeyword "exists" table
  let f ← forest
  let dropStatement ← need "drop statement" (f.parent dropClause)
  let outer ← need "statement holding the if" (f.parent ifStatement >>= f.parent)
  let container ← need "statement container" (f.parent outer)
  moveAfter container dropStatement outer
  removeChild container outer

/-- Converts a node if it is a condition around a drop. -/
def guardVisit (id : NodeId) : Conversion Visit := do
  match guardedDrop? (← forest) id with
  | some clause =>
    unguardDrop id clause
    return .skip
  | none => return .descend

/-- Turns `if object_id(...) is not null drop table t` into `drop table if exists t`. -/
def convertGuardedDrops : Conversion Unit :=
  walk Forest.root guardVisit

/-! ## Branches -/

/-- Gives a branch its begin/end block. -/
def blockBranch (id : NodeId) : Conversion Unit := do
  let f ← forest
  let some container := f.child id .containerSingleStatement | return
  match f.tag id with
  | .ifStatement => wrapInBeginEnd container
  | .elseClause => if (f.path id nestedIfPath).isNone then wrapInBeginEnd container
  | _ => pure ()

/-- Gives a node its block if it is a branch. -/
def blockVisit (id : NodeId) : Conversion Visit := do
  blockBranch id
  return .descend

/-- Branches that are a single statement become begin/end blocks. -/
def blockBranches : Conversion Unit :=
  walk Forest.root blockVisit

/-- Renames the keyword that closes a block and terminates it. -/
def closeBlock (closer : NodeId) (words : String) : Conversion Unit := do
  let keyword ← need "end keyword" ((← forest).children closer).head?
  setText keyword words
  if ((← forest).child closer .semicolon).isNone then appendLeaf closer .semicolon ";"

/-- Joins an else branch that is an if statement to the chain before it. -/
def joinElseIf (branch : NodeId) : Conversion Unit := do
  let keyword ← need "else keyword" ((← forest).path branch [.containerOpen, .otherKeyword])
  setText keyword "elsif"
  let f ← forest
  let nested ← need "nested if of the else branch" (f.path branch nestedIfPath)
  match f.child nested .containerOpen with
  | some opener => removeChild nested opener
  | none => pure ()

/-- The `begin` of a branch becomes `then`; an else branch needs no such word. -/
def beginBranch (branch block : NodeId) : Conversion Unit := do
  let f ← forest
  let opener ← need "begin of the branch" (f.child block .containerOpen)
  if f.is branch .elseClause then
    removeChild block opener
  else
    let keyword ← need "begin keyword" (f.children opener).head?
    setText keyword "then"

/-- The `end` of the last branch closes the chain; the others go. -/
def endBranch (branch block : NodeId) : Conversion Unit := do
  let f ← forest
  let closer ← need "end of the branch" (f.child block .containerClose)
  if (f.child branch .elseClause).isSome then removeChild block closer
  else closeBlock closer "end if"

/-- Replaces the begin and end of a branch by the words of a condition. -/
def openBranch (branch block : NodeId) : Conversion Unit := do
  beginBranch branch block
  endBranch branch block

/-- A branch whose body is a block, or an else branch that is an if statement. -/
def convertBranch (branch : NodeId) : Conversion Unit := do
  let f ← forest
  match f.path branch blockPath with
  | some block => openBranch branch block
  | none => if f.is branch .elseClause then joinElseIf branch

/-- Converts a node if it is a branch. -/
def conditionVisit (id : NodeId) : Conversion Visit := do
  let f ← forest
  if f.is id .ifStatement || f.is id .elseClause then convertBranch id
  return .descend

/-- Turns `if c begin ... end else begin ... end` into `if c then ... else ... end if;`. -/
def convertConditions : Conversion Unit :=
  walk Forest.root conditionVisit

/-! ## Loops -/

/-- Replaces the begin and end of a loop body. -/
def convertLoop (id : NodeId) : Conversion Unit := do
  ((← forest).child id .containerSingleStatement).forM wrapInBeginEnd
  let f ← forest
  let block ← need "body of the loop" (f.path id blockPath)
  let keyword ← need "begin keyword of the loop" (f.path block [.containerOpen, .otherKeyword])
  setText keyword "loop"
  let closer ← need "end of the loop" ((← forest).child block .containerClose)
  closeBlock closer "end loop"

/-- Turns `while c begin ... end` into `while c loop ... end loop;`. -/
def convertLoops : Conversion Unit :=
  forEach .whileLoop convertLoop

end SqlDialect.ControlFlow
