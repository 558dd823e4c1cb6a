import SqlDialect.Conversion.Construct

/-!
# Statements and their terminators

Statements that mean nothing in the target dialect go, and so do those that consist of a terminator
only.  Every other statement must end in a semicolon, at the end of its last clause.
-/

namespace SqlDialect.Terminator

open Conversion

/-! ## Statements that go -/

/-- Options that the target dialect does not have. -/
def droppedOptions : List String := ["lineno", "nocount"]

/-- A statement with a single clause that is a single semicolon. -/
def isBareTerminator (f : Forest) (statement : NodeId) : Bool :=
  match f.significantChildren statement with
  | [clause] =>
    match f.significantChildren clause with
    | [only] => f.is only .semicolon
    | _ => false
  | _ => false

/-- Drops statements like `set nocount on`, and statements that are only a terminator. -/
def dropStatements : Conversion Unit :=
  walk Forest.root fun id => do
    let f ← forest
    if f.isKeyword id droppedOptions then
      let statement ← need "statement of the option" (f.closestAncestor id .statement)
      detach statement
      return .skip
    else if f.is id .statement && isBareTerminator f id then
      detach id
      return .skip
    else return .descend

/-! ## Terminators -/

/-- A terminator inside a definition moves to the clause around it. -/
def liftTerminators : Conversion Unit :=
  forEach .ddlOtherBlock fun block => do
    let f ← forest
    let some semicolon := f.child block .semicolon | return
    let clause ← need "clause of the ddl block" (f.parent block)
    moveTo clause semicolon

/-- A block that ends the first branch of a condition with an else branch. -/
def precedesElse (f : Forest) (clause : NodeId) : Bool :=
  (f.child clause .beginEndBlock).isSome &&
    (((f.parent clause >>= f.parent >>= f.parent).filter (f.is · .ifStatement)).any
      fun owner => (f.child owner .elseClause).isSome)

/-- A clause at the end of its parent, not terminated, and not such that its last part ends in a
terminator of its own. -/
def lacksTerminator (f : Forest) (clause : NodeId) : Bool :=
  match f.parent clause, (f.children clause).getLast? with
  | some parent, some last =>
    (f.children parent).getLast? == some clause
      && ([Tag.semicolon, .whileLoop, .tryBlock].all fun tag => (f.child clause tag).isNone)
      && !f.is last .ddlProceduralBlock && !f.is last .ifStatement
      && !f.isTerminated clause && !precedesElse f clause
  | _, _ => false

/-- Puts a semicolon at the end of a clause, before white space. -/
def terminate (clause : NodeId) : Conversion Unit := do
  let f ← forest
  match (f.children clause).getLast?.filter f.isWhiteSpace with
  | some blank => discard <| insertNewBefore clause .semicolon ";" blank
  | none => appendLeaf clause .semicolon ";"

/-- Terminates a node if it is a clause that lacks its terminator. Brackets are not looked into. -/
def terminatorVisit (id : NodeId) : Conversion Visit := do
  let f ← forest
  match f.tag id with
  | .expressionParens | .functionParens | .selectionTargetParens => return .skip
  | .clause =>
    if lacksTerminator f id then terminate id
    return .descend
  | _ => return .descend

/-- Terminates the last clause of every statement. -/
def addTerminators : Conversion Unit :=
  walk Forest.root terminatorVisit

end SqlDialect.Terminator
