import SqlDialect.Conversion.Construct

/-!
# Transactions and errors

A routine runs in the transaction of its caller and is rolled back by its exception block, so
explicit transactions are dropped.  A try block and its catch block become one block with an
exception part, and `throw` and `raiserror` become `raise exception`, with their message only.
-/

namespace SqlDialect.ErrorHandling

open Conversion

/-! ## Transactions -/

/-- The boundary of a transaction. -/
def isTransactionBoundary : Tag → Bool
  | .beginTransaction | .commitTransaction | .rollbackTransaction => true
  | _ => false

/-- Removes the statements that begin or end a transaction. -/
def dropTransactions : Conversion Unit :=
  walk Forest.root fun id => do
    let f ← forest
    if !isTransactionBoundary (f.tag id) then return .descend
    let statement ← need "statement of the transaction boundary" (f.closestAncestor id .statement)
    detach statement
    return .skip

/-! ## Try and catch -/

/-- Whether the token before a keyword says `begin`. -/
def followsBegin (f : Forest) (keyword : NodeId) : Bool :=
  (f.previousSibling keyword).any (f.hasText · "begin")

/-- Turns `begin try` into `begin`, and drops `end try`. -/
def convertTry (keyword : NodeId) : Conversion Unit := do
  let f ← forest
  if followsBegin f keyword then
    let opener ← need "opener of the try block" (f.parent keyword)
    removeChild opener keyword
    setAttribute opener simpleTextKey "begin"
  else
    let closer ← need "closer of the try block" (f.closestAncestor keyword .containerClose)
    detach closer

/-- Turns `begin catch` into the start of the exception part and `end catch` into the end of the
block. -/
def convertCatch (keyword : NodeId) : Conversion Unit := do
  let f ← forest
  let marker ← need "marker of the catch block" (f.parent keyword)
  setAttribute marker simpleTextKey
    (if followsBegin f keyword then "exception when others then" else "end")

/-! ## Raised errors -/

/-- The error code of raised errors. -/
def errorCode : String := "T0000"

/-- Turns a token into `raise` and puts the rest of a raise statement after it, with its
message. -/
def raiseException (token : NodeId) (message : List NodeId) : Conversion Unit := do
  let clause ← need "clause of the raise" ((← forest).parent token)
  setTag token .otherKeyword
  setText token "raise"
  let mark ← insertNewAfter clause .otherKeyword "exception" token
  let mark ← moveAllAfter clause mark message
  discard <| insertLeavesAfter clause mark
    [(.otherKeyword, "using"), (.otherNode, "errcode"), (.equalsSign, "="), (.string, errorCode)]

/-- Keeps the second argument of `throw 50001, 'message', 1`; a bare `throw` raises again. -/
def convertThrow (token : NodeId) : Conversion Unit := do
  let f ← forest
  let clause ← need "clause of throw" (f.parent token)
  let arguments := (f.siblingsAfter token).takeWhile (!f.is · .semicolon)
  if arguments.all f.isNoise then
    setTag token .otherKeyword
    setText token "raise"
  else
    let part ← need "message argument of throw" (separate (f.is · .comma) arguments)[1]?
    let message := f.trimWhiteSpace part
    (arguments.filter (· ∉ message)).forM (removeChild clause)
    raiseException token message

/-- Keeps the first argument of `raiserror('message', 16, 1)`. -/
def convertRaiserror (keyword : NodeId) : Conversion Unit := do
  let f ← forest
  let clause ← need "clause of raiserror" (f.parent keyword)
  let parens ← need "arguments of raiserror"
    ((f.nextSibling keyword).filter fun id => (f.tag id).isParens)
  let message := f.trimWhiteSpace ((f.children parens).takeWhile (!f.is · .comma))
  message.forM detach
  removeChild clause parens
  raiseException keyword message

/-- Converts a token that has to do with errors. -/
def convertToken (id : NodeId) : Conversion Unit := do
  let f ← forest
  if f.isText id .otherKeyword "try" then convertTry id
  else if f.isText id .otherKeyword "catch" then convertCatch id
  else if f.isText id .otherKeyword "raiserror" then convertRaiserror id
  else if f.isText id .otherNode "throw" then convertThrow id

/-- Converts what a node has to do with errors. -/
def errorVisit (id : NodeId) : Conversion Visit := do
  convertToken id
  return .descend

/-- Turns `begin try ... end try begin catch ... end catch` into
`begin ... exception when others then ... end`. -/
def convertErrorHandling : Conversion Unit :=
  walk Forest.root errorVisit

end SqlDialect.ErrorHandling
