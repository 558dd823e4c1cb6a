import SqlDialect.Pass.FunctionCall

/-!
# Date functions

`datepart` and `datediff` become `extract`, which separates its arguments with keywords; `dateadd`
becomes the sum of a date and an interval.
-/

namespace SqlDialect.DateFunction

open Conversion FunctionCall

/-! ## Parts -/

/-- Converts a call of `datepart`. -/
def convertPart (function : NodeId) : Conversion Unit := do
  let f ← forest
  let arguments ← need "arguments of datepart" (argumentsOf f function)
  let comma ← need "comma after the date part" (f.child arguments .comma)
  setText function "extract"
  toKeyword comma "from"

/-- Turns `datepart(year, d)` into `extract(year from d)`. -/
def convertParts : Conversion Unit :=
  forEachMatch .functionKeyword (some "datepart") convertPart

/-! ## Sums -/

/-- The text of a token of a literal amount: a number or a minus sign. -/
def literalToken? (f : Forest) (id : NodeId) : Option String :=
  match f.tag id with
  | .numberValue => some (f.text id)
  | .otherOperator => if f.hasText id "-" then some "-" else none
  | _ => none

/-- The text of an amount in which nothing stands but numbers and minus signs. -/
def literalAmount? (f : Forest) (amount : List NodeId) : Option String :=
  ((amount.filter (!f.isNoise ·)).mapM (literalToken? f)).map String.join

/-- Appends an interval to a sum; an amount that is not literal multiplies one unit. -/
def appendInterval (sum : NodeId) (amount : List NodeId) (unit : String) : Conversion Unit := do
  match literalAmount? (← forest) amount with
  | some literal =>
    appendLeaves sum [(.otherKeyword, "interval"), (.string, literal ++ " " ++ unit)]
  | none =>
    moveAllTo sum amount
    appendLeaves sum [(.otherOperator, "*"), (.otherKeyword, "interval"), (.string, "1 " ++ unit)]

/-- Converts a call of `dateadd`. -/
def convertSum (function : NodeId) : Conversion Unit := do
  let f ← forest
  let holder ← need "expression holding dateadd" (f.parent function)
  let arguments ← need "arguments of dateadd" (argumentsOf f function)
  let first :: second :: _ := f.childrenOf arguments .comma
    | throw (.shape "three arguments of dateadd")
  let part ← need "date part of dateadd" (partBefore f arguments first).head?
  let amount := partBetween f arguments first second
  let sum ← insertNewBefore holder .expressionParens "" function
  moveAllTo sum (partAfter f arguments second)
  appendLeaf sum .otherOperator "+"
  appendInterval sum amount (Text.lowercase (f.text part))
  removeChild holder function
  removeChild holder arguments

/-- Turns `dateadd(day, 1, d)` into `(d + interval '1 day')`. -/
def convertSums : Conversion Unit :=
  forEachMatch .functionKeyword (some "dateadd") convertSum

/-! ## Differences -/

/-- Converts a call of `datediff`. -/
def convertDifference (function : NodeId) : Conversion Unit := do
  let f ← forest
  let arguments ← need "arguments of datediff" (argumentsOf f function)
  let first :: second :: _ := f.childrenOf arguments .comma
    | throw (.shape "three arguments of datediff")
  setText function "extract"
  toKeyword first "from"
  setTag second .otherOperator
  setText second "-"
  moveAllBefore arguments second (partAfter f arguments second)
  discard <| moveAllAfter arguments second (partBetween f arguments first second)

/-- Turns `datediff(day, a, b)` into `extract(day from b - a)`. -/
def convertDifferences : Conversion Unit :=
  forEachMatch .functionKeyword (some "datediff") convertDifference

end SqlDialect.DateFunction
