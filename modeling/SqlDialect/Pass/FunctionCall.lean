import SqlDialect.Conversion.Construct

/-!
# Function calls

A call is a function name followed by brackets.  Functions that differ only by name are renamed from
a table; `format`, `iif` and `stuff` take their arguments in another form and are put together anew.
-/

namespace SqlDialect.FunctionCall

open Conversion

/-- The entry of a table of words, whatever the case of its ASCII letters. -/
def lookup (table : List (String × String)) (word : String) : Option String :=
  (table.find? fun (key, _) => Text.sameWord key word).map (·.2)

/-- The brackets that follow a function name. -/
def argumentsOf (f : Forest) (function : NodeId) : Option NodeId :=
  (f.nextSibling function).filter fun id => (f.tag id).isParens

/-- The children before a child, without white space at the ends. -/
def partBefore (f : Forest) (parens mark : NodeId) : List NodeId :=
  f.trimWhiteSpace ((f.children parens).takeWhile (· != mark))

/-- The children after a child, without white space at the ends. -/
def partAfter (f : Forest) (parens mark : NodeId) : List NodeId :=
  f.trimWhiteSpace (((f.children parens).dropWhile (· != mark)).drop 1)

/-- The children between two others, without white space at the ends. -/
def partBetween (f : Forest) (parens first second : NodeId) : List NodeId :=
  f.trimWhiteSpace
    ((((f.children parens).dropWhile (· != first)).drop 1).takeWhile (· != second))

/-- Moves nodes, in order, to directly before a child of `parent`. -/
def moveAllBefore (parent mark : NodeId) (ids : List NodeId) : Conversion Unit :=
  ids.forM fun id => moveBefore parent id mark

/-! ## Renamed functions -/

/-- Functions that differ only by name. -/
def renamedFunctions : List (String × String) :=
  [("len", "length"), ("getdate", "now"), ("rand", "random"), ("newid", "gen_random_uuid"),
    ("isnull", "coalesce"), ("scope_identity", "lastval")]

/-- The new name of a node that names a function and is followed by its arguments. -/
def newName? (f : Forest) (id : NodeId) : Option String :=
  if (f.is id .otherNode || f.is id .functionKeyword) && (argumentsOf f id).isSome then
    lookup renamedFunctions (f.text id)
  else none

/-- Turns `len(x)` into `length(x)`, `getdate()` into `now()` and so on. -/
def renameFunctions : Conversion Unit := do
  ((← forest).descendants Forest.root).forM fun id => do
    (newName? (← forest) id).forM (setText id)

/-! ## Formats -/

/-- The text with each occurrence of `mm`, from left to right, replaced by `MI`. -/
def minutesPicture : List Char → List Char
  | 'm' :: 'm' :: rest => 'M' :: 'I' :: minutesPicture rest
  | c :: rest => c :: minutesPicture rest
  | [] => []

/-- A character of a number picture. -/
def numberPicture (c : Char) : Char :=
  if c == '#' then '9' else if c == '.' then 'D' else c

/-- The picture of a format: with a zero or a number sign in it it is that of a number, else that of
a date. -/
def convertPicture (text : String) : String :=
  let cs := text.toList
  if cs.any fun c => c == '0' || c == '#' then String.ofList ('F' :: 'M' :: cs.map numberPicture)
  else String.ofList (minutesPicture cs)

/-- Converts a call of `format`. -/
def convertFormat (function : NodeId) : Conversion Unit := do
  let f ← forest
  let some arguments := argumentsOf f function | return
  let picture ← need "format picture" (f.child arguments .string)
  setText function "to_char"
  setText picture (convertPicture (f.text picture))

/-- Turns `format(x, '#.00')` into `to_char(x, 'FM9D00')`. -/
def convertFormats : Conversion Unit :=
  forEachMatch .otherNode (some "format") convertFormat

/-! ## Conditional expressions -/

/-- A branch of a case expression: a keyword in its opener, then a container with the nodes. -/
def fillBranch (branch : NodeId) (word : String) (nodes : List NodeId) : Conversion Unit := do
  let opener ← append branch .containerOpen ""
  appendLeaf opener .otherKeyword word
  let body ← append branch .containerGeneralContent ""
  moveAllTo body nodes

/-- Converts a call of `iif`. -/
def convertConditional (function : NodeId) : Conversion Unit := do
  let f ← forest
  let holder ← need "expression holding iif" (f.parent function)
  let arguments ← need "arguments of iif" (argumentsOf f function)
  let first :: second :: _ := f.childrenOf arguments .comma
    | throw (.shape "three arguments of iif")
  let case ← insertNewBefore holder .caseStatement "" function
  let opener ← append case .containerOpen ""
  appendLeaf opener .otherKeyword "case"
  appendLeaf case .caseInput ""
  let when ← append case .caseWhen ""
  fillBranch when "when" (partBefore f arguments first)
  let thenBranch ← append when .caseThen ""
  fillBranch thenBranch "then" (partBetween f arguments first second)
  let elseBranch ← append case .caseElse ""
  fillBranch elseBranch "else" (partAfter f arguments second)
  let closer ← append case .containerClose ""
  appendLeaf closer .otherKeyword "end"
  removeChild holder function
  removeChild holder arguments

/-- Turns `iif(c, a, b)` into `case when c then a else b end`. -/
def convertConditionals : Conversion Unit :=
  forEachMatch .otherNode (some "iif") convertConditional

/-! ## Overlays -/

/-- Turns a token into a keyword. -/
def toKeyword (id : NodeId) (word : String) : Conversion Unit := do
  setTag id .otherKeyword
  setText id word

/-- Puts the replacement after the first separator of a call, the start after the second and the
length after the third. -/
def reorderOverlay (arguments first second third start length replacement : NodeId) :
    Conversion Unit := do
  [start, length, replacement].forM (removeChild arguments)
  insertAfter arguments replacement first
  insertAfter arguments start second
  insertAfter arguments length third

/-- Converts a call of `stuff`. -/
def convertOverlay (function : NodeId) : Conversion Unit := do
  let f ← forest
  let arguments ← need "arguments of stuff" (argumentsOf f function)
  let first :: second :: third :: _ := f.childrenOf arguments .comma
    | throw (.shape "four arguments of stuff")
  let start ← need "start of stuff" (f.nextSibling first)
  let length ← need "length of stuff" (f.nextSibling second)
  let replacement ← need "replacement of stuff" (f.nextSibling third)
  setText function "overlay"
  toKeyword first "placing"
  toKeyword second "from"
  toKeyword third "for"
  reorderOverlay arguments first second third start length replacement

/-- Turns `stuff(s, start, length, new)` into `overlay(s placing new from start for length)`. -/
def convertOverlays : Conversion Unit :=
  forEachMatch .functionKeyword (some "stuff") convertOverlay

end SqlDialect.FunctionCall
