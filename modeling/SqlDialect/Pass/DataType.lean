import SqlDialect.Pass.FunctionCall

/-!
# Casts and data types

A cast is written `x::int`; a value of more than one token, or of more than a call, is put in
brackets first.  Data types are renamed from a table, string types lose their length, and identity
columns take their number from a serial type.
-/

namespace SqlDialect.DataType

open Conversion FunctionCall

/-! ## Casts -/

/-- A value that needs no brackets: a single token, or a token with the brackets of a call. -/
def isSimpleValue (f : Forest) (value : List NodeId) : Bool :=
  match value.filter (!f.isNoise ·) with
  | [_] => true
  | [_, parens] => f.is parens .functionParens
  | _ => false

/-- Moves a value in front of a child of `holder`, in brackets if it needs them. -/
def placeValue (holder mark : NodeId) (value : List NodeId) : Conversion Unit := do
  if isSimpleValue (← forest) value then
    moveAllBefore holder mark value
  else
    let parens ← insertNewBefore holder .expressionParens "" mark
    moveAllTo parens value

/-- Converts a call of `cast`. -/
def convertCast (function : NodeId) : Conversion Unit := do
  let f ← forest
  let holder ← need "expression holding cast" (f.parent function)
  let arguments ← need "arguments of cast" (argumentsOf f function)
  let asKeyword ← need "as keyword of cast" (f.childWithText arguments .otherKeyword "as")
  let value := partBefore f arguments asKeyword
  let target := partAfter f arguments asKeyword
  if value.isEmpty || target.isEmpty then throw (.shape "value and type of cast")
  placeValue holder function value
  discard <| insertNewBefore holder .period "::" function
  moveAllBefore holder function target
  removeChild holder function
  removeChild holder arguments

/-- Turns `cast(x as int)` into `x::int`. -/
def convertCasts : Conversion Unit :=
  forEachMatch .functionKeyword (some "cast") convertCast

/-- Converts a call of `try_cast`. -/
def convertTryCast (function : NodeId) : Conversion Unit := do
  let f ← forest
  let arguments ← need "arguments of try_cast" (argumentsOf f function)
  let asKeyword ← need "as keyword of try_cast" (f.childWithText arguments .otherKeyword "as")
  let target ← need "type of try_cast" (f.nextSibling asKeyword)
  discard <| insertNewBefore arguments .comma "," asKeyword
  discard <| insertNewBefore arguments .otherKeyword "null" target
  discard <| insertNewBefore arguments .period "::" target
  removeChild arguments asKeyword

/-- Turns `try_cast(x as int)` into `try_cast(x, null::int)`. -/
def convertTryCasts : Conversion Unit :=
  forEachMatch .otherNode (some "try_cast") convertTryCast

/-! ## Types -/

/-- The names of types in the target dialect. -/
def renamedTypes : List (String × String) :=
  [("nvarchar", "text"), ("varchar", "text"), ("datetime", "timestamp"),
    ("datetimeoffset", "timestamptz"), ("bit", "boolean"), ("uniqueidentifier", "uuid"),
    ("decimal", "numeric")]

/-- Renames a type; a string type loses its length. -/
def convertType (dataType : NodeId) : Conversion Unit := do
  let f ← forest
  let name := Text.lowercase (f.text dataType)
  if name == "varchar" || name == "nvarchar" then
    ((f.nextSibling dataType).filter (f.is · .ddlDetailParens)).forM detach
  (lookup renamedTypes name).forM (setText dataType)

/-- Renames every data type. -/
def convertTypes : Conversion Unit :=
  forEach .dataTypeKeyword convertType

/-! ## Identity columns -/

/-- The serial type for columns of a type. -/
def serialType? (name : String) : Option String :=
  if name == "int" then some "serial"
  else if name == "bigint" then some "bigserial"
  else none

/-- Converts the column around the word `identity`. -/
def convertIdentity (identity : NodeId) : Conversion Unit := do
  let f ← forest
  let holder ← need "column list holding identity" (f.parent identity)
  let (before, _) ← need "position of identity" (f.around holder identity)
  let column := (before.reverse.takeWhile (!f.is · .comma)).reverse
  let dataType ← need "data type of the identity column"
    (column.find? (f.is · .dataTypeKeyword))
  ((f.nextSibling identity).filter (f.is · .functionParens)).forM (removeChild holder)
  removeChild holder identity
  (serialType? (Text.lowercase (f.text dataType))).forM (setText dataType)

/-- Turns `id int identity(1, 1)` into `id serial`. -/
def convertIdentities : Conversion Unit :=
  forEachMatch .functionKeyword (some "identity") convertIdentity

end SqlDialect.DataType
