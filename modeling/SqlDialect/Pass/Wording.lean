import SqlDialect.Conversion.Construct
import SqlDialect.Text.SnakeCase

/-!
# Names, strings and punctuation

The last passes: names are written in snake case, national strings as plain ones, and a comma or
semicolon after a comment moves in front of it, so that a line comment cannot swallow it.
-/

namespace SqlDialect.Wording

open Conversion

/-! ## Names -/

/-- An underscore in place of the characters that mark variables and temporary tables. -/
def plainNameChar (c : Char) : Char :=
  if c == '@' || c == '#' then '_' else c

/-- An identifier in snake case, without variable marks. -/
def plainName (text : String) : String :=
  String.ofList ((Text.snakeCase text).toList.map plainNameChar)

/-- How a name is written; keywords that serve as names are put in lower case. -/
def nameText (f : Forest) (id : NodeId) : String :=
  match f.tag id with
  | .otherNode | .bracketQuotedName => plainName (f.text id)
  | _ => Text.lowercase (f.text id)

/-- Writes every name below the root in snake case. -/
def renameIdentifiers : Conversion Unit := do
  ((← forest).descendants Forest.root).forM fun id => do
    let f ← forest
    if f.isName id then setText id (nameText f id)

/-! ## Strings -/

/-- Turns `N'text'` into `'text'`. -/
def convertNationalStrings : Conversion Unit :=
  forEach .nString (setTag · .string)

/-! ## Punctuation -/

/-- The first comment of the run of noise directly before a node. -/
def firstCommentBefore (f : Forest) (id : NodeId) : Option NodeId :=
  ((f.siblingsBefore id).reverse.takeWhile f.isNoise).reverse.find? f.isComment

/-- Moves a node in front of the comments directly before it. -/
def moveBeforeComments (id : NodeId) : Conversion Unit := do
  let f ← forest
  let some comment := firstCommentBefore f id | return
  let parent ← need "parent of the punctuation" (f.parent id)
  moveBefore parent id comment

/-- A comma after comments moves in front of them. -/
def moveCommas : Conversion Unit :=
  forEach .comma moveBeforeComments

/-- A semicolon after comments moves in front of them. -/
def moveSemicolons : Conversion Unit :=
  forEach .semicolon moveBeforeComments

end SqlDialect.Wording
