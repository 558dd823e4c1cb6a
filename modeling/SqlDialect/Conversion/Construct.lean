import SqlDialect.Conversion.Walk
import SqlDialect.Separate

/-!
# Constructs that several passes share

Select lists, begin/end blocks, bracketed conditions and the parts of a routine definition.
-/

namespace SqlDialect

namespace Forest

/-! ## Select lists -/

/-- The columns of a select clause, each with the nodes between two commas. The keyword `select`
belongs to none. -/
def selectColumns (f : Forest) (clause : NodeId) : List (List NodeId) :=
  let keyword := f.childWithText clause .otherKeyword "select"
  separate (f.is · .comma) ((f.children clause).filter (some · != keyword))

/-- A column that assigns to a variable: it has an equals sign, and its first name starts with an
at sign. -/
def isVariableAssignment (f : Forest) (column : List NodeId) : Bool :=
  column.any (f.is · .equalsSign) &&
    (column.find? f.isName).any fun name => Text.startsWith (f.text name) '@'

/-! ## Routines -/

/-- The container of the statements of a routine. -/
def routineBody (f : Forest) (asBlock : NodeId) : Option NodeId :=
  f.child asBlock .containerGeneralContent

/-- The keyword that says which sort of routine a block defines. -/
def routineKeyword (f : Forest) (block : NodeId) : Option NodeId :=
  (f.children block).find? (f.isKeyword · ["procedure", "proc", "function"])

/-- The block that holds the body of a routine, if the node defines one. -/
def routineAsBlock (f : Forest) (block : NodeId) : Option NodeId :=
  if f.is block .ddlProceduralBlock && (f.routineKeyword block).isSome then
    f.child block .ddlAsBlock
  else none

/-- The body blocks of all routines of the tree, in its order. -/
def routineAsBlocks (f : Forest) : List NodeId :=
  (root :: f.descendants root).filterMap f.routineAsBlock

/-- Whether a statement of the container is already a begin/end block. -/
def holdsBlock (f : Forest) (container : NodeId) : Bool :=
  (f.children container).any fun statement =>
    (f.children statement).any fun clause => (f.child clause .beginEndBlock).isSome

end Forest

namespace Conversion

/-- Moves the statements of a container into a new begin/end block, unless one of them is such a
block. -/
def wrapInBeginEnd (container : NodeId) : Conversion Unit := do
  if (← forest).holdsBlock container then return
  let statement ← create .statement ""
  let clause ← append statement .clause ""
  let block ← append clause .beginEndBlock ""
  let opener ← append block .containerOpen ""
  appendLeaf opener .otherKeyword "begin"
  let body ← append block .containerMultiStatement ""
  moveAllTo body ((← forest).children container)
  let closer ← append block .containerClose ""
  appendLeaf closer .otherKeyword "end"
  addChild container statement

/-- Moves everything after the first keyword of a clause, semicolons apart, into brackets; gives the
brackets. -/
def wrapInParens (clause : NodeId) : Conversion NodeId := do
  let f ← forest
  let keyword ← need "keyword opening the clause" (f.child clause .otherKeyword)
  let content := (f.siblingsAfter keyword).filter (!f.is · .semicolon)
  let parens ← insertNewAfter clause .expressionParens "" keyword
  moveAllTo parens content
  return parens

/-- Detaches the semicolon that ends a node; gives it, if there is one. -/
def takeTerminator (id : NodeId) : Conversion (Option NodeId) := do
  let semicolon := (← forest).terminator id
  semicolon.forM detach
  return semicolon

/-- Attaches the semicolon that was taken from elsewhere, if there was one. -/
def putTerminator (parent : NodeId) (semicolon : Option NodeId) : Conversion Unit :=
  semicolon.forM (addChild parent)

end Conversion

end SqlDialect
