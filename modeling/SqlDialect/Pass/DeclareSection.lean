import SqlDialect.Conversion.Construct

/-!
# Declare sections and assignments

Variables are declared at the start of a routine in the target dialect, and given their values in
its body.  Three passes do this together: the first copies the declarations of a routine to one
section at its start, the second puts assignments in the place of declarations with an initial
value, and the third drops the declarations that are left.  A fourth turns `set @a = 1` into an
assignment.
-/

namespace SqlDialect.DeclareSection

open Conversion

/-! ## The section -/

/-- A declaration with neither a type keyword nor a type name cannot be written in the section. -/
def isTyped (f : Forest) (d : Declaration) : Bool :=
  (d.typeKeyword f).isSome || 2 ≤ (d.names f).length

/-- Copies the tokens of a declaration, comments apart, and marks the type of an array. -/
def copySignature (clause : NodeId) (d : Declaration) : Conversion Unit := do
  let f ← forest
  let elementType := if d.array then (d.names f).getLast? else none
  d.signature.forM fun id => do
    if f.isComment id then return
    appendCopy clause id
    if some id == elementType then appendLeaf clause .period "[]"

/-- The entry of a declaration in the section: its name and type, a semicolon, its comments. -/
def addEntry (sectionClause : NodeId) (d : Declaration) : Conversion Unit := do
  if !isTyped (← forest) d then return
  let clause ← append sectionClause .clause ""
  copySignature clause d
  appendLeaf clause .semicolon ";"
  let f ← forest
  ((d.value ++ d.signature).filter f.isComment).forM fun comment => do
    appendLeaf clause .whiteSpace " "
    appendCopy clause comment

/-- Puts a section with the declarations of a routine in front of its block. -/
def addSection (asBlock : NodeId) : Conversion Unit := do
  let f ← forest
  let declarations := f.declarations asBlock
  if declarations.isEmpty then return
  let statement ← need "statement of the routine body"
    (f.routineBody asBlock >>= fun body => f.child body .statement)
  let blockClause ← need "begin/end clause of the routine body" (f.child statement .clause)
  let sectionClause ← insertNewBefore statement .clause "" blockClause
  let header ← append sectionClause .ddlDeclareBlock ""
  appendLeaf header .otherKeyword "declare"
  declarations.forM (addEntry sectionClause)

/-- The variable of an array declaration as notes name it: its first identifier. -/
def arrayName (f : Forest) (d : Declaration) : Option String :=
  if d.array then (d.signature.find? (f.is · .otherNode)).map f.text else none

/-- Notes all declarations of the tree, and gives every routine its section. -/
def addSections : Conversion Unit := do
  let f ← forest
  let declarations := f.declarations Forest.root
  note fun n => { n with
    declarations
    arrayVariables := n.arrayVariables ++ declarations.filterMap (arrayName f) }
  f.routineAsBlocks.forM addSection

/-! ## Assignments -/

/-- Puts the assignment of a declaration's initial value after `mark`; gives its clause. -/
def assignInitialValue (statement mark : NodeId) (d : Declaration) : Conversion NodeId := do
  let f ← forest
  let name ← need "declared variable name" (d.name f)
  let value := d.value.filter fun id => !f.isNoise id && !f.is id .semicolon
  let target ← insertNewAfter statement .clause "" mark
  moveTo target name
  appendLeaf target .equalsSign ":="
  moveAllTo target value
  appendLeaf target .semicolon ";"
  return target

/-- A declaration block with initial values gives way to their assignments. -/
def assignBlock (block : NodeId) : Conversion Unit := do
  let f ← forest
  let initialised := (f.extract block).filter (!·.value.isEmpty)
  if initialised.isEmpty then return
  let clause ← need "clause holding the declaration" (f.parent block)
  let statement ← need "statement holding the declaration" (f.parent clause)
  discard <| initialised.foldlM (assignInitialValue statement) clause
  removeChild statement clause

/-- Does something about a node if it is a declaration block. -/
def blockVisit (act : NodeId → Conversion Unit) (id : NodeId) : Conversion Visit := do
  if (← forest).is id .ddlDeclareBlock then
    act id
    return .skip
  else return .descend

/-- Initial values are assigned where the variables were declared. -/
def assignInitialValues : Conversion Unit :=
  walk Forest.root (blockVisit assignBlock)

/-- Removes white space that is the first child of a node. -/
def dropLeadingWhiteSpace (id : NodeId) : Conversion Unit := do
  let f ← forest
  match (f.children id).head? with
  | some first => if f.isWhiteSpace first then removeChild id first
  | none => pure ()

/-- Turns the `set` of a variable into an assignment. A `set` of an update or a merge, and one
without an equals sign, is left alone. -/
def assignSet (keyword : NodeId) : Conversion Unit := do
  let f ← forest
  let some clause := f.parent keyword | return
  let statement ← need "statement holding set" (f.parent clause)
  if (f.childContaining statement .otherKeyword "update").isSome then return
  if (f.closestAncestor keyword .mergeClause).isSome then return
  let some equals := f.child clause .equalsSign | return
  removeChild clause keyword
  dropLeadingWhiteSpace clause
  setText equals ":="

/-- Turns `set @a = 1` into `@a := 1`. -/
def assignSets : Conversion Unit :=
  forEachKeyword "set" assignSet

/-! ## What is left -/

/-- Drops the statement of a declaration block, except that of the section of a routine. -/
def dropBlock (block : NodeId) : Conversion Unit := do
  let f ← forest
  let statement ← need "statement holding the declaration" (f.closestAncestor block .statement)
  let some container := f.parent statement | return
  if !f.is container .containerGeneralContent then removeChild container statement

/-- Drops the declarations that are not in the section of a routine. -/
def dropDeclarations : Conversion Unit :=
  walk Forest.root (blockVisit dropBlock)

end SqlDialect.DeclareSection
