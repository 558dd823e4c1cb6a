import SqlDialect.Declaration

/-!
# Steps of a conversion

A conversion edits a forest and may stop with an error.  What it has done up to then stays done: its
state survives its errors, and so a conversion that fails half way leaves the tree as it was at that
moment.

Next to the forest the state holds notes, by which an earlier pass tells a later one what it found
before it took it away.

The operations on forests appear here again as steps of a conversion.  One that makes a node and
then fails to attach it leaves the new node behind without a parent; an operation that moves a
node and fails to attach it at its new place leaves it detached.
-/

namespace SqlDialect

/-- What the passes of a conversion leave for later ones. -/
structure Notes where
  /-- How many conversions were only approximate. -/
  warnings : Nat := 0
  /-- The declarations found when the declare sections were made. -/
  declarations : List Declaration := []
  /-- Variables and parameters that became arrays. -/
  arrayVariables : List String := []
  /-- The column list of each temporary table, by its name in lower case. -/
  tempTables : Dict NodeId := .empty
  deriving Inhabited

/-- Whether a variable is an array. -/
def Notes.isArrayVariable (notes : Notes) (name : String) : Bool :=
  notes.arrayVariables.any (Text.sameWord · name)

/-- Why a conversion stops. -/
inductive ConversionError where
  /-- A node could not be attached or removed. -/
  | link (cause : LinkError)
  /-- A construct lacks a part that its conversion relies on. -/
  | shape (missing : String)
  /-- A walk went further down than any tree it can meet. -/
  | tooDeep
  deriving DecidableEq

def ConversionError.message : ConversionError → String
  | .link cause => cause.message
  | .shape missing => "Unexpected tree shape: expected " ++ missing
  | .tooDeep => "Walk without end"

/-- The state of a conversion: its forest and the notes of its passes. -/
structure Workspace where
  forest : Forest
  notes : Notes := {}
  deriving Inhabited

/-- A step of a conversion. -/
abbrev Conversion := EStateM ConversionError Workspace

namespace Conversion

/-- The forest as it is now. -/
def forest : Conversion Forest := do
  return (← get).forest

/-- The notes as they are now. -/
def notes : Conversion Notes := do
  return (← get).notes

/-- Changes the forest. -/
def edit (change : Forest → Forest) : Conversion Unit :=
  modify fun w => { w with forest := change w.forest }

/-- Changes the notes. -/
def note (change : Notes → Notes) : Conversion Unit :=
  modify fun w => { w with notes := change w.notes }

/-- Adds nodes to the forest and gives the number of the first one. -/
def grow (add : Forest → NodeId × Forest) : Conversion NodeId :=
  modifyGet fun w =>
    let (id, forest) := add w.forest
    (id, { w with forest })

/-- Changes the links of the forest, if they can be changed so. -/
def relink (change : Forest → Except LinkError Forest) : Conversion Unit := do
  match change (← forest) with
  | .ok changed => edit fun _ => changed
  | .error cause => throw (.link cause)

/-- A part that must be there. -/
def need {α : Type} (missing : String) : Option α → Conversion α
  | some a => pure a
  | none => throw (.shape missing)

/-- Records an approximate conversion. -/
def warn : Conversion Unit :=
  note fun n => { n with warnings := n.warnings + 1 }

/-- Records a variable as an array. -/
def noteArray (name : String) : Conversion Unit :=
  note fun n => { n with arrayVariables := n.arrayVariables ++ [name] }

/-! ## Fields -/

def setTag (id : NodeId) (tag : Tag) : Conversion Unit :=
  edit (·.setTag id tag)

def setText (id : NodeId) (text : String) : Conversion Unit :=
  edit (·.setText id text)

def setAttribute (id : NodeId) (key value : String) : Conversion Unit :=
  edit (·.setAttribute id key value)

/-- Removes an attribute and gives its value. -/
def removeAttribute (id : NodeId) (key : String) : Conversion (Option String) := do
  let value := (← forest).attribute? id key
  edit (·.removeAttribute id key)
  return value

/-! ## Links -/

/-- A new node without a parent. -/
def create (tag : Tag) (text : String) : Conversion NodeId :=
  grow (·.create tag text)

/-- A new node at the end of the children of `parent`. -/
def append (parent : NodeId) (tag : Tag) (text : String) : Conversion NodeId :=
  grow (·.append parent tag text)

/-- New leaves at the end of the children of `parent`. -/
def appendLeaves (parent : NodeId) (leaves : List (Tag × String)) : Conversion Unit :=
  leaves.forM fun (tag, text) => discard (append parent tag text)

/-- A new leaf at the end of the children of `parent`. -/
def appendLeaf (parent : NodeId) (tag : Tag) (text : String) : Conversion Unit :=
  discard (append parent tag text)

def addChild (parent child : NodeId) : Conversion Unit :=
  relink (·.addChild parent child)

def insertBefore (parent child mark : NodeId) : Conversion Unit :=
  relink (·.insertBefore parent child mark)

def insertAfter (parent child mark : NodeId) : Conversion Unit :=
  relink (·.insertAfter parent child mark)

/-- A new node directly before a child of `parent`. -/
def insertNewBefore (parent : NodeId) (tag : Tag) (text : String) (mark : NodeId) :
    Conversion NodeId := do
  let id ← create tag text
  insertBefore parent id mark
  return id

/-- A new node directly after a child of `parent`. -/
def insertNewAfter (parent : NodeId) (tag : Tag) (text : String) (mark : NodeId) :
    Conversion NodeId := do
  let id ← create tag text
  insertAfter parent id mark
  return id

/-- New leaves directly after a child of `parent`, in order; gives the last of them. -/
def insertLeavesAfter (parent mark : NodeId) (leaves : List (Tag × String)) : Conversion NodeId :=
  leaves.foldlM (fun mark (tag, text) => insertNewAfter parent tag text mark) mark

def removeChild (parent child : NodeId) : Conversion Unit :=
  relink (·.removeChild parent child)

def detach (id : NodeId) : Conversion Unit :=
  edit (·.detach id)

/-- Detaches a node and attaches it at the end of the children of `parent`. -/
def moveTo (parent id : NodeId) : Conversion Unit := do
  detach id
  addChild parent id

/-- Moves nodes, in order, to the end of the children of `parent`. -/
def moveAllTo (parent : NodeId) (ids : List NodeId) : Conversion Unit :=
  ids.forM (moveTo parent)

/-- Detaches a node and attaches it directly before a child of `parent`. -/
def moveBefore (parent id mark : NodeId) : Conversion Unit := do
  detach id
  insertBefore parent id mark

/-- Detaches a node and attaches it directly after a child of `parent`. -/
def moveAfter (parent id mark : NodeId) : Conversion Unit := do
  detach id
  insertAfter parent id mark

/-- Moves nodes, in order, to directly after a child of `parent`; gives the last of them. -/
def moveAllAfter (parent mark : NodeId) (ids : List NodeId) : Conversion NodeId :=
  ids.foldlM (fun mark id => do moveAfter parent id mark; return id) mark

/-- A copy of the tree at a node, without a parent. -/
def copy (id : NodeId) : Conversion NodeId :=
  grow (·.copy id)

/-- A copy of the tree at a node at the end of the children of `parent`. -/
def appendCopy (parent id : NodeId) : Conversion Unit := do
  let duplicate ← copy id
  addChild parent duplicate

end Conversion

end SqlDialect
