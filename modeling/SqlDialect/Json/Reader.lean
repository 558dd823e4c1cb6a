import SqlDialect.Json.Text
import SqlDialect.SyntaxTree

/-!
# Reading trees from JSON

A node is an object with the members `tag`, `text`, `attributes` and `children`, of which only the
first must be there; members of other names are stepped over.  A node may also be an array of these
four in this order, of which the last ones may be missing.  A member may not be repeated, and `null`
stands for none of them.  Among the attributes a repeated key takes its last value.

A kind is its name, or an object whose only member has this name and the value `null`.

Arrays and objects nest at most `maxNesting` deep, those inside of members that are stepped over not
counted.
-/

namespace SqlDialect.Json

open Text (Reader expectWord)

/-- How deep the arrays and objects of a tree may nest. -/
def maxNesting : Nat := 127

/-- The parts of a node read so far. -/
structure NodeParts where
  tag : Option Tag := none
  text : Option String := none
  attributes : Option (Dict String) := none
  children : Option (List SyntaxTree) := none

/-- The node of its parts; the kind must be among them. -/
def NodeParts.toTree? (parts : NodeParts) : Option SyntaxTree :=
  parts.tag.map fun tag =>
    .node tag (parts.text.getD "") (parts.attributes.getD .empty) (parts.children.getD [])

/-- Sets a part that has not been set before. -/
def setOnce {α : Type} (current : Option α) (value : α) : Option (Option α) :=
  match current with
  | none => some (some value)
  | some _ => none

/-- A kind. `room` is the number of levels that may still open. -/
def readTag (room : Nat) : Reader Tag := fun cs =>
  match skipSpaces cs with
  | '\x7b' :: rest => do
    if room == 0 then none
    let (name, rest) ← string rest
    let tag ← Tag.ofName? name
    let rest ← expect ':' rest
    let rest ← expectWord "null".toList (skipSpaces rest)
    let rest ← expect '\x7d' rest
    some (tag, rest)
  | cs => do
    let (name, rest) ← string cs
    let tag ← Tag.ofName? name
    some (tag, rest)

/-- Attributes: an object of strings. -/
def readAttributes (room : Nat) : Reader (Dict String) := fun cs => do
  let rest ← expect '\x7b' cs
  if room == 0 then none
  members (fun key (attributes : Dict String) cs => do
    let (value, cs) ← string cs
    some (attributes.insert key value, cs)) .empty rest

/-- Children: an array of nodes, each read by `node`. The list is built last first. -/
def readChildren (room : Nat) (node : Reader SyntaxTree) : Reader (List SyntaxTree) := fun cs => do
  let rest ← expect '[' cs
  if room == 0 then none
  let (children, rest) ← elements (fun children cs => do
    let (child, cs) ← node cs
    some (child :: children, cs)) [] rest
  some (children.reverse, rest)

/-- The parts of a node in the order of its array form. -/
def partNames : List String := ["tag", "text", "attributes", "children"]

/-- Reads one part of a node, by its name. -/
def readPart (room : Nat) (node : Reader SyntaxTree) (name : String) (parts : NodeParts) :
    Reader NodeParts := fun cs =>
  if name == "tag" then do
    let (value, cs) ← readTag room cs
    let tag ← setOnce parts.tag value
    some ({ parts with tag }, cs)
  else if name == "text" then do
    let (value, cs) ← string cs
    let text ← setOnce parts.text value
    some ({ parts with text }, cs)
  else if name == "attributes" then do
    let (value, cs) ← readAttributes room cs
    let attributes ← setOnce parts.attributes value
    some ({ parts with attributes }, cs)
  else if name == "children" then do
    let (value, cs) ← readChildren room node cs
    let children ← setOnce parts.children value
    some ({ parts with children }, cs)
  else
    (skipValue (cs.length + 1) cs).map (parts, ·)

/-- The parts of a node given as an array: the names of the parts still to come go along. -/
def readPositional (room : Nat) (node : Reader SyntaxTree) :
    List String × NodeParts → Reader (List String × NodeParts) := fun (names, parts) cs =>
  match names with
  | [] => none
  | name :: names => do
    let (parts, cs) ← readPart room node name parts cs
    some ((names, parts), cs)

/-- The parts of a node whose brackets leave `room` levels, its children read by `node`. -/
def readParts (room : Nat) (node : Reader SyntaxTree) : Reader NodeParts := fun cs =>
  match skipSpaces cs with
  | '\x7b' :: rest => members (fun key parts => readPart room node key parts) {} rest
  | '[' :: rest => do
    let ((_, parts), rest) ← elements (readPositional room node) (partNames, {}) rest
    some (parts, rest)
  | _ => none

/-- A node, where `room` levels may still open: one for its own brackets, one for the array of its
children. -/
def readNode : Nat → Reader SyntaxTree
  | 0, _ => none
  | 1, cs => do
    let (parts, rest) ← readParts 0 (fun _ => none) cs
    let tree ← parts.toTree?
    some (tree, rest)
  | room + 2, cs => do
    let (parts, rest) ← readParts (room + 1) (readNode room) cs
    let tree ← parts.toTree?
    some (tree, rest)

/-- The tree that a JSON document denotes; nothing but blanks may follow it. -/
def read? (input : String) : Option SyntaxTree := do
  let (tree, rest) ← readNode maxNesting input.toList
  if (skipSpaces rest).isEmpty then some tree else none

end SqlDialect.Json
