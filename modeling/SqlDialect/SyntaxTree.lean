import SqlDialect.Dict
import SqlDialect.Tag

/-!
# Syntax trees

A syntax tree as a plain value: a node has a kind, a text, attributes and a list of children.  This
is the form in which trees are exchanged; a tree under conversion lives in a forest of numbered
nodes, and the value at a node of the forest is what is read off it and what every writer shows.

An attribute named `simpleTextKey` replaces the text of a whole subtree in the rendered script.
-/

namespace SqlDialect

/-- A syntax tree. -/
inductive SyntaxTree where
  | node (tag : Tag) (text : String) (attributes : Dict String) (children : List SyntaxTree)

/-- The attribute whose value stands for the rendered text of a node and all below it. -/
def simpleTextKey : String := "simpleText"

namespace SyntaxTree

instance : Inhabited SyntaxTree := ⟨.node default "" .empty []⟩

def tag : SyntaxTree → Tag
  | .node tag _ _ _ => tag

def text : SyntaxTree → String
  | .node _ text _ _ => text

def attributes : SyntaxTree → Dict String
  | .node _ _ attributes _ => attributes

def children : SyntaxTree → List SyntaxTree
  | .node _ _ _ children => children

mutual

/-- The number of nodes of a tree. -/
def size : SyntaxTree → Nat
  | .node _ _ _ children => 1 + sizeAll children

/-- The number of nodes of a list of trees. -/
def sizeAll : List SyntaxTree → Nat
  | [] => 0
  | tree :: rest => tree.size + sizeAll rest

end

mutual

/-- The number of node levels of a tree. -/
def height : SyntaxTree → Nat
  | .node _ _ _ children => 1 + heightAll children

/-- The number of node levels of the tallest tree of a list. -/
def heightAll : List SyntaxTree → Nat
  | [] => 0
  | tree :: rest => max tree.height (heightAll rest)

end

end SyntaxTree

end SqlDialect
