import SqlDialect.SyntaxTree
import SqlDialect.Text.Property

/-!
# Tree diagrams

A tree drawn with rails, one line for each node in pre-order.  The line of a node starts with a cell
for each of its ancestors below the top one: a rail while that ancestor has later siblings, blank
otherwise.  A connector follows, a corner for the last child of its parent and a tee for the others,
and then the text of the node, if it has one, and its kind.
-/

namespace SqlDialect.SyntaxTree

/-- One cell of the left margin: a rail while the ancestor at that depth has siblings to come. -/
def railCell (continues : Bool) : String :=
  if continues then "│ " else "  "

/-- The mark in front of a node: none at the top of the diagram. -/
def connector : Option Bool → String
  | some true => "└─"
  | some false => "├─"
  | none => ""

/-- Line ends and tabulators of a text written as two characters, so that a node stays on its
line. -/
def onOneLine (text : String) : String :=
  String.ofList (text.toList.flatMap fun c =>
    if c == '\n' then ['\\', 'n'] else if c == '\t' then ['\\', 't'] else [c])

/-- What the line of a node says about it. -/
def lineLabel (tag : Tag) (text : String) : String :=
  if Text.isBlankText text then tag.name else onOneLine text ++ " / " ++ tag.name

/-- Whether a node is left out of a diagram without white space. -/
def hiddenFrom (hideBlanks : Bool) (tree : SyntaxTree) : Bool :=
  hideBlanks && tree.tag == .whiteSpace

/-- The margin below a node: its own cell is added to that of its ancestors, the top node has
none. -/
def innerRails (rails : List Bool) : Option Bool → List Bool
  | some last => rails ++ [!last]
  | none => rails

mutual

/-- The lines of a tree below the given margin. `last` says whether the node is the last child of
its parent; the top node has no parent in the diagram. -/
def diagramLines (hideBlanks : Bool) (rails : List Bool) (last : Option Bool) :
    SyntaxTree → List String
  | .node tag text _ children =>
    (String.join (rails.map railCell) ++ connector last ++ lineLabel tag text ++ "\n")
      :: diagramBelow hideBlanks (innerRails rails last) children

/-- The lines of the children of a node, of which the last visible one closes its rail. -/
def diagramBelow (hideBlanks : Bool) (rails : List Bool) : List SyntaxTree → List String
  | [] => []
  | tree :: rest =>
    if hiddenFrom hideBlanks tree then diagramBelow hideBlanks rails rest
    else
      diagramLines hideBlanks rails (some (rest.all (hiddenFrom hideBlanks))) tree
        ++ diagramBelow hideBlanks rails rest

end

/-- The diagram of a tree, with or without the white space below its top. -/
def diagram (tree : SyntaxTree) (hideBlanks : Bool) : String :=
  String.join (diagramLines hideBlanks [] none tree)

end SqlDialect.SyntaxTree
