import SqlDialect.SyntaxTree

/-!
# Forests of numbered nodes

A conversion edits its tree in place, so nodes have an identity of their own: a number, given out
in the order in which they are made.  A forest holds every node ever made for a conversion.  Node
`0` is the root of the tree being converted; a node that has been taken out of the tree keeps its
number and everything below it, and is simply no longer reached from the root.

## The view of a node

`Forest.subtree` reads the syntax tree at a node off the forest, and `Forest.sow` plants a syntax
tree among the nodes of a forest, numbered in pre-order.  Every written form of a node is a form
of its subtree, a tree that has been read is sown into the empty forest, and a copy of a node is
its own subtree sown again.

Nothing in the type keeps two nodes from being each other's parent.  The operations on forests do;
functions that follow parents or children are given the number of nodes as their fuel, which is more
than any chain of different nodes needs.
-/

namespace SqlDialect

/-- The number of a node. -/
abbrev NodeId := Nat

/-- A node of a forest: what a syntax tree node holds, with its children and its parent given by
their numbers. -/
structure Node where
  tag : Tag := .root
  text : String := ""
  attributes : Dict String := .empty
  children : List NodeId := []
  parent : Option NodeId := none
  deriving Inhabited

/-- The nodes of a conversion, by number. -/
structure Forest where
  nodes : Array Node
  deriving Inhabited

namespace Forest

/-- The number of the node at the top of the tree under conversion. -/
def root : NodeId := 0

/-- How many nodes have been made. -/
def size (f : Forest) : Nat := f.nodes.size

def isEmpty (f : Forest) : Bool := f.nodes.isEmpty

/-- How much there is to the forest: its nodes and the characters of their texts. -/
def bulk (f : Forest) : Nat :=
  f.nodes.toList.foldr (fun n sum => n.text.length + 1 + sum) 0

/-! ## The fields of a node -/

def node (f : Forest) (id : NodeId) : Node := f.nodes.getD id {}

def tag (f : Forest) (id : NodeId) : Tag := (f.node id).tag

def text (f : Forest) (id : NodeId) : String := (f.node id).text

def attributes (f : Forest) (id : NodeId) : Dict String := (f.node id).attributes

def attribute? (f : Forest) (id : NodeId) (key : String) : Option String :=
  (f.attributes id).get? key

def children (f : Forest) (id : NodeId) : List NodeId := (f.node id).children

def parent (f : Forest) (id : NodeId) : Option NodeId := (f.node id).parent

/-- The forest with one node changed. -/
def update (f : Forest) (id : NodeId) (change : Node → Node) : Forest where
  nodes := f.nodes.modify id change

def setTag (f : Forest) (id : NodeId) (tag : Tag) : Forest :=
  f.update id fun n => { n with tag }

def setText (f : Forest) (id : NodeId) (text : String) : Forest :=
  f.update id fun n => { n with text }

def setAttribute (f : Forest) (id : NodeId) (key value : String) : Forest :=
  f.update id fun n => { n with attributes := n.attributes.insert key value }

def removeAttribute (f : Forest) (id : NodeId) (key : String) : Forest :=
  f.update id fun n => { n with attributes := n.attributes.erase key }

/-! ## New nodes -/

/-- A forest with one more node, which has no parent, and the number of that node. -/
def push (f : Forest) (n : Node) : NodeId × Forest :=
  (f.size, { nodes := f.nodes.push n })

/-- A new node without parent, children or attributes. -/
def create (f : Forest) (tag : Tag) (text : String) : NodeId × Forest :=
  f.push { tag, text }

/-- Makes `child`, which must not have a parent, a child of `parent`, whose new list of children is
made from the old one. -/
def place (f : Forest) (parent child : NodeId) (arrange : List NodeId → List NodeId) : Forest :=
  (f.update child fun n => { n with parent := some parent }).update parent fun n =>
    { n with children := arrange n.children }

/-- Places a node after all other children of its new parent. -/
def placeLast (f : Forest) (parent child : NodeId) : Forest :=
  f.place parent child (· ++ [child])

/-- A new node at the end of the children of `parent`. -/
def append (f : Forest) (parent : NodeId) (tag : Tag) (text : String) : NodeId × Forest :=
  let (id, f) := f.create tag text
  (id, f.placeLast parent id)

/-! ## Syntax trees in a forest -/

/-- The syntax tree at a node, down to the given number of levels below it. -/
def subtreeTo (f : Forest) : Nat → NodeId → SyntaxTree
  | 0, id => .node (f.tag id) (f.text id) (f.attributes id) []
  | levels + 1, id =>
    .node (f.tag id) (f.text id) (f.attributes id) ((f.children id).map (f.subtreeTo levels))

/-- The syntax tree at a node. -/
def subtree (f : Forest) (id : NodeId) : SyntaxTree :=
  f.subtreeTo f.size id

mutual

/-- Plants a syntax tree without a parent. Its nodes are numbered in pre-order; the first number is
that of its top. -/
def sow (f : Forest) : SyntaxTree → NodeId × Forest
  | .node tag text attributes children =>
    let (id, f) := f.push { tag, text, attributes }
    (id, sowUnder f id children)

/-- Plants syntax trees as further children of a node. -/
def sowUnder (f : Forest) (parent : NodeId) : List SyntaxTree → Forest
  | [] => f
  | tree :: rest =>
    let (id, f) := f.sow tree
    sowUnder (f.placeLast parent id) parent rest

end

/-- The forest of a syntax tree and nothing else. -/
def ofTree (tree : SyntaxTree) : Forest :=
  (sow { nodes := #[] } tree).2

/-- The forest of a lone root. -/
def lone : Forest :=
  ofTree (.node .root "" .empty [])

/-- The syntax tree under conversion. -/
def tree (f : Forest) : SyntaxTree :=
  f.subtree root

/-- A copy of the tree at a node, without a parent. -/
def copy (f : Forest) (id : NodeId) : NodeId × Forest :=
  f.sow (f.subtree id)

end Forest

end SqlDialect
