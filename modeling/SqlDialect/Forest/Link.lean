import SqlDialect.Forest.Basic

/-!
# Attaching and detaching nodes

A node has at most one parent.  It has to be detached before it can be attached elsewhere, and it
cannot be attached below itself.  An operation that is refused leaves the forest as it was.

When several reasons speak against an attachment, the first of these is reported: the node has a
parent, the node is the new parent or one of its ancestors, the place is given by a node that is not
a child of the new parent.
-/

namespace SqlDialect

/-- Why a node cannot be attached or removed as asked. -/
inductive LinkError where
  /-- The node still has a parent. -/
  | alreadyAttached (child parent : NodeId)
  /-- A node that should mark a place among the children of `parent` is not one of them. -/
  | notAChild (child parent : NodeId)
  /-- The node is `parent` or an ancestor of it. -/
  | cycle (child parent : NodeId)
  deriving DecidableEq

/-- A node as messages name it. -/
def nodeName (id : NodeId) : String := "#" ++ id.repr

def LinkError.message : LinkError → String
  | .alreadyAttached child parent =>
    "Node " ++ nodeName child ++ " is already attached to " ++ nodeName parent
  | .notAChild child parent =>
    "Node " ++ nodeName child ++ " is not a child of " ++ nodeName parent
  | .cycle child parent =>
    "Attaching " ++ nodeName child ++ " under " ++ nodeName parent ++ " would create a cycle"

/-- The nodes before and after the first occurrence of a node in a list. -/
def splitAround (id : NodeId) : List NodeId → Option (List NodeId × List NodeId)
  | [] => none
  | head :: rest =>
    if head = id then some ([], rest)
    else (splitAround id rest).map fun (before, after) => (head :: before, after)

namespace Forest

/-- The parent of a node, the parent of that, and so on for at most the given number of steps. -/
def ancestorsTo (f : Forest) : Nat → NodeId → List NodeId
  | 0, _ => []
  | steps + 1, id =>
    match f.parent id with
    | some parent => parent :: f.ancestorsTo steps parent
    | none => []

/-- The ancestors of a node, nearest first. -/
def ancestors (f : Forest) (id : NodeId) : List NodeId :=
  f.ancestorsTo f.size id

/-- Whether `child` may become a child of `parent`. -/
def checkAttachable (f : Forest) (parent child : NodeId) : Except LinkError Unit :=
  match f.parent child with
  | some current => .error (.alreadyAttached child current)
  | none =>
    if child ∈ parent :: f.ancestors parent then .error (.cycle child parent) else .ok ()

/-- Attaches a node after the other children of `parent`. -/
def addChild (f : Forest) (parent child : NodeId) : Except LinkError Forest := do
  f.checkAttachable parent child
  pure (f.placeLast parent child)

/-- Attaches a node at a place among the children of `parent` that a child marks: `arrange` puts it
between the nodes before the mark and those after it. -/
def insertAt (f : Forest) (parent child mark : NodeId)
    (arrange : List NodeId → List NodeId → List NodeId) : Except LinkError Forest := do
  f.checkAttachable parent child
  match splitAround mark (f.children parent) with
  | some (before, after) => pure (f.place parent child fun _ => arrange before after)
  | none => throw (.notAChild mark parent)

/-- Attaches a node directly before a child of `parent`. -/
def insertBefore (f : Forest) (parent child mark : NodeId) : Except LinkError Forest :=
  f.insertAt parent child mark fun before after => before ++ child :: mark :: after

/-- Attaches a node directly after a child of `parent`. -/
def insertAfter (f : Forest) (parent child mark : NodeId) : Except LinkError Forest :=
  f.insertAt parent child mark fun before after => before ++ mark :: child :: after

/-- Takes `child` away from `parent`. What is below it stays with it. -/
def removeChild (f : Forest) (parent child : NodeId) : Except LinkError Forest :=
  if child ∈ f.children parent then
    .ok ((f.update parent fun n => { n with children := n.children.erase child }).update child
      fun n => { n with parent := none })
  else .error (.notAChild child parent)

/-- Takes a node away from its parent, if it has one. -/
def detach (f : Forest) (id : NodeId) : Forest :=
  match f.parent id with
  | some parent =>
    (f.update parent fun n => { n with children := n.children.filter (· != id) }).update id
      fun n => { n with parent := none }
  | none => f

end Forest

end SqlDialect
