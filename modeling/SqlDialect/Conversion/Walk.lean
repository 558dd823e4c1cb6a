import SqlDialect.Conversion.Basic

/-!
# Walks

A pass visits the nodes of the tree in pre-order and edits it as it goes.  The children of a node
are listed when the node itself has been visited: nodes that a visit adds elsewhere are not met,
and a child that has been detached in the meantime is passed over.  A child that has only been
moved is still met, wherever it stands now.

A visit may add nodes below the node it visits, so the tree can grow while it is being walked.  A
walk is therefore given a limit on how far down it goes, so generous that no pass comes near it;
to go beyond it is an error of its own.
-/

namespace SqlDialect

/-- Whether a walk goes on to the children of the node it has visited. -/
inductive Visit where
  | descend
  | skip
  deriving DecidableEq

namespace Conversion

/-- A walk from a node, at most `limit` levels down, that carries a value from visit to visit. -/
def walkFrom {σ : Type} (visit : NodeId → σ → Conversion (Visit × σ)) :
    Nat → NodeId → σ → Conversion σ
  | 0, _, _ => throw .tooDeep
  | limit + 1, id, state => do
    let (decision, state) ← visit id state
    match decision with
    | .skip => return state
    | .descend =>
      ((← forest).children id).foldlM (fun state child => do
        if ((← forest).parent child).isNone then return state
        walkFrom visit limit child state) state

/-- The number of levels that a walk of a forest may go down. A name with many parts can become as
many levels, so the texts count too. -/
def walkLimit (f : Forest) : Nat :=
  (f.bulk + 4) * (f.bulk + 4) * (f.bulk + 4) * (f.bulk + 4)

/-- Walks the tree at a node, carrying a value along. -/
def walkWith {σ : Type} (id : NodeId) (state : σ) (visit : NodeId → σ → Conversion (Visit × σ)) :
    Conversion σ := do
  walkFrom visit (walkLimit (← forest)) id state

/-- Walks the tree at a node. -/
def walk (id : NodeId) (visit : NodeId → Conversion Visit) : Conversion Unit :=
  walkWith id () fun id _ => return (← visit id, ())

/-- Converts a node if it is of a kind and, if a text is given, has that text. -/
def matchVisit (tag : Tag) (text : Option String) (convertNode : NodeId → Conversion Unit)
    (id : NodeId) : Conversion Visit := do
  if (← forest).fits tag text id then convertNode id
  return .descend

/-- Walks the whole tree and converts each node of a kind. Their children are visited too. -/
def forEachMatch (tag : Tag) (text : Option String) (convertNode : NodeId → Conversion Unit) :
    Conversion Unit :=
  walk Forest.root (matchVisit tag text convertNode)

/-- Converts each node of a kind. -/
def forEach (tag : Tag) (convertNode : NodeId → Conversion Unit) : Conversion Unit :=
  forEachMatch tag none convertNode

/-- Converts each keyword with the given text. -/
def forEachKeyword (word : String) (convertNode : NodeId → Conversion Unit) : Conversion Unit :=
  forEachMatch .otherKeyword (some word) convertNode

end Conversion

end SqlDialect
