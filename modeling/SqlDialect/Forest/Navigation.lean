import SqlDialect.Forest.Link
import SqlDialect.Text.Lowercase

/-!
# Finding one's way in a forest

The questions that passes ask about the surroundings of a node.  White space and comments are
noise: most lookups among siblings step over them, so that a pass can speak of the tokens that
carry meaning.  Texts are compared without regard to the case of ASCII letters.
-/

namespace SqlDialect

/-- Reserved words that may still name a column. -/
def namingKeywords : List String :=
  ["value", "text", "status", "str", "datetime", "date", "query", "language"]

namespace Forest

/-! ## What a node is -/

def is (f : Forest) (id : NodeId) (tag : Tag) : Bool :=
  f.tag id == tag

def hasText (f : Forest) (id : NodeId) (text : String) : Bool :=
  Text.sameWord (f.text id) text

/-- The node is of the kind and has the text. -/
def isText (f : Forest) (id : NodeId) (tag : Tag) (text : String) : Bool :=
  f.is id tag && f.hasText id text

def isWhiteSpace (f : Forest) (id : NodeId) : Bool :=
  f.is id .whiteSpace

def isComment (f : Forest) (id : NodeId) : Bool :=
  (f.tag id).isComment

/-- White space or a comment. -/
def isNoise (f : Forest) (id : NodeId) : Bool :=
  f.isWhiteSpace id || f.isComment id

/-- Whether the node can serve as an identifier. -/
def isName (f : Forest) (id : NodeId) : Bool :=
  f.is id .otherNode || f.is id .bracketQuotedName || namingKeywords.any (f.hasText id)

/-- One of the keywords. -/
def isKeyword (f : Forest) (id : NodeId) (words : List String) : Bool :=
  f.is id .otherKeyword && words.any (f.hasText id)

/-- The nodes without the white space at the two ends. -/
def trimWhiteSpace (f : Forest) (ids : List NodeId) : List NodeId :=
  ((ids.dropWhile f.isWhiteSpace).reverse.dropWhile f.isWhiteSpace).reverse

/-! ## Children -/

/-- The node is of the kind and has the text, if one is asked for. -/
def fits (f : Forest) (tag : Tag) (text : Option String) (id : NodeId) : Bool :=
  f.is id tag && text.all (f.hasText id)

/-- The first child of a kind and, if given, with a text. -/
def findChild (f : Forest) (id : NodeId) (tag : Tag) (text : Option String) : Option NodeId :=
  (f.children id).find? (f.fits tag text)

/-- The last child of a kind and, if given, with a text. -/
def findLastChild (f : Forest) (id : NodeId) (tag : Tag) (text : Option String) : Option NodeId :=
  (f.children id).reverse.find? (f.fits tag text)

def child (f : Forest) (id : NodeId) (tag : Tag) : Option NodeId :=
  f.findChild id tag none

def childWithText (f : Forest) (id : NodeId) (tag : Tag) (text : String) : Option NodeId :=
  f.findChild id tag (some text)

def lastChild (f : Forest) (id : NodeId) (tag : Tag) : Option NodeId :=
  f.findLastChild id tag none

def childrenOf (f : Forest) (id : NodeId) (tag : Tag) : List NodeId :=
  (f.children id).filter (f.is · tag)

/-- The children that are not noise. -/
def significantChildren (f : Forest) (id : NodeId) : List NodeId :=
  (f.children id).filter (!f.isNoise ·)

def firstSignificantChild (f : Forest) (id : NodeId) : Option NodeId :=
  (f.children id).find? (!f.isNoise ·)

def lastSignificantChild (f : Forest) (id : NodeId) : Option NodeId :=
  (f.children id).reverse.find? (!f.isNoise ·)

def lastNonWhiteSpaceChild (f : Forest) (id : NodeId) : Option NodeId :=
  (f.children id).reverse.find? (!f.isWhiteSpace ·)

/-- The clause of a statement whose first significant token has the kind and the text. -/
def clauseStartingWith (f : Forest) (statement : NodeId) (tag : Tag) (text : String) :
    Option NodeId :=
  (f.children statement).find? fun c =>
    f.is c .clause && (f.firstSignificantChild c).any (f.isText · tag text)

/-- The first child that has a child of the kind with the text, such as the clause of a statement
that holds a keyword. -/
def childContaining (f : Forest) (id : NodeId) (tag : Tag) (text : String) : Option NodeId :=
  (f.children id).find? fun c => (f.childWithText c tag text).isSome

/-- The position of a child, counted from zero. -/
def indexOf (f : Forest) (parent child : NodeId) : Option Nat :=
  (f.children parent).idxOf? child

/-- Follows the first child of each kind in turn. -/
def path (f : Forest) : NodeId → List Tag → Option NodeId
  | id, [] => some id
  | id, tag :: tags => f.child id tag >>= fun c => f.path c tags

/-! ## Descendants and ancestors -/

/-- The nodes below a node in pre-order, down to the given number of levels. -/
def descendantsTo (f : Forest) : Nat → NodeId → List NodeId
  | 0, _ => []
  | levels + 1, id => (f.children id).flatMap fun c => c :: f.descendantsTo levels c

/-- The nodes below a node, in pre-order. -/
def descendants (f : Forest) (id : NodeId) : List NodeId :=
  f.descendantsTo f.size id

/-- The nearest ancestor of a kind. -/
def closestAncestor (f : Forest) (id : NodeId) (tag : Tag) : Option NodeId :=
  (f.ancestors id).find? (f.is · tag)

/-- Whether `ancestor` is an ancestor of the node. -/
def isWithin (f : Forest) (id ancestor : NodeId) : Bool :=
  ancestor ∈ f.ancestors id

/-! ## Siblings -/

/-- The children of `parent` before and after one of them. -/
def around (f : Forest) (parent child : NodeId) : Option (List NodeId × List NodeId) :=
  splitAround child (f.children parent)

/-- The next child of `parent` that is not white space and, unless allowed, not a comment. -/
def followingSibling (f : Forest) (parent child : NodeId) (allowComments : Bool) :
    Option NodeId :=
  f.around parent child >>= fun (_, after) =>
    after.find? fun c => !f.isWhiteSpace c && (allowComments || !f.isComment c)

/-- The previous child of `parent` that is not noise. -/
def precedingSibling (f : Forest) (parent child : NodeId) : Option NodeId :=
  f.around parent child >>= fun (before, _) => before.reverse.find? (!f.isNoise ·)

/-- The next sibling that is not white space and, unless allowed, not a comment. -/
def nextSiblingWith (f : Forest) (id : NodeId) (allowComments : Bool) : Option NodeId :=
  f.parent id >>= fun parent => f.followingSibling parent id allowComments

/-- The next sibling that is not noise. -/
def nextSibling (f : Forest) (id : NodeId) : Option NodeId :=
  f.nextSiblingWith id false

/-- The previous sibling that is not noise. -/
def previousSibling (f : Forest) (id : NodeId) : Option NodeId :=
  f.parent id >>= fun parent => f.precedingSibling parent id

/-- The siblings before and after a node. -/
def siblings (f : Forest) (id : NodeId) : Option (List NodeId × List NodeId) :=
  f.parent id >>= fun parent => f.around parent id

/-- The sibling directly after a node, whatever it is. -/
def nextAdjacent (f : Forest) (id : NodeId) : Option NodeId :=
  f.siblings id >>= fun (_, after) => after.head?

/-- The sibling directly before a node, whatever it is. -/
def previousAdjacent (f : Forest) (id : NodeId) : Option NodeId :=
  f.siblings id >>= fun (before, _) => before.getLast?

/-- All siblings before a node, in order. -/
def siblingsBefore (f : Forest) (id : NodeId) : List NodeId :=
  ((f.siblings id).map (·.1)).getD []

/-- All siblings after a node, in order. -/
def siblingsAfter (f : Forest) (id : NodeId) : List NodeId :=
  ((f.siblings id).map (·.2)).getD []

/-! ## Terminators -/

/-- The search of `terminator`, for at most the given number of levels. -/
def terminatorTo (f : Forest) : Nat → NodeId → Option NodeId
  | 0, _ => none
  | levels + 1, id =>
    match f.child id .semicolon with
    | some semicolon => some semicolon
    | none => f.lastNonWhiteSpaceChild id >>= f.terminatorTo levels

/-- The semicolon that ends a node: one among its children, or else the one that ends its last
child, white space not counted. -/
def terminator (f : Forest) (id : NodeId) : Option NodeId :=
  f.terminatorTo f.size id

/-- Whether a semicolon ends the node. -/
def isTerminated (f : Forest) (id : NodeId) : Bool :=
  (f.terminator id).isSome

end Forest

end SqlDialect
