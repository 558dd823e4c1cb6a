import SqlDialect.Forest.Navigation

/-!
# Declarations

A declaration block such as

    declare @a int = 1, @b dbo.Items, @c nvarchar(20) -- note

declares several variables.  `extract` reads its tokens from left to right and gives one declaration
for each variable: the tokens that name and type it, and the tokens of its initial value.

## How the tokens are read

Outside an initial value, a name opens a new declaration, unless it stands next to a period:
before one it is the schema of a type, which is dropped, and after one it is a table type, which
makes the variable an array of that type.  Types, the keyword `table`, bracketed details and
comments go to the declaration that is open; of a run of white space the first is kept.  An equals
sign starts the initial value, which takes everything up to the next comma.
-/

namespace SqlDialect

/-- The tokens of one declared variable. -/
structure Declaration where
  /-- Name, type and comments, without white space at the ends. -/
  signature : List NodeId := []
  /-- The initial value, without white space at the ends; empty if there is none. -/
  value : List NodeId := []
  /-- The type is a table type, so the variable is an array of it. -/
  array : Bool := false
  deriving DecidableEq, Inhabited

namespace Declaration

/-- The name of the variable. -/
def name (d : Declaration) (f : Forest) : Option NodeId :=
  d.signature.find? f.isName

def typeKeyword (d : Declaration) (f : Forest) : Option NodeId :=
  d.signature.find? (f.is · .dataTypeKeyword)

/-- The identifiers: the name, then a table type if there is one. -/
def names (d : Declaration) (f : Forest) : List NodeId :=
  d.signature.filter f.isName

/-- The variable is declared with the columns of a table. -/
def isTable (d : Declaration) (f : Forest) : Bool :=
  d.signature.any (f.isText · .otherKeyword "table")

/-- One of the identifiers of the variable is the given one. -/
def declares (d : Declaration) (f : Forest) (name : String) : Bool :=
  d.signature.any (f.isText · .otherNode name)

/-- The declaration without white space at the ends of its lists. -/
def trimmed (d : Declaration) (f : Forest) : Declaration :=
  { d with signature := f.trimWhiteSpace d.signature, value := f.trimWhiteSpace d.value }

def addToSignature (d : Declaration) (id : NodeId) : Declaration :=
  { d with signature := d.signature ++ [id] }

end Declaration

/-- The state of reading a declaration block. -/
structure DeclarationScan where
  /-- The declarations that are complete, in order. -/
  finished : List Declaration := []
  /-- The declaration that is open. -/
  current : Declaration := {}
  /-- Whether the tokens belong to an initial value. -/
  inValue : Bool := false

namespace DeclarationScan

/-- Closes the open declaration; without any token of a variable it is dropped. -/
def finish (s : DeclarationScan) (f : Forest) : DeclarationScan :=
  let closed := s.current.trimmed f
  { finished := if closed.signature.isEmpty then s.finished else s.finished ++ [closed] }

/-- Adds a token to the variable that is open. -/
def addToSignature (s : DeclarationScan) (id : NodeId) : DeclarationScan :=
  { s with current := s.current.addToSignature id }

/-- A name outside an initial value. -/
def readName (s : DeclarationScan) (f : Forest) (id : NodeId) : DeclarationScan :=
  if (f.nextAdjacent id).any (f.is · .period) then s
  else if (f.previousAdjacent id).any (f.is · .period) then
    { s with current := { s.current.addToSignature id with array := true } }
  else (s.finish f).addToSignature id

/-- White space outside an initial value. -/
def readWhiteSpace (s : DeclarationScan) (f : Forest) (id : NodeId) : DeclarationScan :=
  match s.current.signature.getLast? with
  | none => s
  | some last => if f.isWhiteSpace last then s else s.addToSignature id

/-- The next token of the block. -/
def read (s : DeclarationScan) (f : Forest) (id : NodeId) : DeclarationScan :=
  if s.inValue then
    if f.is id .comma then s.finish f
    else { s with current := { s.current with value := s.current.value ++ [id] } }
  else
    match f.tag id with
    | .otherNode | .bracketQuotedName => s.readName f id
    | .whiteSpace => s.readWhiteSpace f id
    | .dataTypeKeyword | .ddlDetailParens | .ddlParens => s.addToSignature id
    | .otherKeyword => if f.hasText id "table" then s.addToSignature id else s
    | .equalsSign => { s with inValue := true, current := { s.current with value := [] } }
    | tag => if tag.isComment then s.addToSignature id else s

end DeclarationScan

namespace Forest

/-- The tokens of a declaration block. Those of its first general container come last. -/
def declarationTokens (f : Forest) (block : NodeId) : List NodeId :=
  match f.child block .containerGeneralContent with
  | some body => (f.children block).filter (· != body) ++ f.children body
  | none => f.children block

/-- The declarations of a declaration block. -/
def extract (f : Forest) (block : NodeId) : List Declaration :=
  let scan := (f.declarationTokens block).foldl (fun s id => s.read f id) ({} : DeclarationScan)
  (scan.finish f).finished

/-- The search of `declarations`, for at most the given number of levels. -/
def declarationsTo (f : Forest) : Nat → NodeId → List Declaration
  | 0, id => if f.is id .ddlDeclareBlock then f.extract id else []
  | levels + 1, id =>
    if f.is id .ddlDeclareBlock then f.extract id
    else (f.children id).flatMap (f.declarationsTo levels)

/-- The declarations of every declaration block at or below a node, in the order of the tree. -/
def declarations (f : Forest) (id : NodeId) : List Declaration :=
  f.declarationsTo f.size id

end Forest

end SqlDialect
