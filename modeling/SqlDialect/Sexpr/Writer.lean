import SqlDialect.SyntaxTree

/-!
# Writing trees as S-expressions

A node is written as its kind in brackets, then its attributes between braces, its text between
double quotes and its children, each on a line of its own and indented by two more spaces.  Empty
attributes and an empty text are left out.
-/

namespace SqlDialect.Sexpr

/-- The escape of a character inside double quotes. -/
def escapeChar (c : Char) : List Char :=
  if c == '\\' then ['\\', '\\']
  else if c == '"' then ['\\', '"']
  else if c == '\n' then ['\\', 'n']
  else if c == '\r' then ['\\', 'r']
  else if c == '\t' then ['\\', 't']
  else [c]

/-- The text with its escapes, without the quotes around it. -/
def escape (text : String) : String :=
  String.ofList (text.toList.flatMap escapeChar)

/-- The text between double quotes. -/
def quoted (text : String) : String :=
  "\"" ++ escape text ++ "\""

/-- The attributes of a node between braces, with the space before them; nothing if there are
none. -/
def writeAttributes (attributes : Dict String) : String :=
  if attributes.isEmpty then ""
  else " \x7b" ++ ", ".intercalate (attributes.entries.map fun entry =>
    entry.1 ++ "=" ++ quoted entry.2) ++ "\x7d"

/-- The text of a node, with the space before it; nothing if it is empty. -/
def writeText (text : String) : String :=
  if text.isEmpty then "" else " " ++ quoted text

/-- The spaces in front of a node at the given depth. -/
def indentation (depth : Nat) : String :=
  String.ofList (List.replicate (2 * depth) ' ')

mutual

/-- The pieces of the S-expression of a tree at the given depth. -/
def writePieces (depth : Nat) : SyntaxTree → List String
  | .node tag text attributes children =>
    (indentation depth ++ "(" ++ tag.name ++ writeAttributes attributes ++ writeText text)
      :: (writeBelow (depth + 1) children ++ [")"])

/-- The pieces of the children of a node, each after a line end. -/
def writeBelow (depth : Nat) : List SyntaxTree → List String
  | [] => []
  | tree :: rest => "\n" :: (writePieces depth tree ++ writeBelow depth rest)

end

/-- The S-expression of a tree. -/
def write (tree : SyntaxTree) : String :=
  String.join (writePieces 0 tree)

end SqlDialect.Sexpr
