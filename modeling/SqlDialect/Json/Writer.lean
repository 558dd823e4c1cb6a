import SqlDialect.SyntaxTree

/-!
# Writing trees as JSON

A node is an object with the members `tag`, `text`, `attributes` and `children` in this order, the
empty ones left out.  Every member and every element stands on a line of its own, indented by two
spaces for each level.
-/

namespace SqlDialect.Json

/-- A digit of a number below sixteen, in lower case. -/
def hexChar (n : Nat) : Char :=
  if n < 10 then Char.ofNat ('0'.toNat + n) else Char.ofNat ('a'.toNat + (n - 10))

/-- The escape of a character inside a string. Quotes, backslashes and control characters have
one; everything else stands for itself. -/
def escapeChar (c : Char) : List Char :=
  if c == '"' then ['\\', '"']
  else if c == '\\' then ['\\', '\\']
  else if c.toNat == 8 then ['\\', 'b']
  else if c.toNat == 12 then ['\\', 'f']
  else if c == '\n' then ['\\', 'n']
  else if c == '\r' then ['\\', 'r']
  else if c == '\t' then ['\\', 't']
  else if c.toNat < 0x20 then ['\\', 'u', '0', '0', hexChar (c.toNat / 16), hexChar (c.toNat % 16)]
  else [c]

/-- The string of a text, with its quotes. -/
def quoted (text : String) : String :=
  String.ofList ('"' :: (text.toList.flatMap escapeChar ++ ['"']))

/-- A line end and the indentation of the given level. -/
def newLine (level : Nat) : String :=
  String.ofList ('\n' :: List.replicate (2 * level) ' ')

/-- A member of an object at the given level, after the comma that ends the member before it. -/
def nextMember (level : Nat) (key : String) (value : List String) : List String :=
  "," :: newLine level :: quoted key :: ": " :: value

/-- The object of the attributes, its braces at the given level. -/
def writeAttributes (level : Nat) (attributes : Dict String) : List String :=
  let lines := attributes.entries.map fun entry =>
    newLine (level + 1) ++ quoted entry.1 ++ ": " ++ quoted entry.2
  ["\x7b", ",".intercalate lines, newLine level, "\x7d"]

mutual

/-- The pieces of the object of a tree, its braces at the given level. -/
def writePieces (level : Nat) : SyntaxTree → List String
  | .node tag text attributes children =>
    ["\x7b", newLine (level + 1), quoted "tag", ": ", quoted tag.name]
      ++ (if text.isEmpty then [] else nextMember (level + 1) "text" [quoted text])
      ++ (if attributes.isEmpty then []
          else nextMember (level + 1) "attributes" (writeAttributes (level + 1) attributes))
      ++ (match children with
          | [] => []
          | child :: rest => nextMember (level + 1) "children" <|
              "[" :: newLine (level + 2) :: (writePieces (level + 2) child
                ++ writeRest (level + 2) rest ++ [newLine (level + 1), "]"]))
      ++ [newLine level, "\x7d"]

/-- The pieces of the elements after the first one, each after a comma. -/
def writeRest (level : Nat) : List SyntaxTree → List String
  | [] => []
  | tree :: rest => "," :: newLine level :: (writePieces level tree ++ writeRest level rest)

end

/-- The JSON document of a tree. -/
def write (tree : SyntaxTree) : String :=
  String.join (writePieces 0 tree)

end SqlDialect.Json
