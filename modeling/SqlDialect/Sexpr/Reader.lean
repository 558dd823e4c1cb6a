import SqlDialect.SyntaxTree
import SqlDialect.Text.Property

/-!
# Reading trees from S-expressions

The reader takes the grammar

    node    =  "(" blanks name [blanks attributes] [blanks text] (blanks node)* blanks ")"
    attributes  =  "{" (blanks name blanks "=" blanks text blanks [","])* blanks "}"
    text    =  double quotes around characters and the escapes for backslash, quote, line feed,
               carriage return and tabulator
    name    =  one or more letters, numbers or underscores
    blanks  =  spaces, tabulators, carriage returns and line feeds

where the whole input is one node with blanks around it.

## Failures

A part that does not read to its end is given up as a whole, and the node around it then fails at
the first character that is neither a blank nor its closing bracket.  So a failure is reported at
the place where the outermost node could not go on.  The names of kinds are looked up only when the
whole input has been read, the outer node before the inner ones and the earlier before the later.
Places are counted in bytes of the input.
-/

namespace SqlDialect.Sexpr

/-- Why an input is not a tree. -/
inductive ReadError where
  /-- No node, or no closing bracket of the outermost node, at a place before which the input
  shows `near`. -/
  | expectedNode (position : Nat) (near : String)
  /-- Something follows the outermost node. -/
  | trailing (position : Nat) (near : String)
  /-- A node names no kind. -/
  | unknownTag (position : Nat) (name : String)
  deriving DecidableEq

namespace ReadError

/-- The place of the error, in bytes from the start of the input. -/
def position : ReadError → Nat
  | .expectedNode position _ | .trailing position _ | .unknownTag position _ => position

/-- What is wrong there. -/
def reason : ReadError → String
  | .expectedNode _ near => "Expected node near '" ++ near ++ "'"
  | .trailing _ near => "Unexpected trailing content: '" ++ near ++ "'"
  | .unknownTag _ name => Tag.unknownMessage name

/-- The error as it is reported. -/
def message (e : ReadError) : String :=
  "Parse error at position " ++ e.position.repr ++ ": " ++ e.reason

end ReadError

/-- A node as it was read: its name is not yet known to be that of a kind. `remaining` is the
number of bytes from the name to the end of the input. -/
inductive Draft where
  | node (name : String) (remaining : Nat) (attributes : List (String × String)) (text : String)
      (children : List Draft)

/-- The number of bytes of a text. -/
def byteLength (cs : List Char) : Nat :=
  cs.foldl (fun total c => total + c.utf8Size) 0

/-! ## Names, blanks and quoted texts -/

/-- A character that may stand between the parts of a node. -/
def isSpace (c : Char) : Bool :=
  c == ' ' || c == '\t' || c == '\r' || c == '\n'

def skipSpaces (cs : List Char) : List Char :=
  cs.dropWhile isSpace

/-- A character of a name. -/
def isNameChar (c : Char) : Bool :=
  Text.isAlphanumeric c || c == '_'

/-- The longest name that the input starts with. -/
def readName (cs : List Char) : Option (String × List Char) :=
  match cs.takeWhile isNameChar with
  | [] => none
  | name => some (String.ofList name, cs.dropWhile isNameChar)

/-- The character that a letter after a backslash stands for. -/
def unescape? (c : Char) : Option Char :=
  if c == '\\' then some '\\'
  else if c == '"' then some '"'
  else if c == 'n' then some '\n'
  else if c == 'r' then some '\r'
  else if c == 't' then some '\t'
  else none

/-- The rest of a quoted text up to its closing quote, after the characters in `done`, which are
held last first. -/
def readQuotedRest (done : List Char) : List Char → Option (String × List Char)
  | [] => none
  | '"' :: rest => some (String.ofList done.reverse, rest)
  | '\\' :: rest =>
    match rest with
    | [] => none
    | c :: rest =>
      match unescape? c with
      | some plain => readQuotedRest (plain :: done) rest
      | none => none
  | c :: rest => readQuotedRest (c :: done) rest

/-- A quoted text. -/
def readQuoted : List Char → Option (String × List Char)
  | '"' :: rest => readQuotedRest [] rest
  | _ => none

/-! ## Attributes -/

/-- One attribute, with the blanks before it and the optional comma after it. -/
def readPair (cs : List Char) : Option ((String × String) × List Char) := do
  let (key, cs) ← readName (skipSpaces cs)
  match skipSpaces cs with
  | '=' :: cs =>
    let (value, cs) ← readQuoted (skipSpaces cs)
    match skipSpaces cs with
    | ',' :: cs => some ((key, value), cs)
    | cs => some ((key, value), cs)
  | _ => none

/-- As many attributes as the input starts with. Each takes at least one character, so the length
of the input is fuel enough. -/
def readPairs : Nat → List Char → List (String × String) × List Char
  | 0, cs => ([], cs)
  | fuel + 1, cs =>
    match readPair cs with
    | some (pair, cs) =>
      let (pairs, cs) := readPairs fuel cs
      (pair :: pairs, cs)
    | none => ([], cs)

/-- The attributes of a node between their braces. -/
def readAttributes : List Char → Option (List (String × String) × List Char)
  | '\x7b' :: cs =>
    let (pairs, cs) := readPairs cs.length cs
    match skipSpaces cs with
    | '\x7d' :: cs => some (pairs, cs)
    | _ => none
  | _ => none

/-! ## Nodes -/

/-- What a reader finds after blanks; `missing` and the input as it is, if it finds nothing. -/
def optional {α : Type} (read : List Char → Option (α × List Char)) (missing : α)
    (cs : List Char) : α × List Char :=
  (read (skipSpaces cs)).getD (missing, cs)

mutual

/-- A node, or the rest of the input at which it could not go on. -/
def readNode : Nat → List Char → Except (List Char) (Draft × List Char)
  | 0, cs => .error cs
  | fuel + 1, cs =>
    match cs with
    | '(' :: cs =>
      let cs := skipSpaces cs
      match readName cs with
      | none => .error cs
      | some (name, after) =>
        let (attributes, after) := optional readAttributes [] after
        let (text, after) := optional readQuoted "" after
        let (children, after) := readNodes fuel after
        match skipSpaces after with
        | ')' :: after => .ok (.node name (byteLength cs) attributes text children, after)
        | after => .error after
    | cs => .error cs

/-- As many nodes as the input starts with, blanks before each. -/
def readNodes : Nat → List Char → List Draft × List Char
  | 0, cs => ([], cs)
  | fuel + 1, cs =>
    match readNode fuel (skipSpaces cs) with
    | .ok (node, cs) =>
      let (nodes, cs) := readNodes fuel cs
      (node :: nodes, cs)
    | .error _ => ([], cs)

end

/-! ## Kinds -/

mutual

/-- The tree of a node, of an input of `total` bytes, with every name looked up. -/
def Draft.toTree (total : Nat) : Draft → Except ReadError SyntaxTree
  | .node name remaining attributes text children => do
    match Tag.ofName? name with
    | none => throw (.unknownTag (total - remaining) name)
    | some tag => do
      let children ← Draft.toTrees total children
      pure (.node tag text (Dict.ofList attributes) children)

/-- The trees of a list of nodes; the first unknown name in the order of the input fails. -/
def Draft.toTrees (total : Nat) : List Draft → Except ReadError (List SyntaxTree)
  | [] => pure []
  | draft :: rest => do
    let tree ← draft.toTree total
    let trees ← Draft.toTrees total rest
    pure (tree :: trees)

end

/-- The first characters from a place, as messages show them. -/
def preview (cs : List Char) : String :=
  String.ofList (cs.take 20)

/-- The tree that an input denotes. -/
def read (input : String) : Except ReadError SyntaxTree :=
  let cs := input.toList
  let total := byteLength cs
  match readNode (cs.length + 1) (skipSpaces cs) with
  | .error rest => .error (.expectedNode (total - byteLength rest) (preview rest))
  | .ok (node, rest) =>
    match skipSpaces rest with
    | [] => node.toTree total
    | rest => .error (.trailing (total - byteLength rest) (preview rest))

end SqlDialect.Sexpr
