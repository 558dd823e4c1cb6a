import SqlDialect.SyntaxTree
import SqlDialect.Text.Property

/-!
# One-line rendering

The script of a tree on one line: its tokens in order, one space between them, white space nodes
left out and punctuation set close to its neighbours.  Brackets are not tokens of the tree; they are
written around the content of a bracketed container.

Rendering has two steps.  `pieces` lists the pieces of text of a tree, each with the sides on which
it takes no space; `spaced` puts the spaces between them.
-/

namespace SqlDialect

/-- A piece of text on the line, and whether it stands close to what is on its two sides. -/
structure Piece where
  text : String
  hugsLeft : Bool
  hugsRight : Bool

/-- A piece whose sides follow from its text. -/
def Piece.plain (text : String) : Piece where
  text
  hugsLeft := text ∈ [",", ";", ".", "::", "[]", ")", "[", "]", ":"]
  hugsRight := text ∈ [".", "::", "["]

/-- The opening bracket of a container. -/
def Piece.opening (tag : Tag) : Piece where
  text := "("
  hugsLeft := tag.hugsName
  hugsRight := true

/-- Every single quote written twice. -/
def doubleQuotes (text : String) : String :=
  String.ofList (text.toList.flatMap fun c => if c == '\'' then [c, c] else [c])

/-- The text of a token as the script shows it, with its quotes or comment signs. -/
def tokenText (tag : Tag) (text : String) : String :=
  match tag with
  | .string => "'" ++ doubleQuotes text ++ "'"
  | .nString => "N'" ++ doubleQuotes text ++ "'"
  | .quotedString => "\"" ++ text ++ "\""
  | .bracketQuotedName => "[" ++ text ++ "]"
  | .commentMultiLine => "/*" ++ text ++ "*/"
  | .commentSingleLine => "--" ++ text
  | .commentSingleLineCStyle => "//" ++ text
  | _ => text

/-- The piece of a text, unless there is nothing to show. -/
def Piece.ofText (text : String) (shown : Bool) : List Piece :=
  if shown then [Piece.plain text] else []

namespace SyntaxTree

/-- The text that a node itself contributes, its children apart. -/
def ownPieces (tag : Tag) (text : String) : List Piece :=
  if tag.isToken then
    let shown := tokenText tag text
    Piece.ofText shown (!shown.isEmpty)
  else
    Piece.ofText text (!Text.isBlankText text)

mutual

/-- The pieces of a tree, in order. -/
def pieces : SyntaxTree → List Piece
  | .node tag text attributes children =>
    match attributes.get? simpleTextKey with
    | some simple =>
      let shown := Text.trim simple.toList
      Piece.ofText (String.ofList shown) (!shown.isEmpty)
    | none =>
      if tag == .whiteSpace then []
      else if tag.isParens then
        Piece.opening tag :: (piecesAll children ++ [Piece.plain ")"])
      else
        ownPieces tag text ++ piecesAll children

/-- The pieces of a list of trees, in order. -/
def piecesAll : List SyntaxTree → List Piece
  | [] => []
  | tree :: rest => tree.pieces ++ piecesAll rest

end

/-- The texts of the pieces with a space before each one that needs it. The flag says whether the
next piece stands close to what is before it, as it does at the start of the line. -/
def spaced : Bool → List Piece → List String
  | _, [] => []
  | close, piece :: rest =>
    (if close || piece.hugsLeft then piece.text else " " ++ piece.text)
      :: spaced piece.hugsRight rest

/-- The script of a tree on one line. -/
def render (tree : SyntaxTree) : String :=
  String.join (spaced true tree.pieces)

end SyntaxTree

end SqlDialect
