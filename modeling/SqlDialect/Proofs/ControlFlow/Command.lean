import SqlDialect.Proofs.Conversion.Rewrite
import SqlDialect.Proofs.SyntaxTree.Parts

/-!
# Statements with control flow

`Command` is the abstract syntax of scripts made of plain statements, begin/end blocks, conditions
and loops, nested to any depth.  A condition with an else branch and one without are two cases, and
a block may or may not have a semicolon of its own after its `end`.

`Command.parsed` is the syntax tree that a parser makes of a command: each construct stands in the
clause of a statement of its own, and each branch and each loop body is a container with one
statement in it.  `Command.translate` lists the pieces of the script that a command stands for in
the target dialect.  There are no syntax trees in it, so it says what a translation has to come to
and not how.
-/

namespace SqlDialect

namespace ControlFlow

open SyntaxTree

/-! ## Commands -/

/-- The kinds of nodes that make up control flow. -/
def constructTags : List Tag := [.ifStatement, .elseClause, .whileLoop, .beginEndBlock]

/-- A part of a script without control flow: the clauses of a plain statement, or a condition. -/
structure Fragment where
  trees : List SyntaxTree
  avoids : AvoidsAll constructTags trees

/-- A statement. -/
inductive Command where
  /-- A statement without control flow, given by its clauses. -/
  | plain (clauses : Fragment)
  /-- `begin ... end`, with a semicolon after it if `ended`. -/
  | block (body : List Command) (ended : Bool)
  /-- `if condition body` -/
  | branch (condition : Fragment) (body : Command)
  /-- `if condition body else otherwise` -/
  | branchElse (condition : Fragment) (body otherwise : Command)
  /-- `while condition body` -/
  | loop (condition : Fragment) (body : Command)

/-- Induction over commands, with the hypothesis for each statement of a block. -/
@[induction_eliminator]
theorem Command.induction {motive : Command → Prop} (plain : ∀ clauses, motive (.plain clauses))
    (block : ∀ body ended, (∀ s ∈ body, motive s) → motive (.block body ended))
    (branch : ∀ condition body, motive body → motive (.branch condition body))
    (branchElse : ∀ condition body otherwise, motive body → motive otherwise →
      motive (.branchElse condition body otherwise))
    (loop : ∀ condition body, motive body → motive (.loop condition body)) (s : Command) :
    motive s :=
  @Command.rec motive (fun body => ∀ s ∈ body, motive s) plain block branch branchElse loop
    (fun _ h => nomatch h) (fun _ _ hhead htail => List.forall_mem_cons.2 ⟨hhead, htail⟩) s

/-! ## Syntax trees -/

/-- The words that close a construct, and the semicolon after them. -/
def terminated (text : String) : SyntaxTree :=
  group .containerClose [keyword text, semicolon]

/-- The semicolon after a block, if there is one. -/
def ending (ended : Bool) : List SyntaxTree :=
  if ended then [semicolon] else []

/-- The condition of a branch or loop. -/
def test (condition : Fragment) : SyntaxTree :=
  group .booleanExpression condition.trees

/-- The statement of a branch or loop in its container. -/
def held (statement : SyntaxTree) : SyntaxTree :=
  group .containerSingleStatement [statement]

/-- A block with what opens it and what closes it. -/
def enclosed (opening body closing : List SyntaxTree) : SyntaxTree :=
  group .beginEndBlock (opening ++ group .containerMultiStatement body :: closing)

namespace Command

mutual

/-- The syntax tree of a statement. -/
def parsed : Command → SyntaxTree
  | .plain clauses => group .statement clauses.trees
  | .block body ended =>
    asStatement (enclosed [opener "begin"] (parsedAll body) [closer "end"] :: ending ended)
  | .branch condition body =>
    asStatement [group .ifStatement [opener "if", test condition, held (parsed body)]]
  | .branchElse condition body otherwise =>
    asStatement [group .ifStatement [opener "if", test condition, held (parsed body),
      group .elseClause [opener "else", held (parsed otherwise)]]]
  | .loop condition body =>
    asStatement [group .whileLoop [opener "while", test condition, held (parsed body)]]

/-- The syntax trees of a list of statements. -/
def parsedAll : List Command → List SyntaxTree
  | [] => []
  | s :: rest => parsed s :: parsedAll rest

end

lemma parsedAll_eq_map (body : List Command) : parsedAll body = body.map parsed := by
  induction body with
  | nil => rfl
  | cons s rest ih => rw [parsedAll, ih, List.map_cons]

end Command

/-- The syntax tree of a script. -/
def script (commands : List Command) : SyntaxTree :=
  group .root (commands.map Command.parsed)

/-! ## Translation -/

/-- What becomes of a statement in the places where it can stand. -/
structure Forms (α : Type) where
  /-- Among other statements. -/
  alone : α
  /-- As a branch or a loop body, where a block needs no words of its own. -/
  body : α
  /-- What of a branch or a loop body comes after the end of the branch or loop. -/
  after : α
  /-- As an else branch, with all that follows up to the end of the chain. -/
  other : α

/-- The semicolon after a block, if there is one. -/
def endingPieces (ended : Bool) : List Piece :=
  if ended then pieceOf ";" else []

/-- `if c then ...` or `elsif c then ...`, with the rest of the chain. -/
def branchPieces (word : String) (condition : Fragment) (body rest : List Piece) : List Piece :=
  pieceOf word ++ piecesAll condition.trees ++ pieceOf "then" ++ body ++ rest

/-- The end of a chain. -/
def endIfPieces : List Piece :=
  pieceOf "end if" ++ pieceOf ";"

/-- The last branch of a chain. -/
def elsePieces (body after : List Piece) : List Piece :=
  pieceOf "else" ++ body ++ endIfPieces ++ after

/-- `while c loop ... end loop;` -/
def loopPieces (condition : Fragment) (body after : List Piece) : List Piece :=
  pieceOf "while" ++ piecesAll condition.trees ++ pieceOf "loop" ++ body ++ pieceOf "end loop" ++
    pieceOf ";" ++ after

namespace Command

mutual

/-- The pieces of a statement in the target dialect. -/
def translate : Command → Forms (List Piece)
  | .plain clauses =>
    let pieces := piecesAll clauses.trees
    ⟨pieces, pieces, [], elsePieces pieces []⟩
  | .block body ended =>
    let pieces := translateAll body
    let after := endingPieces ended
    ⟨pieceOf "begin" ++ pieces ++ pieceOf "end" ++ after, pieces, after, elsePieces pieces after⟩
  | .branch condition body =>
    let forms := translate body
    let pieces (word : String) :=
      branchPieces word condition forms.body (endIfPieces ++ forms.after)
    ⟨pieces "if", pieces "if", [], pieces "elsif"⟩
  | .branchElse condition body otherwise =>
    let forms := translate body
    let pieces (word : String) :=
      branchPieces word condition forms.body (forms.after ++ (translate otherwise).other)
    ⟨pieces "if", pieces "if", [], pieces "elsif"⟩
  | .loop condition body =>
    let forms := translate body
    let pieces := loopPieces condition forms.body forms.after
    ⟨pieces, pieces, [], elsePieces pieces []⟩

/-- The pieces of a list of statements. -/
def translateAll : List Command → List Piece
  | [] => []
  | s :: rest => (translate s).alone ++ translateAll rest

end

end Command

end ControlFlow

end SqlDialect
