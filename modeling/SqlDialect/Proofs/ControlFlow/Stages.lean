import SqlDialect.Proofs.ControlFlow.Command

/-!
# The stages of the translation

Between the syntax tree of a command and that of its translation stand two others.  The first has
a block for every branch (`Command.normal`); it is the tree of a command again.  In the second,
conditions have the words of the target dialect, and in the last loops have them as well
(`Command.converted`).

The pieces of the last tree are those of the translation (`pieces_converted`), and no stage has more
than a few times as many nodes as the first (`size_normal`, `size_converted`).
-/

namespace SqlDialect.ControlFlow

open SyntaxTree Command

namespace Command

/-! ## Branches in blocks -/

/-- The statements of a block, or a statement that is none by itself. -/
def inner : Command → List Command
  | .block body _ => body
  | s => [s]

/-- A block with a semicolon after it. -/
def isEnded : Command → Bool
  | .block _ ended => ended
  | _ => false

/-- The statement as a block. -/
def blocked (s : Command) : Command :=
  .block s.inner s.isEnded

/-- The statement as an else branch: a block, unless it continues the chain. -/
def chained : Command → Command
  | .branch condition body => .branch condition body
  | .branchElse condition body otherwise => .branchElse condition body otherwise
  | s => s.blocked

mutual

/-- The statement with all its branches in blocks. -/
def normal : Command → Command
  | .plain clauses => .plain clauses
  | .block body ended => .block (normalAll body) ended
  | .branch condition body => .branch condition (normal body).blocked
  | .branchElse condition body otherwise =>
    .branchElse condition (normal body).blocked (normal otherwise).chained
  | .loop condition body => .loop condition (normal body)

/-- The statements with all their branches in blocks. -/
def normalAll : List Command → List Command
  | [] => []
  | s :: rest => normal s :: normalAll rest

end

lemma normalAll_eq_map (body : List Command) : normalAll body = body.map normal := by
  induction body with
  | nil => rfl
  | cons s rest ih => rw [normalAll, ih, List.map_cons]

end Command

/-! ## Conditions and loops -/

/-- A block that is a branch or a loop body, with what comes after it. -/
def branchBlock (opening : List SyntaxTree) (forms : Forms (List SyntaxTree))
    (closing : List SyntaxTree) : SyntaxTree :=
  asStatement (enclosed opening forms.body closing :: forms.after)

/-- The last branch of a chain. -/
def elseBranch (forms : Forms (List SyntaxTree)) : SyntaxTree :=
  group .elseClause [opener "else", held (branchBlock [] forms [terminated "end if"])]

/-- An if statement whose chain goes on with `rest`. A nested one has lost its first word. -/
def chainTree (opening : List SyntaxTree) (condition : Fragment) (forms : Forms (List SyntaxTree))
    (closing rest : List SyntaxTree) : SyntaxTree :=
  asStatement [group .ifStatement
    (opening ++ test condition :: held (branchBlock [opener "then"] forms closing) :: rest)]

/-- An if statement where it can stand. -/
def chainForms (chain : List SyntaxTree → SyntaxTree) : Forms (List SyntaxTree) where
  alone := [chain [opener "if"]]
  body := [chain [opener "if"]]
  after := []
  other := [group .elseClause [opener "elsif", held (chain [])]]

/-- A statement that is the same wherever it stands. -/
def plainForms (tree : SyntaxTree) : Forms (List SyntaxTree) where
  alone := [tree]
  body := [tree]
  after := []
  other := [elseBranch ⟨[tree], [tree], [], []⟩]

/-- A block where it can stand. -/
def blockForms (trees : List SyntaxTree) (ended : Bool) : Forms (List SyntaxTree) where
  alone := [asStatement (enclosed [opener "begin"] trees [closer "end"] :: ending ended)]
  body := trees
  after := ending ended
  other := [elseBranch ⟨[], trees, ending ended, []⟩]

/-- A loop, before and after loops are given the words of the target dialect. -/
def loopTree (loops : Bool) (condition : Fragment) (forms : Forms (List SyntaxTree)) : SyntaxTree :=
  asStatement [group .whileLoop [opener "while", test condition, group .containerSingleStatement
    (if loops then [branchBlock [opener "loop"] forms [terminated "end loop"]] else forms.alone)]]

namespace Command

mutual

/-- The syntax trees of a statement when conditions have been converted and, if `loops`, loops as
well. -/
def converted (loops : Bool) : Command → Forms (List SyntaxTree)
  | .plain clauses => plainForms (group .statement clauses.trees)
  | .block body ended => blockForms (convertedAll loops body) ended
  | .branch condition body =>
    chainForms fun opening =>
      chainTree opening condition (converted loops body) [terminated "end if"] []
  | .branchElse condition body otherwise =>
    chainForms fun opening =>
      chainTree opening condition (converted loops body) [] (converted loops otherwise).other
  | .loop condition body => plainForms (loopTree loops condition (converted loops body))

/-- The syntax trees of a list of statements. -/
def convertedAll (loops : Bool) : List Command → List SyntaxTree
  | [] => []
  | s :: rest => (converted loops s).alone ++ convertedAll loops rest

end

end Command

/-! ## Pieces -/

section Pieces

lemma pieces_terminated {text : String} (htext : text ≠ "") :
    (terminated text).pieces = pieceOf text ++ pieceOf ";" := by
  rw [terminated, pieces_group rfl rfl, piecesAll, piecesAll_singleton, pieces_keyword htext,
    pieces_semicolon]

lemma piecesAll_ending (ended : Bool) : piecesAll (ending ended) = endingPieces ended := by
  cases ended <;> rfl

lemma pieces_held (tree : SyntaxTree) : (held tree).pieces = tree.pieces := by
  rw [held, pieces_group rfl rfl, piecesAll_singleton]

lemma pieces_test (condition : Fragment) : (test condition).pieces = piecesAll condition.trees :=
  pieces_group rfl rfl _

lemma pieces_enclosed (opening body closing : List SyntaxTree) :
    (enclosed opening body closing).pieces =
      piecesAll opening ++ (piecesAll body ++ piecesAll closing) := by
  rw [enclosed, pieces_group rfl rfl, piecesAll_append, piecesAll, pieces_group rfl rfl]

lemma pieces_branchBlock (opening : List SyntaxTree) (forms : Forms (List SyntaxTree))
    (closing : List SyntaxTree) : (branchBlock opening forms closing).pieces =
      piecesAll opening ++
        (piecesAll forms.body ++ (piecesAll closing ++ piecesAll forms.after)) := by
  rw [branchBlock, pieces_asStatement, piecesAll, pieces_enclosed]
  simp only [List.append_assoc]

lemma pieces_elseClause (children : List SyntaxTree) :
    (group .elseClause children).pieces = piecesAll children :=
  pieces_group rfl rfl _

lemma pieces_elseBranch (forms : Forms (List SyntaxTree)) :
    (elseBranch forms).pieces = elsePieces (piecesAll forms.body) (piecesAll forms.after) := by
  simp [elseBranch, elsePieces, endIfPieces, pieces_elseClause, pieces_opener, pieces_held,
    pieces_branchBlock, pieces_terminated, piecesAll]

lemma pieces_chainTree (opening : List SyntaxTree) (condition : Fragment)
    (forms : Forms (List SyntaxTree)) (closing rest : List SyntaxTree) :
    (chainTree opening condition forms closing rest).pieces =
      piecesAll opening ++ (piecesAll condition.trees ++ (pieceOf "then" ++ (piecesAll forms.body ++
        (piecesAll closing ++ (piecesAll forms.after ++ piecesAll rest))))) := by
  rw [chainTree, pieces_asStatement, piecesAll_singleton, pieces_group rfl rfl, piecesAll_append,
    piecesAll, piecesAll, pieces_test, pieces_held, pieces_branchBlock, piecesAll_singleton,
    pieces_opener (by decide)]
  simp only [List.append_assoc]

/-- The pieces of the syntax trees of a statement. -/
def Forms.pieces (forms : Forms (List SyntaxTree)) : Forms (List Piece) :=
  ⟨piecesAll forms.alone, piecesAll forms.body, piecesAll forms.after, piecesAll forms.other⟩

lemma pieces_plainForms (tree : SyntaxTree) :
    (plainForms tree).pieces = ⟨tree.pieces, tree.pieces, [], elsePieces tree.pieces []⟩ := by
  simp [Forms.pieces, plainForms, piecesAll_singleton, pieces_elseBranch, piecesAll]

/-- The pieces of the last stage are those of the translation. -/
lemma pieces_converted (s : Command) : (s.converted true).pieces = s.translate := by
  induction s with
  | plain clauses => rw [converted, pieces_plainForms, pieces_group rfl rfl, Command.translate]
  | block body ended ih =>
    have hall : piecesAll (convertedAll true body) = translateAll body := by
      induction body with
      | nil => rfl
      | cons s rest ihrest =>
        rw [convertedAll, piecesAll_append, translateAll,
          ← ih s (.head _), ihrest fun t ht => ih t (.tail _ ht)]
        rfl
    simp [converted, Command.translate, Forms.pieces, blockForms, piecesAll_singleton,
      pieces_asStatement, pieces_enclosed, pieces_elseBranch, hall, pieces_opener, pieces_closer,
      piecesAll_ending, piecesAll]
  | branch condition body ih =>
    simp [converted, Command.translate, ← ih, Forms.pieces, chainForms, piecesAll_singleton,
      pieces_chainTree, branchPieces, endIfPieces, pieces_opener, pieces_terminated,
      pieces_elseClause, pieces_held, piecesAll]
  | branchElse condition body otherwise ih ihOther =>
    simp [converted, Command.translate, ← ih, ← ihOther, Forms.pieces, chainForms,
      piecesAll_singleton, pieces_chainTree, branchPieces, pieces_opener, pieces_elseClause,
      pieces_held, piecesAll]
  | loop condition body ih =>
    have hloop : (loopTree true condition (body.converted true)).pieces =
        loopPieces condition body.translate.body body.translate.after := by
      rw [loopTree, pieces_asStatement, piecesAll_singleton, pieces_group rfl rfl, if_pos rfl, ← ih]
      change piecesAll [opener "while", test condition, held _] = _
      simp [loopPieces, Forms.pieces, pieces_opener, pieces_test, pieces_held, pieces_branchBlock,
        pieces_terminated, piecesAll]
    rw [converted, pieces_plainForms, hloop, Command.translate]

end Pieces

/-! ## Sizes -/

section Sizes

lemma size_terminated (text : String) : (terminated text).size = 3 := rfl

lemma size_held (tree : SyntaxTree) : (held tree).size = 1 + tree.size := by
  simp only [held, size_group, sizeAll]
  omega

lemma size_enclosed (opening body closing : List SyntaxTree) :
    (enclosed opening body closing).size =
      2 + sizeAll opening + sizeAll body + sizeAll closing := by
  simp only [enclosed, size_group, sizeAll_append, sizeAll]
  omega

lemma size_branchBlock (opening : List SyntaxTree) (forms : Forms (List SyntaxTree))
    (closing : List SyntaxTree) : (branchBlock opening forms closing).size =
      4 + sizeAll opening + sizeAll forms.body + sizeAll closing + sizeAll forms.after := by
  simp only [branchBlock, size_asStatement, sizeAll, size_enclosed]
  omega

lemma size_blocked (s : Command) : s.blocked.parsed.size ≤ s.parsed.size + 8 := by
  have hwrap : (block [s] false).parsed.size ≤ s.parsed.size + 8 := by
    simp only [parsed, parsedAll, size_asStatement, size_enclosed, sizeAll,
      size_opener, size_closer, ending, Bool.false_eq_true, if_false]
    omega
  cases s with
  | block body ended => exact Nat.le_add_right _ _
  | _ => exact hwrap

lemma size_chained (s : Command) : s.chained.parsed.size ≤ s.parsed.size + 8 := by
  have hchained : s.chained = s ∨ s.chained = s.blocked := by
    cases s <;> simp [chained]
  obtain h | h := hchained <;> rw [h]
  · exact Nat.le_add_right _ _
  · exact size_blocked s

lemma size_normal (s : Command) : s.normal.parsed.size ≤ 3 * s.parsed.size := by
  induction s with
  | plain clauses => exact Nat.le_mul_of_pos_left _ (by decide)
  | block body ended ih =>
    have hbody := sizeAll_map_le ih
    simp only [normal, parsed, parsedAll_eq_map, normalAll_eq_map,
      List.map_map, Function.comp_def, size_asStatement, size_enclosed, sizeAll, size_opener,
      size_closer] at hbody ⊢
    omega
  | branch condition body ih =>
    have hblocked := size_blocked body.normal
    simp only [normal, parsed, size_asStatement, size_group, sizeAll, size_opener,
      size_held]
    omega
  | branchElse condition body otherwise ih ihOther =>
    have hblocked := size_blocked body.normal
    have hchained := size_chained otherwise.normal
    simp only [normal, parsed, size_asStatement, size_group, sizeAll, size_opener,
      size_held]
    omega
  | loop condition body ih =>
    simp only [normal, parsed, size_asStatement, size_group, sizeAll, size_opener,
      size_held]
    omega

/-- The trees of a statement, and what comes after them, are not much larger than the statement. -/
lemma size_converted (loops : Bool) (s : Command) :
    sizeAll (s.converted loops).alone ≤ 4 * s.parsed.size ∧
      sizeAll (s.converted loops).body + sizeAll (s.converted loops).after ≤ 4 * s.parsed.size ∧
      sizeAll (s.converted loops).other ≤ 4 * s.parsed.size + 11 := by
  induction s with
  | plain clauses =>
    simp only [converted, plainForms, parsed, elseBranch, size_branchBlock,
      size_group, sizeAll, size_opener, size_held, size_terminated]
    omega
  | block body ended ih =>
    have hbody : sizeAll (convertedAll loops body) ≤
        4 * sizeAll (body.map parsed) := by
      induction body with
      | nil => simp [convertedAll, sizeAll]
      | cons s rest ihrest =>
        have hs := (ih s (.head _)).1
        have hrest := ihrest fun t ht => ih t (.tail _ ht)
        simp only [convertedAll, sizeAll_append, List.map_cons, sizeAll]
        omega
    simp only [converted, blockForms, parsed, parsedAll_eq_map, elseBranch,
      size_asStatement, size_enclosed, size_branchBlock, size_group, sizeAll,
      size_opener, size_held, size_closer, size_terminated]
    omega
  | branch condition body ih =>
    simp only [converted, parsed, chainForms, chainTree, test, size_branchBlock,
      size_asStatement, size_group, sizeAll, sizeAll_append, size_opener, size_held,
      size_terminated]
    omega
  | branchElse condition body otherwise ih ihOther =>
    simp only [converted, parsed, chainForms, chainTree, test, size_branchBlock,
      size_asStatement, size_group, sizeAll, sizeAll_append, size_opener, size_held]
    omega
  | loop condition body ih =>
    have hloop : (loopTree loops condition (body.converted loops)).size ≤
        4 * (loop condition body).parsed.size := by
      cases loops <;>
        simp only [loopTree, parsed, test, size_asStatement, size_branchBlock, size_group,
          sizeAll, size_opener, size_held, size_terminated, Bool.false_eq_true, if_true,
          if_false] <;> omega
    simp only [converted, plainForms, elseBranch, size_branchBlock, size_group, sizeAll,
      size_opener, size_held, size_terminated]
    omega

end Sizes

end SqlDialect.ControlFlow
