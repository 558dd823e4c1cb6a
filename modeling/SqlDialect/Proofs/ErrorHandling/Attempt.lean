import SqlDialect.Proofs.ControlFlow.Terminators
import SqlDialect.Proofs.ErrorHandling.Markers

/-!
# Error handling in scripts

`Statement` is the abstract syntax of scripts in which statements are tried and errors are caught,
nested to any depth among other statements and blocks.  A try block and its catch block become one
block with an exception part; the pass that terminates statements comes after, and leaves a clause
with a try block alone.  So the end of the exception part has a terminator only if there was one
in the source (`runPasses_attempts`).
-/

namespace SqlDialect.ErrorHandling

open SyntaxTree Terminator
open ControlFlow (enclosed ending endingPieces)

/-! ## Statements -/

/-- The clauses of a statement that has nothing to do with errors. -/
structure Clauses where
  trees : List SyntaxTree
  calm : CalmAll trees

inductive Statement where
  /-- A statement that has nothing to do with errors. -/
  | plain (clauses : Clauses)
  /-- `begin ... end`, with a semicolon after it if `ended`. -/
  | block (body : List Statement) (ended : Bool)
  /-- `begin try ... end try begin catch ... end catch`, with a semicolon after it if `ended`. -/
  | attempt (body handler : List Statement) (ended : Bool)

namespace Statement

/-- Induction over statements, with the hypotheses for the statements in a list. -/
@[induction_eliminator]
theorem induction {motive : Statement → Prop} (plain : ∀ clauses, motive (.plain clauses))
    (block : ∀ body ended, (∀ s ∈ body, motive s) → motive (.block body ended))
    (attempt : ∀ body handler ended, (∀ s ∈ body, motive s) → (∀ s ∈ handler, motive s) →
      motive (.attempt body handler ended)) (s : Statement) : motive s :=
  @Statement.rec motive (fun body => ∀ s ∈ body, motive s) plain block attempt
    (fun _ h => nomatch h) (fun _ _ hhead htail => List.forall_mem_cons.2 ⟨hhead, htail⟩) s

mutual

/-- The syntax tree of a statement, as it is parsed and with try and catch blocks converted. -/
def tree (converted : Bool) : Statement → SyntaxTree
  | .plain clauses => group .statement clauses.trees
  | .block body ended =>
    asStatement (enclosed [opener "begin"] (treeAll converted body) [closer "end"] :: ending ended)
  | .attempt body handler ended =>
    asStatement (tryTree converted (treeAll converted body) ::
      catchTree converted (treeAll converted handler) :: ending ended)

def treeAll (converted : Bool) : List Statement → List SyntaxTree
  | [] => []
  | s :: rest => tree converted s :: treeAll converted rest

end

mutual

/-- The pieces of a statement in the target dialect. -/
def translate : Statement → List Piece
  | .plain clauses => piecesAll (settleAll [] true clauses.trees)
  | .block body _ => pieceOf "begin" ++ translateAll body ++ pieceOf "end" ++ pieceOf ";"
  | .attempt body handler ended =>
    pieceOf "begin" ++ translateAll body ++ pieceOf "exception when others then" ++
      translateAll handler ++ pieceOf "end" ++ endingPieces ended

def translateAll : List Statement → List Piece
  | [] => []
  | s :: rest => translate s ++ translateAll rest

end

lemma treeAll_eq_map (converted : Bool) (body : List Statement) :
    treeAll converted body = body.map (tree converted) := by
  induction body with
  | nil => rfl
  | cons s rest ih => rw [treeAll, ih, List.map_cons]

end Statement

/-- The syntax tree of a script. -/
def script (statements : List Statement) : SyntaxTree :=
  group .root (statements.map (Statement.tree false))

/-! ## Conversion -/

open Conversion Forest

lemma walks_calm (tree : SyntaxTree) (h : Calm tree) : Walks errorVisit tree tree := by
  induction tree using SyntaxTree.induction with
  | node tag text attributes children ih =>
    obtain ⟨htoken, hchildren⟩ := h
    refine walks_node htoken ?_
    induction children with
    | nil => exact .nil
    | cons tree rest ihrest =>
      exact .cons (ih tree (.head _) hchildren.1)
        (ihrest (fun t ht => ih t (.tail _ ht)) hchildren.2)

lemma forall₂_walks_calm {trees : List SyntaxTree} (h : CalmAll trees) :
    WalksAll errorVisit trees trees := by
  induction trees with
  | nil => exact .nil
  | cons tree rest ih => exact .cons (walks_calm tree h.1) (ih h.2)

lemma walks_multi {body : List Statement}
    (h : ∀ s ∈ body, Walks errorVisit (s.tree false) (s.tree true)) :
    Walks errorVisit (group .containerMultiStatement (Statement.treeAll false body))
      (group .containerMultiStatement (Statement.treeAll true body)) := by
  rw [Statement.treeAll_eq_map, Statement.treeAll_eq_map]
  exact walks_group (by decide) (by decide)
    (List.forall₂_map_left_iff.2 (List.forall₂_map_right_iff.2 (List.forall₂_same.2 h)))

lemma forall₂_walks_ending (ended : Bool) :
    WalksAll errorVisit (ending ended) (ending ended) := by
  refine forall₂_walks_calm ?_
  cases ended
  · exact trivial
  · exact ⟨⟨by decide +kernel, trivial⟩, trivial⟩

lemma walks_asStatement {parts parts' : List SyntaxTree}
    (h : WalksAll errorVisit parts parts') :
    Walks errorVisit (asStatement parts) (asStatement parts') :=
  walks_group (by decide) (by decide) (.cons (walks_group (by decide) (by decide) h) .nil)

/-- The pass converts try and catch blocks, whatever is around them. -/
lemma walks_tree (s : Statement) : Walks errorVisit (s.tree false) (s.tree true) := by
  induction s with
  | plain clauses => exact walks_group (by decide) (by decide) (forall₂_walks_calm clauses.calm)
  | block body ended ih =>
    have hopener : Walks errorVisit (opener "begin") (opener "begin") :=
      walks_group (by decide) (by decide) (.cons (walks_keyword (by decide +kernel)) .nil)
    have hcloser : Walks errorVisit (closer "end") (closer "end") :=
      walks_group (by decide) (by decide) (.cons (walks_keyword (by decide +kernel)) .nil)
    have hblock : Walks errorVisit
        (enclosed [opener "begin"] (Statement.treeAll false body) [closer "end"])
        (enclosed [opener "begin"] (Statement.treeAll true body) [closer "end"]) :=
      walks_group (by decide) (by decide)
        (.cons hopener (.cons (walks_multi ih) (.cons hcloser .nil)))
    exact walks_asStatement (.cons hblock (forall₂_walks_ending ended))
  | attempt body handler ended ih ihHandler =>
    have htry := walks_tryTree (walks_multi ih)
    have hcatch := walks_catchTree (walks_multi ihHandler)
    exact walks_asStatement (.cons htry (.cons hcatch (forall₂_walks_ending ended)))

/-! ## Termination -/

section

variable {owners : List Bool} {last : Bool} {trees : List SyntaxTree}

lemma still_keywords (words : List String) : ∀ tree ∈ words.map keyword, Still tree := by
  intro tree htree
  obtain ⟨word, -, rfl⟩ := List.mem_map.1 htree
  exact still_keyword word

lemma still_spelled {tag : Tag} (htag : tag ∉ brackets) (hclause : tag ≠ .clause)
    (words : String) (keywords : List String) : Still (spelled tag words (keywords.map keyword)) :=
  still_node htag hclause (still_keywords keywords) "" _

lemma settle_multi (body : List SyntaxTree) :
    settle owners last (group .containerMultiStatement body) =
      group .containerMultiStatement (settleAll (false :: owners) true body) :=
  settle_group (by decide) (by decide) body

lemma settle_tryTree (body : List SyntaxTree) : settle owners last (tryTree true body) =
    tryTree true (settleAll (false :: false :: owners) true body) := by
  have hopener : Still (spelled .containerOpen "begin" [keyword "begin"]) :=
    still_spelled (by decide) (by decide) _ ["begin"]
  rw [tryTree, if_pos rfl, settle_group (by decide) (by decide), settleAll, settleAll, settleAll,
    hopener, settle_multi]
  rfl

lemma settle_catchTree (body : List SyntaxTree) : settle owners last (catchTree true body) =
    catchTree true (settleAll (false :: false :: owners) true body) := by
  have hopener : Still (spelled .containerOpen "exception when others then"
      [keyword "begin", keyword "catch"]) :=
    still_spelled (by decide) (by decide) _ ["begin", "catch"]
  have hcloser : Still (spelled .containerClose "end" [keyword "end", keyword "catch"]) :=
    still_spelled (by decide) (by decide) _ ["end", "catch"]
  rw [catchTree, if_pos rfl, settle_group (by decide) (by decide), settleAll, settleAll, settleAll,
    settleAll, hopener, settle_multi, hcloser]
  rfl

lemma pieces_spelled {words : String} (tag : Tag) (trees : List SyntaxTree)
    (hwords : Text.trim words.toList = words.toList) (hne : words ≠ "") :
    (spelled tag words trees).pieces = pieceOf words := by
  have hget : ((Dict.empty : Dict String).insert simpleTextKey words).get? simpleTextKey =
      some words := by
    simp [Dict.get?, Dict.insert, Dict.empty, Dict.insertEntry]
  rw [spelled, pieces, hget]
  simp [hwords, Piece.ofText, pieceOf, hne]

lemma pieces_multi (body : List SyntaxTree) :
    (group .containerMultiStatement body).pieces = piecesAll body :=
  pieces_group rfl rfl body

lemma pieces_tryTree (body : List SyntaxTree) :
    (tryTree true body).pieces = pieceOf "begin" ++ piecesAll body := by
  rw [tryTree, if_pos rfl, pieces_group rfl rfl, piecesAll, piecesAll_singleton, pieces_multi,
    pieces_spelled _ _ (by decide +kernel) (by decide)]

lemma pieces_catchTree (body : List SyntaxTree) : (catchTree true body).pieces =
    pieceOf "exception when others then" ++ piecesAll body ++ pieceOf "end" := by
  rw [catchTree, if_pos rfl, pieces_group rfl rfl, piecesAll, piecesAll, piecesAll_singleton,
    pieces_multi, pieces_spelled _ _ (by decide +kernel) (by decide),
    pieces_spelled _ _ (by decide +kernel) (by decide), List.append_assoc]

end

/-- The pieces of converted statements in a list, when they are terminated. -/
lemma piecesAll_settleAll {body : List Statement}
    (h : ∀ s ∈ body, ∀ (owners : List Bool) (last : Bool), NoOwner owners →
      (settle owners last (s.tree true)).pieces = s.translate)
    {owners : List Bool} (howners : NoOwner owners) :
    piecesAll (settleAll owners true (Statement.treeAll true body)) =
      Statement.translateAll body := by
  induction body with
  | nil => rfl
  | cons s rest ihrest =>
    rw [Statement.treeAll, settleAll, piecesAll, h s List.mem_cons_self _ _ howners,
      ihrest fun t ht => h t (.tail _ ht), Statement.translateAll]

/-- The pieces of a converted statement, when it is terminated. -/
lemma pieces_settle (s : Statement) : ∀ (owners : List Bool) (last : Bool), NoOwner owners →
    (settle owners last (s.tree true)).pieces = s.translate := by
  induction s with
  | plain clauses =>
    intro owners last howners
    rw [Statement.tree, settle_group (by decide) (by decide), pieces_group rfl rfl,
      Statement.translate]
    exact congrArg piecesAll (howners.cons.settleAll_eq clauses.trees)
  | block body ended ih =>
    intro owners last howners
    rw [Statement.tree, ControlFlow.settle_block (howners 1), pieces_asStatement, piecesAll,
      ControlFlow.pieces_enclosed, piecesAll_settleAll ih howners.cons.cons.cons.cons,
      piecesAll_singleton, piecesAll_singleton, pieces_opener (by decide),
      pieces_closer (by decide), Statement.translate]
    simp [ending, pieces_semicolon, piecesAll_singleton]
  | attempt body handler ended ih ihHandler =>
    intro owners last howners
    have htry (trees : List SyntaxTree) : has .tryBlock (tryTree true trees ::
        catchTree true (Statement.treeAll true handler) :: ending ended) = true := rfl
    rw [Statement.tree, settle_asStatement_of_lacks (lacks_of_has (by simp) (htry _)), settleAll,
      settleAll, settle_tryTree, settle_catchTree,
      settleAll_of_still (ControlFlow.still_ending ended), pieces_asStatement, piecesAll, piecesAll,
      pieces_tryTree, pieces_catchTree, piecesAll_settleAll ih howners.cons.cons.cons.cons,
      piecesAll_settleAll ihHandler howners.cons.cons.cons.cons, ControlFlow.piecesAll_ending,
      Statement.translate]
    simp only [List.append_assoc]

/-! ## The passes in their order -/

/-- The pass over error handling, and the one that terminates statements. -/
def handlingPasses : List Pass :=
  ["try_catch", "missing_semicolons"].filterMap standardPass?

lemma handlingPasses_eq : handlingPasses =
    [⟨"try_catch", convertErrorHandling⟩, ⟨"missing_semicolons", addTerminators⟩] := by
  rfl

/-- The conversion makes no new nodes. -/
lemma size_tree (s : Statement) : (s.tree true).size ≤ 1 * (s.tree false).size := by
  induction s with
  | plain clauses => exact (Nat.one_mul _).ge
  | block body ended ih =>
    have hbody := sizeAll_map_le ih
    simp only [Statement.tree, Statement.treeAll_eq_map, size_asStatement, sizeAll,
      ControlFlow.size_enclosed]
    omega
  | attempt body handler ended ih ihHandler =>
    have hbody := sizeAll_map_le ih
    have hhandler := sizeAll_map_le ihHandler
    simp only [Statement.tree, Statement.treeAll_eq_map, tryTree, catchTree, spelled, marker,
      keyword, size_asStatement, size_group, sizeAll, SyntaxTree.size, Bool.false_eq_true, if_true,
      if_false]
    omega

/-- Try and catch blocks become blocks with an exception part, whatever the nesting. The end of
such a block has a terminator exactly if the catch block had one. -/
theorem runPasses_attempts (statements : List Statement) :
    ∃ w, runPasses handlingPasses { forest := ofTree (script statements) } = .ok w ∧
      w.forest.tree.pieces = Statement.translateAll statements := by
  have hwalks : Walks errorVisit (script statements)
      (group .root (statements.map (Statement.tree true))) :=
    walks_group (by decide) (by decide) (List.forall₂_map_left_iff.2
      (List.forall₂_map_right_iff.2 (List.forall₂_same.2 fun s _ => walks_tree s)))
  have hw : Whole { forest := ofTree (script statements) } := whole_ofTree _
  have hsize : (group .root (statements.map (Statement.tree true))).size ≤
      (ofTree (script statements)).size := by
    have hall := sizeAll_map_le fun s (_ : s ∈ statements) => size_tree s
    rw [size_ofTree, script, size_group, size_group]
    omega
  obtain ⟨w, hturned, hrun⟩ := runPasses_of_walks hwalks hw (tree_ofTree _) (by
    change _ ≤ 16 * ((ofTree (script statements)).size + 4)
    omega)
  have htree : w.forest.tree = group .root (statements.map (Statement.tree true)) :=
    hturned.grafted.subtree_eq
  obtain ⟨_, w', hrun', hturned'⟩ := (addTerminators_turns (hturned.whole hw)).exists_ok
  refine ⟨w', ?_, ?_⟩
  · rw [handlingPasses_eq, convertErrorHandling, hrun]
    exact runPasses_of_ok hrun'
  · rw [tree, hturned'.grafted.subtree_eq, htree, settle_group (by decide) (by decide),
      pieces_group rfl rfl, ← Statement.treeAll_eq_map]
    exact piecesAll_settleAll (fun s _ => pieces_settle s) noOwner_nil.cons

/-- `return;` -/
def returning : Statement :=
  .plain ⟨[group .clause [keyword "return", semicolon]],
    ⟨by decide, ⟨by decide +kernel, trivial⟩, ⟨by decide, trivial⟩, trivial⟩, trivial⟩

/-- Without a semicolon after `end catch`, the next statement follows `end` without a terminator. -/
theorem runPasses_unended : ∃ w, runPasses handlingPasses
    { forest := ofTree (script [.attempt [returning] [returning] false, returning]) } = .ok w ∧
      w.forest.tree.render = "begin return; exception when others then return; end return;" := by
  decide +kernel

end SqlDialect.ErrorHandling
