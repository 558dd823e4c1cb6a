import SqlDialect.Proofs.Terminator.Ending
import SqlDialect.Proofs.Terminator.Parts

/-!
# White space and terminators

White space between tokens is not shown, and what a script says should not depend on it.  The pass
that terminates statements keeps to that in part.  It never touches anything but terminators, so
white space can make a difference to terminators only; and where no node has white space as its last
child, it makes none (`runPasses_strip`).  White space after the last clause of a statement does:
the clause is then not the last child, and is not terminated (`convert_twoSelects`).
-/

namespace SqlDialect

open List

namespace SyntaxTree

/-! ## Trees without white space -/

/-- White space with nothing else to it. -/
def isBlank : SyntaxTree → Bool
  | .node tag _ attributes children =>
    tag == .whiteSpace && attributes.isEmpty && children.isEmpty

mutual

/-- The tree without blanks. -/
def strip : SyntaxTree → SyntaxTree
  | .node tag text attributes children => .node tag text attributes (stripAll children)

def stripAll : List SyntaxTree → List SyntaxTree
  | [] => []
  | tree :: rest => if tree.isBlank then stripAll rest else strip tree :: stripAll rest

end

/-- The last tree is a blank. -/
def endsInBlank (trees : List SyntaxTree) : Bool :=
  trees.getLast?.any isBlank

mutual

/-- No node of the tree has a blank as its last child. -/
def isTight : SyntaxTree → Bool
  | .node _ _ _ children => !endsInBlank children && isTightAll children

def isTightAll : List SyntaxTree → Bool
  | [] => true
  | tree :: rest => isTight tree && isTightAll rest

end

section

variable {tag : Tag} {text : String} {attributes : Dict String} {tree : SyntaxTree}
  {trees trees' : List SyntaxTree}

lemma isTightAll_iff : isTightAll trees = true ↔ ∀ tree ∈ trees, tree.isTight = true := by
  induction trees with
  | nil => simp [isTightAll]
  | cons tree rest ih => simp [isTightAll, ih]

@[simp] lemma tag_strip (tree : SyntaxTree) : tree.strip.tag = tree.tag := by
  cases tree
  rfl

lemma tag_of_isBlank (h : tree.isBlank = true) : tree.tag = .whiteSpace := by
  cases tree
  simp only [isBlank, Bool.and_eq_true, beq_iff_eq] at h
  exact h.1.1

lemma pieces_congr (h : piecesAll trees = piecesAll trees') :
    (node tag text attributes trees).pieces = (node tag text attributes trees').pieces := by
  rw [pieces, pieces, h]

lemma pieces_of_isBlank (h : tree.isBlank = true) : tree.pieces = [] := by
  cases tree with
  | node tag text attributes children =>
    simp only [isBlank, Bool.and_eq_true, beq_iff_eq, Dict.isEmpty, List.isEmpty_iff] at h
    obtain ⟨⟨rfl, hattributes⟩, -⟩ := h
    have hnone : attributes.get? simpleTextKey = none := by rw [Dict.get?, hattributes]; rfl
    rw [pieces, hnone]
    rfl

/-- Blanks are not shown. -/
lemma pieces_strip (tree : SyntaxTree) : tree.strip.pieces = tree.pieces := by
  induction tree using SyntaxTree.induction with
  | node tag text attributes children ih =>
    refine pieces_congr ?_
    induction children with
    | nil => rfl
    | cons tree rest ihrest =>
      have hrest := ihrest fun t ht => ih t (.tail _ ht)
      rw [stripAll, piecesAll]
      split <;> rename_i hblank
      · rw [hrest, pieces_of_isBlank hblank, nil_append]
      · rw [piecesAll, ih tree mem_cons_self, hrest]

lemma stripAll_append (trees trees' : List SyntaxTree) :
    stripAll (trees ++ trees') = stripAll trees ++ stripAll trees' := by
  induction trees with
  | nil => rfl
  | cons tree rest ih =>
    rw [cons_append, stripAll, stripAll, ih]
    split <;> rfl

/-- If the last tree is not a blank, it stays the last one. -/
lemma getLast?_stripAll (h : endsInBlank trees = false) :
    (stripAll trees).getLast? = trees.getLast?.map strip := by
  obtain rfl | ⟨before, tree, rfl⟩ := eq_nil_or_concat' trees
  · rfl
  · have hblank : tree.isBlank = false := by simpa [endsInBlank] using h
    rw [stripAll_append, stripAll, hblank, if_neg Bool.false_ne_true, stripAll, getLast?_concat,
      getLast?_concat]
    rfl

lemma isEmpty_stripAll (h : endsInBlank trees = false) :
    (stripAll trees).isEmpty = trees.isEmpty := by
  rw [Bool.eq_iff_iff, List.isEmpty_iff, List.isEmpty_iff, ← List.getLast?_eq_none_iff,
    getLast?_stripAll h, Option.map_eq_none_iff, List.getLast?_eq_none_iff]

lemma endsInBlank_of_cons (h : endsInBlank (tree :: trees) = false) :
    endsInBlank trees = false := by
  cases trees with
  | nil => rfl
  | cons next rest => rwa [endsInBlank, getLast?_cons_cons, ← endsInBlank] at h

end

end SyntaxTree

namespace Terminator

open SyntaxTree

variable {owners : List Bool} {last : Bool} {tree : SyntaxTree} {trees : List SyntaxTree}

/-! ## What the pass asks, without blanks -/

lemma has_cons (kind : Tag) (tree : SyntaxTree) (rest : List SyntaxTree) :
    has kind (tree :: rest) = (tree.tag == kind || has kind rest) :=
  any_cons

lemma has_stripAll {kind : Tag} (hkind : kind ≠ .whiteSpace) (trees : List SyntaxTree) :
    has kind (stripAll trees) = has kind trees := by
  induction trees with
  | nil => rfl
  | cons tree rest ih =>
    rw [stripAll, has_cons]
    split <;> rename_i hblank
    · rw [ih, tag_of_isBlank hblank, beq_false_of_ne hkind.symm, Bool.false_or]
    · rw [has_cons, ih, tag_strip]

lemma lastTerminated_stripAll (h : ∀ tree ∈ trees, isTerminated tree.strip = isTerminated tree) :
    lastTerminated (stripAll trees) = lastTerminated trees := by
  induction trees with
  | nil => rfl
  | cons tree rest ih =>
    have hrest := ih fun t ht => h t (.tail _ ht)
    rw [stripAll, lastTerminated]
    split <;> rename_i hblank
    · rw [hrest, tag_of_isBlank hblank]
      simp
    · rw [lastTerminated, hrest, tag_strip, h tree mem_cons_self]

lemma isTerminated_strip (tree : SyntaxTree) : isTerminated tree.strip = isTerminated tree := by
  induction tree using SyntaxTree.induction with
  | node tag text attributes children ih =>
    rw [strip, isTerminated, isTerminated, has_stripAll (by decide), lastTerminated_stripAll ih]

lemma lacks_stripAll (h : endsInBlank trees = false) :
    lacks owners (stripAll trees) = lacks owners trees := by
  rw [lacks, lacks, getLast?_stripAll h, Option.any_map, has_stripAll (by decide),
    has_stripAll (by decide), has_stripAll (by decide), has_stripAll (by decide),
    lastTerminated_stripAll fun tree _ => isTerminated_strip tree]
  simp only [tag_strip]

lemma isElseOwner_stripAll (tag : Tag) (trees : List SyntaxTree) :
    isElseOwner tag (stripAll trees) = isElseOwner tag trees := by
  rw [isElseOwner, has_stripAll (by decide), isElseOwner]

/-! ## Terminating without blanks -/

lemma stripAll_putSemicolon (h : endsInBlank trees = false) :
    stripAll (putSemicolon trees) = putSemicolon (stripAll trees) := by
  obtain rfl | ⟨before, tree, rfl⟩ := eq_nil_or_concat' trees
  · rfl
  · have hblank : tree.isBlank = false := by simpa [endsInBlank] using h
    have htree : stripAll [tree] = [tree.strip] := by rw [stripAll, hblank]; rfl
    have hsemicolon : stripAll [semicolon] = [semicolon] := rfl
    rw [putSemicolon_concat, stripAll_append, stripAll_append, htree,
      putSemicolon_concat, tag_strip]
    split
    · rw [← singleton_append, stripAll_append, htree, hsemicolon]
      rfl
    · rw [← singleton_append, stripAll_append, htree, hsemicolon]
      rfl

lemma endsInBlank_putSemicolon (h : endsInBlank trees = false) :
    endsInBlank (putSemicolon trees) = false := by
  obtain rfl | ⟨before, tree, rfl⟩ := eq_nil_or_concat' trees
  · rfl
  · have hblank : tree.isBlank = false := by simpa [endsInBlank] using h
    rw [putSemicolon_concat]
    split
    · simp [endsInBlank, hblank]
    · simp [endsInBlank]
      rfl

lemma stripAll_completed (h : endsInBlank trees = false) (tag : Tag) :
    stripAll (completed owners last tag trees) = completed owners last tag (stripAll trees) ∧
      endsInBlank (completed owners last tag trees) = false := by
  rw [completed, completed, lacks_stripAll h]
  split
  · exact ⟨stripAll_putSemicolon h, endsInBlank_putSemicolon h⟩
  · exact ⟨rfl, h⟩

lemma isBlank_settle (tree : SyntaxTree) : (settle owners last tree).isBlank = tree.isBlank := by
  cases tree with
  | node tag text attributes children =>
    by_cases htag : tag = .whiteSpace
    · subst htag
      rw [settle_node (by decide) (by decide), isBlank, isBlank]
      cases children <;> rfl
    · have hne : (settle owners last (.node tag text attributes children)).tag ≠ .whiteSpace := by
        rw [tag_settle]
        exact htag
      have hfalse (tree : SyntaxTree) (h : tree.tag ≠ .whiteSpace) : tree.isBlank = false :=
        Bool.eq_false_iff.2 fun hblank => h (tag_of_isBlank hblank)
      rw [hfalse _ hne, hfalse (.node tag text attributes children) htag]

lemma stripAll_settleAll (h : ∀ tree ∈ trees, ∀ (owners : List Bool) (last : Bool),
      (settle owners last tree).strip = settle owners last tree.strip)
    (hend : endsInBlank trees = false) :
    stripAll (settleAll owners last trees) = settleAll owners last (stripAll trees) := by
  induction trees with
  | nil => rfl
  | cons tree rest ih =>
    have hrest := endsInBlank_of_cons hend
    have ih := ih (fun t ht => h t (.tail _ ht)) hrest
    rw [settleAll, stripAll, stripAll, isBlank_settle, ih]
    split
    · rfl
    · rw [settleAll, isEmpty_stripAll hrest, h tree mem_cons_self]

/-- In a tree in which no node has a blank as its last child, blanks make no difference. -/
lemma strip_settle (tree : SyntaxTree) (htight : tree.isTight = true) :
    ∀ (owners : List Bool) (last : Bool),
      (settle owners last tree).strip = settle owners last tree.strip := by
  induction tree using SyntaxTree.induction with
  | node tag text attributes children ih =>
    intro owners last
    rw [isTight, Bool.and_eq_true, Bool.not_eq_true', isTightAll_iff] at htight
    obtain ⟨hend, hchildren⟩ := htight
    by_cases htag : tag ∈ brackets
    · rw [settle, if_pos htag, strip, settle, if_pos htag]
    · obtain ⟨hcompleted, hend'⟩ := stripAll_completed hend tag
      rw [settle_eq htag, strip, strip, settle_eq htag, isElseOwner_stripAll, ← hcompleted]
      congr 1
      refine stripAll_settleAll (fun part hpart => ?_) hend'
      obtain hpart | rfl := mem_completed hpart
      · exact ih part hpart (hchildren part hpart)
      · intro owners last
        rw [settle_semicolon]
        exact (settle_semicolon owners last).symm

/-! ## What the pass leaves alone -/

/-- The pieces that are not terminators. -/
def words (pieces : List Piece) : List Piece :=
  pieces.filter (·.text != ";")

lemma words_append (xs ys : List Piece) : words (xs ++ ys) = words xs ++ words ys :=
  filter_append xs ys

lemma words_pieces_congr {tag : Tag} {text : String} {attributes : Dict String}
    {trees' : List SyntaxTree} (h : words (piecesAll trees) = words (piecesAll trees')) :
    words (SyntaxTree.node tag text attributes trees).pieces =
      words (SyntaxTree.node tag text attributes trees').pieces := by
  rw [pieces, pieces]
  cases attributes.get? simpleTextKey with
  | some simple => rfl
  | none =>
    simp only
    split
    · rfl
    · split
      · rw [← singleton_append, words_append, words_append, h, ← words_append, ← words_append]
        rfl
      · rw [words_append, words_append, h]

lemma words_putSemicolon (trees : List SyntaxTree) :
    words (piecesAll (putSemicolon trees)) = words (piecesAll trees) := by
  have hsemicolon : words semicolon.pieces = [] := rfl
  obtain rfl | ⟨before, tree, rfl⟩ := eq_nil_or_concat' trees
  · rfl
  · rw [putSemicolon_concat, piecesAll_append, piecesAll_append, words_append, words_append]
    congr 1
    split
    · rw [piecesAll, words_append, hsemicolon, nil_append]
    · rw [piecesAll, words_append, piecesAll_singleton, piecesAll_singleton, hsemicolon,
        append_nil]

/-- Only terminators are added. -/
lemma words_settle (tree : SyntaxTree) : ∀ (owners : List Bool) (last : Bool),
    words (settle owners last tree).pieces = words tree.pieces := by
  induction tree using SyntaxTree.induction with
  | node tag text attributes children ih =>
    intro owners last
    have hall : ∀ (owners : List Bool) (last : Bool),
        words (piecesAll (settleAll owners last children)) = words (piecesAll children) := by
      intro owners last
      induction children with
      | nil => rfl
      | cons tree rest ihrest =>
        rw [settleAll, piecesAll, piecesAll, words_append, words_append,
          ih tree (.head _), ihrest fun t ht => ih t (.tail _ ht)]
    rw [settle]
    split
    · rfl
    · refine words_pieces_congr ?_
      split
      · rw [words_putSemicolon, hall]
      · rw [hall]

/-! ## The pass -/

open Conversion Forest

/-- The pass that terminates statements. -/
def terminatorPasses : List Pass :=
  ["missing_semicolons"].filterMap standardPass?

lemma terminatorPasses_eq : terminatorPasses = [⟨"missing_semicolons", addTerminators⟩] := by
  rfl

lemma runPasses_terminators (tree : SyntaxTree) :
    ∃ w, runPasses terminatorPasses { forest := ofTree tree } = .ok w ∧
      w.forest.tree = settle [] false tree ∧ w.notes = {} := by
  have htree := tree_ofTree tree
  obtain ⟨_, w, hrun, hturned⟩ := (addTerminators_turns (whole_ofTree tree)).exists_ok
  refine ⟨w, ?_, hturned.grafted.subtree_eq.trans (by rw [htree]), hturned.notes_eq⟩
  rw [terminatorPasses_eq]
  exact runPasses_of_ok hrun

/-- A tree and the same tree without blanks are terminated alike: but for terminators the pieces are
the same, and all of them are if no node has a blank as its last child. -/
theorem runPasses_strip (tree : SyntaxTree) :
    ∃ w w', runPasses terminatorPasses { forest := ofTree tree } = .ok w ∧
      runPasses terminatorPasses { forest := ofTree tree.strip } = .ok w' ∧ w'.notes = w.notes ∧
      words w'.forest.tree.pieces = words w.forest.tree.pieces ∧
      (tree.isTight = true → w'.forest.tree.pieces = w.forest.tree.pieces) := by
  obtain ⟨w, hrun, htree, hnotes⟩ := runPasses_terminators tree
  obtain ⟨w', hrun', htree', hnotes'⟩ := runPasses_terminators tree.strip
  refine ⟨w, w', hrun, hrun', hnotes'.trans hnotes.symm, ?_, fun htight => ?_⟩
  · rw [htree, htree', words_settle, words_settle, pieces_strip]
  · rw [htree, htree', ← strip_settle tree htight, pieces_strip]

/-- `select x` and `select y;`, with white space where it is given. -/
def twoSelects (within after : List SyntaxTree) : SyntaxTree :=
  group .root [
    group .statement
      (group .clause ([keyword "select"] ++ within ++ [.node .otherNode "x" .empty []]) :: after),
    asStatement [keyword "select", .node .otherNode "y" .empty [], semicolon]]

def blank : SyntaxTree :=
  .node .whiteSpace " " .empty []

theorem runPasses_strip_twoSelects : (twoSelects [blank] []).isTight = true ∧
    ∃ w w', runPasses terminatorPasses { forest := ofTree (twoSelects [blank] []) } = .ok w ∧
      runPasses terminatorPasses { forest := ofTree (twoSelects [] []) } = .ok w' ∧
      w'.forest.tree.pieces = w.forest.tree.pieces := by
  have htight : (twoSelects [blank] []).isTight = true := by decide
  obtain ⟨w, w', hrun, hrun', -, -, hpieces⟩ := runPasses_strip (twoSelects [blank] [])
  exact ⟨htight, w, w', hrun, hrun', hpieces htight⟩

/-- White space after a clause keeps it from being terminated. -/
theorem convert_twoSelects : ∃ w w', convert (ofTree (twoSelects [] [blank])) = .ok w ∧
    convert (ofTree (twoSelects [] [blank]).strip) = .ok w' ∧
      w.forest.tree.render = "select x select y;" ∧
      w'.forest.tree.render = "select x; select y;" := by
  obtain ⟨w, hw, hrender⟩ : ∃ w, convert (ofTree (twoSelects [] [blank])) = .ok w ∧
      w.forest.tree.render = "select x select y;" := by decide +kernel
  obtain ⟨w', hw', hrender'⟩ : ∃ w, convert (ofTree (twoSelects [] [blank]).strip) = .ok w ∧
      w.forest.tree.render = "select x; select y;" := by decide +kernel
  exact ⟨w, w', hw, hw', hrender, hrender'⟩

end Terminator

end SqlDialect
