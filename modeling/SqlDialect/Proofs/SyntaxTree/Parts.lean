import Mathlib.Tactic.Lemma
import SqlDialect.SyntaxTree.Rendering

/-!
# Parts of syntax trees

The trees that constructs are made of, with their pieces and sizes, and induction over trees.
-/

namespace SqlDialect.SyntaxTree

/-- Induction over syntax trees, with the hypothesis for each child. -/
theorem induction {motive : SyntaxTree → Prop}
    (node : ∀ tag text attributes children, (∀ tree ∈ children, motive tree) →
      motive (.node tag text attributes children)) (tree : SyntaxTree) : motive tree :=
  @SyntaxTree.rec motive (fun children => ∀ tree ∈ children, motive tree) node
    (fun _ h => nomatch h) (fun _ _ hhead htail => List.forall_mem_cons.2 ⟨hhead, htail⟩) tree

/-! ## Trees -/

/-- A node with nothing but children. -/
def group (tag : Tag) (children : List SyntaxTree) : SyntaxTree :=
  .node tag "" .empty children

@[simp] lemma tag_group (tag : Tag) (children : List SyntaxTree) : (group tag children).tag = tag :=
  rfl

/-- A node with nothing but a text. -/
def leaf (tag : Tag) (text : String) : SyntaxTree :=
  .node tag text .empty []

/-- A keyword. -/
def keyword (text : String) : SyntaxTree :=
  .node .otherKeyword text .empty []

def semicolon : SyntaxTree :=
  .node .semicolon ";" .empty []

/-- The word that opens a construct. -/
def opener (text : String) : SyntaxTree :=
  group .containerOpen [keyword text]

/-- The word that closes a construct. -/
def closer (text : String) : SyntaxTree :=
  group .containerClose [keyword text]

/-- A statement of one clause. -/
def asStatement (parts : List SyntaxTree) : SyntaxTree :=
  group .statement [group .clause parts]

/-! ## Pieces -/

/-- A piece of text with nothing special about it. -/
def pieceOf (text : String) : List Piece := [Piece.plain text]

lemma piecesAll_append (trees trees' : List SyntaxTree) :
    piecesAll (trees ++ trees') = piecesAll trees ++ piecesAll trees' := by
  induction trees with
  | nil => rfl
  | cons tree trees ih => rw [List.cons_append, piecesAll, piecesAll, ih, List.append_assoc]

lemma pieces_group {tag : Tag} (hparens : tag.isParens = false) (htoken : tag.isToken = false)
    (children : List SyntaxTree) : (group tag children).pieces = piecesAll children := by
  have hnone : (Dict.empty : Dict String).get? simpleTextKey = none := rfl
  have hwhite : (tag == Tag.whiteSpace) = false := by
    cases tag <;> first | rfl | cases htoken
  rw [group, pieces, hnone]
  simp only [hwhite, hparens, ownPieces, htoken]
  rfl

lemma pieces_keyword {text : String} (htext : text ≠ "") :
    (keyword text).pieces = pieceOf text := by
  have hnone : (Dict.empty : Dict String).get? simpleTextKey = none := rfl
  rw [keyword, pieces, hnone]
  simp [pieceOf, piecesAll, ownPieces, tokenText, Piece.ofText, htext, Tag.isToken, Tag.isParens]

lemma pieces_semicolon : semicolon.pieces = pieceOf ";" := rfl

lemma piecesAll_singleton (tree : SyntaxTree) : piecesAll [tree] = tree.pieces := by
  rw [piecesAll, piecesAll, List.append_nil]

lemma pieces_opener {text : String} (htext : text ≠ "") : (opener text).pieces = pieceOf text := by
  rw [opener, pieces_group rfl rfl, piecesAll_singleton, pieces_keyword htext]

lemma pieces_closer {text : String} (htext : text ≠ "") : (closer text).pieces = pieceOf text := by
  rw [closer, pieces_group rfl rfl, piecesAll_singleton, pieces_keyword htext]

lemma pieces_asStatement (parts : List SyntaxTree) :
    (asStatement parts).pieces = piecesAll parts := by
  rw [asStatement, pieces_group rfl rfl, piecesAll_singleton, pieces_group rfl rfl]

/-! ## Tokens -/

mutual

/-- The tokens of a tree in order, without white space and comments. -/
def tokens : SyntaxTree → List (Tag × String)
  | .node tag text _ children =>
    (if tag.isToken && tag != .whiteSpace && !tag.isComment then [(tag, text)] else []) ++
      tokensAll children

def tokensAll : List SyntaxTree → List (Tag × String)
  | [] => []
  | tree :: rest => tree.tokens ++ tokensAll rest

end

lemma tokensAll_append (trees trees' : List SyntaxTree) :
    tokensAll (trees ++ trees') = tokensAll trees ++ tokensAll trees' := by
  induction trees with
  | nil => rfl
  | cons tree trees ih => rw [List.cons_append, tokensAll, tokensAll, ih, List.append_assoc]

/-! ## Sizes -/

lemma size_group (tag : Tag) (children : List SyntaxTree) :
    (group tag children).size = 1 + sizeAll children := by
  rw [group, size]

lemma sizeAll_append (trees trees' : List SyntaxTree) :
    sizeAll (trees ++ trees') = sizeAll trees + sizeAll trees' := by
  induction trees with
  | nil => simp [sizeAll]
  | cons tree trees ih => rw [List.cons_append, sizeAll, sizeAll, ih, Nat.add_assoc]

lemma sizeAll_le_of_sublist {trees trees' : List SyntaxTree} (h : trees.Sublist trees') :
    sizeAll trees ≤ sizeAll trees' := by
  induction h with
  | slnil => exact Nat.le_refl _
  | cons tree _ ih => exact Nat.le_trans ih (Nat.le_add_left _ _)
  | cons_cons tree _ ih => exact Nat.add_le_add_left ih _

lemma size_le_sizeAll {tree : SyntaxTree} {trees : List SyntaxTree} (h : tree ∈ trees) :
    tree.size ≤ sizeAll trees := by
  simpa [sizeAll] using sizeAll_le_of_sublist (List.singleton_sublist.2 h)

lemma sizeAll_map_le {α : Type} {f g : α → SyntaxTree} {n : Nat} {xs : List α}
    (h : ∀ x ∈ xs, (g x).size ≤ n * (f x).size) :
    sizeAll (xs.map g) ≤ n * sizeAll (xs.map f) := by
  induction xs with
  | nil => simp [sizeAll]
  | cons x xs ih =>
    have hx := h x (.head _)
    have hxs := ih fun y hy => h y (.tail _ hy)
    simp only [List.map_cons, sizeAll, Nat.mul_add]
    omega

lemma size_opener (text : String) : (opener text).size = 2 := rfl

lemma size_closer (text : String) : (closer text).size = 2 := rfl

lemma size_asStatement (parts : List SyntaxTree) :
    (asStatement parts).size = 2 + sizeAll parts := by
  simp only [asStatement, size_group, sizeAll]
  omega

end SqlDialect.SyntaxTree
