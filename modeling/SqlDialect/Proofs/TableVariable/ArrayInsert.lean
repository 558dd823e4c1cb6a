import SqlDialect.Proofs.Conversion.Copy
import SqlDialect.Proofs.Conversion.Rebuild
import SqlDialect.Proofs.Pass.TableVariable
import SqlDialect.Proofs.Terminator.Taken

/-!
# One insert into an array

An insert into an array becomes an assignment to it.  The rows that are inserted are those of the
clauses after the insert clause: they are made a derived table (`derivedRows`), which the assignment
gets a copy of (`assignment`).  The statement of the insert goes, and with it all that stands before
its insert clause.
-/

namespace SqlDialect.TableVariable

open Conversion SyntaxTree List

/-! ## The assignment -/

/-- A clause with lists of values, as a clause that selects from them. -/
def derivedValues : SyntaxTree → SyntaxTree
  | .node tag text attributes rows => .node tag text attributes
    [keyword "from", group .selectionTarget [group .selectionTargetParens [group .clause rows],
      .node .otherNode rowAlias .empty []]]

/-- The clauses of a query, as a clause that selects from it. -/
def derivedQuery (query : List SyntaxTree) : SyntaxTree :=
  group .clause [keyword "from", group .selectionTargetParens query,
    .node .otherNode rowAlias .empty []]

/-- The clauses with the first lists of values derived from, if there are any. -/
def deriveFirst : List SyntaxTree → Option (List SyntaxTree)
  | [] => none
  | clause :: rest =>
    if clause.hasWord .otherKeyword "values" then some (derivedValues clause :: rest)
    else (deriveFirst rest).map (clause :: ·)

/-- The clauses after an insert clause, as clauses that select from what is inserted. -/
def derivedRows (clauses : List SyntaxTree) : List SyntaxTree :=
  (deriveFirst clauses).getD [derivedQuery clauses]

/-- The clause that makes an array of the rows. -/
def aggregation : SyntaxTree :=
  group .clause [keyword "select", .node .functionKeyword "array_agg" .empty [],
    group .functionParens [.node .otherNode rowAlias .empty []]]

/-- The assignment that appends the rows of a query to an array. -/
def assignment (array : SyntaxTree) (query : List SyntaxTree) : SyntaxTree :=
  asStatement [array, .node .equalsSign ":=" .empty [],
    .node .functionKeyword "array_cat" .empty [],
    group .functionParens [array, .node .comma "," .empty [],
      group .expressionParens (aggregation :: query)], semicolon]

lemma deriveFirst_append {clause : SyntaxTree} {before : List SyntaxTree}
    (hbefore : ∀ t ∈ before, t.hasWord .otherKeyword "values" = false)
    (hclause : clause.hasWord .otherKeyword "values" = true) (after : List SyntaxTree) :
    deriveFirst (before ++ clause :: after) = some (before ++ derivedValues clause :: after) := by
  induction before with
  | nil => rw [nil_append, deriveFirst, if_pos hclause, nil_append]
  | cons t before ih =>
    have ht := hbefore t (.head _)
    rw [cons_append, deriveFirst, if_neg (by simp [ht]),
      ih fun t ht => hbefore t (.tail _ ht)]
    rfl

lemma deriveFirst_eq_none {clauses : List SyntaxTree}
    (h : ∀ t ∈ clauses, t.hasWord .otherKeyword "values" = false) : deriveFirst clauses = none := by
  induction clauses with
  | nil => rfl
  | cons t rest ih =>
    have ht := h t (.head _)
    rw [deriveFirst, if_neg (by simp [ht]), ih fun t ht => h t (.tail _ ht)]
    rfl

/-! ## The rows that are inserted -/

open Forest

section

variable {w w' : Workspace} {c parens rows st target values : Nat} {before after : List Nat}

/-- Lists of values are derived from in their clause. -/
lemma deriveFromValues_turned (hw : Whole w) (hvalues : values < w.forest.size) :
    Succeeds (deriveFromValues values) w
      fun _ => Turned w values (derivedValues (w.forest.subtree values)) := by
  have hf := hw.wellFormed
  have hmoves : Does (deriveFromValues values) w fun _ w' =>
      Rebuilt w.forest values [w.forest.size, w.forest.size + 1]
        [{ tag := .otherKeyword, text := "from" },
          { tag := .selectionTarget, children := [w.forest.size + 2, w.forest.size + 4] },
          { tag := .selectionTargetParens, children := [w.forest.size + 3] },
          { tag := .clause, children := w.forest.children values },
          { tag := .otherNode, text := rowAlias }] w'.forest := by
    apply ends_forest
    refine ends_bind (ends_discard ((append_top (.refl hf hvalues) rfl).imp ?_))
    rintro _ w1 ⟨rfl, h1⟩
    refine ends_bind ((append_top h1 rfl).imp ?_)
    rintro _ w2 ⟨rfl, h2⟩
    refine ends_bind ((append_new h2 rfl rfl).imp ?_)
    rintro _ w3 ⟨rfl, h3⟩
    refine ends_bind ((append_new h3 rfl rfl).imp ?_)
    rintro _ w4 ⟨rfl, h4⟩
    refine ends_bind ((moveAllTo_new h4 [] [w.forest.size, w.forest.size + 1] rfl
      (by simp)).imp fun _ w5 h5 => ?_)
    refine ends_discard ((append_new h5 rfl rfl).imp ?_)
    rintro _ w6 ⟨-, h6⟩
    exact h6
  have hsafe : Safe (fun _ => True) False (deriveFromValues values) w :=
    (deriveFromValues_ends hw hvalues).imp fun _ _ h => h.next rfl
  have : Keeps SameNotes (deriveFromValues values) := .bind
  refine (hmoves.noted.succeeds hsafe).imp ?_
  rintro - w' ⟨hnotes, h⟩
  have hgrafted := h.grafted hf (by simp) (by simp +contextual)
  have hviews : (w.forest.children values).map w'.forest.subtree = _ :=
    map_congr_left fun a ha => h.subtree_of_child hf ha
  have hfirst : w'.forest.subtree w.forest.size = keyword "from" := h.subtree_new 0
  refine ⟨?_, hnotes⟩
  rw [hf.subtree_eq values, derivedValues, ← hviews]
  simpa [hfirst, h.subtree_new, group] using hgrafted

/-! ## Queries -/

/-- The clauses of a query are derived from in a clause of their own. -/
lemma deriveFromQuery_rebuilt (hw : Whole w)
    (hchildren : w.forest.children st = before ++ c :: after) :
    Succeeds (deriveFromQuery st c after) w fun _ w' => w'.notes = w.notes ∧
      Rebuilt w.forest st (before ++ [c, w.forest.size])
        [{ tag := .clause, children := [w.forest.size + 1, w.forest.size + 2, w.forest.size + 3] },
          { tag := .otherKeyword, text := "from" },
          { tag := .selectionTargetParens, children := after },
          { tag := .otherNode, text := rowAlias }] w'.forest := by
  have hf := hw.wellFormed
  have hparent := hf.parent_of_split hchildren
  have hsafe : Safe (fun _ => True) False (deriveFromQuery st c after) w := by
    refine (deriveFromQuery_ends hw hparent fun a ha => ?_).imp fun _ _ h => h.next rfl
    exact hf.parent_of_mem (by simp [hchildren, ha])
  have : Keeps SameNotes (deriveFromQuery st c after) := .bind
  refine Does.succeeds (Does.noted ?_) hsafe
  refine ends_bind ((insertNewAfter_top (.refl hf (hf.parent_lt hparent)) before after hchildren
    rfl).imp ?_)
  rintro _ w1 ⟨rfl, h1⟩
  refine ends_bind (ends_discard ((append_new h1 rfl rfl).imp ?_))
  rintro _ w2 ⟨rfl, h2⟩
  refine ends_bind ((append_new h2 rfl rfl).imp ?_)
  rintro _ w3 ⟨rfl, h3⟩
  refine ends_bind (ends_discard ((append_new h3 rfl rfl).imp ?_))
  rintro _ w4 ⟨rfl, h4⟩
  refine (moveAllTo_new h4 (before ++ [c, w.forest.size]) [] rfl (by simp)).imp fun _ w5 h5 => ?_
  rw [append_nil] at h5
  exact h5

/-- What is after the insert clause `c` has been derived from. -/
structure Derived (w : Workspace) (st c : Nat) (before after : List Nat) (w' : Workspace) :
    Prop where
  exchanged : ∃ rows,
    Exchanged w st (before ++ [c]) rows [] (derivedRows (after.map w.forest.subtree)) w'
  node_eq : ∀ y : Nat, y < w.forest.size → w.forest.Under y c → w'.forest.node y = w.forest.node y

namespace Derived

variable {y : Nat}

/-- Nothing has changed under the insert clause. -/
lemma subtree_eq (h : Derived w st c before after w') (hw : Whole w) (hc : c < w.forest.size)
    (hy : w.forest.Under y c) : w'.forest.subtree y = w.forest.subtree y := by
  obtain ⟨rows, hrows⟩ := h.exchanged
  refine subtree_eq_of_sameContent hw.wellFormed hrows.turned.grafted.wellFormed rfl fun z hz => ?_
  exact sameContent_of_node_eq (h.node_eq z ((hz.trans hy).lt_size hc) (hz.trans hy))

lemma under (h : Derived w st c before after w') (hy : w.forest.Under y c) :
    w'.forest.Under y c := by
  induction hy using Relation.ReflTransGen.head_induction_on with
  | refl => exact .refl _ c
  | @head x y hxy hyc ih =>
    have hparent : w'.forest.parent x = some y := by
      rw [parent, h.node_eq x (lt_size_of_parent hxy) ((under_of_parent hxy).trans hyc)]
      exact hxy
    exact (under_of_parent hparent).trans ih

end Derived

lemma deriveRows_derived (hw : Whole w) (hchildren : w.forest.children st = before ++ c :: after) :
    Succeeds (deriveRows st c) w fun _ => Derived w st c before after := by
  have hf := hw.wellFormed
  have hparent (y : Nat) (hy : y ∈ before ++ c :: after) : w.forest.parent y = some st :=
    hf.parent_of_mem (hchildren ▸ hy)
  have hc := hparent c (by simp)
  have hnodup := hf.nodup_children st
  rw [hchildren] at hnodup
  have hcafter : c ∉ after := (nodup_cons.1 (nodup_append.1 hnodup).2.1).1
  apply ends_forest
  rw [hf.siblingsAfter_eq hchildren]
  cases hfind : after.find? fun y => (w.forest.childWithText y .otherKeyword "values").isSome with
  | some values =>
    obtain ⟨hvalues, first, last, hafter, hfirst⟩ := find?_eq_some_iff_append.1 hfind
    have hvparent := hparent values (by simp [hafter])
    simp only [hfind]
    refine (deriveFromValues_turned hw (lt_size_of_parent hvparent)).imp ?_
    intro _ w' h
    have hplace : w.forest.children st = (before ++ c :: first) ++ values :: last := by
      simp [hchildren, hafter]
    have hrows : derivedRows (after.map w.forest.subtree) = first.map w.forest.subtree ++
        derivedValues (w.forest.subtree values) :: last.map w.forest.subtree := by
      rw [derivedRows, hafter, map_append, map_cons, deriveFirst_append]
      · rfl
      · intro t ht
        obtain ⟨y, hy, rfl⟩ := mem_map.1 ht
        rw [← hf.isSome_childWithText]
        simpa using hfirst y hy
      · rwa [← hf.isSome_childWithText]
    have hexchanged := Exchanged.of_turned h hw hplace
    constructor
    · refine ⟨first ++ values :: last, ?_, ?_⟩
      · simp [hexchanged.children_eq]
      · rw [hrows]
        simpa using hexchanged.turned
    · intro y hy hyc
      refine h.grafted.node_eq y hy fun hyv => ?_
      exact hcafter (hafter ▸ hf.eq_of_under_of_parent hyc hyv hc hvparent ▸ by simp)
  | none =>
    simp only [hfind]
    refine (deriveFromQuery_rebuilt hw hchildren).imp ?_
    rintro - w' ⟨hnotes, h⟩
    have hgrafted := h.grafted hf (by simp [hchildren]; grind) (by simp [hchildren]; grind)
    have hviews (ids : List Nat) (hids : ids ⊆ w.forest.children st) :
        ids.map w'.forest.subtree = ids.map w.forest.subtree :=
      map_congr_left fun a ha => h.subtree_of_child hf (hids ha)
    have hrows : derivedRows (after.map w.forest.subtree) = [w'.forest.subtree w.forest.size] := by
      have htop : w'.forest.subtree w.forest.size = _ := h.subtree_new 0
      rw [derivedRows, deriveFirst_eq_none, htop]
      · simp [h.subtree_new, derivedQuery, group, hviews after (by simp [hchildren])]
        rfl
      · intro t ht
        obtain ⟨y, hy, rfl⟩ := mem_map.1 ht
        rw [← hf.isSome_childWithText]
        simpa using find?_eq_none.1 hfind y hy
    refine ⟨⟨[w.forest.size], ?_, ?_, hnotes⟩, fun y _ hyc => h.node_eq_of_kept hf hc (by simp) hyc⟩
    · simp [h.children_self]
    · rw [hrows, ← hviews (before ++ [c]) (by simp [hchildren])]
      simpa [withChildren] using hgrafted

end

end SqlDialect.TableVariable
