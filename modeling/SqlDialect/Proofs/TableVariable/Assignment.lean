import SqlDialect.Proofs.Pass.TableVariable
import SqlDialect.Proofs.TableVariable.ArrayInsert

/-!
# The assignment in place of an insert

The assignment is built in front of the statement of the insert, out of copies of the array and of
the rows (`appendRows_planted`).  Then the statement goes (`insertIntoArray_exchanged`).
-/

namespace SqlDialect.TableVariable

open Conversion Forest SyntaxTree List

variable {first last before after rows : List Nat} {k c container n st table : Nat}
  {w w' : Workspace}

/-! ## Its parts -/

/-- Appends the clause that makes an array of rows. -/
def aggregateRows (parens : NodeId) : Conversion Unit := do
  let aggregate ← append parens .clause ""
  appendLeaves aggregate [(.otherKeyword, "select"), (.functionKeyword, "array_agg")]
  let aggregateParens ← append aggregate .functionParens ""
  appendLeaf aggregateParens .otherNode rowAlias

/-- Fills the brackets with the array, and with the rows after the insert clause. -/
def concatRows (concat insertClause table : NodeId) : Conversion Unit := do
  appendCopy concat table
  appendLeaf concat .comma ","
  let parens ← append concat .expressionParens ""
  aggregateRows parens
  ((← forest).siblingsAfter insertClause).forM (appendCopy parens)

/-- Fills the clause of the assignment. -/
def assignRows (clause insertClause table : NodeId) : Conversion Unit := do
  appendCopy clause table
  appendLeaves clause [(.equalsSign, ":="), (.functionKeyword, "array_cat")]
  let concat ← append clause .functionParens ""
  concatRows concat insertClause table
  appendLeaf clause .semicolon ";"

lemma appendRows_eq (container statement insertClause table : NodeId) :
    appendRows container statement insertClause table = (do
      let assignment ← insertNewBefore container .statement "" statement
      let clause ← append assignment .clause ""
      assignRows clause insertClause table) := by
  simp only [appendRows, assignRows, concatRows, aggregateRows, bind_assoc]

lemma aggregateRows_built (h : Built w n (group .expressionParens []) w) :
    Succeeds (aggregateRows n) w fun _ => Built w n (group .expressionParens [aggregation]) := by
  refine h.build_last fun _ _ _ _ hclause => ends_bind (hclause.leaves.imp fun _ w1 h1 => ?_)
  exact h1.build_last fun _ _ _ _ hparens => hparens.leaf

/-- The rows are the nodes after the insert clause, and they and the array are apart from the node
that is filled. -/
structure Sources (f : Forest) (n st c table : Nat) (before rows : List Nat) (w : Workspace) :
    Prop where
  children_eq : w.forest.children st = before ++ c :: rows
  apart : Apart w.forest st n
  copyable : Copyable f n (table :: rows) w

namespace Sources

variable {f : Forest} {tree : SyntaxTree} {p : Nat}

lemma turned (h : Sources f n st c table before rows w) (hw : Whole w)
    (hturned : Turned w n tree w') : Sources f n st c table before rows w' where
  children_eq := by
    rw [Forest.children, hturned.grafted.node_eq st h.apart.lt_size h.apart.not_under]
    exact h.children_eq
  apart := h.apart.grafted hw.wellFormed hturned.grafted
  copyable := h.copyable.turned hw hturned

lemma of_parent (h : Sources f n st c table before rows w) (hp : w.forest.parent p = some n) :
    Sources f p st c table before rows w :=
  ⟨h.children_eq, h.apart.of_parent hp, h.copyable.of_parent hp⟩

end Sources

lemma concatRows_built {f : Forest} (hn : Built w n (group .functionParens []) w)
    (h : Sources f n st c table before rows w) :
    Succeeds (concatRows n c table) w fun _ => Built w n (group .functionParens [f.subtree table,
      .node .comma "," .empty [],
      group .expressionParens (aggregation :: rows.map f.subtree)]) := by
  refine ends_bind ((hn.copy table).imp fun _ w1 h1 => ?_)
  rw [(h.copyable table (.head _)).2] at h1
  refine ends_bind (h1.leaf.imp fun _ w2 h2 => h2.build_last fun parens w3 hparent h3 hleaf => ?_)
  have hsources := (h.turned hn.whole h3.toTurned).of_parent hparent
  refine ends_bind ((aggregateRows_built hleaf).imp fun _ w4 h4 => ends_forest ?_)
  rw [h4.whole.wellFormed.siblingsAfter_eq (hsources.turned hleaf.whole h4.toTurned).children_eq]
  exact forM_appendCopy_built h4 (hsources.copyable.mono (subset_cons_self table rows))

lemma assignRows_built {f : Forest} (hn : Built w n (group .clause []) w)
    (h : Sources f n st c table before rows w) :
    Succeeds (assignRows n c table) w fun _ => Built w n (group .clause [f.subtree table,
      .node .equalsSign ":=" .empty [], .node .functionKeyword "array_cat" .empty [],
      group .functionParens [f.subtree table, .node .comma "," .empty [],
        group .expressionParens (aggregation :: rows.map f.subtree)], semicolon]) := by
  refine ends_bind ((hn.copy table).imp fun _ w1 h1 => ?_)
  rw [(h.copyable table (.head _)).2] at h1
  refine ends_bind (h1.leaves.imp fun _ w2 h2 => ?_)
  refine h2.build (fun parens w3 hparent h3 hleaf => ?_) fun _ _ _ h3 => h3.leaf
  exact concatRows_built hleaf ((h.turned hn.whole h3.toTurned).of_parent hparent)

section

variable (hw : Whole w) (hplace : w.forest.children container = first ++ st :: last)
  (hchildren : w.forest.children st = before ++ c :: rows) (htable : w.forest.Under table c)
include hw hplace hchildren htable

/-- The assignment is in front of the statement, and nothing else is new. -/
lemma appendRows_planted :
    Succeeds (appendRows container st c table) w fun _ w' => w'.notes = w.notes ∧
      Planted w.forest container first (st :: last) w.forest.size
        (assignment (w.forest.subtree table) (rows.map w.forest.subtree)) w'.forest := by
  have hf := hw.wellFormed
  have hst := hf.parent_of_split hplace
  rw [appendRows_eq]
  refine ends_insertNewBefore hf hplace fun w1 hnotes1 h1 => ?_
  have hw1 := whole_of_planted hw h1 hnotes1
  -- nothing under the statement is above the place of the assignment
  have hapart (x : Nat) (hx : w.forest.Under x st) :
      Apart w1.forest x w.forest.size ∧ w1.forest.subtree x = w.forest.subtree x := by
    have hlt : x < w.forest.size := hx.lt_size (lt_size_of_parent hst)
    have hnot : ¬ w.forest.Under container x := fun hcontainer =>
      hf.not_under_of_child hst (hcontainer.trans hx)
    exact ⟨h1.apart hf hlt hnot, h1.subtree_of_not_under hf hlt hnot⟩
  have hunder (x : Nat) (hx : x ∈ w.forest.children st) : w.forest.Under x st :=
    under_of_parent (hf.parent_of_mem hx)
  have hsources : Sources w.forest w.forest.size st c table before rows w1 := by
    constructor
    · rw [h1.children_eq (lt_size_of_parent hst), if_neg (hf.parent_ne_self hst), hchildren]
    · exact (hapart st (.refl _ st)).1
    · intro x hx
      apply hapart
      obtain rfl | hx := mem_cons.1 hx
      · exact htable.trans (hunder c (by simp [hchildren]))
      · exact hunder x (by simp [hchildren, hx])
  have hassignment := Built.start hw1 (lt_size_of_parent h1.parent_new) h1.subtree_eq
  refine (hassignment.build_last fun clause w2 hclause h2 hleaf => assignRows_built hleaf
    ((hsources.turned hw1 h2.toTurned).of_parent hclause)).imp fun _ w3 h3 => ?_
  exact ⟨h3.notes_eq.trans hnotes1, h1.grafted hf h3.grafted⟩

/-- The assignment is put in the place of the statement. -/
lemma appendRows_exchanged :
    Succeeds (appendRows container st c table >>= fun _ => removeChild container st) w fun _ w' =>
      ∃ n, Exchanged w container first [n] last
        [assignment (w.forest.subtree table) (rows.map w.forest.subtree)] w' := by
  have hf := hw.wellFormed
  have hst := hf.parent_of_split hplace
  apply ends_bind
  refine (appendRows_planted hw hplace hchildren htable).imp ?_
  rintro - w1 ⟨hnotes1, h1⟩
  have hf1 := h1.wellFormed
  have hplace1 : w1.forest.children container = (first ++ [w.forest.size]) ++ st :: last := by
    rw [h1.children_eq (hf.parent_lt hst), if_pos rfl]
    simp
  have hnew :=
    hf1.parent_of_mem (show w.forest.size ∈ w1.forest.children container by simp [hplace1])
  obtain ⟨g, hok, h2, hchildren2, -⟩ := hf1.rearranged_removeChild hplace1
  refine ends_relink hok ?_
  have hrearranged := h1.rearranged.trans h2 (.inl rfl)
  refine ⟨w.forest.size, ?_⟩
  have hview : g.subtree w.forest.size = assignment (w.forest.subtree table)
      (rows.map w.forest.subtree) := by
    rw [← h1.subtree_eq]
    exact h2.subtree_of_sibling hf1 (hf1.parent_of_split hplace1) (by simp [Under.refl]) hnew
      (lt_size_of_parent hst).ne'
  refine .of_rearranged hrearranged hw hnotes1 hplace hchildren2 (by simp [Under.refl]) ?_
  rw [map_singleton, hview]

end

/-! ## The visit -/

/-- The clause `c` inserts into an array, and `k` is the keyword of the insert. -/
structure InsertAt (w : Workspace) (k c table st container : Nat) : Prop where
  clause : w.forest.closestAncestor k .clause = some c
  target : w.forest.child c .otherNode = some table
  isArray : w.notes.isArrayVariable (w.forest.text table) = true
  parent_clause : w.forest.parent c = some st
  parent_statement : w.forest.parent st = some container

/-- The clause stays where it is when the terminator is taken. -/
lemma InsertAt.mem_children (h : InsertAt w k c table st container) (hw : Whole w) :
    c ∈ (w.forest.withoutTerminator st).children st := by
  have hf := hw.wellFormed
  have hrearranged := hf.rearranged_withoutTerminator st st
  apply hrearranged.wellFormed.mem_children_iff.2
  rw [hrearranged.parent_eq c (lt_size_of_parent h.parent_clause), h.parent_clause]
  intro hmem
  have hsemicolon := (hf.below_of_terminator (Option.mem_toList.1 hmem)).2
  simp [tag_of_closestAncestor h.clause] at hsemicolon

/-- The assignment to the array takes the place of the statement. -/
lemma insertIntoArray_exchanged (hw : Whole w) (h : InsertAt w k c table st container)
    (hplace : w.forest.children container = first ++ st :: last)
    (hchildren : (w.forest.withoutTerminator st).children st = before ++ c :: after) :
    Succeeds (insertIntoArray k) w fun _ w' => ∃ n, Exchanged w container first [n] last
      [assignment ((w.forest.withoutTerminator st).subtree table)
        (derivedRows (after.map (w.forest.withoutTerminator st).subtree))] w' := by
  have hf := hw.wellFormed
  have hst := h.parent_statement
  refine ends_forest ?_
  simp only [h.clause, h.target]
  refine ends_notes ?_
  simp only [h.isArray]
  refine ends_need_some h.parent_clause (ends_need_some hst ?_)
  refine ends_bind (ends_discard (takeTerminator_ends ?_))
  have hturned : Turned w st (Terminator.unterminated (w.forest.subtree st))
      { w with forest := w.forest.withoutTerminator st } :=
    ⟨hf.grafted_withoutTerminator (lt_size_of_parent hst), rfl⟩
  have hw1 := hturned.whole hw
  have hc1 := hw1.wellFormed.parent_of_split hchildren
  have htable1 : (w.forest.withoutTerminator st).Under table c := by
    have htarget := h.target
    rw [← hf.child_withoutTerminator (by decide) c] at htarget
    exact under_of_parent (hw1.wellFormed.parent_of_child htarget)
  refine ends_bind ((deriveRows_derived hw1 hchildren).imp ?_)
  intro _ w2 h2
  obtain ⟨rows, hrows⟩ := h2.exchanged
  have hw2 := hrows.turned.whole hw1
  have hall := hturned.trans hw hrows.turned
  have hplace2 : w2.forest.children container = first ++ st :: last := by
    rw [Forest.children, hall.grafted.node_of_child hf hst]
    exact hplace
  have hchildren2 : w2.forest.children st = before ++ c :: rows := by simp [hrows.children_eq]
  refine (appendRows_exchanged hw2 hplace2 hchildren2 (h2.under htable1)).imp ?_
  rintro - w3 ⟨n, h3⟩
  rw [hrows.map_subtree.2.1, h2.subtree_eq hw1 (lt_size_of_parent hc1) htable1] at h3
  exact ⟨n, (Exchanged.of_turned hall hw hplace).trans hw h3⟩

/-! ## What is kept of the query -/

lemma tokens_sublist_derivedValues (t : SyntaxTree) :
    t.tokens.Sublist (derivedValues t).tokens := by
  obtain ⟨tag, text, attributes, rows⟩ := t
  rw [derivedValues, tokens, tokens]
  refine List.Sublist.append_left (List.IsInfix.sublist ?_) _
  refine ⟨[(.otherKeyword, "from")], [(.otherNode, rowAlias)], ?_⟩
  simp [group, keyword, tokens, tokensAll, Tag.isToken, Tag.isComment]

lemma tokens_assignment (array : SyntaxTree) (query : List SyntaxTree) :
    (assignment array query).tokens = array.tokens ++
      [(Tag.equalsSign, ":="), (Tag.functionKeyword, "array_cat")] ++ array.tokens ++
      [(Tag.comma, ","), (Tag.otherKeyword, "select"), (Tag.functionKeyword, "array_agg"),
        (Tag.otherNode, rowAlias)] ++ tokensAll query ++ [(Tag.semicolon, ";")] := by
  simp [assignment, asStatement, aggregation, group, keyword, semicolon, tokens,
    tokensAll, Tag.isToken, Tag.isComment]

lemma tokensAll_sublist_deriveFirst {rows derived : List SyntaxTree}
    (h : deriveFirst rows = some derived) : (tokensAll rows).Sublist (tokensAll derived) := by
  induction rows generalizing derived with
  | nil => cases h
  | cons t rows ih =>
    rw [deriveFirst] at h
    split at h
    · obtain rfl := Option.some.inj h
      exact (tokens_sublist_derivedValues t).append_right _
    · obtain ⟨derived, hrows, rfl⟩ := Option.map_eq_some_iff.1 h
      exact (ih hrows).append_left _

/-- The assignment has all tokens of the clauses that it is made of. -/
lemma tokensAll_sublist_assignment (array : SyntaxTree) (rows : List SyntaxTree) :
    (tokensAll rows).Sublist (assignment array (derivedRows rows)).tokens := by
  have hrows : (tokensAll rows).Sublist (tokensAll (derivedRows rows)) := by
    rw [derivedRows]
    cases h : deriveFirst rows with
    | some derived => exact tokensAll_sublist_deriveFirst h
    | none =>
      refine List.IsInfix.sublist ⟨[(.otherKeyword, "from")], [(.otherNode, rowAlias)], ?_⟩
      simp [derivedQuery, group, keyword, tokens, tokensAll, Tag.isToken, Tag.isComment]
  rw [tokens_assignment]
  exact (hrows.trans (sublist_append_right _ _)).trans (sublist_append_left _ _)

/-- At every insert into an array that the pass comes to, the statement gives way to an assignment,
and nothing else changes. The assignment is made of the array and of the clauses after the insert
clause, the terminator of the statement apart, and has all of their tokens in order; it has none of
the clauses before the insert clause. -/
theorem insertIntoArray_appends {w₀ w : Workspace} {k c table st container : Nat} (hw₀ : Whole w₀)
    (hmeets : MeetsMatch .otherKeyword (some "insert") insertIntoArray w₀ k w)
    (h : InsertAt w k c table st container) :
    ∃ first last before after n w',
      w.forest.children container = first ++ st :: last ∧
      (w.forest.withoutTerminator st).children st = before ++ c :: after ∧
      insertIntoArray k w = .ok () w' ∧
      Exchanged w container first [n] last
        [assignment ((w.forest.withoutTerminator st).subtree table)
        (derivedRows (after.map (w.forest.withoutTerminator st).subtree))] w' ∧
      (tokensAll (after.map (w.forest.withoutTerminator st).subtree)).Sublist
        (assignment ((w.forest.withoutTerminator st).subtree table)
          (derivedRows (after.map (w.forest.withoutTerminator st).subtree))).tokens := by
  have hw : Whole w := (hmeets.sound (P := True) hw₀ fun id w₁ hw₁ => insertIntoArray_safe hw₁ id).1
  obtain ⟨first, last, hplace⟩ :=
    List.append_of_mem (hw.wellFormed.mem_children_iff.2 h.parent_statement)
  obtain ⟨before, after, hchildren⟩ := List.append_of_mem (h.mem_children hw)
  obtain ⟨_, w', hrun, n, hexchanged⟩ := (insertIntoArray_exchanged hw h hplace hchildren).exists_ok
  exact ⟨first, last, before, after, n, w', hplace, hchildren, hrun, hexchanged,
    tokensAll_sublist_assignment _ _⟩

/-- Rows of a query with a name for a part of it are inserted into an array. -/
def insertQuery (named : List SyntaxTree) : SyntaxTree :=
  group .root [group .statement
    (named ++ [group .clause [keyword "insert", .node .otherNode "@ids" .empty []],
    group .clause [keyword "select", .node .otherNode "id" .empty []],
    group .clause [keyword "from", group .selectionTarget [.node .otherNode "x" .empty []],
    semicolon]])]

/-- A name for a query. -/
def namedQuery : SyntaxTree :=
  group .clause [group .cteWithClause [keyword "with", .node .otherNode "x" .empty [], keyword "as",
    group .expressionParens
      [group .clause [keyword "select", .node .numberValue "1" .empty [], keyword "as",
      .node .otherNode "id" .empty []]]]]

theorem insertIntoArray_appends_insertQuery :
    let w : Workspace := { forest := ofTree (insertQuery []), notes :=
      { arrayVariables := ["@ids"] } }
    Whole w ∧ MeetsMatch .otherKeyword (some "insert") insertIntoArray w 3 w ∧
      InsertAt w 3 2 4 1 0 ∧ ∃ w', insertIntoArray 3 w = .ok () w' := by
  intro w
  have hforest : Whole { forest := ofTree (insertQuery []) } := whole_ofTree _
  have hw : Whole w := by
    refine ⟨hforest.wellFormed, hforest.size_pos, hforest.root_parent, hforest.keys, ?_⟩
    exact ⟨hforest.notes.declarations, hforest.notes.tempTables⟩
  have hmeets : MeetsMatch .otherKeyword (some "insert") insertIntoArray w 3 w :=
    meetsMatch_of_leadsTo (show leadsTo w.forest _ _ 3 root [1, 2, 3] = true by decide +kernel)
      (by decide +kernel) (by decide +kernel)
  have hat : InsertAt w 3 2 4 1 0 := by
    constructor <;> decide +kernel
  obtain ⟨_, _, _, _, _, w', -, -, hrun, -⟩ := insertIntoArray_appends hw hmeets hat
  exact ⟨hw, hmeets, hat, w', hrun⟩

/-- The name goes, and the query that uses it stays. -/
theorem runPasses_insertQuery :
    ∃ w, runPasses [⟨"insert_into_arrays", insertIntoArrays⟩]
        { forest := ofTree (insertQuery [namedQuery]), notes := { arrayVariables := ["@ids"] } } =
          .ok w ∧
      (insertQuery [namedQuery]).render =
        "with x as (select 1 as id) insert @ids select id from x;" ∧
      w.forest.tree.render =
        "@ids := array_cat(@ids, (select array_agg(_t) from (select id from x) _t));" := by
  decide +kernel

end SqlDialect.TableVariable
