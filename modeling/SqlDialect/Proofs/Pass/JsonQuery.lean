import SqlDialect.Pass.JsonQuery
import SqlDialect.Proofs.Conversion.Walk

/-!
# Queries for JSON keep the workspace sound

When columns with dotted aliases are regrouped, the nodes of all columns are detached and then
attached again, some of them inside new objects.  That no node is attached twice follows from a
count: a node stands no more often among the plain columns and the members of the objects than
among the columns to begin with.
-/

namespace SqlDialect.JsonQuery

open Conversion Forest List

variable {g g' f : Forest} {ids more : List Nat} {p select : Nat} {Q : PUnit → Workspace → Prop}
  {K : String → Prop} {P : Prop} {w : Workspace} {S : Nat → Prop}
  {E : ConversionError → Workspace → Prop}

/-! ## The nodes of a member -/

mutual

/-- The nodes in a member, in the order in which they are attached. -/
def Member.nodes : Member → List NodeId
  | .value nodes => nodes
  | .object members => memberNodes members

def memberNodes : List (String × Member) → List NodeId
  | [] => []
  | (_, member) :: rest => member.nodes ++ memberNodes rest

end

lemma count_alterMember_le {key : String} {change : Option Member → Member} {x : NodeId}
    {extra : Nat} (hnone : (change none).nodes.count x ≤ extra)
    (hsome : ∀ m, (change (some m)).nodes.count x ≤ extra + m.nodes.count x) :
    ∀ members, (memberNodes (alterMember key change members)).count x ≤
      extra + (memberNodes members).count x
  | [] => by simpa [alterMember, memberNodes] using hnone
  | (k, member) :: rest => by
    rw [alterMember]
    have hmember := hsome member
    have hrest : (memberNodes (alterMember key change rest)).count x ≤
        extra + (memberNodes rest).count x := count_alterMember_le hnone hsome rest
    split <;> simp only [memberNodes, count_append] <;> omega

/-- What is put under a path comes in once, and nothing else does. -/
lemma count_insertMember_le (value : List NodeId) (x : NodeId) :
    ∀ (path : List String) (members : List (String × Member)),
      (memberNodes (insertMember value path members)).count x ≤
        value.count x + (memberNodes members).count x
  | [], members => by rw [insertMember]; omega
  | [key], members => by
    rw [insertMember]
    exact count_alterMember_le (by rw [Member.nodes]) (fun m => by rw [Member.nodes]; omega) members
  | key :: next :: path, members => by
    rw [insertMember]
    have hnew := count_insertMember_le value x (next :: path) []
    refine count_alterMember_le ?_ (fun m => ?_) members
    · simpa [Member.nodes, memberNodes] using hnew
    · cases m with
      | value nodes =>
        simp only [Member.nodes, memberNodes, count_nil] at hnew ⊢
        omega
      | object inner =>
        simp only [Member.nodes]
        exact count_insertMember_le value x (next :: path) inner

/-- Each column is either plain or put into an object. -/
lemma nestColumns_ends {Q : List (List NodeId) × List (String × Member) → Workspace → Prop}
    (hw : w.Sound K) :
    ∀ {columns plain : List (List NodeId)} {nested : List (String × Member)},
      (∀ plain' nested', (∀ x, (plain'.flatten ++ memberNodes nested').count x ≤
        (plain.flatten ++ memberNodes nested ++ columns.flatten).count x) → Q (plain', nested') w) →
      Ends (nestColumns f columns plain nested) w Q (Halts K P)
  | [], plain, nested, hQ => ends_pure (hQ plain nested fun x => by simp)
  | column :: rest, plain, nested, hQ => by
    rw [nestColumns]
    split
    · refine nestColumns_ends hw fun plain' nested' hcount => hQ plain' nested' fun x => ?_
      have hx := hcount x
      simp only [flatten_append, flatten_cons, flatten_nil, append_nil,
        count_append] at hx ⊢
      omega
    · rename_i name _
      refine ends_ite (fun _ => ends_bind (ends_throw (halts_shape hw))) fun _ => ?_
      refine nestColumns_ends hw fun plain' nested' hcount => hQ plain' nested' fun x => ?_
      have hx := hcount x
      have hinsert := count_insertMember_le
        ((column.takeWhile (!f.isText · .otherKeyword "as")).filter (!f.isWhiteSpace ·)) x
        (separateText '.' (f.text name)) nested
      have hvalue := (filter_sublist.trans (takeWhile_sublist _) :
        ((column.takeWhile (!f.isText · .otherKeyword "as")).filter
          (!f.isWhiteSpace ·)).Sublist column).count_le x
      simp only [flatten_cons, count_append] at hx ⊢
      omega

/-! ## Regrouped columns -/

/-- Detached nodes that may be attached, each once. -/
structure Free (S : Nat → Prop) (f : Forest) (ids : List Nat) : Prop where
  movable : ∀ i ∈ ids, S i
  lt_size : ∀ i ∈ ids, i < f.size
  parent_eq : ∀ i ∈ ids, f.parent i = none
  nodup : ids.Nodup

lemma Free.left (h : Free S g (ids ++ more)) : Free S g ids where
  movable i hi := h.movable i (mem_append_left _ hi)
  lt_size i hi := h.lt_size i (mem_append_left _ hi)
  parent_eq i hi := h.parent_eq i (mem_append_left _ hi)
  nodup := h.nodup.of_append_left

/-- When some of the nodes have been attached, the others are still free. -/
lemma Free.right (h : Free S g (ids ++ more)) (hsince : Since (· ∈ ids) g g') : Free S g' more where
  movable i hi := h.movable i (mem_append_right _ hi)
  lt_size i hi := (h.lt_size i (mem_append_right _ hi)).trans_le hsince.size_le
  parent_eq i hi := by
    rw [hsince.parent_eq i (h.lt_size i (mem_append_right _ hi)) fun hin =>
      disjoint_of_nodup_append h.nodup hin hi]
    exact h.parent_eq i (mem_append_right _ hi)
  nodup := h.nodup.of_append_right

lemma Free.extend (h : Free S g ids) (hext : Extends g g') : Free S g' ids where
  movable := h.movable
  lt_size i hi := hext.lt_size (h.lt_size i hi)
  parent_eq i hi := hext.parent_eq_none (h.lt_size i hi) (h.parent_eq i hi)
  nodup := h.nodup

/-- Attaching free nodes leaves what is clear of them clear. -/
lemma Free.clear {w' : Workspace} (hfree : Free S w.forest ids)
    (h : At K S f w) (hsince : Since (· ∈ ids) w.forest w'.forest) (hclear : Clear S w.forest p) :
    Clear S w'.forest p :=
  (hsince.mono hfree.movable).clear h.wellFormed hclear

/-- The free nodes have been attached. -/
abbrev Attached (K : String → Prop) (S : Nat → Prop) (f : Forest) (w : Workspace) (ids : List Nat)
    (w' : Workspace) : Prop :=
  At K S f w' ∧ Since (· ∈ ids) w.forest w'.forest

lemma addFree_at (h : At K S f w) (hclear : Clear S w.forest p) (hfree : Free S w.forest ids) :
    Ends (ids.forM (addChild p)) w (fun _ => Attached K S f w ids) E :=
  addAll_at h hclear hfree.movable hfree.parent_eq hfree.nodup fun _ h' hadded =>
    ⟨h', hadded.size_eq.ge, fun _ _ hnot => hadded.parent_of_notMem hnot⟩

mutual

lemma appendMember_at : ∀ (member : Member) {parent : Nat} {w : Workspace}, At K S f w →
    Clear S w.forest parent → Free S w.forest member.nodes →
    Ends (appendMember parent member) w (fun _ => Attached K S f w member.nodes) E
  | .value nodes, parent, w, h, hclear, hfree => by
    rw [appendMember]
    exact addFree_at h hclear hfree
  | .object members, parent, w, h, hclear, hfree => by
    rw [appendMember]
    refine ends_bind (appendLeaf_at h hclear.lt_size fun w1 h1 hleaf => ?_)
    have hclear1 := hclear.extend hleaf h.wellFormed
    refine ends_bind (append_clear h1 hclear1 fun parens w2 h2 hclear2 hparens => ?_)
    have hext := hleaf.trans hparens.extends
    refine (appendMembers_at members h2 hclear2 (hfree.extend hext)).imp ?_
    exact fun _ w3 h3 => ⟨h3.1, ((Since.refl _ _).extend hext).trans h3.2⟩

lemma appendMembers_at : ∀ (members : List (String × Member)) {parens : Nat} {isFirst : Bool}
    {w : Workspace}, At K S f w → Clear S w.forest parens → Free S w.forest (memberNodes members) →
    Ends (appendMembers parens isFirst members) w (fun _ => Attached K S f w (memberNodes members))
      E
  | [], parens, isFirst, w, h, _, _ => by
    rw [appendMembers]
    exact ends_pure ⟨h, .refl _ _⟩
  | (key, member) :: rest, parens, isFirst, w, h, hclear, hfree => by
    rw [appendMembers]
    rw [memberNodes] at hfree ⊢
    refine ends_optional (R := fun w' => At K S f w' ∧ Extends w.forest w'.forest)
      (fun _ => appendLeaf_at h hclear.lt_size fun w1 h1 hext => ⟨h1, hext⟩)
      (fun _ => ⟨h, .refl _⟩) fun w1 ⟨h1, hcomma⟩ => ?_
    refine ends_bind (appendLeaves_at h1 (hcomma.lt_size hclear.lt_size) fun w2 h2 hkey => ?_)
    have hext := hcomma.trans hkey
    have hclear2 := hclear.extend hext h.wellFormed
    have hfree2 := hfree.extend hext
    refine ends_bind ((appendMember_at member h2 hclear2 hfree2.left).imp fun _ w3 ⟨h3, hsince⟩ =>
      ?_)
    refine (appendMembers_at rest h3 (hfree2.left.clear h2 hsince hclear2)
      (hfree2.right hsince)).imp ?_
    refine fun _ w4 ⟨h4, hsince4⟩ => ⟨h4, ?_⟩
    exact (((Since.refl _ _).extend hext).trans (hsince.mono fun x hx => by simp [hx])).trans
      (hsince4.mono fun x hx => by simp [hx])

end

lemma attachColumns_at : ∀ {columns : List (List NodeId)} {w : Workspace}, At K S f w →
    Clear S w.forest select → Free S w.forest columns.flatten →
    Ends (attachColumns select columns) w (fun _ => Attached K S f w columns.flatten) E
  | [], w, h, _, _ => ends_pure ⟨h, .refl _ _⟩
  | [column], w, h, hclear, hfree => by
    rw [flatten_singleton] at hfree ⊢
    exact addFree_at h hclear hfree
  | column :: next :: rest, w, h, hclear, hfree => by
    rw [attachColumns] <;> [skip; simp]
    rw [flatten_cons] at hfree ⊢
    refine ends_bind ((addFree_at h hclear hfree.left).imp fun _ w1 ⟨h1, hsince⟩ => ?_)
    have hclear1 := hfree.left.clear h hsince hclear
    refine ends_bind (appendLeaf_at h1 hclear1.lt_size fun w2 h2 hcomma => ?_)
    refine (attachColumns_at h2 (hclear1.extend hcomma h1.wellFormed)
      ((hfree.right hsince).extend hcomma)).imp fun _ w3 ⟨h3, hsince3⟩ => ⟨h3, ?_⟩
    exact ((hsince.mono fun x hx => by simp [hx]).extend hcomma).trans
      (hsince3.mono fun x hx => mem_append_right _ hx)

lemma appendObjects_at : ∀ {members : List (String × Member)} {isFirst : Bool}
    {w : Workspace}, At K S f w → Clear S w.forest select → Free S w.forest (memberNodes members) →
    Ends (appendObjects select isFirst members) w (fun _ => At K S f) E
  | [], isFirst, w, h, _, _ => by
    rw [appendObjects]
    exact ends_pure h
  | (key, member) :: rest, isFirst, w, h, hclear, hfree => by
    rw [appendObjects]
    rw [memberNodes] at hfree
    refine ends_optional (R := fun w' => At K S f w' ∧ Extends w.forest w'.forest)
      (fun _ => appendLeaf_at h hclear.lt_size fun w1 h1 hext => ⟨h1, hext⟩)
      (fun _ => ⟨h, .refl _⟩) fun w1 ⟨h1, hcomma⟩ => ?_
    have hclear1 := hclear.extend hcomma h.wellFormed
    have hfree1 := hfree.extend hcomma
    refine ends_bind ((appendMember_at member h1 hclear1 hfree1.left).imp fun _ w2 ⟨h2, hsince⟩ =>
      ?_)
    have hclear2 := hfree1.left.clear h1 hsince hclear1
    refine ends_bind (appendLeaves_at h2 hclear2.lt_size fun w3 h3 hname => ?_)
    exact appendObjects_at h3 (hclear2.extend hname h2.wellFormed)
      ((hfree1.right hsince).extend hname)

lemma regroupColumns_safe (hw : w.Sound K) (hselect : select < w.forest.size) :
    Safe K P (regroupColumns select) w := by
  have hf := hw.wellFormed
  refine ends_forest (ends_ite (fun _ => safe_pure hw) fun _ => ?_)
  refine ends_bind (nestColumns_ends hw fun plain nested hcount => ?_)
  have hothers : ∀ i ∈ (w.forest.children select).filter
      (some · != w.forest.childWithText select .otherKeyword "select"),
      w.forest.parent i = some select := fun i hi => hf.parent_of_mem (mem_of_mem_filter hi)
  refine ends_bind (detachAll_at (.of_children hw select) hothers fun w1 h1 hoff => ?_)
  have hclear := h1.clear (hf.clear_children hselect)
  -- A node that is attached again was in a column, and has been detached.
  have hmem : ∀ i ∈ plain.flatten ++ memberNodes nested,
    i ∈ (w.forest.selectColumns select).flatten :=
    fun i hi => by
      have hpos := count_pos_iff.2 hi
      have hle := hcount i
      simp only [flatten_nil, memberNodes, nil_append] at hle
      exact count_pos_iff.1 (hpos.trans_le hle)
  have hdetached : ∀ i ∈ plain.flatten ++ memberNodes nested, i ∈ (w.forest.children select).filter
      (some · != w.forest.childWithText select .otherKeyword "select") := fun i hi =>
    (flatten_selectColumns_sublist_filter w.forest select).subset (hmem i hi)
  have hfree : Free (w.forest.parent · = some select) w1.forest
      (plain.flatten ++ memberNodes nested) := by
    refine ⟨fun i hi => hothers i (hdetached i hi), fun i hi => ?_, fun i hi => ?_, ?_⟩
    · exact h1.lt_size_of (hothers i (hdetached i hi))
    · exact hoff.parent_of_mem (hdetached i hi)
    · rw [nodup_iff_count_le_one]
      intro x
      have hle := hcount x
      have hone := nodup_iff_count_le_one.1 (hf.nodup_flatten_selectColumns select) x
      simp only [flatten_nil, memberNodes, nil_append] at hle
      omega
  refine ends_bind ((attachColumns_at h1 hclear hfree.left).imp fun _ w2 ⟨h2, hsince⟩ =>
    ends_forest ?_)
  exact (appendObjects_at h2 (hfree.left.clear h1 hsince hclear) (hfree.right hsince)).imp
    (fun _ _ h3 => h3.next rfl)

/-! ## Queries -/

section Aggregates

variable {statement : Nat} {shape : Shape} {isAuto : Bool} {clauses : List NodeId}
  {semicolon : Option NodeId}

lemma warnOfAuto_at (h : At K S f w) (hselect : select < w.forest.size)
    (hQ : ∀ w', At K S f w' → Extends w.forest w'.forest → Q () w') :
    Ends (warnOfAuto select) w Q E :=
  ends_bind (appendLeaf_at h hselect fun _ h1 hext => warn_at h1 fun w2 h2 heq =>
    hQ w2 h2 (heq ▸ hext))

/-- The clauses and the semicolon are moved below new clauses of the statement. -/
lemma aggregateQuery_at {Q : NodeId → Workspace → Prop} (h : At K S f w)
    (hclear : Clear S w.forest statement) (hclauses : ∀ i ∈ clauses, S i)
    (hsemicolon : ∀ s : Nat, semicolon = some s → S s)
    (hnone : ∀ s : Nat, semicolon = some s → w.forest.parent s = none ∧ s ∉ clauses)
    (hQ : ∀ (query : Nat) w', At K S f w' → Q query w') :
    Ends (aggregateQuery statement shape isAuto clauses semicolon) w Q E := by
  refine ends_bind (append_at h hclear.lt_size fun select w1 h1 hselect => ?_)
  refine ends_bind (appendLeaves_at h1 hselect.lt_size fun w2 h2 hleaves => ?_)
  have hselect2 := hleaves.lt_size hselect.lt_size
  refine appendWithLeaf_at h2 hselect2 fun row w4 h4 hrow _ => ?_
  have hext4 := (hselect.extends.trans hleaves).trans hrow
  refine ends_optional (R := fun w' => At K S f w' ∧ Extends w4.forest w'.forest)
    (fun _ => warnOfAuto_at h4 (hrow.lt_size hselect2) fun w5 h5 hext => ⟨h5, hext⟩) (fun _ =>
      ⟨h4, .refl _⟩) fun w5 ⟨h5, hauto⟩ => ?_
  have hext5 := hext4.trans hauto
  have hclear5 := hclear.extend hext5 h.wellFormed
  refine appendWithLeaf_clear h5 hclear5 fun source w7 h7 hfrom hsource7 => ?_
  refine ends_bind (append_clear h7 hsource7 fun target w8 h8 htarget8 htarget => ?_)
  have hsource8 := hsource7.extend htarget.extends h7.wellFormed
  refine ends_bind (append_clear h8 htarget8 fun query w9 h9 hquery9 hquery => ?_)
  have hext9 := (hext5.trans hfrom).trans (htarget.extends.trans hquery.extends)
  refine ends_bind (moveAllTo_at h9 hquery9 hclauses fun w10 h10 hmoved => ?_)
  have htarget10 := (htarget8.extend hquery.extends h8.wellFormed).relinked hmoved hclauses
  have hsource10 := (hsource8.extend hquery.extends h8.wellFormed).relinked hmoved hclauses
  refine ends_bind (appendLeaf_at h10 htarget10.lt_size fun w11 h11 hrowName => ?_)
  refine ends_bind (putTerminator_at h11 (hsource10.extend hrowName h10.wellFormed) hsemicolon
    (fun s hs => ?_) fun w12 h12 _ => ends_pure (hQ query w12 h12))
  refine hrowName.parent_eq_none (h10.lt_size_of (hsemicolon s hs)) ?_
  rw [hmoved.parent_of_notMem (hnone s hs).2]
  exact hext9.parent_eq_none (h.lt_size_of (hsemicolon s hs)) (hnone s hs).1

lemma mem_children_of_mem_queryClauses {x : Nat} (h : x ∈ queryClauses f statement) :
    x ∈ f.children statement := by
  rw [queryClauses] at h
  split at h
  · cases h
  · rename_i first rest hchildren
    rw [hchildren]
    split at h
    · exact .tail _ h
    · exact h

end Aggregates

lemma convertQuery_safe (hw : w.Sound K) (keyword : Nat) : Safe K P (convertQuery keyword) w := by
  have hf := hw.wellFormed
  refine ends_forest ?_
  split <;> [rename_i shape isAuto _; exact safe_pure hw]
  refine ends_need hw fun forClause hforClause => ends_need hw fun statement hstatement => ?_
  have hclear := hf.clear_below (Under.refl _ statement) (hf.parent_lt hstatement)
  have hsemicolon : ∀ s : Nat, w.forest.terminator forClause = some s →
    w.forest.Below s forClause :=
    fun s hs => (hf.below_of_terminator hs).1
  have hbelow : ∀ s : Nat, w.forest.terminator forClause = some s → w.forest.Below s statement :=
    fun s hs => (hsemicolon s hs).tail hstatement
  refine ends_bind (takeTerminator_at (.of_below hw statement) hbelow fun w1 h1 hoff1 => ?_)
  have hstatement1 : w1.forest.parent forClause = some statement := by
    rw [hoff1.parent_of_notMem, hstatement]
    exact fun hmem => hf.acyclic forClause (hsemicolon forClause (Option.mem_toList.1 hmem))
  refine ends_bind (removeChild_at h1 (.inl (below_of_parent hstatement)) hstatement1
    fun w2 h2 hoff2 => ends_forest ?_)
  have hclauses : ∀ i ∈ queryClauses w2.forest statement, w2.forest.parent i = some statement :=
    fun i hi => h2.wellFormed.parent_of_mem (mem_children_of_mem_queryClauses hi)
  have hnone : ∀ s : Nat, w.forest.terminator forClause = some s → w2.forest.parent s = none :=
    fun s hs => by
      rw [hoff2.parent_eq]
      split
      · rfl
      · exact hoff1.parent_of_mem (by simp [hs])
  refine ends_bind (aggregateQuery_at h2 (h2.clear hclear) (fun i hi => ?_) hbelow
    (fun s hs => ⟨hnone s hs, fun hmem => ?_⟩) fun query w3 h3 => ?_)
  · exact below_of_parent (hoff1.parent_of_some (hoff2.parent_of_some (hclauses i hi)))
  · cases (hnone s hs).symm.trans (hclauses s hmem)
  · refine ends_forest (ends_need h3.sound fun inner hinner => ?_)
    have hlt := lt_size_of_parent (h3.wellFormed.parent_of_childContaining hinner)
    exact (regroupColumns_safe h3.sound hlt).imp (fun _ _ hnext => (h3.next rfl).trans hnext)

lemma convertQueries_safe (hw : w.Sound K) : Safe K P convertQueries w :=
  forEachMatch_safe hw fun keyword _ _ hw' _ => convertQuery_safe hw' keyword

end SqlDialect.JsonQuery
