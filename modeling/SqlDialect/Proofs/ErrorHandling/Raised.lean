import SqlDialect.Proofs.ErrorHandling.Markers
import SqlDialect.Proofs.Pass.ErrorHandling

/-!
# Raised errors

`throw` keeps its second argument and `raiserror` its first.  All other arguments are taken out of
the clause, the token becomes `raise`, and the words of a raised error come around the message that
is left (`raiseException_raises`).  What is before the token, and what comes after the arguments,
stays as it is.

When the walk has been at the token, it comes to the arguments.  They are no longer there, or there
is nothing in them to convert (`Finishes.raise`).  So the errors of a tree can be converted one by
one (`Handled`).
-/

namespace SqlDialect

open Forest List

namespace ErrorHandling

open Conversion
open SyntaxTree (keyword leaf sizeAll sizeAll_append sizeAll_le_of_sublist size_group
  size_le_sizeAll)

variable {w : Workspace} {f : Forest} {clause parens token : Nat}
  {before after arguments gap message removed rest : List Nat}

/-- The nodes that are made for a raised error. -/
def raiseLeaves : List (Tag × String) :=
  [(.otherKeyword, "exception"), (.otherKeyword, "using"), (.otherNode, "errcode"),
    (.equalsSign, "="), (.string, errorCode)]

/-- The token raises an error with the message, wherever its nodes were. What is before the token in
its clause stays, and so does the `rest`. -/
def Raised (f : Forest) (clause token : Nat) (before message rest : List Nat) (g : Forest) : Prop :=
  Shows g (f.size + 5) (relist
    (labels (label (without f.content message) token .otherKeyword "raise") f.size raiseLeaves)
      clause
    (before ++ token :: f.size :: (message ++ range' (f.size + 1) 4 ++ rest)))

/-- What raises an error with a message. -/
def raising (attributes : Dict String) (message : List SyntaxTree) : List SyntaxTree :=
  .node .otherKeyword "raise" attributes [] :: .keyword "exception" :: (message ++
    [.keyword "using", .leaf .otherNode "errcode", .leaf .equalsSign "=", .leaf .string errorCode])

namespace Raised

variable {g : Forest} {q x : Nat}

/-- A node of the clause that is not in its new list has no parent. -/
lemma parent_eq_none (h : Raised f clause token before message rest g) (hf : f.WellFormed)
    (hq : f.parent q = some clause) (hnot : q ∉ before ++ token :: (message ++ rest)) :
    g.parent q = none := by
  refine Option.eq_none_iff_forall_ne_some.2 fun p hp => ?_
  have hmem : q ∈ (g.content p).children := h.wellFormed.mem_children_iff.2 hp
  rw [h.content_eq, relist, children_labels] at hmem
  have hlt := lt_size_of_parent hq
  by_cases hclause : p = clause
  · rw [if_pos hclause] at hmem
    grind
  · rw [if_neg hclause] at hmem
    exact hclause (Option.mem_unique (hf.parent_of_mem (mem_of_mem_filter hmem)) hq)

/-- The nodes that are made for the error. -/
lemma subtree_new (h : Raised f clause token before message rest g) (hclause : clause < f.size)
    (htoken : token < f.size) : (range' f.size 5).map g.subtree =
      raiseLeaves.map fun leaf => .leaf leaf.1 leaf.2 := by
  have hnew (n : Nat) (hn : f.size ≤ n) :
      label (without f.content message) token .otherKeyword "raise" n = {} := by
    have hne : n ≠ token := by omega
    simp [label, retag, retext, without, content, node_of_size_le hn, hne]
  have hnodes := map_labels raiseLeaves hnew
  have hview (n : Nat) (hn : n ∈ range' f.size 5) : g.subtree n =
      (fun node : Node => .node node.tag node.text node.attributes [])
        (labels (label (without f.content message) token .otherKeyword "raise")
          f.size raiseLeaves n) := by
    have hle := (mem_range'_1.1 hn).1
    have hne : n ≠ clause := by omega
    rw [h.subtree, relist, if_neg hne, children_labels, hnew n hle, map_nil]
  have htrees := congrArg (map fun node : Node =>
    SyntaxTree.node node.tag node.text node.attributes []) hnodes
  rw [map_map, map_map] at htrees
  exact (map_congr_left hview).trans htrees

/-- Only the clause, the token and the node with the message hold something else. -/
lemma content_eq {ids : List Nat} (hf : f.WellFormed)
    (hmessage : ∀ a ∈ message, f.parent a = some q)
    (hx : x < f.size) (hnot : x ∉ [clause, token, q]) :
    relist (labels (label (without f.content message) token .otherKeyword "raise")
      f.size raiseLeaves) clause ids x = f.content x := by
  simp only [mem_cons, not_mem_nil, or_false, not_or] at hnot
  have hself : (f.children x).filter (· ∉ message) = f.children x :=
    filter_eq_self.2 fun a ha => decide_eq_true fun hmem =>
      hnot.2.2 (Option.mem_unique (hf.parent_of_mem ha) (hmessage a hmem))
  rw [relist, if_neg hnot.1, labels_of_lt _ hx]
  simp only [label, retag, retext, if_neg hnot.2.1, without]
  exact congrArg (fun ids => { f.content x with children := ids }) hself

lemma subtree_clause (h : Raised f clause token before message rest g) (hf : f.WellFormed)
    (hparent : f.parent token = some clause) (hleaf : f.children token = [])
    (hviews : ∀ x ∈ before ++ message ++ rest, g.subtree x = f.subtree x) :
    g.subtree clause = withChildren f clause (before.map f.subtree ++
      (raising (f.attributes token) (message.map f.subtree) ++ rest.map f.subtree)) := by
  have hclause := hf.parent_lt hparent
  have htoken := lt_size_of_parent hparent
  have hne : clause ≠ token := fun heq => hf.parent_ne_self hparent heq.symm
  have hchildren : g.children clause = _ := (h.children clause).trans children_relist
  have hraise : g.subtree token = .node .otherKeyword "raise" (f.attributes token) [] := by
    have hnone : (f.content token).children = [] := hleaf
    rw [h.subtree]
    simp [relist, hne.symm, labels_of_lt raiseLeaves htoken, label, retag, retext, without, hnone]
    rfl
  have hlabel : relist (labels (label (without f.content message) token .otherKeyword "raise")
      f.size raiseLeaves) clause (g.children clause) clause =
        { f.content clause with children := g.children clause } := by
    simp [relist, labels_of_lt raiseLeaves hclause, label, retag, retext, without, hne]
  have htrees (ids : List Nat) (hids : ids ⊆ before ++ message ++ rest) :
      ids.map g.subtree = ids.map f.subtree :=
    map_congr_left fun x hx => hviews x (hids hx)
  have hnew := h.subtree_new hclause htoken
  rw [range'_succ, map_cons, raiseLeaves, map_cons] at hnew
  obtain ⟨hfirst, hlater⟩ := cons.inj hnew
  rw [h.subtree, ← hchildren, hlabel, hchildren, withChildren]
  simp only [map_append, map_cons, hraise, htrees before (by grind), htrees message (by grind),
    htrees rest (by grind), hfirst, hlater]
  simp [raising, keyword, leaf]
  exact ⟨rfl, rfl, rfl⟩

lemma exchanged {w' : Workspace} (h : Raised w.forest clause token before message rest w'.forest)
    (hw : Whole w) (hnotes : w'.notes = w.notes)
    (hlist : w.forest.children clause = before ++ token :: after) (hrest : rest ⊆ after)
    (hleaf : w.forest.children token = []) (hmessage : ∀ a ∈ message, w.forest.parent a = some q)
    (hq : q = clause ∨ w.forest.parent q = some clause ∧ q ∉ before ++ token :: (message ++ rest)) :
    (∀ x ∈ before ++ message ++ rest, w'.forest.subtree x = w.forest.subtree x) ∧
      Exchanged w clause before
      (token :: w.forest.size :: (message ++ range' (w.forest.size + 1) 4) ++ rest) []
      (raising (w.forest.attributes token) (message.map w.forest.subtree) ++
        rest.map w.forest.subtree) w' := by
  have hf := hw.wellFormed
  have hparent := hf.parent_of_split hlist
  have hchildren : w'.forest.children clause = _ := (h.children clause).trans children_relist
  have hnodup := h.wellFormed.nodup_children clause
  rw [hchildren] at hnodup
  have hnear : ∀ x ∈ [clause, token, q], x = clause ∨ w.forest.parent x = some clause := by
    simpa [hparent] using hq.imp_right And.left
  have hunder (x : Nat) (hx : x ∈ [clause, token, q]) : w.forest.Under x clause :=
    (hnear x hx).elim (fun heq => heq ▸ .refl _ _) under_of_parent
  have hcrown : IsCrown w.forest (· ∈ [clause, token, q]) clause := fun y hy =>
    (hnear y hy).imp_right fun hup => ⟨clause, hup, mem_cons_self⟩
  -- the nodes that stay or move are below the clause, and are none of the three
  have hkept : ∀ x ∈ before ++ message ++ rest, w.forest.Below x clause ∧
      x ∉ [clause, token, q] := by
    intro x hx
    have hbelow : w.forest.Below x clause := by
      obtain hx | hx : x ∈ w.forest.children clause ∨ x ∈ message := by
        rw [hlist]
        have := @hrest x
        grind
      · exact below_of_parent (hf.parent_of_mem hx)
      · exact .of_parent_under (hmessage x hx) (hunder q (by simp))
    have hself : x ≠ clause := fun heq => hf.acyclic _ (heq ▸ hbelow)
    grind
  have hviews : ∀ x ∈ before ++ message ++ rest, w'.forest.subtree x = w.forest.subtree x :=
    fun x hx =>
    h.subtree_of_isCrown hf hcrown (fun _ => content_eq hf hmessage) (hkept x hx).1 (hkept x hx).2
  have hview := h.subtree_clause hf hparent hleaf hviews
  refine ⟨hviews, by simp [hchildren], ⟨?_, hnotes⟩⟩
  rw [map_nil, append_nil, ← hview]
  refine h.grafted hf (hf.parent_lt hparent) (Nat.le_add_right _ 5)
    (fun y hy hnot => content_eq hf hmessage hy fun hmem => hnot (hunder y hmem))
      fun p a hp ha hlt => ?_
  rw [relist, children_labels] at ha
  by_cases hself : p = clause
  · rw [if_pos hself] at ha
    by_cases hmem : a = token
    · exact hmem ▸ below_of_parent hparent
    · exact (hkept a (by grind)).1
  · rw [if_neg hself] at ha
    have hup := hf.parent_of_mem (mem_of_mem_filter ha)
    exact .of_parent_under hup (hp.resolve_right (hf.parent_lt hup).not_ge)

end Raised

section

variable (hf : w.forest.WellFormed) (hlist : w.forest.children clause = before ++ token :: after)
include hf hlist

end

section

variable {Q : Unit → Workspace → Prop} {E : ConversionError → Workspace → Prop}

end

/-! ## Walks of clauses -/

/-- A walk along the last children of a node puts `trees'` in their place. -/
def Finishes (trees trees' : List SyntaxTree) : Prop :=
  ∀ (limit id : Nat) (before ids : List Nat) (w : Workspace), sizeAll trees' ≤ limit →
    Whole w → w.forest.children id = before ++ ids → ids.map w.forest.subtree = trees →
      Succeeds (walkAlong errorVisit limit ids) w fun _ w' => ∃ ids',
      Exchanged w id before ids' [] trees' w'

lemma calmAll_iff {trees : List SyntaxTree} : CalmAll trees ↔ ∀ tree ∈ trees, Calm tree := by
  induction trees with
  | nil => simp [CalmAll]
  | cons tree rest ih => simp [CalmAll, ih]

lemma ignores_calm : Ignores errorVisit Calm := fun tag text attributes trees h =>
  ⟨calmAll_iff.1 h.2, fun id w htag htext => errorVisit_idle (by rw [htag, htext]; exact h.1)⟩

namespace Finishes

variable {tag : Tag} {text : String} {attributes : Dict String} {tree tree' : SyntaxTree}
  {trees trees' heads others others' : List SyntaxTree} {limit id : Nat}
  {new skipped last : List Nat} {w1 : Workspace}

/-- A node whose children are converted to the last. -/
lemma walks (h : Finishes trees trees') (htoken : isErrorToken tag text = false) :
    Walks errorVisit (.node tag text attributes trees) (.node tag text attributes trees') := by
  intro limit id w hlimit hw _ htree
  obtain ⟨htag, htext, hattributes, hviews⟩ := hw.wellFormed.of_subtree_eq htree
  rw [SyntaxTree.size] at hlimit
  obtain ⟨limit, rfl⟩ : ∃ n, limit = n + 1 := ⟨limit - 1, by omega⟩
  refine succeeds_walkFrom (errorVisit_idle (by rwa [htag, htext]))
    ((h limit id [] _ w (by omega) hw rfl hviews).imp ?_)
  rintro - w1 ⟨ids, h1⟩
  simpa [withChildren, htag, htext, hattributes] using h1.turned

/-- The last children, when those in front have been exchanged. -/
lemma follow (h : Finishes others others') (hlimit : sizeAll others' ≤ limit) (hw : Whole w)
    (h1 : Exchanged w id before (new ++ last) [] (heads ++ others) w1)
    (hlength : new.length = heads.length) :
    Succeeds (walkAlong errorVisit limit last) w1 fun _ w' =>
      ∃ ids', Exchanged w id before ids' [] (heads ++ others') w' := by
  have hids := h1.map_subtree.2.1
  rw [map_append] at hids
  have hlast := (append_inj hids (by simpa using hlength)).2
  have hplace : w1.forest.children id = before ++ new ++ last := by simp [h1.children_eq]
  refine (h limit id _ last w1 hlimit (h1.turned.whole hw) hplace hlast).imp ?_
  rintro - w2 ⟨ids, h2⟩
  exact ⟨_, h1.append hw hlength h2⟩

lemma cons (h : Walks errorVisit tree tree') (hrest : Finishes others others') :
    Finishes (tree :: others) (tree' :: others') := by
  intro limit id before ids w hlimit hw hchildren hviews
  obtain ⟨c, last, rfl, hc, hlast⟩ := map_eq_cons_iff.1 hviews
  rw [sizeAll] at hlimit
  have hparent := hw.wellFormed.parent_of_split hchildren
  refine walkAlong_cons hparent
    ((h limit c w (by omega) hw (lt_size_of_parent hparent) hc).imp fun _ w1 h1 => ?_)
  have hone := Exchanged.of_turned h1 hw hchildren
  have hfront : Exchanged w id before ([c] ++ last) [] ([tree'] ++ others) w1 :=
    ⟨by simp [hone.children_eq], by simpa [hlast] using hone.turned⟩
  exact hrest.follow (by omega) hw hfront rfl

/-- The visit of a token settles what becomes of the nodes in front of the last. -/
lemma convert (hrest : Finishes others others') (hlimit : 1 + sizeAll others' ≤ limit)
    (hw : Whole w) (hchildren : w.forest.children id = before ++ token :: (skipped ++ last))
    (hlength : new.length = heads.length)
    (hvisit : Succeeds (convertToken token) w fun _ w1 => w1.forest.children token = [] ∧
      Exchanged w id before (new ++ last) [] (heads ++ others) w1 ∧ ∀ c ∈ skipped,
        w1.forest.parent c = none ∨ Calm (w1.forest.subtree c) ∧
        (w1.forest.subtree c).size ≤ limit) :
    Succeeds (walkAlong errorVisit limit (token :: (skipped ++ last))) w fun _ w' =>
      ∃ ids', Exchanged w id before ids' [] (heads ++ others') w' := by
  obtain ⟨limit, rfl⟩ : ∃ n, limit = n + 1 := ⟨limit - 1, by omega⟩
  refine walkAlong_cons (hw.wellFormed.parent_of_split hchildren)
    (walkFrom_leaf (ends_bind (hvisit.imp ?_)))
  rintro - w1 ⟨hleaf, h1, hskipped⟩
  refine ends_pure ⟨rfl, hleaf, ?_⟩
  rw [walkAlong, foldlM_append]
  refine ends_bind ((walkAlong_idle ignores_calm h1.turned.grafted.wellFormed hskipped).imp ?_)
  rintro - w1 rfl
  exact hrest.follow (by omega) hw h1 hlength

end Finishes

/-! ## The pass -/

/-- The trees without the white space at the two ends. -/
def trimmed (trees : List SyntaxTree) : List SyntaxTree :=
  ((trees.dropWhile (·.tag == .whiteSpace)).reverse.dropWhile (·.tag == .whiteSpace)).reverse

section

end

instance {id : NodeId} {tag : Tag} : Keeps SameNotes (setTag id tag) := ⟨fun _ => ends_edit rfl⟩

instance {id : NodeId} {text : String} : Keeps SameNotes (setText id text) :=
  ⟨fun _ => ends_edit rfl⟩

instance {message : List NodeId} : Keeps SameNotes (raiseException token message) :=
  .next fun _ => .next fun _ => .next fun _ => .next fun _ => .next fun _ => .bind

instance : Keeps SameNotes (convertThrow token) := .bind

instance : Keeps SameNotes (convertRaiserror token) := .bind

section

variable {id q limit : Nat} {skipped last : List Nat} {others' : List SyntaxTree}

end

section

variable {word : String} {attributes : Dict String} {parens : SyntaxTree}
  {noise arguments first second message others others' : List SyntaxTree}
    {more : List (List SyntaxTree)}

end

namespace Handled

variable {trees trees' : List SyntaxTree}

end Handled

end ErrorHandling

end SqlDialect
