import SqlDialect.Proofs.Conversion.Move
import SqlDialect.Proofs.Conversion.Preorder
import SqlDialect.Proofs.SyntaxTree.Parts

/-!
# Walks that exchange children

While a walk is at a child, its visits may also change the list of children that the child is in:
take the child away, or put others in its place.  `Renews visit C tree trees` says that, wherever
`tree` is the view of a child of a node for which `C` holds, a walk from the child puts `trees` in
its place and does nothing else.  A visit may also change siblings that the walk has still to come
to: the brackets after the name of a function, say.  `Sweeps visit C n trees trees'` is the same for
some children of a node; these are swept together, and then the others as these have left them
(`Sweeps.append`).
-/

namespace SqlDialect.Conversion

open Forest List

variable {w w1 : Workspace} {id : Nat} {visit : NodeId → Conversion Visit}
  {C D : Workspace → Nat → Prop} {tree : SyntaxTree} {trees : List SyntaxTree}

/-- The node with other children. -/
def withChildren (f : Forest) (id : NodeId) (trees : List SyntaxTree) : SyntaxTree :=
  .node (f.tag id) (f.text id) (f.attributes id) trees

/-- The children between `before` and `after` have become `ids`, with the views `trees`. Nothing
else has changed that can be seen from outside of the node. -/
structure Exchanged (w : Workspace) (id : Nat) (before ids after : List Nat)
    (trees : List SyntaxTree) (w' : Workspace) : Prop where
  children_eq : w'.forest.children id = before ++ ids ++ after
  turned : Turned w id (withChildren w.forest id
    (before.map w.forest.subtree ++ trees ++ after.map w.forest.subtree)) w'

namespace Exchanged

variable {before ids after : List Nat}

lemma withChildren_eq (h : Exchanged w id before ids after trees w1) (trees' : List SyntaxTree) :
    withChildren w1.forest id trees' = withChildren w.forest id trees' := by
  obtain ⟨htag, htext, hattributes, -⟩ :=
    h.turned.grafted.wellFormed.of_subtree_eq h.turned.grafted.subtree_eq
  rw [withChildren, htag, htext, hattributes, withChildren]

/-- The views of the children. -/
lemma map_subtree (h : Exchanged w id before ids after trees w1) :
    before.map w1.forest.subtree = before.map w.forest.subtree ∧
      ids.map w1.forest.subtree = trees ∧
      after.map w1.forest.subtree = after.map w.forest.subtree := by
  have hviews := (h.turned.grafted.wellFormed.of_subtree_eq h.turned.grafted.subtree_eq).2.2.2
  rw [h.children_eq, map_append, map_append] at hviews
  obtain ⟨hfront, hafter⟩ := append_inj' hviews (by simp)
  obtain ⟨hbefore, hids⟩ := append_inj hfront (by simp)
  exact ⟨hbefore, hids, hafter⟩

lemma subtree_eq (h : Exchanged w id before ids after trees w1) {x : Nat}
    (hx : x ∈ before ++ after) : w1.forest.subtree x = w.forest.subtree x := by
  obtain ⟨hbefore, -, hafter⟩ := h.map_subtree
  refine map_inj_left.1 ?_ x hx
  rw [map_append, hbefore, hafter, map_append]

/-- A child with all below it has been rewritten. -/
lemma of_turned {c : Nat} (h : Turned w c tree w1) (hw : Whole w)
    (hchildren : w.forest.children id = before ++ c :: after) :
    Exchanged w id before [c] after [tree] w1 := by
  obtain ⟨hid, -, -, hup⟩ := h.up hw hchildren
  exact ⟨by simp [hid.children_eq, hchildren], by simpa [withChildren] using hup⟩

lemma trans {w2 : Workspace} {ids' : List Nat} {trees' : List SyntaxTree} (hw : Whole w)
    (h : Exchanged w id before ids after trees w1)
    (h' : Exchanged w1 id before ids' after trees' w2) :
    Exchanged w id before ids' after trees' w2 := by
  obtain ⟨hbefore, -, hafter⟩ := h.map_subtree
  have hturned := h'.turned
  rw [hbefore, hafter, h.withChildren_eq] at hturned
  exact ⟨h'.children_eq, h.turned.trans hw hturned⟩

/-- First the children in front, and then the others. -/
lemma append {w2 : Workspace} {last new : List Nat} {heads rest : List SyntaxTree} (hw : Whole w)
    (h : Exchanged w id before (new ++ last) after (heads ++ rest) w1)
    (hlength : new.length = heads.length)
    (h' : Exchanged w1 id (before ++ new) ids after trees w2) :
    Exchanged w id before (new ++ ids) after (heads ++ trees) w2 := by
  obtain ⟨hbefore, hids, hafter⟩ := h.map_subtree
  rw [map_append] at hids
  have hnew := (append_inj hids (by simpa using hlength)).1
  have hturned := h'.turned
  rw [h.withChildren_eq, map_append, hbefore, hnew, hafter] at hturned
  exact ⟨by simp [h'.children_eq], by simpa using h.turned.trans hw hturned⟩

/-- What happens in a part that has been taken away is not seen. -/
lemma of_detached {w2 : Workspace} {s : Nat} (h : Exchanged w id before ids after trees w1)
    (hid : id < w.forest.size) (hs : w1.forest.parent s = none) (hoff : ¬ w1.forest.Under id s)
    (hold : ∀ x < w.forest.size, w1.forest.Under x s → w.forest.Under x id)
    (h' : Turned w1 s tree w2) : Exchanged w id before ids after trees w2 := by
  have hf1 := h.turned.grafted.wellFormed
  have hsize := h.turned.grafted.size_le
  have hself := h'.grafted.node_eq id (hid.trans_le hsize) hoff
  have hview : w2.forest.subtree id = w1.forest.subtree id := by
    refine subtree_eq_of_sameContent hf1 h'.grafted.wellFormed rfl fun y hy => ?_
    have hlt : y < w1.forest.size := hy.lt_size (hid.trans_le hsize)
    refine sameContent_of_node_eq (h'.grafted.node_eq y hlt fun hys => ?_)
    obtain hids | hsid := hy.total hys
    · exact hoff hids
    · rw [under_iff_eq_of_parent_eq_none hs] at hsid
      exact hoff (hsid ▸ .refl _ s)
  refine ⟨?_, ⟨h'.grafted.wellFormed, hview.trans h.turned.grafted.subtree_eq,
    hsize.trans h'.grafted.size_le, ?_, fun x hx hnot => ?_⟩, h'.notes_eq.trans h.turned.notes_eq⟩
  · rw [← h.children_eq, children, hself, children]
  · rw [← h.turned.grafted.parent_eq, parent, hself, parent]
  · rw [h'.grafted.node_eq x (hx.trans_le hsize) fun hunder => hnot (hold x hx hunder),
      h.turned.grafted.node_eq x hx hnot]

/-- Only nodes under a child that is replaced have left their places. -/
lemma of_rearranged {c : Nat} {moved : List Nat} (h : Rearranged w.forest id moved w1.forest)
    (hw : Whole w) (hnotes : w1.notes = w.notes)
    (hchildren : w.forest.children id = before ++ c :: after)
    (hchildren1 : w1.forest.children id = before ++ ids ++ after)
    (hmoved : ∀ a ∈ moved, w.forest.Under a c)
    (hviews : ids.map w1.forest.subtree = trees) : Exchanged w id before ids after trees w1 := by
  have hf := hw.wellFormed
  have hc := hf.parent_of_split hchildren
  have hid := hf.parent_lt hc
  have hnodup := hf.nodup_children id
  rw [hchildren, nodup_middle, nodup_cons] at hnodup
  have hsame : ∀ x ∈ before ++ after, w1.forest.subtree x = w.forest.subtree x := by
    intro x hx
    refine h.subtree_of_sibling hf hc hmoved (hf.parent_of_mem ?_) fun heq => hnodup.1 (heq ▸ hx)
    rw [hchildren]
    simp only [mem_append, mem_cons] at hx ⊢
    tauto
  have hgraft := h.grafted hf hid fun a ha => (hmoved a ha).trans_below (below_of_parent hc)
  refine ⟨hchildren1, ⟨?_, hnotes⟩⟩
  rw [withChildren, ← h.tag_eq id hid, ← h.text_eq id hid, ← h.attributes_eq id hid, ← hviews,
    ← map_congr_left fun x hx => hsame x (mem_append_left _ hx),
    ← map_congr_left fun x hx => hsame x (mem_append_right _ hx), ← map_append,
    ← map_append, ← hchildren1, ← h.wellFormed.subtree_eq]
  exact hgraft

end Exchanged

/-- The children of a node have been put in another order. -/
lemma turned_of_rearranged {moved : List Nat} {w' : Workspace}
    (h : Rearranged w.forest id moved w'.forest)
    (hw : Whole w) (hid : id < w.forest.size) (hnotes : w'.notes = w.notes)
    (hmoved : ∀ a ∈ moved, w.forest.parent a = some id)
    (hchildren : ∀ x ∈ w'.forest.children id, w.forest.parent x = some id) :
    Turned w id (withChildren w.forest id ((w'.forest.children id).map w.forest.subtree)) w' := by
  have hf := hw.wellFormed
  have hsame (x : Nat) (hx : x ∈ w'.forest.children id) :
      w'.forest.subtree x = w.forest.subtree x := by
    have hx := hchildren x hx
    refine h.subtree_eq hf (lt_size_of_parent hx) (hf.not_under_of_child hx) fun a ha hbelow => ?_
    -- no child is below another one
    obtain ⟨q, hq, hunder⟩ := below_iff.1 hbelow
    rw [Option.some.inj (hq.symm.trans (hmoved a ha))] at hunder
    exact hf.not_under_of_child hx hunder
  refine ⟨?_, hnotes⟩
  rw [withChildren, ← map_congr_left hsame, ← h.tag_eq id hid, ← h.text_eq id hid,
    ← h.attributes_eq id hid, ← h.wellFormed.subtree_eq]
  exact h.grafted hf hid fun a ha => below_of_parent (hmoved a ha)

/-! ## Walks along children -/

/-- A walk along children of a node. -/
abbrev walkAlong (visit : NodeId → Conversion Visit) (limit : Nat) (ids : List NodeId) :
    Conversion Unit :=
  ids.foldlM (walkChild (fun id (_ : Unit) => return (← visit id, ())) limit) ()

/-- Wherever `trees` are the views of children of a node for which `C` holds, a walk along these
children, with a limit of at least `n`, puts `trees'` in their place. -/
def Sweeps (visit : NodeId → Conversion Visit) (C : Workspace → Nat → Prop) (n : Nat)
    (trees trees' : List SyntaxTree) : Prop :=
  ∀ (limit id : Nat) (before ids after : List Nat) (w : Workspace), n ≤ limit → Whole w → C w id →
    w.forest.children id = before ++ ids ++ after → ids.map w.forest.subtree = trees →
      Succeeds (walkAlong visit limit ids) w fun _ w' => ∃ ids',
      Exchanged w id before ids' after trees' w'

/-- A walk from a child with the view `tree` puts `trees` in its place. -/
abbrev Renews (visit : NodeId → Conversion Visit) (C : Workspace → Nat → Prop) (tree : SyntaxTree)
    (trees : List SyntaxTree) : Prop :=
  Sweeps visit C tree.size [tree] trees

/-- `C` is not lost when children are exchanged. -/
def Stable (C : Workspace → Nat → Prop) : Prop :=
  ∀ (w w' : Workspace) (id : Nat) (trees : List SyntaxTree), Whole w → C w id →
    Turned w id (withChildren w.forest id trees) w' → C w' id

lemma stable_true : Stable fun _ _ => True := fun _ _ _ _ _ _ _ => trivial

/-- The kind of a node is not lost. -/
lemma stable_tag (tag : Tag) : Stable fun w id => w.forest.tag id = tag := by
  intro w w' id trees _ htag h
  rw [← htag]
  exact (h.grafted.wellFormed.of_subtree_eq h.grafted.subtree_eq).1

/-- A walk from a node that its visit leaves alone goes on to the children. -/
lemma succeeds_walkFrom {limit : Nat} {Q : Unit → Workspace → Prop}
    (hvisit : Succeeds (visit id) w fun decision w' => decision = .descend ∧ w' = w)
    (h : Succeeds (walkAlong visit limit (w.forest.children id)) w Q) :
    Succeeds (walkFrom (fun id (_ : Unit) => return (← visit id, ())) (limit + 1) id ()) w Q := by
  rw [walkFrom_succ]
  apply ends_bind
  apply ends_bind
  refine hvisit.imp ?_
  rintro decision w' ⟨rfl, hsame⟩
  subst hsame
  exact ends_pure (ends_forest h)

/-- A walk from a node that has no children when it has been visited. -/
lemma walkFrom_leaf {limit : Nat} {Q : Workspace → Prop}
    (hvisit : Succeeds (visit id) w fun decision w' =>
      decision = .descend ∧ w'.forest.children id = [] ∧ Q w') :
    Succeeds (walkFrom (fun id (_ : Unit) => return (← visit id, ())) (limit + 1) id ()) w fun _ =>
      Q := by
  rw [walkFrom_succ]
  refine ends_bind (ends_bind (hvisit.imp ?_))
  rintro decision w' ⟨rfl, hchildren, hQ⟩
  refine ends_pure (ends_forest ?_)
  rw [hchildren]
  exact ends_pure hQ

section Matches

variable {tag : Tag} {word : String} {convertNode : NodeId → Conversion Unit}

/-- A node of another kind is left alone. -/
lemma matchVisit_idle {kind : Tag} {text : String}
    (h : (kind == tag && Text.sameWord text word) = false)
    (id : Nat) (w : Workspace) (htag : w.forest.tag id = kind) (htext : w.forest.text id = text) :
    Succeeds (matchVisit tag (some word) convertNode id) w
      fun decision w' => decision = .descend ∧ w' = w := by
  refine ends_forest (ends_ite (fun hfits => ?_) fun _ => ends_pure ⟨rfl, rfl⟩)
  rw [fits, is, Option.all_some, hasText, htag, htext, h] at hfits
  cases hfits

/-- A node without children that is of the kind. -/
lemma walkFrom_match {limit : Nat} {Q : Workspace → Prop}
    (hfits : w.forest.fits tag (some word) id = true)
    (h : Succeeds (convertNode id) w fun _ w' => w'.forest.children id = [] ∧ Q w') :
    Succeeds (walkFrom (visitMatch tag (some word) convertNode) (limit + 1) id ()) w fun _ => Q :=
  walkFrom_leaf (ends_forest (ends_ite
    (fun _ => ends_bind (h.imp fun _ _ h' => ends_pure ⟨rfl, h'⟩)) fun hnot => absurd hfits hnot))

end Matches

lemma walkAlong_cons {c limit : Nat} {ids : List Nat} {Q : Unit → Workspace → Prop}
    (hparent : w.forest.parent c = some id)
    (h : Succeeds (walkFrom (fun id (_ : Unit) => return (← visit id, ())) limit c ()) w fun _ w1 =>
      Succeeds (walkAlong visit limit ids) w1 Q) : Succeeds (walkAlong visit limit
        (c :: ids)) w Q := by
  rw [walkAlong, foldlM_cons]
  refine ends_bind (ends_forest (ends_ite (fun hnone => ?_) fun _ => h))
  rw [hparent] at hnone
  cases hnone

namespace Sweeps

variable {n : Nat} {rest rest' trees' : List SyntaxTree}

lemma nil : Sweeps visit C n [] [] := by
  intro limit id before ids after w _ hw _ hchildren hviews
  obtain rfl := map_eq_nil_iff.1 hviews
  refine ends_pure ⟨[], hchildren, ?_⟩
  have hview := hw.wellFormed.subtree_eq id
  rw [hchildren, append_nil, map_append] at hview
  rw [append_nil, withChildren, ← hview]
  exact .refl hw id

lemma mono {m : Nat} (h : Sweeps visit C n trees trees') (hD : ∀ w id, D w id → C w id)
    (hn : n ≤ m) : Sweeps visit D m trees trees' := fun limit id before ids after w hlimit hw hid =>
  h limit id before ids after w (hn.trans hlimit) hw (hD w id hid)

/-- The first of the children, which may change the others, and then the others. -/
lemma append {heads heads' : List SyntaxTree} (hC : Stable C) (hlength : rest.length = trees.length)
    (hheads : ∀ (limit id : Nat) (before first last after : List Nat) (w : Workspace), n ≤ limit →
      Whole w → C w id → w.forest.children id = before ++ (first ++ last) ++ after →
        first.map w.forest.subtree = heads → last.map w.forest.subtree = trees →
          Succeeds (walkAlong visit limit first) w fun _ w' => ∃ new,
            Exchanged w id before (new ++ last) after (heads' ++ rest) w')
    (hrest : Sweeps visit C n rest rest') :
      Sweeps visit C n (heads ++ trees) (heads' ++ rest') := by
  intro limit id before ids after w hlimit hw hid hchildren hviews
  obtain ⟨first, last, rfl, hfirst, hlast⟩ := map_eq_append_iff.1 hviews
  rw [walkAlong, foldlM_append]
  refine ends_bind
    ((hheads limit id before first last after w hlimit hw hid hchildren hfirst hlast).imp ?_)
  rintro - w1 ⟨new, h1⟩
  have hids := h1.map_subtree.2.1
  rw [map_append] at hids
  obtain ⟨hnew, hlast1⟩ := append_inj' hids (by simp [hlength, ← hlast])
  have hplace : w1.forest.children id = (before ++ new) ++ last ++ after := by simp [h1.children_eq]
  refine (hrest limit id _ last after w1 hlimit (h1.turned.whole hw) (hC w w1 id _ hw hid h1.turned)
    hplace hlast1).imp ?_
  rintro - w2 ⟨ids', h2⟩
  exact ⟨new ++ ids', h1.append hw (by simpa using congrArg length hnew) h2⟩

/-- Some of the children, and then others. -/
lemma concat (hC : Stable C) (h : Sweeps visit C n trees trees')
    (hrest : Sweeps visit C n rest rest') : Sweeps visit C n (trees ++ rest) (trees' ++ rest') := by
  refine append hC rfl ?_ hrest
  intro limit id before first last after w hlimit hw hid hchildren hfirst hlast
  have hplace : w.forest.children id = before ++ first ++ (last ++ after) := by simp [hchildren]
  refine (h limit id before first _ w hlimit hw hid hplace hfirst).imp ?_
  rintro - w1 ⟨ids, h1⟩
  exact ⟨ids, by simp [h1.children_eq], by simpa [hlast] using h1.turned⟩

lemma of_walkFrom
    (h : ∀ (limit id c : Nat) (before after : List Nat) (w : Workspace), n ≤ limit →
      Whole w → C w id → w.forest.children id = before ++ c :: after → w.forest.subtree c = tree →
        Succeeds (walkFrom (fun id (_ : Unit) => return (← visit id, ())) limit c ()) w fun _ w' =>
          ∃ ids, Exchanged w id before ids after trees w') : Sweeps visit C n [tree] trees := by
  intro limit id before ids after w hlimit hw hid hchildren hviews
  obtain ⟨c, rfl, hc⟩ := map_eq_singleton_iff.1 hviews
  have hplace : w.forest.children id = before ++ c :: after := by simp [hchildren]
  have hparent := hw.wellFormed.parent_of_split hplace
  exact walkAlong_cons hparent ((h limit id c before after w hlimit hw hid hplace hc).imp
    fun _ _ h1 => ends_pure h1)

lemma cons_walks {tree' : SyntaxTree} (h : Walks visit tree tree') (hn : tree'.size ≤ n)
    (hrest : Sweeps visit (fun _ _ => True) n rest rest') :
    Sweeps visit (fun _ _ => True) n (tree :: rest) (tree' :: rest') := by
  suffices hone : Sweeps visit (fun _ _ => True) n [tree] [tree'] from concat stable_true hone hrest
  refine of_walkFrom ?_
  intro limit id c before after w hlimit hw _ hchildren htree
  have hparent := hw.wellFormed.parent_of_split hchildren
  exact (h limit c w (by omega) hw (lt_size_of_parent hparent) htree).imp fun _ w1 h1 =>
    ⟨[c], .of_turned h1 hw hchildren⟩

lemma flatMap {f : SyntaxTree → List SyntaxTree} (hC : Stable C)
    (h : ∀ tree ∈ trees, Renews visit C tree (f tree)) (hn : SyntaxTree.sizeAll trees ≤ n) :
    Sweeps visit C n trees (trees.flatMap f) := by
  induction trees with
  | nil => exact nil
  | cons tree trees ih =>
    rw [SyntaxTree.sizeAll] at hn
    exact concat hC ((h tree (by simp)).mono (fun _ _ hC => hC) (by omega))
      (ih (fun tree hmem => h tree (by simp [hmem])) (by omega))

/-- A walk along all children of a node. -/
lemma children (h : Sweeps visit C n trees trees') {limit : Nat} (hw : Whole w) (hid : C w id)
    (hviews : (w.forest.children id).map w.forest.subtree = trees) (hlimit : n ≤ limit) :
    Succeeds (walkAlong visit limit (w.forest.children id)) w fun _ =>
      Turned w id (withChildren w.forest id trees') := by
  refine (h limit id [] _ [] w hlimit hw hid (by simp) hviews).imp ?_
  rintro - w1 ⟨ids, h1⟩
  simpa using h1.turned

/-- A node that the visit leaves alone is renewed if its children are swept. -/
lemma node {tag : Tag} {text : String} {attributes : Dict String} {m : Nat}
    (h : Sweeps visit C n trees trees') (hm : n < m)
    (hvisit : ∀ (id : Nat) (w : Workspace), w.forest.tag id = tag → w.forest.text id = text →
      Succeeds (visit id) w fun decision w' => decision = .descend ∧ w' = w)
    (hholds : ∀ (w : Workspace) (id c : Nat), D w id → w.forest.parent c = some id →
      w.forest.tag c = tag → C w c) :
    Sweeps visit D m [.node tag text attributes trees] [.node tag text attributes trees'] := by
  refine of_walkFrom fun limit id c before after w hlimit hw hid hchildren htree => ?_
  have hparent := hw.wellFormed.parent_of_split hchildren
  obtain ⟨htag, htext, hattributes, htrees⟩ := hw.wellFormed.of_subtree_eq htree
  obtain ⟨limit, rfl⟩ : ∃ n, limit = n + 1 := ⟨limit - 1, by omega⟩
  refine succeeds_walkFrom (hvisit c w htag htext)
    ((h.children hw (hholds w id c hid hparent htag) htrees (by omega)).imp ?_)
  intro _ w1 h1
  rw [withChildren, htag, htext, hattributes] at h1
  exact ⟨[c], .of_turned h1 hw hchildren⟩

/-- A walk of the whole tree sweeps the children of the root. -/
lemma walk {tag : Tag} {text : String} {attributes : Dict String}
    (h : Sweeps visit C w.forest.size trees trees') (hw : Whole w)
    (htree : w.forest.tree = .node tag text attributes trees) (hroot : C w root)
    (hvisit : Succeeds (visit root) w fun decision w' => decision = .descend ∧ w' = w) :
    Succeeds (walk root visit) w fun _ => Turned w root (.node tag text attributes trees') := by
  obtain ⟨htag, htext, hattributes, hviews⟩ := hw.wellFormed.of_subtree_eq htree
  have hlimit : w.forest.size + 1 ≤ walkLimit w.forest := le_walkLimit (by omega)
  obtain ⟨limit, hn⟩ : ∃ n, walkLimit w.forest = n + 1 := ⟨walkLimit w.forest - 1, by omega⟩
  apply ends_forest
  rw [hn]
  refine succeeds_walkFrom hvisit ((h.children hw hroot hviews (by omega)).imp fun _ w1 h1 => ?_)
  rwa [withChildren, htag, htext, hattributes] at h1

end Sweeps

lemma sizeAll_le_size {tag : Tag} {text : String} {attributes : Dict String} (hw : Whole w)
    (htree : w.forest.tree = .node tag text attributes trees) :
      SyntaxTree.sizeAll trees ≤ w.forest.size := by
  have hsize : w.forest.tree.size ≤ w.forest.size := hw.wellFormed.size_subtree_le hw.size_pos
  rw [htree, SyntaxTree.size] at hsize
  omega

/-- A walk makes of each tree of a list the one in its place. -/
abbrev WalksAll (visit : NodeId → Conversion Visit) : List SyntaxTree → List SyntaxTree → Prop :=
  List.Forall₂ (Walks visit)

lemma sweeps_of_walks {n : Nat} {trees' : List SyntaxTree}
    (h : WalksAll visit trees trees') (hn : SyntaxTree.sizeAll trees' ≤ n) :
    Sweeps visit (fun _ _ => True) n trees trees' := by
  induction h with
  | nil => exact .nil
  | cons hwalks _ ih =>
    rw [SyntaxTree.sizeAll] at hn
    exact .cons_walks hwalks (by omega) (ih (by omega))

/-- A walk rewrites the tree as its visit does, and then the children. -/
lemma Acts.walks {tag : Tag} {text : String} {attributes : Dict String} {trees' : List SyntaxTree}
    (hacts : Acts visit tree (.node tag text attributes trees))
    (hwalks : WalksAll visit trees trees') :
    Walks visit tree (.node tag text attributes trees') := by
  intro limit id w hlimit hw hid htree
  rw [SyntaxTree.size] at hlimit
  obtain ⟨limit, rfl⟩ : ∃ n, limit = n + 1 := ⟨limit - 1, by omega⟩
  rw [walkFrom_succ]
  refine ends_bind (ends_bind ((hacts id w hw hid htree).imp ?_))
  rintro decision w1 ⟨rfl, h1⟩
  refine ends_pure (ends_forest ?_)
  obtain ⟨htag, htext, hattributes, htrees⟩ :=
    h1.grafted.wellFormed.of_subtree_eq h1.grafted.subtree_eq
  refine ((sweeps_of_walks hwalks le_rfl).children (h1.whole hw) trivial htrees (by omega)).imp ?_
  intro _ w2 h2
  rw [withChildren, htag, htext, hattributes] at h2
  exact h1.trans hw h2

/-! ## Trees with nothing to visit -/

/-- A walk leaves trees alone in which there is nothing to visit. -/
lemma forall₂_walks_self {tags : List Tag} {trees : List SyntaxTree}
    (hidle : ∀ tree : SyntaxTree, tree.tag ∉ tags → Acts visit tree tree)
    (h : SyntaxTree.AvoidsAll tags trees) : WalksAll visit trees trees := by
  refine List.forall₂_same.2 fun tree htree => ?_
  have havoids := SyntaxTree.avoidsAll_iff.1 h tree htree
  clear htree
  induction tree using SyntaxTree.induction with
  | node tag text attributes children ih =>
    refine (hidle (.node tag text attributes children) havoids.1).walks
      (List.forall₂_same.2 fun child hchild => ?_)
    exact ih child hchild (SyntaxTree.avoidsAll_iff.1 havoids.2 child hchild)

/-- There is nothing to visit in a tree with `P`. -/
def Ignores (visit : NodeId → Conversion Visit) (P : SyntaxTree → Prop) : Prop :=
  ∀ tag text attributes trees, P (.node tag text attributes trees) → (∀ tree ∈ trees, P tree) ∧
    ∀ (id : Nat) (w : Workspace), w.forest.tag id = tag → w.forest.text id = text →
      Succeeds (visit id) w fun decision w' => decision = .descend ∧ w' = w

section

variable {P : SyntaxTree → Prop} {limit : Nat} {ids : List Nat}

lemma walkAlong_still (h : ∀ c ∈ ids, w.forest.parent c ≠ none → Succeeds
      (walkFrom (fun id (_ : Unit) => return (← visit id, ())) limit c ()) w fun _ w' => w' = w) :
    Succeeds (walkAlong visit limit ids) w fun _ w' => w' = w := by
  induction ids with
  | nil => exact ends_pure rfl
  | cons c ids ih =>
    have hrest := ih fun x hx => h x (.tail _ hx)
    refine ends_bind (ends_forest (ends_ite (fun _ => ends_pure hrest) fun hstays => ?_))
    refine (h c (.head _) fun hnone => hstays (by simp [hnone])).imp ?_
    rintro - w' rfl
    exact hrest

variable (hignores : Ignores visit P) (hf : w.forest.WellFormed)
include hignores hf

lemma walkFrom_idle (hP : P (w.forest.subtree id)) (hlimit : (w.forest.subtree id).size ≤ limit) :
    Succeeds (walkFrom (fun id (_ : Unit) => return (← visit id, ())) limit id ()) w
      fun _ w' => w' = w := by
  induction limit generalizing id with
  | zero => exact absurd hlimit (by have := one_le_size (w.forest.subtree id); omega)
  | succ limit ih =>
    rw [hf.subtree_eq] at hP hlimit
    obtain ⟨htrees, hvisit⟩ := hignores _ _ _ _ hP
    refine succeeds_walkFrom (hvisit id w rfl rfl) (walkAlong_still fun c hc _ => ?_)
    have hmem := mem_map_of_mem (f := w.forest.subtree) hc
    have hsize := SyntaxTree.size_le_sizeAll hmem
    rw [SyntaxTree.size] at hlimit
    exact ih (htrees _ hmem) (by omega)

/-- A walk does nothing to such trees, and does not come to nodes that have been taken away. -/
lemma walkAlong_idle (hids : ∀ c ∈ ids, w.forest.parent c = none ∨
      P (w.forest.subtree c) ∧ (w.forest.subtree c).size ≤ limit) :
    Succeeds (walkAlong visit limit ids) w fun _ w' => w' = w :=
  walkAlong_still fun c hc hstays =>
    have hc := (hids c hc).resolve_left hstays
    walkFrom_idle hignores hf hc.1 hc.2

end

end SqlDialect.Conversion
