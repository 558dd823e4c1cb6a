import Mathlib.Data.List.Find
import SqlDialect.Proofs.Forest.Lookup
import SqlDialect.Proofs.Forest.Sow

/-!
# Edits seen as changes of trees

The view of a node (`Forest.subtree`) forgets the numbers of nodes.  Lookups can be made on it as on
the forest: `SyntaxTree.path?` finds in the view of a node the view of what `Forest.path` finds
(`map_subtree_path`).

`Grafted f id tree g` says that the edits that lead from `f` to `g` have made `tree` of the view of
`id` and have left alone whatever is not under `id`.  An edit of a node below `id` is such a change
too: the view of `id` becomes what it was with the part at the path exchanged (`Grafted.path`).  So
a sequence of edits in different places can be followed on syntax trees alone.
-/

namespace SqlDialect

open List

variable {after before : List Nat} {kind : Tag}

/-! ## Lookups in trees -/

namespace SyntaxTree

/-- The first child of a kind. -/
def child? (tree : SyntaxTree) (tag : Tag) : Option SyntaxTree :=
  tree.children.find? (·.tag == tag)

/-- Follows the first child of each kind in turn. -/
def path? : SyntaxTree → List Tag → Option SyntaxTree
  | tree, [] => some tree
  | tree, tag :: tags => tree.child? tag >>= (path? · tags)

/-- One of the children is of the kind and has the text. -/
def hasWord (tag : Tag) (text : String) (tree : SyntaxTree) : Bool :=
  tree.children.any fun t => t.tag == tag && Text.sameWord t.text text

/-- The trees with the first one of a kind changed. -/
def changeFirst (tag : Tag) (change : SyntaxTree → SyntaxTree) : List SyntaxTree → List SyntaxTree
  | [] => []
  | tree :: rest =>
    if tree.tag == tag then change tree :: rest else tree :: changeFirst tag change rest

/-- The trees with another one in front of the first of a kind. -/
def insertFirst (tag : Tag) (new : SyntaxTree) : List SyntaxTree → List SyntaxTree
  | [] => []
  | tree :: rest => if tree.tag == tag then new :: tree :: rest else tree ::
    insertFirst tag new rest

/-- The tree with the part at the end of a path changed. -/
def changeAt (change : SyntaxTree → SyntaxTree) : List Tag → SyntaxTree → SyntaxTree
  | [], tree => change tree
  | tag :: tags, .node kind text attributes children =>
    .node kind text attributes (changeFirst tag (changeAt change tags) children)

end SyntaxTree

namespace Forest

variable {f g k : Forest} {id c x : Nat} {tag : Tag} {tags : List Tag} {tree : SyntaxTree}

@[simp] lemma tag_subtree (f : Forest) (id : Nat) : (f.subtree id).tag = f.tag id := by
  rw [subtree]
  cases f.size <;> rfl

lemma WellFormed.children_subtree (hf : f.WellFormed) (id : Nat) :
    (f.subtree id).children = (f.children id).map f.subtree := by
  rw [hf.subtree_eq]
  rfl

/-- The labels and the children of a node whose view is known. -/
lemma WellFormed.of_subtree_eq {text : String} {attributes : Dict String}
    {trees : List SyntaxTree} (hf : f.WellFormed)
    (h : f.subtree id = .node tag text attributes trees) :
    f.tag id = tag ∧ f.text id = text ∧ f.attributes id = attributes ∧
      (f.children id).map f.subtree = trees := by
  rwa [hf.subtree_eq, SyntaxTree.node.injEq] at h

lemma WellFormed.isText_eq {text : String} {attributes : Dict String} {trees : List SyntaxTree}
    (hf : f.WellFormed) (h : f.subtree id = .node tag text attributes trees) (word : String) :
    f.isText id tag word = Text.sameWord text word := by
  obtain ⟨htag, htext, -, -⟩ := hf.of_subtree_eq h
  rw [isText, is, hasText, htag, htext, beq_self_eq_true, Bool.true_and]

lemma is_eq (f : Forest) (id : Nat) (tag : Tag) : f.is id tag = ((f.subtree id).tag == tag) := by
  rw [is, tag_subtree]

lemma child_eq_find? (f : Forest) (id : Nat) (tag : Tag) :
    f.child id tag = (f.children id).find? (f.is · tag) := by
  rw [child, findChild]
  congr 1
  funext x
  simp [fits]

lemma WellFormed.map_subtree_child (hf : f.WellFormed) (id : Nat) (tag : Tag) :
    (f.child id tag).map f.subtree = (f.subtree id).child? tag := by
  rw [child_eq_find?, SyntaxTree.child?, hf.children_subtree, find?_map]
  congr 2
  funext x
  exact is_eq f x tag

lemma WellFormed.map_subtree_path (hf : f.WellFormed) :
    ∀ (tags : List Tag) (id : Nat), (f.path id tags).map f.subtree = (f.subtree id).path? tags
  | [], id => rfl
  | tag :: tags, id => by
    rw [path, SyntaxTree.path?, ← hf.map_subtree_child]
    cases f.child id tag with
    | none => rfl
    | some c => exact hf.map_subtree_path tags c

/-- What is found in the view is found in the forest. -/
lemma WellFormed.exists_path (hf : f.WellFormed) (h : (f.subtree id).path? tags = some tree) :
    ∃ x, f.path id tags = some x ∧ f.subtree x = tree := by
  rw [← hf.map_subtree_path] at h
  exact Option.map_eq_some_iff.1 h

lemma WellFormed.exists_child (hf : f.WellFormed) (h : (f.subtree id).child? tag = some tree) :
    ∃ x, f.child id tag = some x ∧ f.subtree x = tree := by
  rw [← hf.map_subtree_child] at h
  exact Option.map_eq_some_iff.1 h

lemma WellFormed.isSome_child (hf : f.WellFormed) (id : Nat) (tag : Tag) :
    (f.child id tag).isSome = ((f.subtree id).child? tag).isSome := by
  rw [← hf.map_subtree_child, Option.isSome_map]

lemma path_of_child (h : f.child id tag = some x) : f.path id [tag] = some x := by
  rw [path, h]
  rfl

lemma path_append (f : Forest) : ∀ (tags tags' : List Tag) (id : Nat),
    f.path id (tags ++ tags') = f.path id tags >>= (f.path · tags')
  | [], _, _ => rfl
  | tag :: tags, tags', id => by
    rw [cons_append, path, path, Option.bind_eq_bind, Option.bind_assoc]
    exact Option.bind_congr fun c _ => path_append f tags tags' c

/-! ## Forests that agree below a node -/

/-- A node holds the same in both forests, apart from its parent. -/
structure SameContent (f g : Forest) (x : Nat) : Prop where
  tag_eq : g.tag x = f.tag x
  text_eq : g.text x = f.text x
  attributes_eq : g.attributes x = f.attributes x
  children_eq : g.children x = f.children x

lemma sameContent_of_node_eq (h : g.node x = f.node x) : SameContent f g x := by
  constructor <;> simp only [Forest.tag, Forest.text, Forest.attributes, Forest.children, h]

mutual

/-- The view of a node depends on what is under it only. -/
lemma subtree_eq_of_sameContent (hf : f.WellFormed) (hg : g.WellFormed) :
    ∀ {tree : SyntaxTree} {id : Nat}, f.subtree id = tree →
      (∀ x, f.Under x id → SameContent f g x) → g.subtree id = tree
  | .node tag text attributes trees, id, htree, hsame => by
    obtain ⟨htag, htext, hattributes, hchildren⟩ := hf.of_subtree_eq htree
    have hid := hsame id (.refl f id)
    rw [hg.subtree_eq, hid.tag_eq, hid.text_eq, hid.attributes_eq, hid.children_eq, htag, htext,
      hattributes, map_subtree_eq_of_sameContent hf hg hchildren]
    intro c hc x hx
    exact hsame x (hx.trans (under_of_parent (hf.parent_of_mem hc)))

lemma map_subtree_eq_of_sameContent (hf : f.WellFormed) (hg : g.WellFormed) :
    ∀ {trees : List SyntaxTree} {ids : List Nat}, ids.map f.subtree = trees →
      (∀ id ∈ ids, ∀ x, f.Under x id → SameContent f g x) → ids.map g.subtree = trees
  | [], [], _, _ => rfl
  | tree :: trees, id :: ids, h, hsame => by
    obtain ⟨htree, htrees⟩ := List.cons.inj h
    rw [map_cons, subtree_eq_of_sameContent hf hg htree (hsame id mem_cons_self),
      map_subtree_eq_of_sameContent hf hg htrees fun c hc =>
        hsame c (.tail _ hc)]

end

/-- A node has the same children in both forests, with the same kinds and texts. -/
structure SameChildren (f g : Forest) (id : Nat) : Prop where
  children_eq : g.children id = f.children id
  label_eq : ∀ c ∈ f.children id, g.tag c = f.tag c ∧ g.text c = f.text c

lemma WellFormed.sameChildren (hf : f.WellFormed) (hsame : ∀ y, f.Under y id → SameContent f g y) :
    SameChildren f g id :=
  ⟨(hsame id (.refl f id)).children_eq, fun c hc =>
    have hc := hsame c (under_of_parent (hf.parent_of_mem hc))
    ⟨hc.tag_eq, hc.text_eq⟩⟩

namespace SameChildren

variable (h : SameChildren f g id)
include h

/-- Lookups find the same. -/
lemma findChild_eq (tag : Tag) (text : Option String) :
    g.findChild id tag text = f.findChild id tag text := by
  rw [findChild, findChild, h.children_eq]
  refine find?_congr fun c hc => ?_
  have htext : g.hasText c = f.hasText c := by
    funext words
    rw [hasText, hasText, (h.label_eq c hc).2]
  rw [fits, fits, is, is, (h.label_eq c hc).1, htext]

lemma child_eq (tag : Tag) : g.child id tag = f.child id tag := h.findChild_eq tag none

lemma routineAsBlock_eq (hid : g.tag id = f.tag id) :
    g.routineAsBlock id = f.routineAsBlock id := by
  have hkeyword : g.routineKeyword id = f.routineKeyword id := by
    rw [routineKeyword, h.children_eq, routineKeyword]
    refine find?_congr fun c hc => ?_
    have htext : g.hasText c = f.hasText c := by
      funext words
      rw [hasText, hasText, (h.label_eq c hc).2]
    rw [isKeyword, is, (h.label_eq c hc).1, htext, isKeyword, is]
  rw [routineAsBlock, is, hid, hkeyword, h.child_eq, routineAsBlock, is]

end SameChildren

lemma path_congr (hf : f.WellFormed) : ∀ (tags : List Tag) {id : Nat},
    (∀ y, f.Under y id → SameContent f g y) → g.path id tags = f.path id tags
  | [], _, _ => rfl
  | tag :: tags, id, hsame => by
    rw [path, path, (hf.sameChildren hsame).child_eq]
    refine Option.bind_congr fun c hc => path_congr hf tags fun y hy => hsame y ?_
    exact hy.trans (under_of_parent (hf.parent_of_child hc))

/-- Where the nodes under `top` hold the same as before, no others have come to be there. -/
lemma under_of_sameContent {top : Nat} (hf : f.WellFormed) (hg : g.WellFormed)
    (hsame : ∀ y, f.Under y top → SameContent f g y) (hx : g.Under x top) : f.Under x top := by
  induction hx using Relation.ReflTransGen.head_induction_on with
  | refl => exact .refl f top
  | @head a b hab _ hb =>
    have hmem : a ∈ f.children b := (hsame b hb).children_eq ▸ hg.mem_children_iff.2 hab
    exact (under_of_parent (hf.parent_of_mem hmem)).trans hb

/-! ## Grafts -/

/-- The view of a node has become `tree`, and nodes that are not under it are as they were. -/
structure Grafted (f : Forest) (id : Nat) (tree : SyntaxTree) (g : Forest) : Prop where
  wellFormed : g.WellFormed
  subtree_eq : g.subtree id = tree
  size_le : f.size ≤ g.size
  parent_eq : g.parent id = f.parent id
  node_eq : ∀ x : Nat, x < f.size → ¬ f.Under x id → g.node x = f.node x

namespace Grafted

lemma refl (hf : f.WellFormed) (id : Nat) : Grafted f id (f.subtree id) f where
  wellFormed := hf
  subtree_eq := rfl
  size_le := le_rfl
  parent_eq := rfl
  node_eq _ _ _ := rfl

section

variable (h : Grafted f id tree g)
include h

/-- Nothing that was there before has come under the node. -/
lemma under_of_under (hf : f.WellFormed) (hx : x < f.size)
    (hunder : g.Under x id) : f.Under x id := by
  induction hunder using Relation.ReflTransGen.head_induction_on with
  | refl => exact .refl f id
  | @head x y hxy _ ih =>
    by_contra hnot
    have hparent : f.parent x = some y := by rwa [parent, h.node_eq x hx hnot] at hxy
    exact hnot ((under_of_parent hparent).trans (ih (hf.parent_lt hparent)))

/-- Nothing has changed above the node. -/
lemma parent_above {z : Nat} (hf : f.WellFormed) (hz : f.Under id z) : g.parent z = f.parent z := by
  obtain rfl | hbelow := under_iff_eq_or_below.1 hz
  · exact h.parent_eq
  · rw [parent, h.node_eq z (hf.lt_size_of_under hbelow.under hbelow.lt_size)
      (hf.not_under_of_below hbelow), parent]

lemma under_self_iff (hf : f.WellFormed) : g.Under id x ↔ f.Under id x :=
  under_congr fun _ => h.parent_above hf

lemma trans {tree' : SyntaxTree} (hf : f.WellFormed)
    (h' : Grafted g id tree' k) : Grafted f id tree' k where
  wellFormed := h'.wellFormed
  subtree_eq := h'.subtree_eq
  size_le := h.size_le.trans h'.size_le
  parent_eq := h'.parent_eq.trans h.parent_eq
  node_eq x hx hnot := by
    rw [h'.node_eq x (hx.trans_le h.size_le) fun hunder => hnot (h.under_of_under hf hx hunder),
      h.node_eq x hx hnot]

end

section

variable (h : Grafted f c tree g) (hf : f.WellFormed)
include h hf

/-- The parent of the node still lists the same children, and holds the same otherwise. -/
lemma node_of_child (hparent : f.parent c = some id) : g.node id = f.node id :=
  h.node_eq id (hf.parent_lt hparent) (hf.not_under_of_child hparent)

/-- The views of siblings are as they were. -/
lemma subtree_of_sibling (hc : f.parent c = some id) (hx : f.parent x = some id) (hne : x ≠ c) :
    g.subtree x = f.subtree x := by
  refine subtree_eq_of_sameContent hf h.wellFormed rfl fun y hy => sameContent_of_node_eq ?_
  exact h.node_eq y (hy.lt_size (lt_size_of_parent hx)) fun hyc =>
    hne (hf.eq_of_under_of_parent hy hyc hx hc)

/-- Seen from the parent of the node, one of its children has changed. -/
lemma up (hchildren : f.children id = before ++ c :: after) :
    Grafted f id (.node (f.tag id) (f.text id) (f.attributes id)
      (before.map f.subtree ++ tree :: after.map f.subtree)) g := by
  have hparent : ∀ {x : Nat}, x ∈ before ++ c :: after → f.parent x = some id := fun hx =>
    hf.parent_of_mem (hchildren ▸ hx)
  have hc : f.parent c = some id := hparent (by simp)
  have hid := sameContent_of_node_eq (h.node_of_child hf hc)
  have hnodup : (before ++ c :: after).Nodup := hchildren ▸ hf.nodup_children id
  have hsibling : ∀ {ids : List Nat}, (∀ x ∈ ids, x ∈ before ++ c :: after ∧ x ≠ c) →
      ids.map g.subtree = ids.map f.subtree := fun hids => map_congr_left fun x hx =>
    h.subtree_of_sibling hf hc (hparent (hids x hx).1) (hids x hx).2
  refine ⟨h.wellFormed, ?_, h.size_le, ?_, fun x hx hnot => h.node_eq x hx fun hunder =>
    hnot (hunder.trans (under_of_parent hc))⟩
  · rw [h.wellFormed.subtree_eq, hid.tag_eq, hid.text_eq, hid.attributes_eq, hid.children_eq,
      hchildren, map_append, map_cons, h.subtree_eq, hsibling, hsibling]
    · exact fun x hx => ⟨by simp [hx], by grind⟩
    · exact fun x hx => ⟨by simp [hx], by grind⟩
  · rw [parent, h.node_of_child hf hc, parent]

end

end Grafted

lemma changeFirst_append {change : SyntaxTree → SyntaxTree} {before after : List SyntaxTree}
    (hbefore : ∀ t ∈ before, t.tag ≠ tag) (htree : tree.tag = tag) :
    SyntaxTree.changeFirst tag change (before ++ tree :: after) = before ++
      change tree :: after := by
  induction before with
  | nil => simp [SyntaxTree.changeFirst, htree]
  | cons t before ih =>
    have ht : t.tag ≠ tag := hbefore t (.head _)
    rw [cons_append, SyntaxTree.changeFirst, if_neg (by simpa using ht),
      ih fun t h => hbefore t (.tail _ h), cons_append]

/-- The place of the first child of a kind. -/
lemma exists_of_child (h : f.child id tag = some c) :
    ∃ before after, f.children id = before ++ c :: after ∧ (∀ x ∈ before, f.tag x ≠ tag) ∧
      f.tag c = tag := by
  rw [child_eq_find?, find?_eq_some_iff_append] at h
  obtain ⟨hc, before, after, hchildren, hbefore⟩ := h
  exact ⟨before, after, hchildren, fun x hx => by simpa [is] using hbefore x hx,
    by simpa [is] using hc⟩

lemma WellFormed.under_of_path (hf : f.WellFormed) (h : f.path id tags = some x) :
    f.Under x id := by
  cases tags with
  | nil =>
    obtain rfl : id = x := Option.some.inj h
    exact .refl f id
  | cons tag tags => exact (hf.below_of_path h).under

namespace Grafted

/-- Seen from further up, the part at the path to the node has changed. -/
lemma path (h : Grafted f x tree g) (hf : f.WellFormed) : ∀ {tags : List Tag} {id : Nat},
    f.path id tags = some x →
      Grafted f id (SyntaxTree.changeAt (fun _ => tree) tags (f.subtree id)) g
  | [], id, hpath => by
    obtain rfl : id = x := Option.some.inj hpath
    exact h
  | tag :: tags, id, hpath => by
    rw [Forest.path, Option.bind_eq_bind, Option.bind_eq_some_iff] at hpath
    obtain ⟨c, hc, hpath⟩ := hpath
    obtain ⟨before, after, hchildren, hbefore, htag⟩ := exists_of_child hc
    have hup := (h.path hf hpath).up hf hchildren
    rw [hf.subtree_eq id, SyntaxTree.changeAt, hchildren, map_append, map_cons,
      changeFirst_append (by simpa using hbefore) (by simpa using htag)]
    exact hup

/-- The node is still at the end of the path, if it is of the same kind. -/
lemma path_eq (h : Grafted f x tree g) (hf : f.WellFormed) (htag : tree.tag = f.tag x) :
    ∀ {tags : List Tag} {id : Nat}, f.path id tags = some x → g.path id tags = some x
  | [], _, hpath => hpath
  | tag :: tags, id, hpath => by
    rw [Forest.path, Option.bind_eq_bind, Option.bind_eq_some_iff] at hpath
    obtain ⟨c, hc, hpath⟩ := hpath
    have hparent := hf.parent_of_child hc
    have hxc := hf.under_of_path hpath
    have hid : g.node id = f.node id := h.node_eq id (hf.parent_lt hparent) fun hunder =>
      hf.not_under_of_child hparent (hunder.trans hxc)
    have htags : ∀ y ∈ f.children id, g.tag y = f.tag y := by
      intro y hy
      have hy := hf.parent_of_mem hy
      by_cases hyx : f.Under y x
      · -- of the children of `id` only the first one on the path is under anything on it
        obtain rfl := hf.eq_of_under_of_parent (.refl f y) (hyx.trans hxc) hy hparent
        obtain rfl | hbelow := under_iff_eq_or_below.1 hxc
        · rw [← tag_subtree, h.subtree_eq, htag]
        · exact absurd (hyx.trans_below hbelow) (hf.acyclic y)
      · rw [Forest.tag, h.node_eq y (lt_size_of_parent hy) hyx, Forest.tag]
    have hchild : g.child id tag = some c := by
      rw [child_eq_find?, ← hc, child_eq_find?, children, hid]
      exact find?_congr fun y hy => by rw [is, htags y hy, is]
    rw [Forest.path, hchild]
    exact h.path_eq hf htag hpath

end Grafted

/-! ## Single edits as grafts -/

section

variable {text : String} {attributes : Dict String} {trees : List SyntaxTree}

/-- The view of a child is the same if everything below the node holds the same. -/
lemma map_subtree_children (hf : f.WellFormed) (hg : g.WellFormed)
    (htree : f.subtree id = .node tag text attributes trees)
    (hsame : ∀ x, f.Below x id → SameContent f g x) : (f.children id).map g.subtree = trees :=
  map_subtree_eq_of_sameContent hf hg (hf.of_subtree_eq htree).2.2.2 fun _ hc x hx =>
    hsame x (hx.trans_below (below_of_parent (hf.parent_of_mem hc)))

/-- What the node itself holds has changed, and no links. -/
lemma grafted_of_sameLinks (hf : f.WellFormed) (hlinks : SameLinks f g)
    (hother : ∀ x : Nat, x ≠ id → g.node x = f.node x)
    (htree : f.subtree id = .node tag text attributes trees) :
    Grafted f id (.node (g.tag id) (g.text id) (g.attributes id) trees) g := by
  have hg := hlinks.wellFormed hf
  have hchildren := map_subtree_children hf hg htree fun x hx =>
    sameContent_of_node_eq (hother x fun heq => hf.acyclic id (heq ▸ hx))
  refine ⟨hg, ?_, hlinks.size_eq.ge, hlinks.parent_eq id, fun x _ hnot => hother x ?_⟩
  · rw [hg.subtree_eq, hlinks.children_eq, hchildren]
  · rintro rfl
    exact hnot (.refl f x)

section

variable (hf : f.WellFormed) (hid : id < f.size)
  (htree : f.subtree id = .node tag text attributes trees)
include hf hid htree

lemma grafted_update {change : Node → Node} (hlinks : SameLinks f (f.update id change))
    {node : Node} (hnode : node = change { f.node id with tag, text, attributes }) :
    Grafted f id (.node node.tag node.text node.attributes trees) (f.update id change) := by
  have hgraft := grafted_of_sameLinks hf hlinks
    (fun x hne => by rw [node_update, if_neg fun h => hne h.1]) htree
  obtain ⟨htag, htext, hattributes, -⟩ := hf.of_subtree_eq htree
  rw [Forest.tag] at htag
  rw [Forest.text] at htext
  rw [Forest.attributes] at hattributes
  rw [← htag, ← htext, ← hattributes] at hnode
  rw [hnode]
  simpa only [Forest.tag, Forest.text, Forest.attributes, node_update, hid, and_self,
    if_true] using hgraft

lemma grafted_setText (words : String) :
    Grafted f id (.node tag words attributes trees) (f.setText id words) :=
  grafted_update hf hid htree (sameLinks_setText f id words) rfl

lemma grafted_setTag (kind : Tag) :
    Grafted f id (.node kind text attributes trees) (f.setTag id kind) :=
  grafted_update hf hid htree (sameLinks_setTag f id kind) rfl

/-- The label of a node is another one. -/
lemma grafted_relabel (kind : Tag) (words : String) :
    Grafted f id (.node kind words attributes trees) ((f.setTag id kind).setText id words) := by
  have hkind := grafted_setTag hf hid htree kind
  exact hkind.trans hf (grafted_setText hkind.wellFormed (hid.trans_le hkind.size_le)
    hkind.subtree_eq words)

lemma grafted_setAttribute (key value : String) :
    Grafted f id (.node tag text (attributes.insert key value) trees)
      (f.setAttribute id key value) :=
  grafted_update hf hid htree (sameLinks_setAttribute f id key value) rfl

end

lemma WellFormed.children_detach (hf : f.WellFormed)
    (hchildren : f.children id = before ++ c :: after) :
    (f.detach c).children id = before ++ after := by
  have hnodup := hf.nodup_children id
  rw [children, hf.node_detach, ← hf.erase_children]
  rw [hchildren] at hnodup ⊢
  rw [erase_append_right _ (by grind), erase_cons_head]

end

end Forest

namespace SyntaxTree

lemma insertFirst_append {tag : Tag} {new tree : SyntaxTree} {before after : List SyntaxTree}
    (hbefore : ∀ t ∈ before, t.tag ≠ tag) (htree : tree.tag = tag) :
    insertFirst tag new (before ++ tree :: after) = before ++ new :: tree :: after := by
  induction before with
  | nil => simp [insertFirst, htree]
  | cons t before ih =>
    rw [cons_append, insertFirst, if_neg (by simpa using hbefore t mem_cons_self),
      ih fun x hx => hbefore x (.tail _ hx), cons_append]

/-- Only the tree at the end of the path matters for a change there. -/
lemma changeAt_congr {change change' : SyntaxTree → SyntaxTree} {part : SyntaxTree} :
    ∀ {tags : List Tag} {tree : SyntaxTree}, tree.path? tags = some part →
      change part = change' part → changeAt change tags tree = changeAt change' tags tree
  | [], tree, hpath, h => by
    obtain rfl : tree = part := Option.some.inj hpath
    exact h
  | tag :: tags, .node kind text attributes children, hpath, h => by
    rw [path?, child?, Option.bind_eq_bind, Option.bind_eq_some_iff] at hpath
    obtain ⟨child, hchild, hpath⟩ := hpath
    obtain ⟨htag, before, after, hchildren, hbefore⟩ := find?_eq_some_iff_append.1 hchild
    have hbefore : ∀ t ∈ before, t.tag ≠ tag := fun t ht => by simpa using hbefore t ht
    have htag : child.tag = tag := by simpa using htag
    rw [SyntaxTree.children] at hchildren
    rw [changeAt, changeAt, hchildren, Forest.changeFirst_append hbefore htag,
      Forest.changeFirst_append hbefore htag, changeAt_congr hpath h]

end SyntaxTree

end SqlDialect
