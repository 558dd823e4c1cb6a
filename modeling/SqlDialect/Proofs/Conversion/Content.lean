import SqlDialect.Proofs.Conversion.Keeps
import SqlDialect.Proofs.Conversion.Rewrite

/-!
# What the nodes of a forest hold

The links to parents follow from the lists of children, so a forest is known from what its nodes
hold apart from their parents.  `Shows f n c` says that the forest has `n` nodes and that each holds
what `c` says of it.  A step changes the list of one node (`relist`) or a label (`retag`, `retext`);
a new node is one that gets a label.

The rules say what a step leaves if the links let it pass.  That they do is known from elsewhere
(`Does.succeeds`).
-/

namespace SqlDialect

open List

namespace Forest

variable {f g : Forest} {a n p x : Nat} {c : Nat → Node} {before after ids more : List Nat}

/-- What a node holds, apart from its parent. -/
def content (f : Forest) (id : Nat) : Node :=
  { f.node id with parent := none }

def relist (c : Nat → Node) (p : Nat) (ids : List Nat) (x : Nat) : Node :=
  { c x with children := if x = p then ids else (c x).children }

def retag (c : Nat → Node) (a : Nat) (tag : Tag) (x : Nat) : Node :=
  { c x with tag := if x = a then tag else (c x).tag }

def retext (c : Nat → Node) (a : Nat) (text : String) (x : Nat) : Node :=
  { c x with text := if x = a then text else (c x).text }

/-- The nodes are taken out of all lists. -/
def without (c : Nat → Node) (ids : List Nat) (x : Nat) : Node :=
  { c x with children := (c x).children.filter (· ∉ ids) }

/-- The node gets a new label. -/
def label (c : Nat → Node) (a : Nat) (tag : Tag) (text : String) : Nat → Node :=
  retag (retext c a text) a tag

/-- The nodes from `n` on get labels. -/
def labels (c : Nat → Node) (n : Nat) : List (Tag × String) → Nat → Node
  | [] => c
  | leaf :: leaves => labels (label c n leaf.1 leaf.2) (n + 1) leaves

lemma relist_self (h : (c p).children = ids) : relist c p ids = c := by
  funext x
  by_cases hx : x = p
  · subst hx
    simp [relist, ← h]
  · simp [relist, hx]

@[simp] lemma children_relist : (relist c p ids p).children = ids := if_pos rfl

@[simp] lemma relist_relist : relist (relist c p ids) p more = relist c p more := by
  funext x
  by_cases hx : x = p <;> simp [relist, hx]

lemma without_nil : without c [] = c := by
  funext x
  simp [without]

lemma without_without : without (without c ids) more = without c (ids ++ more) := by
  funext x
  simp [without, filter_filter, Bool.and_comm]

lemma without_relist :
    without (relist c p ids) more = relist (without c more) p (ids.filter (· ∉ more)) := by
  funext x
  by_cases hx : x = p <;> simp [without, relist, hx]

lemma children_labels (leaves : List (Tag × String)) :
    (labels c n leaves x).children = (c x).children := by
  induction leaves generalizing c n with
  | nil => rfl
  | cons leaf leaves ih => exact ih

lemma labels_of_lt (leaves : List (Tag × String)) (hx : x < n) : labels c n leaves x = c x := by
  induction leaves generalizing c n with
  | nil => rfl
  | cons leaf leaves ih =>
    rw [labels, ih (by omega)]
    simp [label, retag, retext, hx.ne]

/-- The nodes that get labels have nothing else. -/
lemma map_labels (leaves : List (Tag × String)) (hc : ∀ x, n ≤ x → c x = {}) :
    (range' n leaves.length).map (labels c n leaves) =
      leaves.map fun leaf => { tag := leaf.1, text := leaf.2 } := by
  induction leaves generalizing c n with
  | nil => rfl
  | cons leaf leaves ih =>
    have hlater (x : Nat) (hx : n + 1 ≤ x) : label c n leaf.1 leaf.2 x = {} := by
      have hne : x ≠ n := by omega
      simp [label, retag, retext, hne, hc x (by omega)]
    rw [length_cons, range'_succ, map_cons, map_cons, labels, labels_of_lt _ (Nat.lt_succ_self n),
      ih hlater]
    simp [label, retag, retext, hc n le_rfl]

/-- The first token after a node, white space and comments apart. -/
lemma WellFormed.nextSibling_eq (hf : f.WellFormed) (before after : List Nat)
    (hlist : f.children p = before ++ a :: after) :
      f.nextSibling a = after.find? (!f.isNoise ·) := by
  have hparent := hf.parent_of_split hlist
  have hnodup := hf.nodup_children p
  rw [hlist] at hnodup
  simp [nextSibling, nextSiblingWith, followingSibling, around, hparent, hlist,
    splitAround_eq_of_nodup hnodup, isNoise]

lemma eq_of_node_eq (hsize : g.size = f.size)
    (hnode : ∀ x : Nat, x < f.size → g.node x = f.node x) : g = f := by
  obtain ⟨nodes⟩ := f
  obtain ⟨nodes'⟩ := g
  congr 1
  refine Array.ext hsize fun x hx' hx => ?_
  have heq := hnode x hx
  rw [node, node, Array.getD_eq_getD_getElem?, Array.getD_eq_getD_getElem?,
    Array.getElem?_eq_getElem hx', Array.getElem?_eq_getElem hx] at heq
  exact heq

/-- With each of its nodes but `top`, the parent of the node is in `S`. -/
def IsCrown (f : Forest) (S : Nat → Prop) (top : Nat) : Prop :=
  ∀ y, S y → y = top ∨ ∃ p, f.parent y = some p ∧ S p

/-- Nothing of a crown is under a node that is below its top and not in it. -/
lemma IsCrown.not_under {S : Nat → Prop} {top y : Nat} (h : IsCrown f S top) (hf : f.WellFormed)
    (hx : f.Below x top) (hnot : ¬ S x) (hy : S y) : ¬ f.Under y x := by
  intro hunder
  induction hunder using Relation.ReflTransGen.head_induction_on with
  | refl => exact hnot hy
  | head hparent hunder ih =>
    obtain rfl | ⟨p, hp, hSp⟩ := h _ hy
    · exact hf.not_under_of_below hx (.head hparent hunder)
    · rw [Option.mem_unique hparent hp] at ih
      exact ih hSp

structure Shows (f : Forest) (n : Nat) (c : Nat → Node) : Prop where
  wellFormed : f.WellFormed
  size_eq : f.size = n
  content_eq : ∀ x, f.content x = c x

namespace Shows

lemma refl (hf : f.WellFormed) : Shows f f.size f.content :=
  ⟨hf, rfl, fun _ => rfl⟩

variable (h : Shows f n c)
include h

lemma tag (x : Nat) : f.tag x = (c x).tag := by rw [← h.content_eq]; rfl

lemma children (x : Nat) : f.children x = (c x).children := by rw [← h.content_eq]; rfl

lemma node_eq (x : Nat) :
    f.node x = { c x with parent := f.parent x } := by rw [← h.content_eq]; rfl

/-- The lists of children say what the parents are. -/
lemma parent_eq (hg : g.WellFormed) (hmem : ∀ p x, x ∈ (c p).children ↔ x ∈ g.children p)
    (x : Nat) : f.parent x = g.parent x := by
  ext p
  rw [← h.wellFormed.mem_children_iff, ← hg.mem_children_iff, h.children, hmem]

/-- A forest is known from what its nodes hold. -/
lemma unique (h' : Shows g n c) : g = f := by
  refine eq_of_node_eq (h'.size_eq.trans h.size_eq.symm) fun x _ => ?_
  rw [h.node_eq, h'.node_eq, h'.parent_eq h.wellFormed fun p x => by rw [h.children]]

lemma parent_of (hlist : (c p).children = before ++ a :: after) : f.parent a = some p :=
  h.wellFormed.parent_of_mem (by simp [h.children, hlist])

lemma lt_size (ha : a ∈ (c p).children) : a < n := by
  rw [← h.children] at ha
  exact h.size_eq ▸ lt_size_of_parent (h.wellFormed.parent_of_mem ha)

lemma subtree (x : Nat) : f.subtree x =
    .node (c x).tag (c x).text (c x).attributes ((c x).children.map f.subtree) := by
  rw [h.wellFormed.subtree_eq, ← h.content_eq]
  rfl

/-- The view of a node under which nothing is different. -/
lemma subtree_eq (hg : g.WellFormed) (hsame : ∀ y, g.Under y x → c y = g.content y) :
    f.subtree x = g.subtree x := by
  refine subtree_eq_of_sameContent hg h.wellFormed rfl fun y hy => ?_
  have hy := (h.content_eq y).trans (hsame y hy)
  exact ⟨(congrArg Node.tag hy :), (congrArg Node.text hy :), (congrArg Node.attributes hy :),
    (congrArg Node.children hy :)⟩

/-- The same if only nodes of a crown are different, and the node is below its top. -/
lemma subtree_of_isCrown {S : Nat → Prop} {top : Nat} (hg : g.WellFormed) (hS : IsCrown g S top)
    (hsame : ∀ y : Nat, y < g.size → ¬ S y → c y = g.content y) (hx : g.Below x top)
    (hnot : ¬ S x) : f.subtree x = g.subtree x :=
  h.subtree_eq hg fun y hy => hsame y (hy.lt_size hx.lt_size) fun hmem =>
    hS.not_under hg hx hnot hmem hy

/-- Nothing is different outside of `x`, and nothing has come there from outside. -/
lemma grafted (hg : g.WellFormed) (hx : x < g.size) (hsize : g.size ≤ n)
    (hsame : ∀ y : Nat, y < g.size → ¬ g.Under y x → c y = g.content y)
    (hin : ∀ q a : Nat, g.Under q x ∨ g.size ≤ q → a ∈ (c q).children → a < g.size → g.Below a x) :
    Grafted g x (f.subtree x) f := by
  have hparent {y : Nat} (hy : y < g.size) (hnot : ¬ g.Below y x) : f.parent y = g.parent y := by
    ext q
    rw [← h.wellFormed.mem_children_iff, ← hg.mem_children_iff, h.children]
    by_cases hq : g.Under q x ∨ g.size ≤ q
    · refine ⟨fun hmem => absurd (hin q y hq hmem hy) hnot, fun hmem => ?_⟩
      have hup := hg.parent_of_mem hmem
      obtain hq | hq := hq
      · exact absurd (.of_parent_under hup hq) hnot
      · exact absurd (hg.parent_lt hup) hq.not_gt
    · rw [not_or, not_le] at hq
      rw [hsame q hq.2 hq.1]
      rfl
  refine ⟨h.wellFormed, rfl, h.size_eq.symm ▸ hsize, hparent hx (hg.acyclic x), fun y hy hnot => ?_⟩
  rw [h.node_eq, hsame y hy hnot, hparent hy fun hbelow => hnot hbelow.under]
  rfl

lemma create (tag : Tag) (text : String) : Shows (f.create tag text).2 (n + 1)
    (label c n tag text) := by
  refine ⟨h.wellFormed.create tag text, by rw [size_create, h.size_eq], fun x => ?_⟩
  have hx := h.content_eq x
  have hsize := h.size_eq
  have hnode : (f.create tag text).2.node x = _ := node_push ..
  have hnew := node_of_size_le (f := f) le_rfl
  rw [content, hnode, label, retag, retext, ← hx, content]
  grind

/-- A node has been put among the children of `p`. -/
lemma place (arrange : List NodeId → List NodeId) (hp : p < n) (ha : a < n) (hne : a ≠ p)
    (hg : (f.place p a arrange).WellFormed) :
    Shows (f.place p a arrange) n (relist c p (arrange (c p).children)) := by
  refine ⟨hg, (size_place f p a arrange).trans h.size_eq, fun x => ?_⟩
  have hx := h.content_eq x
  have hlist := h.children p
  rw [content, node_place f arrange (h.size_eq ▸ hp) (h.size_eq ▸ ha) hne, relist, ← hx, content,
    ← hlist, Forest.children]
  grind

lemma inserted {mark : Nat} {arrange : List NodeId → List NodeId → List NodeId}
    (hlist : (c p).children = before ++ mark :: after) (ha : a < n) (hwf : g.WellFormed)
    (hg : f.insertAt p a mark arrange = .ok g) : Shows g n (relist c p (arrange before after)) := by
  have hp : p < n := h.size_eq ▸ h.wellFormed.parent_lt (h.parent_of hlist)
  obtain ⟨hnone, hoff⟩ := h.wellFormed.checkAttachable_eq_ok_iff.1 (insertAt_eq_ok hg).1
  rw [h.wellFormed.insertAt_eq_place hnone hoff ((h.children p).trans hlist)] at hg
  cases hg
  exact h.place _ hp ha (by rintro rfl; exact hoff (.refl _ a)) hwf

lemma erase_eq (hlist : (c p).children = before ++ a :: after) :
    (c p).children.erase a = before ++ after := by
  have hnodup := h.wellFormed.nodup_children p
  rw [h.children, hlist] at hnodup
  rw [hlist, erase_append_right _ (by grind), erase_cons_head]

lemma detach_without (a : Nat) : Shows (f.detach a) n (without c [a]) := by
  obtain ⟨hwf, hrelinked⟩ := h.wellFormed.detach a
  refine ⟨hwf, hrelinked.size_eq.trans h.size_eq, fun x => ?_⟩
  rw [content, h.wellFormed.node_detach, without, ← h.content_eq]
  rfl

/-- Nodes that are all in one list are taken out of that list. -/
lemma without_eq (hids : ∀ a ∈ ids, a ∈ (c p).children) :
    without c ids = relist c p ((c p).children.filter (· ∉ ids)) := by
  funext x
  rw [without, relist]
  split_ifs with hx
  · rw [hx]
  · have hself : (c x).children.filter (· ∉ ids) = (c x).children := by
      refine filter_eq_self.2 fun a ha => decide_eq_true fun hmem => hx ?_
      have hp := hids a hmem
      rw [← h.children] at ha hp
      exact Option.mem_unique (h.wellFormed.parent_of_mem ha) (h.wellFormed.parent_of_mem hp)
    rw [hself]

lemma without_of_list (hlist : (c p).children = before ++ a :: after) :
    without c [a] = relist c p (before ++ after) := by
  have herase := h.wellFormed.erase_children a p
  rw [h.without_eq (p := p) (by simp [hlist]), ← h.children, ← herase, h.children, h.erase_eq hlist]

lemma detach (hlist : (c p).children = before ++ a :: after) :
    Shows (f.detach a) n (relist c p (before ++ after)) :=
  h.without_of_list hlist ▸ h.detach_without a

end Shows

end Forest

open Forest

namespace Conversion

variable {α : Type} {K : String → Prop} {w : Workspace} {a mark n p q : Nat} {c : Nat → Node}
  {before after ids : List Nat} {tag : Tag} {text : String} {E : ConversionError → Workspace → Prop}

/-- If the step succeeds, `Q` holds afterwards, and if it fails, it is because of the links. -/
abbrev Does (step : Conversion α) (w : Workspace) (Q : α → Workspace → Prop) : Prop :=
  Ends step w Q fun e _ => ∃ cause, e = .link cause

/-- A step that does not fail because of the links does not fail at all. -/
lemma Does.succeeds {step : Conversion α} {Q : α → Workspace → Prop} (h : Does step w Q)
    (hsafe : Safe K False step w) : Succeeds step w Q :=
  ends_iff.2 ⟨(ends_iff.1 h).1, fun e w' he =>
    ((ends_iff.1 hsafe).2 e w' he).2 ((ends_iff.1 h).2 e w' he)⟩

/-- What a step does, and that it takes no notes. -/
lemma Does.noted {step : Conversion α} {Q : α → Workspace → Prop} (h : Does step w Q)
    [hnotes : Keeps SameNotes step] : Does step w fun a w' => w'.notes = w.notes ∧ Q a w' :=
  ends_iff.2 ⟨fun a w' he => ⟨(ends_iff.1 (hnotes.ends w)).1 a w' he, (ends_iff.1 h).1 a w' he⟩,
    (ends_iff.1 h).2⟩

lemma does_relink {change : Forest → Except LinkError Forest} {Q : PUnit → Workspace → Prop}
    (h : ∀ g, change w.forest = .ok g → Q () { w with forest := g }) :
      Does (relink change) w Q := by
  cases hchange : change w.forest with
  | ok g => exact ends_relink hchange (h g hchange)
  | error cause => exact ends_relink_error hchange ⟨cause, rfl⟩

section

variable (h : Shows w.forest n c)
include h

lemma setText_shows (ha : a < n) (text : String) :
    Ends (setText a text) w (fun _ w' => Shows w'.forest n (retext c a text)) E := by
  have hlinks := sameLinks_setText w.forest a text
  refine ends_edit ⟨hlinks.wellFormed h.wellFormed, hlinks.size_eq.trans h.size_eq, fun x => ?_⟩
  have hx := h.content_eq x
  have hsize := h.size_eq
  rw [content, Forest.setText, node_update, retext, ← hx, content]
  grind

lemma setTag_shows (ha : a < n) (tag : Tag) :
    Ends (setTag a tag) w (fun _ w' => Shows w'.forest n (retag c a tag)) E := by
  have hlinks := sameLinks_setTag w.forest a tag
  refine ends_edit ⟨hlinks.wellFormed h.wellFormed, hlinks.size_eq.trans h.size_eq, fun x => ?_⟩
  have hx := h.content_eq x
  have hsize := h.size_eq
  rw [content, Forest.setTag, node_update, retag, ← hx, content]
  grind

lemma create_shows (tag : Tag) (text : String) :
    Ends (create tag text) w (fun id w' => id = n ∧ Shows w'.forest (n + 1) (label c n tag text))
      E :=
  ends_grow ⟨h.size_eq, h.create tag text⟩

lemma append_shows (hlist : (c p).children = ids) (hp : p < n) :
    Ends (append p tag text) w (fun id w' => id = n ∧
      Shows w'.forest (n + 1) (relist (label c n tag text) p (ids ++ [n]))) E := by
  have hplaced := (h.create tag text).place (p := p) (· ++ [n]) (by omega)
    (Nat.lt_succ_self n) hp.ne' (h.size_eq ▸ h.wellFormed.append (h.size_eq ▸ hp) tag text)
  rw [← hlist]
  exact ends_grow ⟨h.size_eq, h.size_eq ▸ hplaced⟩

lemma removeChild_shows (before after : List Nat)
    (hlist : (c p).children = before ++ a :: after) :
    Does (removeChild p a) w fun _ w' => Shows w'.forest n (relist c p (before ++ after)) :=
  ends_relink (h.wellFormed.removeChild_eq (h.parent_of hlist)) (h.detach hlist)

lemma addChild_shows (hp : p < n) (ha : a < n) :
    Does (addChild p a) w fun _ w' =>
      Shows w'.forest n (relist c p ((c p).children ++ [a])) := by
  refine does_relink fun g hg => ?_
  have hwf := (h.wellFormed.addChild (h.size_eq ▸ hp) (h.size_eq ▸ ha) hg).1
  obtain ⟨hcheck, rfl⟩ := addChild_eq_ok hg
  have hoff := (h.wellFormed.checkAttachable_eq_ok_iff.1 hcheck).2
  exact h.place _ hp ha (by rintro rfl; exact hoff (.refl _ a)) hwf

lemma insertAfter_shows (before after : List Nat)
    (hlist : (c p).children = before ++ mark :: after) (ha : a < n) :
    Does (insertAfter p a mark) w fun _ w' =>
      Shows w'.forest n (relist c p (before ++ mark :: a :: after)) := by
  have hp := h.wellFormed.parent_lt (h.parent_of hlist)
  refine does_relink fun g hg => ?_
  have hshows := h.inserted hlist ha (h.wellFormed.insertAfter hp (h.size_eq ▸ ha) hg).1 hg
  exact hshows

lemma insertBefore_shows (before after : List Nat)
    (hlist : (c p).children = before ++ mark :: after) (ha : a < n) :
    Does (insertBefore p a mark) w fun _ w' =>
      Shows w'.forest n (relist c p (before ++ a :: mark :: after)) := by
  have hp := h.wellFormed.parent_lt (h.parent_of hlist)
  refine does_relink fun g hg => ?_
  have hshows := h.inserted hlist ha (h.wellFormed.insertBefore hp (h.size_eq ▸ ha) hg).1 hg
  exact hshows

lemma insertNewAfter_shows (before after : List Nat)
    (hlist : (c p).children = before ++ mark :: after) :
    Does (insertNewAfter p tag text mark) w fun id w' => id = n ∧
      Shows w'.forest (n + 1) (relist (label c n tag text) p (before ++ mark :: n :: after)) := by
  refine ends_bind ((create_shows h tag text).imp ?_)
  rintro _ w1 ⟨rfl, h1⟩
  refine ends_bind ((insertAfter_shows h1 before after hlist (by omega)).imp fun _ w2 h2 => ?_)
  exact ends_pure ⟨rfl, h2⟩

/-- A node comes, from wherever it is, to the end of the list of `p`. -/
lemma moveTo_last (hp : p < n) (ha : a < n) : Does (moveTo p a) w fun _ w' =>
    Shows w'.forest n (relist (without c [a]) p ((without c [a] p).children ++ [a])) :=
  ends_bind (ends_edit (addChild_shows (w := { w with forest := w.forest.detach a })
    (h.detach_without a) hp ha))

/-- A node comes from the list of `q` to the end of that of `p`. -/
lemma moveTo_shows (hlist : (c q).children = before ++ a :: after) (hp : p < n) (hne : p ≠ q) :
    Does (moveTo p a) w fun _ w' =>
      Shows w'.forest n (relist (relist c q (before ++ after)) p ((c p).children ++ [a])) := by
  have hlast := moveTo_last h hp (a := a) (h.lt_size (p := q) (by simp [hlist]))
  rw [h.without_of_list hlist] at hlast
  simpa [relist, hne] using hlast

end

/-- Nodes come, from wherever they are, to the end of the list of `p`. -/
lemma moveAllTo_shows (h : Shows w.forest n c) (hp : p < n) (hids : ids.Nodup)
    (hlt : ∀ a ∈ ids, a < n) : Does (moveAllTo p ids) w fun _ w' => Shows w'.forest n
      (relist (without c ids) p ((without c ids p).children ++ ids)) := by
  induction ids generalizing w c with
  | nil =>
    rw [relist_self (by simp), without_nil]
    exact ends_pure h
  | cons a rest ih =>
    obtain ⟨hfirst, hrest⟩ := nodup_cons.1 hids
    refine ends_bind ((moveTo_last h hp (hlt a (.head _))).imp fun _ w1 h1 => ?_)
    refine (ih h1 hrest fun b hb => hlt b (.tail _ hb)).imp fun _ w2 h2 => ?_
    have hlist : (without c [a] p).children.filter (· ∉ rest) =
        (without c (a :: rest) p).children := by
      change _ = (without c ([a] ++ rest) p).children
      rw [← without_without]
      rfl
    rw [without_relist, without_without, relist_relist, children_relist, filter_append,
      filter_cons_of_pos (by simpa using hfirst), hlist, append_assoc] at h2
    exact h2

end Conversion

end SqlDialect
