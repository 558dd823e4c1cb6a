import SqlDialect.Proofs.Conversion.Build
import SqlDialect.Proofs.Conversion.Content

/-!
# Moves

`Rearranged f p ids g` says that the nodes `ids` are no longer where they were.  This is not seen
from outside of a node above them (`Rearranged.grafted_above`), and a node that neither loses nor
gets anything looks as before (`Rearranged.subtree_eq`).
-/

namespace SqlDialect

open List

namespace Forest

variable {f g k : Forest} {a c m p q top x : Nat} {after before ids ids' : List Nat}
    {tree : SyntaxTree}

lemma node_eq_of_fields (htag : g.tag x = f.tag x) (htext : g.text x = f.text x)
    (hattributes : g.attributes x = f.attributes x) (hparent : g.parent x = f.parent x)
    (hchildren : g.children x = f.children x) : g.node x = f.node x := by
  rw [Forest.tag, Forest.tag] at htag
  rw [Forest.text, Forest.text] at htext
  rw [Forest.attributes, Forest.attributes] at hattributes
  rw [parent, parent] at hparent
  rw [children, children] at hchildren
  cases hnode : g.node x
  cases hnode' : f.node x
  simp_all

/-! ## Nodes that have left their places -/

/-- All nodes that there were have their labels. -/
structure Labelled (f g : Forest) : Prop where
  wellFormed : g.WellFormed
  size_le : f.size ≤ g.size
  tag_eq : ∀ x : Nat, x < f.size → g.tag x = f.tag x
  text_eq : ∀ x : Nat, x < f.size → g.text x = f.text x
  attributes_eq : ∀ x : Nat, x < f.size → g.attributes x = f.attributes x

lemma Labelled.refl (hf : f.WellFormed) : Labelled f f :=
  ⟨hf, le_rfl, fun _ _ => rfl, fun _ _ => rfl, fun _ _ => rfl⟩

lemma Labelled.trans (h : Labelled f g) (h' : Labelled g k) : Labelled f k where
  wellFormed := h'.wellFormed
  size_le := h.size_le.trans h'.size_le
  tag_eq x hx := (h'.tag_eq x (hx.trans_le h.size_le)).trans (h.tag_eq x hx)
  text_eq x hx := (h'.text_eq x (hx.trans_le h.size_le)).trans (h.text_eq x hx)
  attributes_eq x hx :=
    (h'.attributes_eq x (hx.trans_le h.size_le)).trans (h.attributes_eq x hx)

lemma Relinked.labelled {v : Option Nat} (h : Relinked f g ids v) (hg : g.WellFormed) :
    Labelled f g :=
  ⟨hg, h.size_eq.ge, fun x _ => h.tag_eq x, fun x _ => h.text_eq x, fun x _ => h.attributes_eq x⟩

/-- The nodes `ids` are no longer where they were, and the children of `p` may be others. All other
nodes that there were are the same apart from that. -/
structure Rearranged (f : Forest) (p : Nat) (ids : List Nat) (g : Forest) :
    Prop extends Labelled f g where
  parent_eq : ∀ x : Nat, x < f.size → x ∉ ids → g.parent x = f.parent x
  children_eq : ∀ x : Nat, x < f.size → x ≠ p → g.children x = (f.children x).filter (· ∉ ids)

namespace Rearranged

lemma refl (hf : f.WellFormed) (p : Nat) : Rearranged f p [] f where
  toLabelled := .refl hf
  parent_eq _ _ _ := rfl
  children_eq _ _ _ := by simp

section

variable (h : Rearranged f p ids g)
include h

lemma trans (h' : Rearranged g q ids' k) (hq : q = p ∨ f.size ≤ q) :
    Rearranged f p (ids ++ ids') k where
  toLabelled := h.toLabelled.trans h'.toLabelled
  parent_eq x hx hnot := by
    rw [mem_append, not_or] at hnot
    exact (h'.parent_eq x (hx.trans_le h.size_le) hnot.2).trans (h.parent_eq x hx hnot.1)
  children_eq x hx hne := by
    have hneq : x ≠ q := by omega
    rw [h'.children_eq x (hx.trans_le h.size_le) hneq, h.children_eq x hx hne, filter_filter]
    refine filter_congr fun a _ => ?_
    rw [Bool.eq_iff_iff]
    simp [and_comm]

/-- What is above a node that has not been moved is the same. -/
lemma under_iff (hf : f.WellFormed) (hq : q < f.size)
    (hids : ∀ a ∈ ids, ¬ f.Under q a) : g.Under q x ↔ f.Under q x :=
  under_congr fun z hz => h.parent_eq z (hf.lt_size_of_under hz hq) fun hmem => hids z hmem hz

section

variable (hf : f.WellFormed) (hx : x < f.size) (hp : ¬ f.Under p x)
  (hids : ∀ a ∈ ids, ¬ f.Below a x)
include hf hx hp hids

/-- Nothing has changed under a node that is not above the changes. -/
lemma sameContent {y : Nat} (hy : f.Under y x) : SameContent f g y := by
  have hlt : y < f.size := hy.lt_size hx
  refine ⟨h.tag_eq y hlt, h.text_eq y hlt, h.attributes_eq y hlt, ?_⟩
  have hne : y ≠ p := by
    rintro rfl
    exact hp hy
  rw [h.children_eq y hlt hne, filter_eq_self]
  intro c hc
  have hc := hf.parent_of_mem hc
  simpa using fun hmem => hids c hmem (.of_parent_under hc hy)

lemma subtree_eq : g.subtree x = f.subtree x :=
  subtree_eq_of_sameContent hf h.wellFormed rfl fun _ hy => h.sameContent hf hx hp hids hy

end

/-- A node that is not moved, and that nothing is moved from, is the same. -/
lemma node_eq (hf : f.WellFormed) (hx : x < f.size) (hp : x ≠ p)
    (hmem : x ∉ ids) (hids : ∀ a ∈ ids, f.parent a ≠ some x) : g.node x = f.node x := by
  refine node_eq_of_fields (h.tag_eq x hx) (h.text_eq x hx) (h.attributes_eq x hx)
    (h.parent_eq x hx hmem) ?_
  rw [h.children_eq x hx hp, filter_eq_self]
  intro c hc
  simpa using fun hmem => hids c hmem (hf.parent_of_mem hc)

/-- Nothing of this is seen from outside of a node above `p` if only nodes below it have left their
places. -/
lemma grafted_above (hf : f.WellFormed) (hq : q < f.size)
    (hp : f.Under p q) (hids : ∀ a ∈ ids, f.Below a q) : Grafted f q (g.subtree q) g where
  wellFormed := h.wellFormed
  subtree_eq := rfl
  size_le := h.size_le
  parent_eq := h.parent_eq q hq fun hmem => hf.acyclic q (hids q hmem)
  node_eq x hx hnot := by
    apply h.node_eq hf hx
    · rintro rfl
      exact hnot hp
    · intro hmem
      exact hnot (hids x hmem).under
    · intro a ha hparent
      obtain ⟨r, hr, hrq⟩ := below_iff.1 (hids a ha)
      obtain rfl := Option.mem_unique hparent hr
      exact hnot hrq

lemma grafted (hf : f.WellFormed) (hp : p < f.size)
    (hids : ∀ a ∈ ids, f.Below a p) : Grafted f p (g.subtree p) g :=
  h.grafted_above hf hp (.refl f p) hids

end

end Rearranged

/-- A child looks as before if only nodes under another one have left their places. -/
lemma Rearranged.subtree_of_sibling (h : Rearranged f p ids g) (hf : f.WellFormed)
    (hc : f.parent c = some p) (hids : ∀ a ∈ ids, f.Under a c) (hx : f.parent x = some p)
    (hne : x ≠ c) : g.subtree x = f.subtree x := by
  refine h.subtree_eq hf (lt_size_of_parent hx) (hf.not_under_of_child hx) fun a ha hbelow => hne ?_
  exact hf.eq_of_under_of_parent hbelow.under (hids a ha) hx hc

/-- A child that has been taken away looks as before. -/
lemma Rearranged.of_removed (h : Rearranged f p [a] g) (hf : f.WellFormed)
    (ha : f.parent a = some p) :
    g.children a = f.children a ∧ ∀ x, f.Below x a → g.subtree x = f.subtree x := by
  constructor
  · rw [h.children_eq a (lt_size_of_parent ha) (hf.parent_ne_self ha), filter_eq_self]
    intro x hx
    simpa using hf.parent_ne_self (hf.parent_of_mem hx)
  · intro x hx
    refine h.subtree_eq hf hx.lt_size (hf.not_under_of_below (hx.trans (below_of_parent ha))) ?_
    intro b hb hbelow
    rw [mem_singleton.1 hb] at hbelow
    exact hf.acyclic x (hx.trans hbelow)

lemma WellFormed.rearranged_detach (hf : f.WellFormed) (p a : Nat) :
    Rearranged f p [a] (f.detach a) := by
  obtain ⟨hg, hrelinked⟩ := hf.detach a
  refine ⟨hrelinked.labelled hg, fun x _ hx => hrelinked.parent_of_notMem hx, fun x _ hx => ?_⟩
  rw [children, hf.node_detach]

section

variable {tag kind : Tag} {text : String} {attributes : Dict String} {trees : List SyntaxTree}
  (hf : f.WellFormed) (htree : f.subtree p = .node tag text attributes trees)
include hf htree

/-- A child of the node has been taken away from it. -/
lemma grafted_detach (hchildren : f.children p = before ++ c :: after) :
    Grafted f p (.node tag text attributes ((before ++ after).map f.subtree)) (f.detach c) := by
  have hparent := hf.parent_of_split hchildren
  have hp := hf.parent_lt hparent
  have hnodup := hf.nodup_children p
  have h := hf.rearranged_detach p c
  have hgraft := h.grafted hf hp (by simpa using below_of_parent hparent)
  have hviews : (before ++ after).map (f.detach c).subtree = (before ++ after).map f.subtree := by
    refine map_congr_left fun x hx => h.subtree_of_sibling hf hparent (by simp [Under.refl]) ?_ ?_
    · exact hf.parent_of_mem (by grind)
    · grind
  obtain ⟨htag, htext, hattributes, -⟩ := hf.of_subtree_eq htree
  rwa [h.wellFormed.subtree_eq, hf.children_detach hchildren, hviews, h.tag_eq p hp, h.text_eq p hp,
    h.attributes_eq p hp, htag, htext, hattributes] at hgraft

/-- The first child of a kind has been. -/
lemma grafted_detach_first (hchild : f.child p kind = some c) :
    Grafted f p (.node tag text attributes (trees.eraseP (·.tag == kind))) (f.detach c) := by
  obtain ⟨before, after, hchildren, hbefore, hkind⟩ := exists_of_child hchild
  have herase : trees.eraseP (·.tag == kind) = (before ++ after).map f.subtree := by
    rw [← (hf.of_subtree_eq htree).2.2.2, hchildren, map_append, map_cons,
      eraseP_append_right, eraseP_cons_of_pos, map_append]
    · simp [hkind]
    · simpa using hbefore
  rw [herase]
  exact grafted_detach hf htree hchildren

end

/-- A child has been taken away. -/
lemma WellFormed.rearranged_removeChild (hf : f.WellFormed)
    (hchildren : f.children p = before ++ a :: after) :
    ∃ g, f.removeChild p a = .ok g ∧ Rearranged f p [a] g ∧ g.children p = before ++ after ∧
      g.parent a = none := by
  have hparent := hf.parent_of_split hchildren
  exact ⟨_, hf.removeChild_eq hparent, hf.rearranged_detach p a, hf.children_detach hchildren,
    (hf.detach a).2.parent_of_mem (.head _)⟩

/-- A node is moved to a place next to another one, perhaps in the same list. -/
lemma WellFormed.rearranged_insertAt {c mark : Nat}
    {arrange : List NodeId → List NodeId → List NodeId}
    (hf : f.WellFormed) (ha : f.parent a = some c) (hoff : ¬ f.Under p a)
    (hlist : (f.detach a).children p = before ++ mark :: after)
    (hperm : ∀ before after, (arrange before after).Perm (a :: (before ++ mark :: after))) :
    ∃ g, (f.detach a).insertAt p a mark arrange = .ok g ∧ Rearranged f p [a] g ∧
      g.children p = arrange before after := by
  obtain ⟨hf1, h1⟩ := hf.detach a
  have hplt := hf1.parent_lt (hf1.parent_of_mem (by simp [hlist] : mark ∈ (f.detach a).children p))
  have halt : a < (f.detach a).size := h1.size_eq ▸ lt_size_of_parent ha
  have hap : a ≠ p := by
    rintro rfl
    exact hoff (.refl f a)
  have hnone : (f.detach a).parent a = none := h1.parent_of_mem (by simp)
  have hoff1 : ¬ (f.detach a).Under p a := by
    rw [h1.under_iff (by simpa using hoff)]
    exact hoff
  obtain ⟨hg, h2⟩ : ((f.detach a).place p a fun _ => arrange before after).WellFormed ∧ _ :=
    hf1.place hplt halt hnone hoff1 (hlist ▸ hperm before after)
  have hplace := node_place (f.detach a) (fun _ => arrange before after) hplt halt hap
  have hrelinked := h1.replace h2
  refine ⟨_, hf1.insertAt_eq_place hnone hoff1 hlist, ⟨hrelinked.labelled hg,
    fun x _ hx => hrelinked.parent_of_notMem hx, fun x _ hx => ?_⟩, ?_⟩
  · rw [Forest.children, hplace, if_neg hx, hf.node_detach]
    split_ifs <;> rfl
  · rw [Forest.children, hplace, if_neg (Ne.symm hap), if_pos rfl]

lemma Planted.rearranged {tree : SyntaxTree}
    (h : Planted f p before after n tree g) : Rearranged f p [] g where
  wellFormed := h.wellFormed
  size_le := h.size_le
  tag_eq _ hx := h.field_eq Node.tag (fun _ _ => rfl) hx
  text_eq _ hx := h.field_eq Node.text (fun _ _ => rfl) hx
  attributes_eq _ hx := h.field_eq Node.attributes (fun _ _ => rfl) hx
  parent_eq _ hx _ := h.parent_eq hx
  children_eq x hx hne := by simp [h.children_eq hx, hne]

/-- The nodes hold what they held, but `p` has the children `top`, and the nodes `ids` have come to
new ones. -/
lemma Shows.rearranged {n : Nat} {held : Nat → Node} {top : List Nat} (h : Shows g n held)
    (hf : f.WellFormed) (hsize : f.size ≤ n)
    (hold : ∀ x : Nat, x < f.size → held x = relist (without f.content ids) p top x)
    (hnew : ∀ q a : Nat, f.size ≤ q → a ∈ (held q).children → a < f.size → a ∈ ids)
    (htop : ∀ a : Nat, a < f.size → a ∉ ids → (a ∈ top ↔ a ∈ f.children p)) :
    Rearranged f p ids g where
  wellFormed := h.wellFormed
  size_le := h.size_eq ▸ hsize
  tag_eq x hx := by
    rw [h.tag, hold x hx]
    rfl
  text_eq x hx := by
    rw [text, h.node_eq, hold x hx]
    rfl
  attributes_eq x hx := by
    rw [attributes, h.node_eq, hold x hx]
    rfl
  parent_eq x hx hnot := by
    ext q
    rw [← h.wellFormed.mem_children_iff, ← hf.mem_children_iff, h.children]
    by_cases hq : q < f.size
    · rw [hold q hq]
      by_cases hqp : q = p
      · rw [hqp, children_relist, htop x hx hnot]
      · simp [relist, hqp, without, hnot]
        rfl
    · refine iff_of_false (fun hmem => hnot (hnew q x (not_lt.1 hq) hmem hx)) fun hmem => hq ?_
      exact hf.parent_lt (hf.parent_of_mem hmem)
  children_eq x hx hne := by
    rw [h.children, hold x hx, relist, if_neg hne]
    rfl

end Forest

open Forest

namespace Conversion

variable {w : Workspace} {p mark : Nat} {before ids skipped last after : List Nat}
  (hf : w.forest.WellFormed)
include hf

/-- Nodes are moved, in order, to directly before a child that stands before them. -/
lemma forM_moveBefore_rearranged
    (hlist : w.forest.children p = before ++ mark :: (skipped ++ (ids ++ last))) :
    Succeeds (ids.forM fun id => moveBefore p id mark) w fun _ w' => w'.notes = w.notes ∧
      Rearranged w.forest p ids w'.forest ∧
        w'.forest.children p = before ++ (ids ++ mark :: (skipped ++ last)) := by
  induction ids generalizing w before with
  | nil => exact ends_pure ⟨rfl, .refl hf p, by simpa using hlist⟩
  | cons a rest ih =>
    have hplace : w.forest.children p = (before ++ mark :: skipped) ++ a ::
      (rest ++ last) := by simp [hlist]
    have ha : w.forest.parent a = some p := hf.parent_of_mem (by simp [hplace])
    have hdetach := hf.children_detach hplace
    rw [append_assoc] at hdetach
    obtain ⟨g, hok, h1, hchildren⟩ := hf.rearranged_insertAt ha (hf.not_under_of_child ha) hdetach
      (insertBefore_perm · · a mark)
    have hnext :
      g.children p = (before ++ [a]) ++ mark :: (skipped ++ (rest ++ last)) := by simp [hchildren]
    refine ends_bind (ends_bind (ends_edit (ends_relink hok ((ih h1.wellFormed hnext).imp ?_))))
    rintro - w' ⟨hnotes, h2, hlast⟩
    exact ⟨hnotes, h1.trans h2 (.inl rfl), by simp [hlast]⟩

/-- Nodes are moved, in order, to directly after a child that stands after them. -/
lemma moveAllAfter_rearranged
    (hlist : w.forest.children p = before ++ (ids ++ (skipped ++ mark :: after))) :
    Succeeds (moveAllAfter p mark ids) w fun _ w' => w'.notes = w.notes ∧
      Rearranged w.forest p ids w'.forest ∧
        w'.forest.children p = before ++ (skipped ++ mark :: (ids ++ after)) := by
  induction ids generalizing w skipped mark with
  | nil => exact ends_pure ⟨rfl, .refl hf p, by simpa using hlist⟩
  | cons a rest ih =>
    have ha : w.forest.parent a = some p := hf.parent_of_mem (by simp [hlist])
    have hdetach : _ = (before ++ (rest ++ skipped)) ++ mark :: after :=
      (hf.children_detach hlist).trans (by simp)
    obtain ⟨g, hok, h1, hchildren⟩ := hf.rearranged_insertAt ha (hf.not_under_of_child ha) hdetach
      (insertAfter_perm · · a mark)
    have hnext :
      g.children p = before ++ (rest ++ ((skipped ++ [mark]) ++ a :: after)) := by simp [hchildren]
    rw [moveAllAfter, foldlM_cons]
    refine ends_bind (ends_bind (ends_bind (ends_edit (ends_relink hok (ends_pure
      ((ih h1.wellFormed hnext).imp ?_))))))
    rintro - w' ⟨hnotes, h2, hlast⟩
    exact ⟨hnotes, h1.trans h2 (.inl rfl), by simp [hlast]⟩

end Conversion

end SqlDialect
