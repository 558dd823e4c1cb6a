import SqlDialect.Proofs.Conversion.Ends

/-!
# Sequences of edits

Whoever has a tree may edit it with the operations of `Edit`, in any order and whether or not the
earlier ones were carried out.  `Edited w w'` says that edits of nodes that exist lead from `w` to
`w'`; a refused edit leads to the workspace that it leaves behind.

An edit leaves a well-formed forest, in which the nodes that it was not given are as before, apart
from the parents of the given ones (`Edit.spares`).
-/

namespace SqlDialect

open Forest

/-- The operations on a tree, with their arguments. -/
inductive Edit where
  | setTag (id : NodeId) (tag : Tag)
  | setText (id : NodeId) (text : String)
  | setAttribute (id : NodeId) (key value : String)
  | removeAttribute (id : NodeId) (key : String)
  | create (tag : Tag) (text : String)
  | append (parent : NodeId) (tag : Tag) (text : String)
  | insertNewBefore (parent : NodeId) (tag : Tag) (text : String) (mark : NodeId)
  | insertNewAfter (parent : NodeId) (tag : Tag) (text : String) (mark : NodeId)
  | addChild (parent child : NodeId)
  | insertBefore (parent child mark : NodeId)
  | insertAfter (parent child mark : NodeId)
  | removeChild (parent child : NodeId)
  | detach (id : NodeId)
  | moveTo (parent id : NodeId)
  | moveBefore (parent id mark : NodeId)
  | moveAfter (parent id mark : NodeId)
  | copy (id : NodeId)

namespace Edit

open Conversion in
/-- The step of a conversion that carries out the edit. -/
def run : Edit → Conversion Unit
  | setTag id tag => Conversion.setTag id tag
  | setText id text => Conversion.setText id text
  | setAttribute id key value => Conversion.setAttribute id key value
  | removeAttribute id key => discard (Conversion.removeAttribute id key)
  | create tag text => discard (Conversion.create tag text)
  | append parent tag text => discard (Conversion.append parent tag text)
  | insertNewBefore parent tag text mark =>
    discard (Conversion.insertNewBefore parent tag text mark)
  | insertNewAfter parent tag text mark => discard (Conversion.insertNewAfter parent tag text mark)
  | addChild parent child => Conversion.addChild parent child
  | insertBefore parent child mark => Conversion.insertBefore parent child mark
  | insertAfter parent child mark => Conversion.insertAfter parent child mark
  | removeChild parent child => Conversion.removeChild parent child
  | detach id => Conversion.detach id
  | moveTo parent id => Conversion.moveTo parent id
  | moveBefore parent id mark => Conversion.moveBefore parent id mark
  | moveAfter parent id mark => Conversion.moveAfter parent id mark
  | copy id => discard (Conversion.copy id)

/-- The nodes that an edit is given. -/
def nodes : Edit → List NodeId
  | create _ _ => []
  | setTag id _ | setText id _ | setAttribute id _ _ | removeAttribute id _ | detach id | copy id =>
    [id]
  | append parent _ _ => [parent]
  | insertNewBefore parent _ _ mark | insertNewAfter parent _ _ mark => [parent, mark]
  | addChild parent id | removeChild parent id | moveTo parent id => [parent, id]
  | insertBefore parent id mark | insertAfter parent id mark | moveBefore parent id mark
  | moveAfter parent id mark => [parent, id, mark]

end Edit

namespace Conversion

/-- The workspace that a step leaves behind, whether it succeeds or fails. -/
def leaves {α : Type} (step : Conversion α) (w : Workspace) : Workspace :=
  match step w with
  | .ok _ w' | .error _ w' => w'

lemma leaves_of_ends {α : Type} {step : Conversion α} {w : Workspace} {R : Workspace → Prop}
    (h : Ends step w (fun _ => R) fun _ => R) : R (leaves step w) := by
  obtain ⟨hok, herror⟩ := ends_iff.1 h
  rw [leaves]
  split
  · exact hok _ _ ‹_›
  · exact herror _ _ ‹_›

end Conversion

open Conversion

/-- Edits of nodes that exist lead from one workspace to another. -/
inductive Edited (w : Workspace) : Workspace → Prop
  | refl : Edited w w
  | tail {w₁ : Workspace} {edit : Edit} : Edited w w₁ →
    (∀ id ∈ edit.nodes, (id : Nat) < w₁.forest.size) → Edited w (leaves edit.run w₁)

/-! ## What an edit leaves alone -/

namespace Forest

variable {f g h : Forest} {ids ids' : List Nat} {c mark p : Nat}

/-- The forest is well-formed, and of its older nodes only some and their parents may have
changed. -/
structure Spares (f : Forest) (ids : List Nat) (g : Forest) : Prop where
  wellFormed : g.WellFormed
  size_le : f.size ≤ g.size
  node_eq : ∀ x < f.size, x ∉ ids → (∀ c ∈ ids, f.parent c ≠ some x) → g.node x = f.node x

lemma Spares.refl (hf : f.WellFormed) (ids : List Nat) : Spares f ids f :=
  ⟨hf, le_rfl, fun _ _ _ _ => rfl⟩

/-- A later change may concern new nodes too. -/
lemma Spares.trans (hf : f.WellFormed) (hfg : Spares f ids g) (hgh : Spares g ids' h)
    (hids : ∀ c ∈ ids', c < f.size → c ∈ ids) : Spares f ids h where
  wellFormed := hgh.wellFormed
  size_le := hfg.size_le.trans hgh.size_le
  node_eq x hx hmem hparent := by
    have hnode := hfg.node_eq x hx hmem hparent
    rw [← hnode]
    refine hgh.node_eq x (hx.trans_le hfg.size_le) (fun hx' => hmem (hids x hx' hx)) fun c hc hcx =>
      ?_
    have hchild : c ∈ f.children x := by
      rw [Forest.children, ← hnode]
      exact hfg.wellFormed.mem_children_iff.2 hcx
    exact hparent c (hids c hc (hf.child_lt hchild)) (hf.parent_of_mem hchild)

section

variable (hf : f.WellFormed)
include hf

lemma SameLinks.spares {change : Node → Node} {id : Nat}
    (hlinks : SameLinks f (f.update id change)) : Spares f [id] (f.update id change) :=
  ⟨hlinks.wellFormed hf, hlinks.size_eq.ge,
    fun x _ hx _ => by simp [node_update, List.mem_singleton.not.1 hx]⟩

lemma WellFormed.spares_create (tag : Tag) (text : String) (ids : List Nat) :
    Spares f ids (f.create tag text).2 :=
  ⟨hf.create tag text, by simp, fun x hx _ _ => by rw [Forest.create, node_push, if_neg hx.ne]⟩

omit hf in
/-- An attachment changes the node and its new parent. -/
lemma WellFormed.spares_place {arrange : List NodeId → List NodeId}
    (hg : (f.place p c arrange).WellFormed)
    (ids : List Nat) : Spares f (p :: c :: ids) (f.place p c arrange) where
  wellFormed := hg
  size_le := (size_place f p c arrange).ge
  node_eq x _ hx _ := by
    simp only [List.mem_cons, not_or] at hx
    simp only [Forest.place, node_update, hx, false_and, if_false]

lemma WellFormed.spares_detach (hc : c ∈ ids) : Spares f ids (f.detach c) := by
  obtain ⟨hwf, hlinks⟩ := hf.detach c
  refine ⟨hwf, hlinks.size_eq.ge, fun x _ hx hparent => ?_⟩
  have hne : x ≠ c := fun heq => hx (heq ▸ hc)
  rw [hf.node_detach, if_neg hne, hf.filter_notMem (hparent c hc)]
  rfl

end

end Forest

/-- Whether the step succeeds or fails, the forest that it leaves spares all but these nodes and
their parents. -/
abbrev Confined {α : Type} (ids : List Nat) (step : Conversion α) (w : Workspace) : Prop :=
  Ends step w (fun _ w' => Spares w.forest ids w'.forest) fun _ w' => Spares w.forest ids w'.forest

section

variable {w w₁ : Workspace} {c mark p : Nat} {ids ids' : List Nat}

lemma Confined.after {α : Type} {step : Conversion α} (hf : w.forest.WellFormed)
    (h₁ : Spares w.forest ids w₁.forest) (hids : ∀ c ∈ ids', c < w.forest.size → c ∈ ids)
    (h : Confined ids' step w₁) : Ends step w₁ (fun _ w' => Spares w.forest ids w'.forest)
      fun _ w' => Spares w.forest ids w'.forest :=
  h.mono (fun _ _ h' => h₁.trans hf h' hids) fun _ _ h' => h₁.trans hf h' hids

variable (hf : w.forest.WellFormed)
include hf

lemma relink_confined {change : Forest → Except LinkError Forest}
    (h : ∀ g, change w.forest = .ok g → Spares w.forest ids g) :
      Confined ids (relink change) w := by
  cases hchange : change w.forest with
  | ok g => exact ends_relink hchange (h g hchange)
  | error cause => exact ends_relink_error hchange (.refl hf ids)

section

variable (hp : p < w.forest.size) (hc : c < w.forest.size)
include hp hc

lemma addChild_confined : Confined [p, c] (addChild p c) w :=
  relink_confined hf fun _ h => by
    have hwf := (hf.addChild hp hc h).1
    rw [(addChild_eq_ok h).2] at hwf ⊢
    exact hwf.spares_place []

lemma insertBefore_confined : Confined [p, c, mark] (insertBefore p c mark) w :=
  relink_confined hf fun _ h => by
    have hwf := (hf.insertBefore hp hc h).1
    obtain ⟨-, before, after, -, rfl⟩ := insertAt_eq_ok h
    exact hwf.spares_place [mark]

lemma insertAfter_confined : Confined [p, c, mark] (insertAfter p c mark) w :=
  relink_confined hf fun _ h => by
    have hwf := (hf.insertAfter hp hc h).1
    obtain ⟨-, before, after, -, rfl⟩ := insertAt_eq_ok h
    exact hwf.spares_place [mark]

end

/-- After a node has been detached, it is attached again. -/
lemma detach_then {next : Conversion Unit} (hc : c ∈ ids)
    (hnext : ∀ w', w'.forest.WellFormed → w'.forest.size = w.forest.size → Confined ids next w') :
    Confined ids (do detach c; next) w := by
  obtain ⟨hwf, hlinks⟩ := hf.detach c
  exact ends_bind
    (ends_edit ((hnext _ hwf hlinks.size_eq).after hf (hf.spares_detach hc) fun _ h _ => h))

/-- After a node has been made, it is attached at once. -/
lemma create_then {attach : NodeId → Conversion Unit} (tag : Tag) (text : String)
    (hnext : ∀ w' : Workspace, w'.forest.WellFormed → w.forest.size < w'.forest.size →
      Confined [p, w.forest.size, mark] (attach w.forest.size) w') :
    Confined [p, mark] (do let id ← create tag text; attach id; return id) w := by
  refine ends_bind (ends_grow (ends_bind (((hnext _ (hf.create tag text) (by simp)).after hf
    (hf.spares_create tag text [p, mark]) ?_).mono (fun _ _ h => ends_pure h) fun _ _ h => h)))
  simp

end

lemma Edit.confined {w : Workspace} (hf : w.forest.WellFormed) (edit : Edit)
    (hnodes : ∀ id ∈ edit.nodes, (id : Nat) < w.forest.size) : Confined edit.nodes edit.run w := by
  cases edit with
  | setTag id tag =>
    rw [run]
    exact ends_edit ((sameLinks_setTag w.forest id tag).spares hf)
  | setText id text =>
    rw [run]
    exact ends_edit ((sameLinks_setText w.forest id text).spares hf)
  | setAttribute id key value =>
    rw [run]
    exact ends_edit ((sameLinks_setAttribute w.forest id key value).spares hf)
  | removeAttribute id key =>
    exact ends_discard (ends_forest (ends_bind (ends_edit (ends_pure
      ((sameLinks_removeAttribute w.forest id key).spares hf)))))
  | create tag text => exact ends_discard (ends_grow (hf.spares_create tag text _))
  | append parent tag text =>
    have hparent : (parent : Nat) < w.forest.size := hnodes parent (by simp [nodes])
    have hwf : ((w.forest.create tag text).2.place parent w.forest.size
      (· ++ [w.forest.size])).WellFormed :=
      hf.append hparent tag text
    refine ends_discard
      (ends_grow ((hf.spares_create tag text _).trans hf (hwf.spares_place []) ?_))
    simp [nodes]
  | insertNewBefore parent tag text mark =>
    have hparent : (parent : Nat) < w.forest.size := hnodes parent (by simp [nodes])
    exact ends_discard (create_then hf tag text fun w1 hf1 hlt =>
      insertBefore_confined hf1 (hparent.trans hlt) hlt)
  | insertNewAfter parent tag text mark =>
    have hparent : (parent : Nat) < w.forest.size := hnodes parent (by simp [nodes])
    exact ends_discard (create_then hf tag text fun w1 hf1 hlt =>
      insertAfter_confined hf1 (hparent.trans hlt) hlt)
  | addChild parent child =>
    exact addChild_confined hf (hnodes parent (by simp [nodes])) (hnodes child (by simp [nodes]))
  | insertBefore parent child mark =>
    exact insertBefore_confined hf (hnodes parent (by simp [nodes]))
      (hnodes child (by simp [nodes]))
  | insertAfter parent child mark =>
    exact insertAfter_confined hf (hnodes parent (by simp [nodes])) (hnodes child (by simp [nodes]))
  | removeChild parent child =>
    exact relink_confined hf fun _ h => (hf.removeChild_eq_ok h).2 ▸ hf.spares_detach
      (by simp [nodes])
  | detach id =>
    rw [run]
    exact ends_edit (hf.spares_detach List.mem_cons_self)
  | moveTo parent id =>
    exact detach_then hf (by simp [nodes]) fun w1 hf1 hsize => addChild_confined hf1
      (hsize ▸ hnodes parent (by simp [nodes])) (hsize ▸ hnodes id (by simp [nodes]))
  | moveBefore parent id mark =>
    exact detach_then hf (by simp [nodes]) fun w1 hf1 hsize => insertBefore_confined hf1
      (hsize ▸ hnodes parent (by simp [nodes])) (hsize ▸ hnodes id (by simp [nodes]))
  | moveAfter parent id mark =>
    exact detach_then hf (by simp [nodes]) fun w1 hf1 hsize => insertAfter_confined hf1
      (hsize ▸ hnodes parent (by simp [nodes])) (hsize ▸ hnodes id (by simp [nodes]))
  | copy id =>
    have hcopy := sow_spec (w.forest.subtree id) w.forest
    exact ends_discard (ends_grow ⟨hcopy.wellFormed hf, hcopy.size_eq ▸ Nat.le_add_right _ _,
      fun x hx _ _ => hcopy.node_eq x hx⟩)

/-- An edit of nodes that exist spares all others that are not parents of them. -/
lemma Edit.spares {w : Workspace} {edit : Edit} (hf : w.forest.WellFormed)
    (hnodes : ∀ id ∈ edit.nodes, (id : Nat) < w.forest.size) :
    Spares w.forest edit.nodes (leaves edit.run w).forest :=
  leaves_of_ends (Edit.confined hf edit hnodes)

lemma Edited.wellFormed {w w' : Workspace} (hf : w.forest.WellFormed) (h : Edited w w') :
    w'.forest.WellFormed := by
  induction h with
  | refl => exact hf
  | tail _ hnodes ih => exact (Edit.spares ih hnodes).wellFormed

end SqlDialect
