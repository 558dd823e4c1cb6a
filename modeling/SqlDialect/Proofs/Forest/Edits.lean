import SqlDialect.Proofs.Forest.WellFormed

/-!
# Edits keep forests well-formed

Every edit of a forest changes labels, adds a node without links, or changes the parent of one
node together with the lists of children that this concerns.  The lemmas `of_same_links`, `push`,
`attach` and `detached` say once for each of the three what well-formedness needs; the operations
of `SqlDialect.Forest.Link` are cases of them.

`Relinked` says what a change of parents leaves alone.  It is stated for a list of nodes with one
new parent, so that moving many nodes looks like moving one.
-/

namespace SqlDialect

/-! ## Places among children -/

lemma splitAround_eq_some {mark : Nat} : ∀ {ids before after : List Nat},
    splitAround mark ids = some (before, after) → ids = before ++ mark :: after
  | [], _, _, h => by simp [splitAround] at h
  | head :: rest, before, after, h => by
    rw [splitAround] at h
    split at h
    · rename_i heq
      cases h
      rw [heq, List.nil_append]
    · obtain ⟨⟨b, a⟩, hsplit, heq⟩ := Option.map_eq_some_iff.1 h
      cases heq
      rw [splitAround_eq_some hsplit, List.cons_append]

lemma splitAround_eq_none_iff {mark : Nat} : ∀ {ids : List Nat},
    splitAround mark ids = none ↔ mark ∉ ids
  | [] => by simp [splitAround]
  | head :: rest => by
    rw [splitAround]
    by_cases heq : head = mark
    · simp [heq]
    · simp [heq, splitAround_eq_none_iff, Ne.symm heq]

/-- A mark that is listed once splits the list in one way only. -/
lemma splitAround_eq_of_nodup {mark : Nat} {before after : List Nat}
    (h : (before ++ mark :: after).Nodup) :
    splitAround mark (before ++ mark :: after) = some (before, after) := by
  induction before with
  | nil => simp [splitAround]
  | cons head rest ih =>
    have hne : head ≠ mark := by
      rintro rfl
      simp at h
    rw [List.cons_append, List.nodup_cons] at h
    rw [List.cons_append, splitAround, if_neg hne, ih h.2]
    rfl

namespace Forest

variable {f g h : Forest} {id c p x : Nat}

/-! ## Fields of an edited forest -/

@[simp] lemma size_update (f : Forest) (id : Nat) (change : Node → Node) :
    (f.update id change).size = f.size := by
  simp [update, size]

lemma node_update (f : Forest) (id : Nat) (change : Node → Node) (x : Nat) :
    (f.update id change).node x = if x = id ∧ x < f.size then change (f.node x) else f.node x := by
  simp only [node, update, Array.getD_eq_getD_getElem?, Array.getElem?_modify]
  by_cases hx : x < f.nodes.size
  · by_cases heq : id = x
    · simp [heq, hx, size]
    · simp [heq, Ne.symm heq]
  · simp [hx, size]

@[simp] lemma size_push (f : Forest) (n : Node) : (f.push n).2.size = f.size + 1 := by
  simp [push, size]

lemma node_push (f : Forest) (n : Node) (x : Nat) :
    (f.push n).2.node x = if x = f.size then n else f.node x := by
  simp only [node, push, size, Array.getD_eq_getD_getElem?, Array.getElem?_push]
  split <;> rfl

@[simp] lemma size_place (f : Forest) (p c : Nat) (arrange : List NodeId → List NodeId) :
    (f.place p c arrange).size = f.size := by
  simp [place]

lemma node_place (f : Forest) (arrange : List NodeId → List NodeId) (hp : p < f.size)
    (hc : c < f.size) (hne : c ≠ p) (x : Nat) :
    (f.place p c arrange).node x =
      if x = c then { f.node x with parent := some p }
      else if x = p then { f.node x with children := arrange (f.node x).children }
      else f.node x := by
  simp only [place, node_update, size_update]
  grind

/-! ## One change of links -/

/-- The nodes in `ids` have `v` as their parent now. Parents of other nodes, and what nodes hold
apart from links, are as before. -/
structure Relinked (f g : Forest) (ids : List Nat) (v : Option Nat) : Prop where
  size_eq : g.size = f.size
  parent_eq : ∀ x : Nat, g.parent x = if x ∈ ids then v else f.parent x
  tag_eq : ∀ x : Nat, g.tag x = f.tag x
  text_eq : ∀ x : Nat, g.text x = f.text x
  attributes_eq : ∀ x : Nat, g.attributes x = f.attributes x

namespace Relinked

variable {ids ids' : List Nat} {v v' : Option Nat}

lemma nil (f : Forest) (v : Option Nat) : Relinked f f [] v where
  size_eq := rfl
  parent_eq := by simp
  tag_eq _ := rfl
  text_eq _ := rfl
  attributes_eq _ := rfl

section

variable (hfg : Relinked f g ids v)
include hfg

lemma trans (hgh : Relinked g h ids' v) : Relinked f h (ids ++ ids') v where
  size_eq := hgh.size_eq.trans hfg.size_eq
  parent_eq x := by
    rw [hgh.parent_eq, hfg.parent_eq]
    grind
  tag_eq x := (hgh.tag_eq x).trans (hfg.tag_eq x)
  text_eq x := (hgh.text_eq x).trans (hfg.text_eq x)
  attributes_eq x := (hgh.attributes_eq x).trans (hfg.attributes_eq x)

/-- Of two changes for the same nodes the later one stays. -/
lemma replace (hgh : Relinked g h ids v') : Relinked f h ids v' where
  size_eq := hgh.size_eq.trans hfg.size_eq
  parent_eq x := by
    rw [hgh.parent_eq, hfg.parent_eq]
    grind
  tag_eq x := (hgh.tag_eq x).trans (hfg.tag_eq x)
  text_eq x := (hgh.text_eq x).trans (hfg.text_eq x)
  attributes_eq x := (hgh.attributes_eq x).trans (hfg.attributes_eq x)

/-- What is above a node stays above it when none of that has been given a new parent. -/
lemma under_iff {q : Nat} (hq : ∀ i ∈ ids, ¬ f.Under q i) : g.Under q x ↔ f.Under q x :=
  under_congr fun z hz => by
    rw [hfg.parent_eq, if_neg fun hmem => hq z hmem hz]

lemma parent_of_notMem (hx : x ∉ ids) : g.parent x = f.parent x := by
  rw [hfg.parent_eq, if_neg hx]

lemma parent_of_mem (hx : x ∈ ids) : g.parent x = v := by
  rw [hfg.parent_eq, if_pos hx]

end

/-- Where nodes were only detached, a node that has a parent had it before. -/
lemma parent_of_some {p : Nat} (hfg : Relinked f g ids none) (hx : g.parent x = some p) :
    f.parent x = some p := by
  rw [hfg.parent_eq] at hx
  split at hx
  · cases hx
  · exact hx

end Relinked

/-! ## What well-formedness needs -/

namespace WellFormed

/-- Labels do not matter. -/
lemma of_same_links (hf : f.WellFormed) (hsize : f.size ≤ g.size)
    (hparent : ∀ x : Nat, g.parent x = f.parent x)
    (hchildren : ∀ x : Nat, g.children x = f.children x) : g.WellFormed where
  parent_lt hp := (hf.parent_lt (hparent _ ▸ hp)).trans_le hsize
  child_lt hc := (hf.child_lt (hchildren _ ▸ hc)).trans_le hsize
  mem_children_iff := by
    intro p c
    rw [hchildren, hparent, hf.mem_children_iff]
  nodup_children p := hchildren p ▸ hf.nodup_children p
  acyclic id hid := hf.acyclic id (hid.mono fun hab => hparent _ ▸ hab)

/-- A further node without links. -/
lemma push (hf : f.WellFormed) {n : Node} (hparent : n.parent = none)
    (hchildren : n.children = []) : (f.push n).2.WellFormed := by
  have hp : ∀ x, (f.push n).2.parent x = f.parent x := by
    intro x
    simp only [parent, node_push]
    split
    · rename_i heq
      rw [hparent, node_of_size_le (Nat.le_of_eq heq.symm)]
    · rfl
  have hc : ∀ x, (f.push n).2.children x = f.children x := by
    intro x
    simp only [children, node_push]
    split
    · rename_i heq
      rw [hchildren, node_of_size_le (Nat.le_of_eq heq.symm)]
    · rfl
  exact hf.of_same_links (by simp) hp hc

/-- A chain of parents in a forest with the new link from `c` to `p` either was one before, or
goes up to `c` and on from `p`. -/
private lemma below_of_attached {y : Nat} (hoff : ¬ f.Under p c)
    (hparent : ∀ x : Nat, g.parent x = if x = c then some p else f.parent x)
    (hxy : g.Below x y) : f.Below x y ∨ (f.Under x c ∧ f.Under p y) := by
  have hstep : ∀ {a b : Nat}, g.parent a = some b → (a = c ∧ b = p) ∨ f.parent a = some b := by
    intro a b hab
    rw [hparent] at hab
    split at hab
    · rename_i heq
      exact .inl ⟨heq, (Option.some.inj hab).symm⟩
    · exact .inr hab
  induction hxy with
  | single hab =>
    rcases hstep hab with ⟨rfl, rfl⟩ | hab
    · exact .inr ⟨Under.refl f x, Under.refl f _⟩
    · exact .inl (below_of_parent hab)
  | tail _ hab ih =>
    rcases ih with hxb | ⟨hxc, hpb⟩
    · rcases hstep hab with ⟨rfl, rfl⟩ | hab
      · exact .inr ⟨hxb.under, Under.refl f _⟩
      · exact .inl (Relation.TransGen.tail hxb hab)
    · rcases hstep hab with ⟨rfl, rfl⟩ | hab
      · exact absurd hpb hoff
      · exact .inr ⟨hxc, Relation.ReflTransGen.tail hpb hab⟩

/-- A node without a parent may be attached wherever it does not come to be below itself. -/
lemma attach (hf : f.WellFormed) (hsize : g.size = f.size) (hp : p < f.size) (hc : c < f.size)
    (hnone : f.parent c = none) (hoff : ¬ f.Under p c)
    (hparent : ∀ x : Nat, g.parent x = if x = c then some p else f.parent x)
    (hchildren : ∀ x : Nat, x ≠ p → g.children x = f.children x)
    (hmem : ∀ x : Nat, x ∈ g.children p ↔ x = c ∨ x ∈ f.children p)
    (hnodup : (g.children p).Nodup) : g.WellFormed where
  parent_lt {id q} hq := by
    rw [hparent] at hq
    split at hq
    · rw [hsize]
      exact Option.some.inj hq ▸ hp
    · exact hsize ▸ hf.parent_lt hq
  child_lt {q x} hx := by
    by_cases heq : q = p
    · subst heq
      rcases (hmem x).1 hx with rfl | hx
      · exact hsize ▸ hc
      · exact hsize ▸ hf.child_lt hx
    · exact hsize ▸ hf.child_lt (hchildren q heq ▸ hx)
  mem_children_iff {q x} := by
    rw [hparent]
    by_cases heq : q = p
    · subst heq
      rw [hmem, hf.mem_children_iff]
      by_cases hxc : x = c <;> simp [hxc]
    · rw [hchildren q heq, hf.mem_children_iff]
      by_cases hxc : x = c
      · simp [hxc, hnone, Ne.symm heq]
      · simp [hxc]
  nodup_children q := by
    by_cases heq : q = p
    · exact heq ▸ hnodup
    · exact hchildren q heq ▸ hf.nodup_children q
  acyclic id hid := by
    rcases below_of_attached hoff hparent hid with hbelow | ⟨hidc, hpid⟩
    · exact hf.acyclic id hbelow
    · exact hoff (hpid.trans hidc)

/-- A node may be taken out of all lists. -/
lemma detached (hf : f.WellFormed) (hsize : g.size = f.size)
    (hparent : ∀ x : Nat, g.parent x = if x = c then none else f.parent x)
    (hchildren : ∀ x : Nat, g.children x = (f.children x).filter (· ∉ [c])) : g.WellFormed where
  parent_lt {id q} hq := by
    rw [hparent] at hq
    split at hq
    · cases hq
    · exact hsize ▸ hf.parent_lt hq
  child_lt {q x} hx := by
    rw [hchildren] at hx
    exact hsize ▸ hf.child_lt (List.mem_of_mem_filter hx)
  mem_children_iff {q x} := by
    rw [hparent, hchildren, List.mem_filter, hf.mem_children_iff]
    by_cases hxc : x = c <;> simp [hxc]
  nodup_children q := hchildren q ▸ (hf.nodup_children q).filter _
  acyclic id hid := by
    refine hf.acyclic id (hid.mono fun hab => ?_)
    rw [hparent] at hab
    split at hab
    · cases hab
    · exact hab

end WellFormed

end Forest

end SqlDialect
