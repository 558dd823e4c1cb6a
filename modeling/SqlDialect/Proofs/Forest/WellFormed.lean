import Mathlib.Data.Finset.Card
import Mathlib.Data.List.Nodup
import Mathlib.Logic.Relation
import Mathlib.Tactic.Lemma
import SqlDialect.Forest.Link

/-!
# Well-formed forests

Parents and children of a forest are stored twice, and the two have to agree.  `WellFormed` says
that they do, that every stored number is that of a node, that no child is listed twice and that
no node is its own ancestor.

The shape of a well-formed forest is fixed by its parents alone.  `Under` follows them upwards
without a bound; `mem_ancestors_iff` says that the bounded list `ancestors` holds everything that
`Under` reaches, because a chain of different nodes is no longer than the forest has nodes.
`depth` counts the ancestors of a node: it grows by one from a parent to its children
(`depth_of_parent`) and stays below the number of nodes (`depth_lt_size`), so it measures how far a
search downwards can still go.
-/

namespace SqlDialect.Forest

open List

variable {f g : Forest} {id top a c p q x y : Nat}

/-! ## Ancestors as a relation -/

/-- The node is `top` or somewhere below it. -/
def Under (f : Forest) (id top : NodeId) : Prop :=
  Relation.ReflTransGen (fun c p => f.parent c = some p) id top

/-- The node is below `top`, and is not `top` itself unless the forest has a cycle. -/
def Below (f : Forest) (id top : NodeId) : Prop :=
  Relation.TransGen (fun c p => f.parent c = some p) id top

lemma Under.refl (f : Forest) (id : NodeId) : f.Under id id :=
  Relation.ReflTransGen.refl

lemma Below.under (h : f.Below id top) : f.Under id top :=
  h.to_reflTransGen

lemma below_of_parent (h : f.parent c = some p) : f.Below c p :=
  Relation.TransGen.single h

lemma under_of_parent (h : f.parent c = some p) : f.Under c p :=
  (below_of_parent h).under

lemma Below.of_parent_under (h : f.parent c = some p) (hp : f.Under p top) : f.Below c top :=
  Relation.TransGen.head' h hp

lemma Under.trans (h : f.Under x y) (hy : f.Under y top) : f.Under x top :=
  Relation.ReflTransGen.trans h hy

lemma Below.trans (h : f.Below x y) (hy : f.Below y top) : f.Below x top :=
  Relation.TransGen.trans h hy

lemma Under.trans_below (h : f.Under x y) (hy : f.Below y top) : f.Below x top :=
  Relation.TransGen.trans_right h hy

lemma under_iff : f.Under id top ↔ id = top ∨ ∃ p, f.parent id = some p ∧ f.Under p top := by
  rw [Under, Relation.ReflTransGen.cases_head_iff]
  rfl

lemma under_iff_eq_or_below : f.Under id top ↔ top = id ∨ f.Below id top :=
  Relation.reflTransGen_iff_eq_or_transGen

lemma below_iff : f.Below id top ↔ ∃ p, f.parent id = some p ∧ f.Under p top := by
  rw [Below, Relation.TransGen.head'_iff]
  rfl

/-- A node without a parent is under nothing but itself. -/
lemma under_iff_eq_of_parent_eq_none (h : f.parent id = none) : f.Under id top ↔ id = top := by
  rw [under_iff, h]
  simp

/-- To step from a node to its parent loses only the node itself. -/
lemma not_under_of_parent (h : f.parent q = some p) (hne : q ≠ c) (hp : ¬ f.Under p c) :
    ¬ f.Under q c := by
  rw [under_iff, h]
  rintro (heq | ⟨r, hr, hrc⟩)
  · exact hne heq
  · cases hr
    exact hp hrc

/-- Of two nodes above a node one is above the other. -/
lemma Under.total (hx : f.Under id x) (hy : f.Under id y) : f.Under x y ∨ f.Under y x :=
  Relation.ReflTransGen.total_of_right_unique
    (fun _ _ _ h h' => Option.mem_unique h h') hx hy

/-- A forest with fewer parents has fewer nodes above a node. -/
lemma Below.mono (h : ∀ {a b : Nat}, f.parent a = some b → g.parent a = some b)
    (hbelow : f.Below id top) : g.Below id top :=
  Relation.TransGen.mono (fun _ _ => h) _ _ hbelow

/-- What is above a node depends only on the parents of the nodes on the way up. -/
lemma under_congr (h : ∀ z, f.Under q z → g.parent z = f.parent z) :
    g.Under q x ↔ f.Under q x := by
  constructor
  · intro hx
    induction hx with
    | refl => exact Under.refl f q
    | tail _ hlast ih => exact ih.tail (h _ ih ▸ hlast)
  · intro hx
    induction hx with
    | refl => exact Under.refl g q
    | @tail b _ hb hlast ih => exact ih.tail ((h b hb).trans hlast)

/-- A way up is still there if the parents on it, short of its end, are the same. -/
lemma Under.congr (h : ∀ z q, z ≠ top → f.parent z = some q → g.parent z = some q)
    (hx : f.Under x top) : g.Under x top := by
  induction hx using Relation.ReflTransGen.head_induction_on with
  | refl => exact Under.refl g top
  | @head z q hzq _ ih =>
    by_cases hz : z = top
    · exact hz ▸ Under.refl g top
    · exact Relation.ReflTransGen.head (h z q hz hzq) ih

/-! ## Well-formedness -/

/-- Every stored number is that of a node, the children and the parent of nodes agree, children
are listed once, and no node is its own ancestor. -/
structure WellFormed (f : Forest) : Prop where
  parent_lt : ∀ {id p : Nat}, f.parent id = some p → p < f.size
  child_lt : ∀ {p c : Nat}, c ∈ f.children p → c < f.size
  mem_children_iff : ∀ {p c : Nat}, c ∈ f.children p ↔ f.parent c = some p
  nodup_children : ∀ p : Nat, (f.children p).Nodup
  acyclic : ∀ id : Nat, ¬ f.Below id id

lemma node_of_size_le (h : f.size ≤ id) : f.node id = {} := by
  have hnone : f.nodes[id]? = none := Array.getElem?_eq_none h
  simp [node, hnone]

/-- A node with a parent is a node of the forest. -/
lemma lt_size_of_parent (h : f.parent c = some p) : c < f.size := by
  by_contra hge
  simp [parent, node_of_size_le (Nat.le_of_not_lt hge)] at h

lemma Below.lt_size (h : f.Below id top) : id < f.size := by
  obtain ⟨p, hp, -⟩ := below_iff.1 h
  exact lt_size_of_parent hp

lemma Under.lt_size (h : f.Under id top) (htop : top < f.size) : id < f.size := by
  obtain rfl | hbelow := under_iff_eq_or_below.1 h
  · exact htop
  · exact hbelow.lt_size

lemma parent_of_size_le (h : f.size ≤ id) : f.parent id = none := by
  simp [parent, node_of_size_le h]

namespace WellFormed

variable (hf : f.WellFormed)
include hf

lemma parent_of_mem (h : c ∈ f.children p) : f.parent c = some p :=
  hf.mem_children_iff.1 h

lemma parent_of_split {before after : List Nat} (h : f.children p = before ++ c :: after) :
    f.parent c = some p :=
  hf.parent_of_mem (by simp [h])

lemma lt_size_of_under (h : f.Under id top) (hid : id < f.size) : top < f.size := by
  induction h with
  | refl => exact hid
  | tail _ hlast _ => exact hf.parent_lt hlast

/-- The parent of a node is not under it. -/
lemma not_under_of_child (h : f.parent c = some p) : ¬ f.Under p c := fun hpc =>
  hf.acyclic c (Below.of_parent_under h hpc)

/-- What is above a node is not under it. -/
lemma not_under_of_below (h : f.Below c p) : ¬ f.Under p c := fun hpc =>
  hf.acyclic p (hpc.trans_below h)

lemma parent_ne_self (h : f.parent c = some p) : c ≠ p := fun heq =>
  hf.not_under_of_child h (heq ▸ Under.refl f c)

/-- Above a node there is at most one child of another. -/
lemma eq_of_under_of_parent (ha : f.Under x a) (hc : f.Under x c) (hpa : f.parent a = some p)
    (hpc : f.parent c = some p) : a = c := by
  have haux {a c : Nat} (hac : f.Under a c) (hpa : f.parent a = some p)
      (hpc : f.parent c = some p) : a = c := by
    rw [under_iff, hpa] at hac
    obtain rfl | ⟨q, hq, hqc⟩ := hac
    · rfl
    · cases hq
      exact absurd hqc (hf.not_under_of_child hpc)
  obtain hac | hca := ha.total hc
  · exact haux hac hpa hpc
  · exact (haux hca hpc hpa).symm

end WellFormed

/-! ## The list of ancestors -/

lemma below_of_mem_ancestorsTo :
    ∀ {steps : Nat} {id : Nat}, a ∈ f.ancestorsTo steps id → f.Below id a
  | 0, _, h => by simp [ancestorsTo] at h
  | steps + 1, id, h => by
    rw [ancestorsTo] at h
    split at h
    · rename_i p hp
      rcases mem_cons.1 h with rfl | hrest
      · exact below_of_parent hp
      · exact Below.of_parent_under hp (below_of_mem_ancestorsTo hrest).under
    · simp at h

/-- A list of ancestors that does not use up its steps holds all of them. -/
lemma mem_ancestorsTo_of_below :
    ∀ {steps : Nat} {id : Nat}, (f.ancestorsTo steps id).length < steps → f.Below id a →
      a ∈ f.ancestorsTo steps id
  | 0, _, h, _ => by simp at h
  | steps + 1, id, h, hbelow => by
    obtain ⟨p, hp, hpa⟩ := below_iff.1 hbelow
    simp only [ancestorsTo, hp, length_cons] at h ⊢
    rcases under_iff_eq_or_below.1 hpa with rfl | hpa
    · exact .head _
    · exact .tail _ (mem_ancestorsTo_of_below (by omega) hpa)

/-- More steps do not change a list of ancestors that does not use up its steps. -/
lemma ancestorsTo_add {more : Nat} :
    ∀ {steps : Nat} {id : Nat}, (f.ancestorsTo steps id).length < steps →
      f.ancestorsTo (steps + more) id = f.ancestorsTo steps id
  | 0, _, h => by simp at h
  | steps + 1, id, h => by
    rw [Nat.add_right_comm, ancestorsTo, ancestorsTo]
    cases hp : f.parent id with
    | none => rfl
    | some p =>
      simp only [ancestorsTo, hp, length_cons] at h
      simp only [List.cons.injEq, true_and]
      exact ancestorsTo_add (by omega)

lemma WellFormed.nodup_ancestorsTo (hf : f.WellFormed) :
    ∀ (steps : Nat) (id : Nat), (id :: f.ancestorsTo steps id).Nodup
  | 0, id => by simp [ancestorsTo]
  | steps + 1, id => by
    refine nodup_cons.2 ⟨fun hmem => hf.acyclic id (below_of_mem_ancestorsTo hmem), ?_⟩
    rw [ancestorsTo]
    split
    · exact hf.nodup_ancestorsTo steps _
    · exact nodup_nil

/-- A chain of ancestors is shorter than the forest has nodes. -/
lemma WellFormed.length_ancestorsTo_lt (hf : f.WellFormed) (steps : Nat) (hid : id < f.size) :
    (f.ancestorsTo steps id).length < f.size := by
  have hsub : (id :: f.ancestorsTo steps id).toFinset ⊆ Finset.range f.size := by
    intro z hz
    rw [mem_toFinset, mem_cons] at hz
    rw [Finset.mem_range]
    rcases hz with rfl | hz
    · exact hid
    · exact hf.lt_size_of_under (below_of_mem_ancestorsTo hz).under hid
  have hcard := Finset.card_le_card hsub
  rw [toFinset_card_of_nodup (hf.nodup_ancestorsTo steps id), Finset.card_range] at hcard
  rwa [length_cons] at hcard

lemma WellFormed.mem_ancestors_iff (hf : f.WellFormed) : a ∈ f.ancestors id ↔ f.Below id a := by
  refine ⟨below_of_mem_ancestorsTo, fun h => ?_⟩
  obtain ⟨p, hp, _⟩ := below_iff.1 h
  exact mem_ancestorsTo_of_below (hf.length_ancestorsTo_lt _ (lt_size_of_parent hp)) h

/-- The test that keeps a forest without cycles. -/
lemma WellFormed.mem_self_ancestors_iff (hf : f.WellFormed) :
    a ∈ id :: f.ancestors id ↔ f.Under id a := by
  rw [mem_cons, hf.mem_ancestors_iff, under_iff_eq_or_below]

lemma ancestors_of_parent_eq_none (h : f.parent id = none) : f.ancestors id = [] := by
  rw [ancestors]
  cases f.size <;> simp [ancestorsTo, h]

lemma WellFormed.ancestors_eq_cons (hf : f.WellFormed) (h : f.parent c = some p) :
    f.ancestors c = p :: f.ancestors p := by
  have hc := lt_size_of_parent h
  obtain ⟨n, hn⟩ : ∃ n, f.size = n + 1 := ⟨f.size - 1, by omega⟩
  have hstep : f.ancestors c = p :: f.ancestorsTo n p := by
    rw [ancestors, hn, ancestorsTo, h]
  -- The list from `p` with one step less is complete, since `c` is not in it.
  have hlen : (f.ancestorsTo n p).length < n := by
    have hbound := hf.length_ancestorsTo_lt f.size hc
    rw [← ancestors, hstep, length_cons] at hbound
    omega
  rw [hstep, ancestors, hn, ancestorsTo_add hlen]

/-! ## Depth -/

/-- The number of ancestors of a node. -/
def depth (f : Forest) (id : NodeId) : Nat :=
  (f.ancestors id).length

section

variable (hf : f.WellFormed)
include hf

lemma WellFormed.depth_of_parent (h : f.parent c = some p) : f.depth c = f.depth p + 1 := by
  rw [depth, hf.ancestors_eq_cons h, length_cons, depth]

lemma WellFormed.depth_lt_size (h : id < f.size) : f.depth id < f.size :=
  hf.length_ancestorsTo_lt _ h

/-- Induction from the nodes without a parent down. -/
lemma WellFormed.induction_parent {motive : Nat → Prop}
    (h : ∀ x, (∀ p, f.parent x = some p → motive p) → motive x) (x : Nat) : motive x := by
  induction hdepth : f.depth x using Nat.strong_induction_on generalizing x with
  | _ n ih =>
    refine h x fun p hp => ih (f.depth p) ?_ p rfl
    rw [← hdepth, hf.depth_of_parent hp]
    exact Nat.lt_succ_self _

lemma ancestors_congr (hg : g.WellFormed) {x : Nat}
    (h : ∀ z, f.Under x z → g.parent z = f.parent z) : g.ancestors x = f.ancestors x := by
  induction x using hf.induction_parent with
  | _ x ih =>
    have hx := h x (.refl f x)
    cases hparent : f.parent x with
    | none => rw [ancestors_of_parent_eq_none hparent,
      ancestors_of_parent_eq_none (hx.trans hparent)]
    | some p =>
      rw [hf.ancestors_eq_cons hparent, hg.ancestors_eq_cons (hx.trans hparent),
        ih p hparent fun z hz => h z ((under_of_parent hparent).trans hz)]

lemma WellFormed.depth_lt_of_below {a : Nat} (h : f.Below x a) : f.depth a < f.depth x := by
  induction h with
  | single hparent =>
    rw [hf.depth_of_parent hparent]
    exact Nat.lt_succ_self _
  | tail _ hparent ih =>
    rw [hf.depth_of_parent hparent] at ih
    omega

end

end SqlDialect.Forest
