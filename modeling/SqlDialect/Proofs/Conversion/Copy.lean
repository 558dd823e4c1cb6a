import SqlDialect.Proofs.Conversion.Build

/-!
# Nodes that are copied

What is built at one place is often made of copies of nodes at another.  The copied nodes are apart
from the node that is built at, so they look the same as long as nothing else changes (`Copyable`).
-/

namespace SqlDialect

namespace Forest

variable {f g : Forest} {c n x : Nat} {tree : SyntaxTree}

/-- None of the two nodes is under the other one. -/
structure Apart (f : Forest) (x n : Nat) : Prop where
  lt_size : x < f.size
  not_under : ¬ f.Under x n
  not_above : ¬ f.Under n x

namespace Apart

lemma of_parent (h : Apart f x n) (hc : f.parent c = some n) : Apart f x c where
  lt_size := h.lt_size
  not_under hunder := h.not_under (hunder.trans (under_of_parent hc))
  not_above hunder := by
    rw [under_iff, hc] at hunder
    obtain rfl | ⟨p, hp, hunder⟩ := hunder
    · exact h.not_under (under_of_parent hc)
    · exact h.not_above (Option.some.inj hp ▸ hunder)

/-- A node is not seen to change by what is done at a node apart from it. -/
lemma subtree_eq (h : Apart f x n) (hf : f.WellFormed) (hgraft : Grafted f n tree g) :
    g.subtree x = f.subtree x := by
  refine subtree_eq_of_sameContent hf hgraft.wellFormed rfl fun y hy => sameContent_of_node_eq ?_
  refine hgraft.node_eq y (hy.lt_size h.lt_size) fun hunder => ?_
  obtain hbad | hbad := hunder.total hy
  · exact h.not_above hbad
  · exact h.not_under hbad

lemma grafted (h : Apart f x n) (hf : f.WellFormed) (hgraft : Grafted f n tree g) :
    Apart g x n where
  lt_size := h.lt_size.trans_le hgraft.size_le
  not_under hunder := h.not_under (hgraft.under_of_under hf h.lt_size hunder)
  not_above hunder := h.not_above ((hgraft.under_self_iff hf).1 hunder)

end Apart

/-- A new node is apart from the nodes that are not above its place. -/
lemma Planted.apart {p : Nat} {before after : List Nat} (h : Planted f p before after n tree g)
    (hf : f.WellFormed) (hx : x < f.size) (hnot : ¬ f.Under p x) : Apart g x n where
  lt_size := hx.trans_le h.size_le
  not_under := h.not_under hf hx
  not_above hunder := by
    rw [under_iff, h.parent_new] at hunder
    obtain rfl | ⟨q, hq, hunder⟩ := hunder
    · exact absurd h.new (Nat.not_le.2 hx)
    · obtain rfl := Option.some.inj hq
      refine hnot ((under_congr fun z hz => h.parent_eq ?_).1 hunder)
      exact hf.lt_size_of_under hz h.lt_size

end Forest

namespace Conversion

open Forest

variable {w w' : Workspace} {E : ConversionError → Workspace → Prop} {f : Forest}
  {c n : Nat} {tag : Tag}
  {text : String} {attributes : Dict String} {tree : SyntaxTree} {trees : List SyntaxTree}
  {ids : List Nat}

/-- Nodes that look as they did in the forest `f`, and are apart from `n`. -/
def Copyable (f : Forest) (n : Nat) (ids : List Nat) (w : Workspace) : Prop :=
  ∀ id ∈ ids, Apart w.forest id n ∧ w.forest.subtree id = f.subtree id

namespace Copyable

lemma turned (h : Copyable f n ids w) (hw : Whole w) (hturned : Turned w n tree w') :
    Copyable f n ids w' := by
  intro id hid
  obtain ⟨hapart, hview⟩ := h id hid
  have hf := hw.wellFormed
  exact ⟨hapart.grafted hf hturned.grafted, (hapart.subtree_eq hf hturned.grafted).trans hview⟩

lemma of_parent (h : Copyable f n ids w) (hc : w.forest.parent c = some n) : Copyable f c ids w :=
  fun id hid => ⟨(h id hid).1.of_parent hc, (h id hid).2⟩

lemma mono {ids' : List Nat} (h : Copyable f n ids w) (hids : ids' ⊆ ids) : Copyable f n ids' w :=
  fun id hid => h id (hids hid)

end Copyable

/-- Things are added to the end of a node one after the other. -/
lemma forM_built {α : Type} {step : α → Conversion PUnit} {items : List α} {w₀ : Workspace}
    (out : α → List SyntaxTree) (h : Built w₀ n (.node tag text attributes trees) w)
    (hstep : ∀ a ∈ items, ∀ (w : Workspace) (trees : List SyntaxTree),
      Built w₀ n (.node tag text attributes trees) w →
        Ends (step a) w (fun _ => Built w₀ n (.node tag text attributes (trees ++ out a))) E) :
    Ends (items.forM step) w
      (fun _ => Built w₀ n (.node tag text attributes (trees ++ items.flatMap out))) E := by
  induction items generalizing w trees with
  | nil => exact ends_pure (by rwa [List.flatMap_nil, List.append_nil])
  | cons a items ih =>
    refine ends_bind ((hstep a (.head _) w trees h).imp fun _ w1 h1 => ?_)
    refine (ih h1 fun b hb => hstep b (.tail _ hb)).imp fun _ w2 h2 => ?_
    rwa [List.append_assoc, ← List.flatMap_cons] at h2

lemma forM_appendCopy_built {w₀ : Workspace} (h : Built w₀ n (.node tag text attributes trees) w)
    (hcopyable : Copyable f n ids w₀) : Ends (ids.forM (appendCopy n)) w
      (fun _ => Built w₀ n (.node tag text attributes (trees ++ ids.map f.subtree))) E := by
  rw [List.map_eq_flatMap]
  refine forM_built _ h fun id hid w1 trees1 h1 => ?_
  rw [← (hcopyable.turned h.start_whole h1.toTurned id hid).2]
  exact h1.copy id

end Conversion

end SqlDialect
