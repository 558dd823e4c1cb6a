import SqlDialect.Proofs.Conversion.Rewrite

/-!
# Walks in pre-order

A walk whose visits do not disturb what is still to come meets the nodes of the forest it started
with in pre-order.  `walkFrom_preorder` is the rule for such walks: what holds between two visits is
said by a property of the nodes that are still to come, of the value that is carried along and of
the workspace.  A visit takes the first of these nodes off, and all below it as well if it has the
walk skip them.

The pre-order of a well-formed forest holds every node under its top once, the nodes under a node
are consecutive in it, and siblings come in their order.
-/

namespace SqlDialect

open List

namespace Forest

variable {f : Forest} {a c id x : Nat}

/-! ## Pre-order -/

section

variable (hf : f.WellFormed)
include hf

/-- What follows for a node from its children holds of all nodes. -/
lemma WellFormed.induction_children {motive : Nat → Prop}
    (hstep : ∀ id, (∀ c ∈ f.children id, motive c) → motive id) (id : Nat) : motive id := by
  induction hn : f.size - f.depth id using Nat.strong_induction_on generalizing id with
  | _ n ih =>
    refine hstep id fun c hc => ?_
    have hparent := hf.parent_of_mem hc
    have hdepth := hf.depth_of_parent hparent
    have hlt := hf.depth_lt_size (lt_size_of_parent hparent)
    exact ih _ (by omega) c rfl

lemma WellFormed.mem_descendants_iff : x ∈ f.descendants id ↔ f.Below x id := by
  induction id using hf.induction_children with
  | _ id ih =>
    rw [hf.descendants_eq, mem_flatMap, Below, Relation.TransGen.tail'_iff]
    constructor
    · rintro ⟨c, hc, hx⟩
      refine ⟨c, ?_, hf.parent_of_mem hc⟩
      rcases mem_cons.1 hx with rfl | hx
      · exact Relation.ReflTransGen.refl
      · exact ((ih c hc).1 hx).under
    · rintro ⟨c, hx, hc⟩
      have hc := hf.mem_children_iff.2 hc
      refine ⟨c, hc, mem_cons.2 ?_⟩
      exact (under_iff_eq_or_below.1 hx).imp Eq.symm (ih c hc).2

lemma WellFormed.mem_preorder_iff : x ∈ id :: f.descendants id ↔ f.Under x id := by
  rw [mem_cons, hf.mem_descendants_iff, under_iff_eq_or_below, eq_comm]

lemma WellFormed.nodup_preorder (id : Nat) : (id :: f.descendants id).Nodup := by
  induction id using hf.induction_children with
  | _ id ih =>
    refine nodup_cons.2 ⟨fun h => hf.acyclic id (hf.mem_descendants_iff.1 h), ?_⟩
    rw [hf.descendants_eq, nodup_flatMap]
    refine ⟨ih, (hf.nodup_children id).imp_of_mem fun {b c} hb hc hne x hxb hxc => hne ?_⟩
    exact hf.eq_of_under_of_parent (hf.mem_preorder_iff.1 hxb) (hf.mem_preorder_iff.1 hxc)
      (hf.parent_of_mem hb) (hf.parent_of_mem hc)

lemma WellFormed.size_subtree (id : Nat) :
    (f.subtree id).size = (id :: f.descendants id).length := by
  induction id using hf.induction_children with
  | _ id ih =>
    have hall : ∀ ids : List Nat, (∀ c ∈ ids, (f.subtree c).size = (c :: f.descendants c).length) →
        SyntaxTree.sizeAll (ids.map f.subtree) = (ids.flatMap fun c =>
          c :: f.descendants c).length := by
      intro ids hids
      induction ids with
      | nil => rfl
      | cons c ids ihids =>
        rw [map_cons, SyntaxTree.sizeAll, hids c mem_cons_self,
          ihids fun b hb => hids b (.tail _ hb), flatMap_cons, length_append]
    rw [hf.subtree_eq, SyntaxTree.size, hall _ ih, length_cons, ← hf.descendants_eq, Nat.add_comm]

/-- A view is not larger than the forest. -/
lemma WellFormed.size_subtree_le (hid : id < f.size) : (f.subtree id).size ≤ f.size := by
  have hsub : id :: f.descendants id ⊆ List.range f.size := by
    intro x hx
    exact mem_range.2 ((hf.mem_preorder_iff.1 hx).lt_size hid)
  have hlength := (subperm_of_subset (hf.nodup_preorder id) hsub).length_le
  rwa [length_range, ← hf.size_subtree] at hlength

lemma WellFormed.preorder_sublist :
    f.Under x id → (x :: f.descendants x).Sublist (id :: f.descendants id) := by
  induction id using hf.induction_children with
  | _ id ih =>
    rw [under_iff_eq_or_below, Below, Relation.TransGen.tail'_iff]
    rintro (rfl | ⟨c, hx, hc⟩)
    · exact .refl _
    · have hc := hf.mem_children_iff.2 hc
      rw [hf.descendants_eq id]
      refine ((ih c hc hx).trans ?_).cons id
      obtain ⟨before, after, hsplit⟩ := append_of_mem hc
      rw [hsplit, flatMap_append, flatMap_cons]
      exact (sublist_append_left _ _).trans (sublist_append_right _ _)

/-- A node comes after all nodes that it is below. -/
lemma WellFormed.mem_of_below {done rest : List Nat}
    (hpre : id :: f.descendants id = done ++ x :: rest) (ha : f.Under a id) (hx : f.Below x a) :
    a ∈ done := by
  have hnodup := hf.nodup_preorder id
  have hsub := hf.preorder_sublist ha
  rw [hpre] at hnodup hsub
  obtain ⟨first, second, hsplit, hfirst, hsecond⟩ := sublist_append_iff.1 hsub
  cases first with
  | cons b first =>
    obtain ⟨rfl, -⟩ := List.cons.inj hsplit
    exact hfirst.subset (.head _)
  | nil =>
    obtain rfl : a :: f.descendants a = second := hsplit
    obtain hrest | ⟨others, heq, -⟩ := sublist_cons_iff.1 hsecond
    · have hmem : x ∈ rest := hrest.subset (.tail _ (hf.mem_descendants_iff.2 hx))
      grind
    · obtain ⟨rfl, -⟩ := List.cons.inj heq
      exact absurd hx (hf.acyclic a)

/-- Siblings come in their order. -/
lemma WellFormed.children_sublist (id : Nat) : (f.children id).Sublist (f.descendants id) := by
  rw [hf.descendants_eq]
  induction f.children id with
  | nil => exact .refl _
  | cons c rest ih => exact (ih.trans (sublist_append_right _ _)).cons_cons c

/-- Of the siblings of a node those before it come before it, and those after it do not. -/
lemma WellFormed.siblings_split {p : Nat} {before after : List Nat}
    (hchildren : f.children p = before ++ c :: after) (hp : f.Under p id) {done rest : List Nat}
    (hpre : id :: f.descendants id = done ++ c :: rest) :
    (∀ x ∈ before, x ∈ done) ∧ ∀ x ∈ after, x ∉ done := by
  have hnodup := hf.nodup_preorder id
  have hsub : (before ++ c :: after).Sublist (done ++ c :: rest) := by
    rw [← hchildren, ← hpre]
    exact ((hf.children_sublist p).trans (sublist_cons_self _ _)).trans (hf.preorder_sublist hp)
  rw [hpre] at hnodup
  obtain ⟨first, second, hsplit, hfirst, hsecond⟩ := sublist_append_iff.1 hsub
  -- the node itself is in the second part, and is its first member
  obtain hrest | ⟨others, rfl, hothers⟩ := sublist_cons_iff.1 hsecond
  · have hc : c ∈ first ++ second := by simp [← hsplit]
    grind
  · have hleft := splitAround_eq_of_nodup (hnodup.sublist hsub)
    have hright := splitAround_eq_of_nodup (hsplit ▸ hnodup.sublist hsub)
    rw [hsplit, hright] at hleft
    obtain ⟨rfl, rfl⟩ := Prod.mk.inj (Option.some.inj hleft)
    refine ⟨fun x hx => hfirst.subset hx, fun x hx hdone => ?_⟩
    grind

end

/-- What a node of the tree is under is in the tree. -/
lemma under_root_of_under (hroot : f.parent root = none) (hx : f.Under x root) (ha : f.Under x a) :
    f.Under a root := by
  obtain hunder | hunder := ha.total hx
  · exact hunder
  · exact (under_iff_eq_of_parent_eq_none hroot).1 hunder ▸ .refl f root

/-! ## Walks that pass over what is below some nodes -/

/-- The nodes in `done` have been passed and those in `rest` are still to come. What is below a node
with `P` has been passed together with it. -/
structure Passed (f : Forest) (P : Nat → Prop) (done rest : List NodeId) : Prop where
  preorder : root :: f.descendants root = done ++ rest
  shut : ∀ a ∈ done, P a → ∀ x ∈ rest, ¬ f.Under x a

namespace Passed

variable {P : Nat → Prop} {done rest : List NodeId}

lemma start (f : Forest) (P : Nat → Prop) : Passed f P [] (root :: (f.descendants root ++ [])) :=
  ⟨by simp, by simp⟩

lemma not_mem_done (h : Passed f P done rest) (hf : f.WellFormed) (hx : x ∈ rest) : x ∉ done := by
  have hnodup := hf.nodup_preorder root
  rw [h.preorder] at hnodup
  exact fun hdone => (nodup_append.1 hnodup).2.2 x hdone x hx rfl

lemma mem_done_iff (h : Passed f P done []) (hf : f.WellFormed) : x ∈ done ↔ f.Under x root := by
  rw [← hf.mem_preorder_iff, h.preorder, append_nil]

/-- Nothing above the next node has `P`. -/
lemma not_above (h : Passed f P done (id :: rest)) (hf : f.WellFormed)
    (hroot : f.parent root = none) (ha : f.Below id a) : ¬ P a := by
  have hid : f.Under id root := hf.mem_preorder_iff.1 (by rw [h.preorder]; simp)
  have hunder := under_root_of_under hroot hid ha.under
  exact fun hP => h.shut a (hf.mem_of_below h.preorder hunder ha) hP id (.head _) ha.under

section

variable (h : Passed f P done (id :: (f.descendants id ++ rest))) (hf : f.WellFormed)
include h hf

/-- Nothing under the next node has been passed. -/
lemma not_mem_done_of_under (hx : f.Under x id) : x ∉ done := by
  refine h.not_mem_done hf ?_
  rw [← cons_append]
  exact mem_append_left _ (hf.mem_preorder_iff.2 hx)

/-- The next node is passed with all below it. -/
lemma skip : Passed f P (done ++ id :: f.descendants id) rest := by
  refine ⟨by simp [h.preorder], fun a ha hP x hx hunder => ?_⟩
  obtain ha | ha := mem_append.1 ha
  · exact h.shut a ha hP x (by simp [hx]) hunder
  · have hmem := hf.mem_preorder_iff.2 (hunder.trans (hf.mem_preorder_iff.1 ha))
    have hnodup := hf.nodup_preorder root
    rw [h.preorder, ← cons_append, ← append_assoc] at hnodup
    exact (nodup_append.1 hnodup).2.2 x (mem_append_right _ hmem) x hx rfl

end

/-- The next node is passed, and those below it come next. -/
lemma descend (h : Passed f P done (id :: rest)) (hid : ¬ P id) :
    Passed f P (done ++ [id]) rest := by
  refine ⟨by simp [h.preorder], fun a ha hP x hx => ?_⟩
  obtain ha | ha := mem_append.1 ha
  · exact h.shut a ha hP x (.tail _ hx)
  · exact absurd (mem_singleton.1 ha ▸ hP) hid

/-- What is above a node that has been passed has been passed. -/
lemma mem_done_of_below {a : Nat} (h : Passed f P done rest) (hf : f.WellFormed)
    (hroot : f.parent root = none) (hx : x ∈ done) (ha : f.Below x a) : a ∈ done := by
  have hunder : f.Under x root := hf.mem_preorder_iff.1 (h.preorder ▸ mem_append_left _ hx)
  obtain ⟨first, later, rfl⟩ := append_of_mem hx
  have hpre := h.preorder
  rw [append_assoc, cons_append] at hpre
  exact mem_append_left _ (hf.mem_of_below hpre (under_root_of_under hroot hunder ha.under) ha)

end Passed

end Forest

/-! ## The rule -/

namespace Conversion

open Forest

variable {σ : Type} {f : Forest} {visit : NodeId → σ → Conversion (Visit × σ)}
  {E : ConversionError → Workspace → Prop}

section

variable (hf : f.WellFormed) (I : List NodeId → σ → Workspace → Prop)
  (hloose : ∀ id rest state w, I (id :: (f.descendants id ++ rest)) state w → f.parent id ≠ none →
    w.forest.parent id = none → I rest state w)
include hf hloose

/-- A walk that meets the nodes of `f` in pre-order. What holds while the nodes of a list are still
to come is said by `I`; then the first of them is still attached if it was, or can be left out with
all below it, and once it has been visited its children are those that it had. If `N` holds, there
may be new ones among them, where a visit of a new node comes to nothing and goes no further. -/
lemma walkFrom_preorder_new {N : Prop}
    (hvisit : ∀ id rest state w, id < f.size → I (id :: (f.descendants id ++ rest)) state w →
      (f.parent id ≠ none → w.forest.parent id ≠ none) →
      Ends (visit id state) w (fun result w' => match result.1 with
        | .skip => I rest result.2 w'
        | .descend => (w'.forest.children id).filter (· < f.size) = f.children id ∧
          (w'.forest.children id = f.children id ∨ N) ∧ I (f.descendants id ++ rest) result.2 w') E)
    (hnew : N → ∀ id rest state w, f.size ≤ id → I rest state w →
      Ends (visit id state) w (fun result w' => I rest result.2 w' ∧
        (result.1 = .descend → w'.forest.children id = [])) E) :
    ∀ (limit id : Nat) (rest : List NodeId) (state : σ) (w : Workspace), id < f.size →
      f.size < limit + f.depth id → I (id :: (f.descendants id ++ rest)) state w →
      (f.parent id ≠ none → w.forest.parent id ≠ none) →
        Ends (walkFrom visit limit id state) w (fun state' w' => I rest state' w') E
  | 0, id, rest, state, w, hid, hlimit, hI, hup => by
    have hdepth := hf.depth_lt_size hid
    omega
  | limit + 1, id, rest, state, w, hid, hlimit, hI, hup => by
    have hdepth := hf.depth_lt_size hid
    obtain ⟨below, rfl⟩ : ∃ below, limit = below + 1 := ⟨limit - 1, by omega⟩
    rw [walkFrom_succ]
    refine ends_bind ((hvisit id rest state w hid hI hup).imp ?_)
    rintro ⟨decision, state1⟩ w1 h1
    cases decision with
    | skip => exact ends_pure h1
    | descend =>
      obtain ⟨hchildren, hN, hI1⟩ := h1
      refine ends_forest ?_
      rw [hf.descendants_eq, ← hchildren] at hI1
      -- of the children still to come, the old ones with all below them
      refine ends_foldlM (fun cs state w => (∀ c ∈ cs, c ∈ w1.forest.children id) ∧
        I (((cs.filter (· < f.size)).flatMap fun c => c :: f.descendants c) ++ rest) state w)
        ⟨fun _ h => h, hI1⟩ ?_ fun _ _ h => h.2
      rintro c cs state2 w2 ⟨hmem, hI2⟩
      have hrest : ∀ x ∈ cs, x ∈ w1.forest.children id := fun x hx =>
        hmem x (.tail _ hx)
      by_cases hc : c < f.size
      · rw [filter_cons_of_pos (by simpa using hc), flatMap_cons, append_assoc,
          cons_append] at hI2
        have hold : c ∈ f.children id := by
          rw [← hchildren, mem_filter]
          exact ⟨hmem c (.head _), by simpa using hc⟩
        have hup := hf.parent_of_mem hold
        refine ends_forest (ends_ite (fun hnone => ?_) fun hsome => ?_)
        · exact ends_pure ⟨hrest, hloose c _ _ _ hI2 (by simp [hup]) (by simpa using hnone)⟩
        · refine (walkFrom_preorder_new hvisit hnew (below + 1) c _ state2 w2 hc ?_ hI2
            fun _ => by simpa using hsome).imp (fun _ _ h => ⟨hrest, h⟩)
          have hdepth := hf.depth_of_parent hup
          omega
      · rw [filter_cons_of_neg (by simpa using hc)] at hI2
        refine ends_forest (ends_ite (fun _ => ends_pure ⟨hrest, hI2⟩) fun _ => ?_)
        have hN := hN.resolve_left fun hsame =>
          hc (lt_size_of_parent (hf.parent_of_mem (hsame ▸ hmem c (.head _))))
        rw [walkFrom_succ]
        refine ends_bind ((hnew hN c _ state2 w2 (Nat.le_of_not_lt hc) hI2).imp ?_)
        rintro ⟨decision, state3⟩ w3 ⟨hI3, hleaf⟩
        cases decision with
        | skip => exact ends_pure ⟨hrest, hI3⟩
        | descend =>
          refine ends_forest ?_
          rw [hleaf rfl]
          exact ends_pure ⟨hrest, hI3⟩

/-- The same for a walk whose visits put no new nodes among the children of the node they visit. -/
lemma walkFrom_preorder
    (hvisit : ∀ id rest state w, id < f.size → I (id :: (f.descendants id ++ rest)) state w →
      (f.parent id ≠ none → w.forest.parent id ≠ none) →
      Ends (visit id state) w (fun result w' => match result.1 with
        | .skip => I rest result.2 w'
        | .descend => w'.forest.children id = f.children id ∧
          I (f.descendants id ++ rest) result.2 w') E)
    (limit id : Nat) (rest : List NodeId) (state : σ) (w : Workspace) (hid : id < f.size)
    (hlimit : f.size < limit + f.depth id) (hI : I (id :: (f.descendants id ++ rest)) state w)
    (hup : f.parent id ≠ none → w.forest.parent id ≠ none) :
    Ends (walkFrom visit limit id state) w (fun state' w' => I rest state' w') E := by
  refine walkFrom_preorder_new hf I hloose (N := False) (fun id rest state w hid hI hup => ?_)
    (fun h => h.elim) limit id rest state w hid hlimit hI hup
  refine (hvisit id rest state w hid hI hup).imp fun result w' h => ?_
  split at h
  · exact h
  · refine ⟨?_, .inl h.1, h.2⟩
    rw [h.1, filter_eq_self]
    exact fun c hc => decide_eq_true (lt_size_of_parent (hf.parent_of_mem hc))

end

end Conversion

end SqlDialect
