import SqlDialect.Proofs.Conversion.Content
import SqlDialect.Proofs.Conversion.Preorder

/-!
# Walks that put children in another order

The visits of a walk may put children in another order, those of the node or its siblings, and
change labels, while every node keeps its parent.
-/

namespace SqlDialect

namespace Forest

variable {f g : Forest} {lists : Nat → List Nat}

lemma is_congr (htag : g.tag = f.tag) : g.is = f.is := by
  funext x kind
  rw [is, is, htag]

lemma isComment_congr (htag : g.tag = f.tag) : g.isComment = f.isComment := by
  funext x
  rw [isComment, isComment, htag]

lemma isNoise_congr (htag : g.tag = f.tag) : g.isNoise = f.isNoise := by
  funext x
  rw [isNoise, isNoise, isWhiteSpace, isWhiteSpace, is_congr htag, isComment_congr htag]

/-- The forest with other lists of children. -/
def relisted (f : Forest) (lists : Nat → List NodeId) : Forest :=
  ⟨f.nodes.mapIdx fun x node => { node with children := lists x }⟩

lemma wellFormed_relisted (hf : f.WellFormed) (hlists : ∀ p, (lists p).Perm (f.children p)) :
    (f.relisted lists).WellFormed ∧ (∀ x, (f.relisted lists).parent x = f.parent x) ∧
      ∀ x, (f.relisted lists).children x = lists x := by
  have hsize : (f.relisted lists).size = f.size := by simp [relisted, size]
  have hnode (x : Nat) : (f.relisted lists).node x = { f.node x with children := lists x } := by
    by_cases hx : x < f.size
    · have hx' : x < f.nodes.size := hx
      simp [relisted, node, hx']
    · have hx := Nat.le_of_not_lt hx
      have hnil : lists x = [] :=
        List.perm_nil.1 (by simpa [children, node_of_size_le hx] using hlists x)
      rw [node_of_size_le (hsize.trans_le hx), node_of_size_le hx, hnil]
  have hparent (x : Nat) : (f.relisted lists).parent x = f.parent x := by rw [parent, hnode, parent]
  have hchildren (x : Nat) : (f.relisted lists).children x = lists x := by rw [children, hnode]
  refine ⟨⟨fun h => ?_, fun h => ?_, fun {p c} => ?_, fun p => ?_, fun x => ?_⟩, hparent, hchildren⟩
  · rw [hparent] at h
    exact hsize ▸ hf.parent_lt h
  · rw [hchildren, (hlists _).mem_iff] at h
    exact hsize ▸ hf.child_lt h
  · rw [hchildren, hparent, (hlists p).mem_iff, hf.mem_children_iff]
  · rw [hchildren, (hlists p).nodup_iff]
    exact hf.nodup_children p
  · simpa only [Below, hparent] using hf.acyclic x

/-- It is the turn of a node: it is in the tree, and nothing under it has been visited; of its
siblings, in the lists as they are when they are visited, those before it have been visited and no
others. -/
structure Turn (f : Forest) (lists : Nat → List NodeId) (done : List NodeId) (id : Nat) : Prop where
  under : f.Under id root
  free : ∀ x, f.Under x id → x ∉ done
  siblings : ∀ {p before after}, f.parent id = some p → lists p = before ++ id :: after →
    (∀ x ∈ before, x ∈ done) ∧ ∀ x ∈ after, x ∉ done

end Forest

open Forest

lemma Conversion.forEach_shows {w : Workspace} {kind : Tag} {convertNode : NodeId → Conversion Unit}
    (hw : Whole w) (hsafe : Safe (fun _ => True) False (forEach kind convertNode) w)
    {lists : Nat → List NodeId}
    (hlists : ∀ p, w.forest.Under p root → (lists p).Perm (w.forest.children p))
    (after : List NodeId → Nat → Node) (hstart : after [] = w.forest.content)
    (htag : ∀ done x, (after done x).tag = w.forest.tag x)
    (hmem : ∀ done, (∀ x ∈ done, w.forest.Under x root) →
      ∀ p x, x ∈ (after done p).children ↔ x ∈ w.forest.children p)
    (hchildren : ∀ done id, Turn w.forest lists done id →
      (after (done ++ [id]) id).children = lists id)
    (hother : ∀ done id, w.forest.is id kind = false → after (done ++ [id]) = after done)
    (hvisit : ∀ done id w', Turn w.forest lists done id → w.forest.is id kind →
      Shows w'.forest w.forest.size (after done) → Does (convertNode id) w' fun _ w'' =>
        Shows w''.forest w.forest.size (after (done ++ [id]))) :
    ∃ w' done, forEach kind convertNode w = .ok () w' ∧ Whole w' ∧
      (∀ x, x ∈ done ↔ w.forest.Under x root) ∧ Shows w'.forest w.forest.size (after done) ∧
      ∀ x, w'.forest.parent x = w.forest.parent x := by
  classical
  have hf := hw.wellFormed
  -- the lists of nodes that are not in the tree stay as they are
  let order (p : Nat) : List NodeId :=
    if w.forest.Under p root then lists p else w.forest.children p
  obtain ⟨hF, hparent, horder⟩ := @wellFormed_relisted _ order hf fun p => by
    unfold order
    split_ifs with hp
    exacts [hlists p hp, .refl _]
  have hlist {p : Nat} (hp : w.forest.Under p root) :
    (w.forest.relisted order).children p = lists p :=
    (horder p).trans (if_pos hp)
  have hsize : (w.forest.relisted order).size = w.forest.size := by simp [relisted, size]
  have hunder (x y : Nat) : (w.forest.relisted order).Under x y ↔ w.forest.Under x y := by
    simp only [Under, hparent]
  have hin {done rest : List Nat}
      (h : Passed (w.forest.relisted order) (fun _ => False) done rest) :
      ∀ x ∈ done ++ rest, w.forest.Under x root := fun x hx =>
    (hunder _ _).1 (hF.mem_preorder_iff.1 (by rw [h.preorder]; exact hx))
  have hwalk : Does (forEach kind convertNode) w fun _ w' => ∃ done,
      Passed (w.forest.relisted order) (fun _ => False) done [] ∧
        Shows w'.forest w.forest.size (after done) := by
    refine ends_forest (walkFrom_preorder hF (fun rest (_ : Unit) w' => ∃ done,
      Passed (w.forest.relisted order) (fun _ => False) done rest ∧
        Shows w'.forest w.forest.size (after done)) ?_ ?_ _ root [] () w (hsize ▸ hw.size_pos) ?_ ?_
      fun hroot => hparent root ▸ hroot)
    · rintro id rest - v ⟨done, hpassed, h⟩ hid hnone
      rw [h.parent_eq hf (hmem done fun x hx => hin hpassed x (by simp [hx])), ← hparent] at hnone
      exact absurd hnone hid
    · rintro id rest - v hid ⟨done, hpassed, h⟩ -
      have hid : w.forest.Under id root := hin hpassed id (by simp)
      have hturn : Turn w.forest lists done id := by
        refine ⟨hid, fun x hx => hpassed.not_mem_done_of_under hF ((hunder _ _).2 hx),
          fun {p _ _} hup hp => ?_⟩
        have hp' := under_root_of_under hw.root_parent hid (under_of_parent hup)
        exact hF.siblings_split ((hlist hp').trans hp) ((hunder _ _).2 hp') hpassed.preorder
      have hfits : v.forest.fits kind none id = w.forest.is id kind := by
        rw [fits, is, h.tag, htag, Option.all_none, Bool.and_true]
        rfl
      refine ends_bind (ends_forest (ends_ite (fun hkind => ?_) fun hkind => ?_))
      · refine ends_bind ((hvisit done id v hturn (hfits ▸ hkind) h).imp fun _ v' h' => ?_)
        refine ends_pure (ends_pure ⟨?_, _, hpassed.descend not_false, h'⟩)
        rw [h'.children, hchildren done id hturn, hlist hid]
      · have hsame := hother done id (by simpa [hfits] using hkind)
        refine ends_pure (ends_pure ⟨?_, _, hpassed.descend not_false, hsame ▸ h⟩)
        rw [h.children, ← hsame, hchildren done id hturn, hlist hid]
    · rw [hsize]
      exact (le_walkLimit (by omega)).trans (Nat.le_add_right _ _)
    · exact ⟨[], .start _ _, hstart ▸ .refl hf⟩
  obtain ⟨_, w', hrun, done, hpassed, h⟩ := (hwalk.succeeds hsafe).exists_ok
  have hdone (x : Nat) : x ∈ done ↔ w.forest.Under x root := by rw [hpassed.mem_done_iff hF, hunder]
  exact ⟨w', done, hrun, ((ends_iff.1 hsafe).1 _ _ hrun).1, hdone, h,
    h.parent_eq hf (hmem done fun x => (hdone x).1)⟩

end SqlDialect
