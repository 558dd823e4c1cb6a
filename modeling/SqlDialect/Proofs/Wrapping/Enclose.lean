import SqlDialect.Proofs.ControlFlow.Block
import SqlDialect.Proofs.Conversion.Build
import SqlDialect.Proofs.Conversion.Move
import SqlDialect.Proofs.Conversion.Preorder

/-!
# Nodes that come into a new one

To bracket or to wrap nodes is to put a new node into the place of some children of a node and the
children below it.  `Enclosed` says that this has been done at one place: the rest of the forest is
as it was, and below the new node there is nothing old but those children.  A new leaf is the case
in which no child is taken.

`Wraps f g` is what remains of any number of such changes: all nodes of `f` are in `g` as they were,
the same ones are reached from the root, and they come in the same order, white space apart.  White
space may come to stand elsewhere, since it is left out when children are taken.
-/

namespace SqlDialect.Forest

open List

variable {f g k : Forest} {a c id n p top x : Nat}
  {left ids right before after blanks rest : List Nat} {tree : SyntaxTree}

/-! ## What is visible -/

/-- The nodes under a node in pre-order, down to the given number of levels, without white space and
what is below it. -/
def visibleTo (f : Forest) : Nat → NodeId → List NodeId
  | 0, _ => []
  | levels + 1, id =>
    if f.isWhiteSpace id then [] else id :: (f.children id).flatMap (f.visibleTo levels)

/-- The nodes under a node in pre-order, without white space and what is below it. -/
def visible (f : Forest) (id : NodeId) : List NodeId :=
  f.visibleTo f.size id

lemma WellFormed.visibleTo_eq_of_le (hf : f.WellFormed) : ∀ {levels levels' id : Nat}, id < f.size →
    f.size ≤ f.depth id + levels → f.size ≤ f.depth id + levels' →
      f.visibleTo levels id = f.visibleTo levels' id
  | 0, _, id, hid, hlevels, _ => by
    have hdepth := hf.depth_lt_size hid
    omega
  | _ + 1, 0, id, hid, _, hlevels => by
    have hdepth := hf.depth_lt_size hid
    omega
  | levels + 1, levels' + 1, id, hid, hlevels, hlevels' => by
    have hchildren : (f.children id).flatMap (f.visibleTo levels) =
        (f.children id).flatMap (f.visibleTo levels') := by
      refine flatMap_congr fun c hc => ?_
      have hdepth := hf.depth_of_parent (hf.parent_of_mem hc)
      exact hf.visibleTo_eq_of_le (hf.child_lt hc) (by omega) (by omega)
    rw [visibleTo, visibleTo, hchildren]

lemma WellFormed.visible_eq (hf : f.WellFormed) (hid : id < f.size) :
    f.visible id = if f.isWhiteSpace id then [] else id :: (f.children id).flatMap f.visible := by
  have hone : f.visible id = f.visibleTo (f.size + 1) id :=
    hf.visibleTo_eq_of_le hid (by omega) (by omega)
  rw [hone, visibleTo]
  rfl

/-- White space has no part in what is visible. -/
lemma WellFormed.flatMap_visible (hf : f.WellFormed) (hids : ∀ c ∈ ids, c < f.size) :
    (ids.filter (!f.isWhiteSpace ·)).flatMap f.visible = ids.flatMap f.visible := by
  induction ids with
  | nil => rfl
  | cons c rest ih =>
    have hrest := ih fun b hb => hids b (.tail _ hb)
    rw [filter_cons, flatMap_cons, ← hrest]
    by_cases hc : f.isWhiteSpace c = true
    · simp [hc, hf.visible_eq (hids c mem_cons_self)]
    · simp [hc]

lemma WellFormed.under_of_mem_visible (hf : f.WellFormed) (hid : id < f.size)
    (hx : x ∈ f.visible id) : f.Under x id := by
  induction id using hf.induction_children with
  | _ id ih =>
    rw [hf.visible_eq hid] at hx
    split at hx
    · simp at hx
    · rcases mem_cons.1 hx with rfl | hx
      · exact .refl f x
      · obtain ⟨c, hc, hx⟩ := mem_flatMap.1 hx
        exact (ih c hc (hf.child_lt hc) hx).trans (under_of_parent (hf.parent_of_mem hc))

/-! ## Wrapping -/

/-- All nodes are still there as they were, those are reached from the root that were, and they come
in the same order, white space and what is below it apart. -/
structure Wraps (f g : Forest) : Prop where
  size_le : f.size ≤ g.size
  label_eq : ∀ x : Nat, x < f.size →
    g.tag x = f.tag x ∧ g.text x = f.text x ∧ g.attributes x = f.attributes x
  under_root_iff : ∀ x : Nat, x < f.size → (g.Under x root ↔ f.Under x root)
  visible_eq : (g.visible root).filter (· < f.size) = f.visible root

lemma Wraps.refl (hf : f.WellFormed) (hpos : 0 < f.size) : Wraps f f where
  size_le := le_rfl
  label_eq _ _ := ⟨rfl, rfl, rfl⟩
  under_root_iff _ _ := Iff.rfl
  visible_eq := filter_eq_self.2 fun _ hx =>
    decide_eq_true ((hf.under_of_mem_visible hpos hx).lt_size hpos)

lemma Wraps.trans (hfg : Wraps f g) (hgk : Wraps g k) : Wraps f k where
  size_le := hfg.size_le.trans hgk.size_le
  label_eq x hx := by
    obtain ⟨htag, htext, hattributes⟩ := hfg.label_eq x hx
    obtain ⟨htag', htext', hattributes'⟩ := hgk.label_eq x (hx.trans_le hfg.size_le)
    exact ⟨htag'.trans htag, htext'.trans htext, hattributes'.trans hattributes⟩
  under_root_iff x hx :=
    (hgk.under_root_iff x (hx.trans_le hfg.size_le)).trans (hfg.under_root_iff x hx)
  visible_eq := by
    rw [← hfg.visible_eq, ← hgk.visible_eq, filter_filter]
    refine filter_congr fun x _ => ?_
    have hle := hfg.size_le
    grind

/-- Above every node there is one without a parent. -/
lemma WellFormed.exists_top (hf : f.WellFormed) (x : Nat) : ∃ t, f.Under x t ∧
    f.parent t = none := by
  induction hn : f.depth x using Nat.strong_induction_on generalizing x with
  | _ n ih =>
    cases hp : f.parent x with
    | none => exact ⟨x, .refl f x, hp⟩
    | some p =>
      have hdepth := hf.depth_of_parent hp
      obtain ⟨t, hpt, ht⟩ := ih _ (by omega) p rfl
      exact ⟨t, (under_of_parent hp).trans hpt, ht⟩

/-- If every way up is still there and no node has got its first parent, the same nodes are under a
node without a parent. -/
lemma under_iff_of_below (hf : f.WellFormed) (hup : ∀ x p : Nat, f.parent x = some p → g.Below x p)
    (htop : ∀ x : Nat, x < f.size → f.parent x = none → g.parent x = none)
    (hnone : g.parent top = none) (hx : x < f.size) : g.Under x top ↔ f.Under x top := by
  have hkeeps : ∀ {y z : Nat}, f.Under y z → g.Under y z := by
    intro y z hyz
    induction hyz with
    | refl => exact .refl g y
    | tail _ hlast ih => exact ih.trans (hup _ _ hlast).under
  refine ⟨fun hunder => ?_, hkeeps⟩
  obtain ⟨t, hxt, ht⟩ := hf.exists_top x
  have htg := htop t (hf.lt_size_of_under hxt hx) ht
  -- of the two topmost nodes above `x` one is under the other, and so they are the same
  obtain htotal | htotal := (hkeeps hxt).total hunder
  · rw [under_iff_eq_of_parent_eq_none htg] at htotal
    rwa [← htotal]
  · rw [under_iff_eq_of_parent_eq_none hnone] at htotal
    rwa [htotal]

/-- New nodes have come between the node `c` and some of its children, and `top` is the first of
them: below it are the children `ids` and nothing else that is old. -/
structure Enclosed (f : Forest) (c : Nat) (left ids right : List Nat) (top : Nat) (g : Forest) :
    Prop where
  wellFormed : g.WellFormed
  size_le : f.size ≤ g.size
  lt_size : c < f.size
  label_eq : ∀ x : Nat, x < f.size →
    g.tag x = f.tag x ∧ g.text x = f.text x ∧ g.attributes x = f.attributes x
  perm : (left ++ ids ++ right).Perm (f.children c)
  filter_eq : (left ++ ids ++ right).filter (!f.isWhiteSpace ·) =
    (f.children c).filter (!f.isWhiteSpace ·)
  children_self : g.children c = left ++ top :: right
  children_eq : ∀ x : Nat, x < f.size → x ≠ c → g.children x = f.children x
  new : f.size ≤ top
  under_top : ∀ a ∈ ids, g.Under a top
  mem_of_new : ∀ x q : Nat, x < f.size → f.size ≤ q → g.parent x = some q → x ∈ ids
  visible_top : (g.visible top).filter (· < f.size) =
    ids.flatMap fun a => (g.visible a).filter (· < f.size)

namespace Enclosed

variable (h : Enclosed f c left ids right top g)
include h

lemma isWhiteSpace_eq (hx : x < f.size) : g.isWhiteSpace x = f.isWhiteSpace x := by
  rw [isWhiteSpace, is, (h.label_eq x hx).1, isWhiteSpace, is]

lemma mem_children {b : Nat} (hb : b ∈ left ++ ids ++ right) : b ∈ f.children c :=
  h.perm.mem_iff.1 hb

/-- What was below a node is below it. -/
lemma below (hf : f.WellFormed) (hx : f.parent x = some p) : g.Below x p := by
  have hlt := hf.parent_lt hx
  have hmem := hf.mem_children_iff.2 hx
  by_cases hp : p = c
  · subst hp
    have hparts : x ∈ left ++ ids ++ right := h.perm.mem_iff.2 hmem
    have htop := h.wellFormed.parent_of_split h.children_self
    simp only [mem_append] at hparts
    rcases hparts with (hx | hx) | hx
    · exact below_of_parent (h.wellFormed.parent_of_mem (by simp [h.children_self, hx]))
    · exact (h.under_top x hx).trans_below (below_of_parent htop)
    · exact below_of_parent (h.wellFormed.parent_of_mem (by simp [h.children_self, hx]))
  · rw [← h.children_eq p hlt hp] at hmem
    exact below_of_parent (h.wellFormed.parent_of_mem hmem)

/-- No old node has got its first parent. -/
lemma parent_eq_none (hf : f.WellFormed) (hx : x < f.size) (hnone : f.parent x = none) :
    g.parent x = none := by
  by_contra hsome
  obtain ⟨q, hq⟩ := Option.ne_none_iff_exists'.1 hsome
  have hmem := h.wellFormed.mem_children_iff.2 hq
  have hold : ∃ p, x ∈ f.children p := by
    by_cases hlt : q < f.size
    · by_cases hqc : q = c
      · rw [hqc, h.children_self] at hmem
        have hne : x ≠ top := fun heq => absurd h.new (by omega)
        refine ⟨c, h.mem_children ?_⟩
        simp only [mem_append, mem_cons, hne, false_or] at hmem ⊢
        tauto
      · exact ⟨q, h.children_eq q hlt hqc ▸ hmem⟩
    · have hids := h.mem_of_new x q hx (Nat.le_of_not_lt hlt) hq
      exact ⟨c, h.mem_children (by simp [hids])⟩
  obtain ⟨p, hp⟩ := hold
  rw [hf.parent_of_mem hp] at hnone
  cases hnone

/-- The old nodes that are visible under an old node are those that were. -/
lemma filter_visible (hf : f.WellFormed) (hx : x < f.size) :
    (g.visible x).filter (· < f.size) = f.visible x := by
  induction x using hf.induction_children with
  | _ x ih =>
    have hview : ∀ c ∈ f.children x, (g.visible c).filter (· < f.size) = f.visible c := fun c hc =>
      ih c hc (hf.child_lt hc)
    have hchildren : ((g.children x).flatMap g.visible).filter (· < f.size) =
        (f.children x).flatMap f.visible := by
      rw [filter_flatMap]
      by_cases hxc : x = c
      · subst hxc
        have hparts : ∀ b ∈ left ++ ids ++ right, b < f.size := fun b hb =>
          hf.child_lt (h.mem_children hb)
        calc (g.children x).flatMap (fun b => (g.visible b).filter (· < f.size))
            = (left ++ ids ++ right).flatMap fun b => (g.visible b).filter (· < f.size) := by
              simp [h.children_self, h.visible_top, flatMap_append]
          _ = (left ++ ids ++ right).flatMap f.visible :=
              flatMap_congr fun b hb => hview b (h.mem_children hb)
          _ = (f.children x).flatMap f.visible := by
              rw [← hf.flatMap_visible hparts, h.filter_eq,
                hf.flatMap_visible fun b hb => hf.child_lt hb]
      · rw [h.children_eq x hx hxc]
        exact flatMap_congr hview
    rw [h.wellFormed.visible_eq (hx.trans_le h.size_le), hf.visible_eq hx, h.isWhiteSpace_eq hx]
    split
    · rfl
    · rw [filter_cons_of_pos (by simpa using hx), hchildren]

lemma wraps (hf : f.WellFormed) (hpos : 0 < f.size) (hroot : f.parent root = none) : Wraps f g where
  size_le := h.size_le
  label_eq := h.label_eq
  under_root_iff _ hx :=
    under_iff_of_below hf (fun _ _ => h.below hf) (fun _ => h.parent_eq_none hf)
    (h.parent_eq_none hf hpos hroot) hx
  visible_eq := h.filter_visible hf hpos

end Enclosed

/-! ## Leaves, blocks and brackets -/

/-- A new tree is a wrapping of nothing. -/
lemma Planted.enclosed (h : Planted f p before after n tree g) (hf : f.WellFormed)
    (hchildren : f.children p = before ++ after) : Enclosed f p before [] after n g where
  wellFormed := h.wellFormed
  size_le := h.size_le
  lt_size := h.lt_size
  label_eq x hx :=
    ⟨h.field_eq Node.tag (fun _ _ => rfl) hx, h.field_eq Node.text (fun _ _ => rfl) hx,
    h.field_eq Node.attributes (fun _ _ => rfl) hx⟩
  perm := by rw [hchildren, append_nil]
  filter_eq := by rw [hchildren, append_nil]
  children_self := by rw [h.children_eq h.lt_size, if_pos rfl]
  children_eq x hx hxp := by rw [h.children_eq hx, if_neg hxp]
  new := h.new
  under_top := by simp
  mem_of_new x q hx hq hparent := by
    rw [h.parent_eq hx] at hparent
    exact absurd (hf.parent_lt hparent) (Nat.not_lt.2 hq)
  visible_top := by
    rw [flatMap_nil, filter_eq_nil_iff]
    intro x hx hlt
    have hn := lt_size_of_parent h.parent_new
    exact h.not_under hf (by simpa using hlt) (h.wellFormed.under_of_mem_visible hn hx)

/-- A new node shows what its children show. -/
lemma Rebuilt.visible_new {new : List Node} {node : Node} {i : Nat} (h : Rebuilt f c left new g)
    (hi : new[i]? = some node) (htag : node.tag ≠ .whiteSpace) :
    (g.visible (f.size + i)).filter (· < f.size) =
      node.children.flatMap fun a => (g.visible a).filter (· < f.size) := by
  have hcontent : g.content (f.size + i) = node := by
    rw [h.content_new, getD_eq_getElem?_getD, hi, Option.getD_some]
  have hblank : g.isWhiteSpace (f.size + i) = false := by
    have htag' : g.tag (f.size + i) = node.tag := (congrArg Node.tag hcontent :)
    simp [isWhiteSpace, is, htag', htag]
  have hchildren : g.children (f.size + i) = node.children := (congrArg Node.children hcontent :)
  have hlt : f.size + i < g.size := by
    rw [h.size_eq]
    exact Nat.add_lt_add_left (List.getElem?_eq_some_iff.1 hi).1 _
  rw [h.wellFormed.visible_eq hlt, hblank, hchildren]
  simp [filter_flatMap]

/-- New nodes enclose the children that have come below them. -/
lemma Rebuilt.enclosed {new : List Node} (h : Rebuilt f c (left ++ f.size :: right) new g)
    (hperm : (left ++ ids ++ right).Perm (f.children c))
    (hfilter : (left ++ ids ++ right).filter (!f.isWhiteSpace ·) =
      (f.children c).filter (!f.isWhiteSpace ·))
    (hunder : ∀ a ∈ ids, g.Under a f.size)
    (hold : ∀ node ∈ new, ∀ a ∈ node.children, a < f.size → a ∈ ids)
    (hvisible : (g.visible f.size).filter (· < f.size) =
      ids.flatMap fun a => (g.visible a).filter (· < f.size)) :
    Enclosed f c left ids right f.size g where
  wellFormed := h.wellFormed
  size_le := by rw [h.size_eq]; omega
  lt_size := h.lt_size
  label_eq x hx := h.label_eq hx
  perm := hperm
  filter_eq := hfilter
  children_self := h.children_self
  children_eq x hx hxc := (congrArg Node.children (h.content_old hx hxc) :)
  new := le_rfl
  under_top := hunder
  mem_of_new x q hx hq hparent := by
    obtain ⟨node, hnode, hmem⟩ := h.exists_new hq (h.wellFormed.mem_children_iff.2 hparent)
    exact hold node hnode x hmem hx
  visible_top := hvisible

/-- A block encloses all children of its container. -/
lemma Blocked.enclosed (h : Blocked f c g) : Enclosed f c [] (f.children c) [] f.size g := by
  have hup {i b : Nat} (hb : b ∈ ((blockNodes f.size (f.children c)).getD i {}).children) :
      g.Under b (f.size + i) := by
    rw [← h.content_new] at hb
    exact under_of_parent (h.wellFormed.parent_of_mem hb)
  refine Rebuilt.enclosed (show Rebuilt f c ([] ++ f.size :: []) _ g from h) (by simp) (by simp)
    (fun a ha => ?_) ?_ ?_
  · have hbody : g.Under a (f.size + 5) := hup ha
    have hblock : g.Under (f.size + 5) (f.size + 2) := hup (by simp [blockNodes, openBlock])
    have hclause : g.Under (f.size + 2) (f.size + 1) := hup (by simp [blockNodes, openBlock])
    have htop : g.Under (f.size + 1) f.size := hup (i := 0) (by simp [blockNodes, openBlock])
    exact hbody.trans (hblock.trans (hclause.trans htop))
  · simp +contextual [blockNodes, openBlock]
  · have htag : ∀ node ∈ blockNodes f.size (f.children c), node.tag ≠ .whiteSpace := by
      simp [blockNodes, openBlock]
    have hnew (i : Nat) {node : Node} (hi : (blockNodes f.size (f.children c))[i]? = some node) :=
      h.visible_new hi (htag node (mem_of_getElem? hi))
    rw [show (g.visible f.size).filter (· < f.size) = _ from hnew 0 rfl]
    simp [hnew 1 rfl, hnew 2 rfl, hnew 3 rfl, hnew 4 rfl, hnew 5 rfl, hnew 6 rfl, hnew 7 rfl]

/-- New brackets enclose the nodes that are moved into them. Only white space comes to stand after
the nodes that were behind it. -/
lemma Rebuilt.bracketed {node : Node}
    (h : Rebuilt f p (before ++ f.size :: (blanks ++ rest)) [node] g) (hnode : node.children = ids)
    (htag : node.tag ≠ .whiteSpace) (hchildren : f.children p = before ++ (blanks ++ (ids ++ rest)))
    (hblanks : ∀ b ∈ blanks, f.isWhiteSpace b = true) :
    Enclosed f p before ids (blanks ++ rest) f.size g := by
  subst hnode
  have hinner : g.content f.size = node := h.content_new 0
  refine h.enclosed ?_ ?_ (fun a ha => ?_) ?_ (h.visible_new (i := 0) rfl htag)
  · rw [hchildren, append_assoc]
    refine List.Perm.append_left before ?_
    rw [← append_assoc, ← append_assoc]
    exact List.Perm.append_right rest perm_append_comm
  · have hnone : blanks.filter (!f.isWhiteSpace ·) = [] := by
      rw [filter_eq_nil_iff]
      simpa using hblanks
    simp [hchildren, filter_append, hnone]
  · rw [← hinner] at ha
    exact under_of_parent (h.wellFormed.parent_of_mem ha)
  · simp +contextual

end SqlDialect.Forest
