import SqlDialect.Proofs.Conversion.Content

/-!
# New nodes at a node

Some conversions make a few new nodes, move children of one node into them and hang them up in the
list of that node.  `Rebuilt f c top new g` is the invariant that is carried from step to step: the
nodes `new` have come after those of `f`, the node `c` has the children `top`, and all others are as
they were.  Seen from outside of `c` nothing has changed then (`Rebuilt.grafted`).
-/

namespace SqlDialect

open List

namespace Forest

variable {f g : Forest} {a c i n x : Nat} {ids top : List Nat} {new : List Node}
  {node : Node} {tag : Tag} {text : String}

/-- What the nodes hold once the children of `c` are `top` and there are the nodes `new` after all
others. -/
def rebuilt (f : Forest) (c : Nat) (top : List Nat) (new : List Node) (x : Nat) : Node :=
  if x < f.size then relist f.content c top x else new.getD (x - f.size) {}

lemma rebuilt_old (hx : x < f.size) : f.rebuilt c top new x = relist f.content c top x := if_pos hx

lemma rebuilt_new (k : Nat) : f.rebuilt c top new (f.size + k) = new.getD k {} := by
  rw [rebuilt, if_neg (by omega), Nat.add_sub_cancel_left]

lemma relist_rebuilt_top (hc : c < f.size) :
    relist (f.rebuilt c top new) c ids = f.rebuilt c ids new := by
  funext x
  by_cases hx : x < f.size
  · rw [relist, rebuilt_old hx, rebuilt_old hx]
    by_cases hxc : x = c <;> simp [relist, hxc]
  · rw [relist, if_neg (by omega), rebuilt, rebuilt, if_neg hx, if_neg hx]

lemma relist_rebuilt_new (hi : new[i]? = some node) : relist (f.rebuilt c top new)
    (f.size + i) ids = f.rebuilt c top (new.set i { node with children := ids }) := by
  funext x
  by_cases hx : x < f.size
  · rw [relist, if_neg (by omega), rebuilt_old hx, rebuilt_old hx]
  · obtain ⟨k, rfl⟩ := Nat.exists_eq_add_of_le (not_lt.1 hx)
    have hlt := (List.getElem?_eq_some_iff.1 hi).1
    rw [relist, rebuilt_new, rebuilt_new, getD_eq_getElem?_getD,
      getD_eq_getElem?_getD, getElem?_set]
    by_cases hki : k = i
    · subst hki
      rw [hi, if_pos rfl, if_pos hlt]
      simp
    · simp [hki, Ne.symm hki]

lemma label_rebuilt : label (f.rebuilt c top new) (f.size + new.length) tag text =
    f.rebuilt c top (new ++ [{ tag := tag, text }]) := by
  funext x
  have hother (hne : x ≠ f.size + new.length) :
      label (f.rebuilt c top new) (f.size + new.length) tag text x =
      f.rebuilt c top new x := by simp [label, retag, retext, hne]
  by_cases hx : x < f.size
  · rw [hother (by omega), rebuilt_old hx, rebuilt_old hx]
  · obtain ⟨k, rfl⟩ := Nat.exists_eq_add_of_le (not_lt.1 hx)
    by_cases hk : k = new.length
    · simp [hk, label, retag, retext, rebuilt_new]
    · rw [hother (by omega), rebuilt_new, rebuilt_new, getD_eq_getElem?_getD, getD_eq_getElem?_getD,
        getElem?_append]
      grind

/-- There are new nodes, and `c` has the children `top`. -/
structure Rebuilt (f : Forest) (c : Nat) (top : List Nat) (new : List Node) (g : Forest) : Prop
    extends Shows g (f.size + new.length) (f.rebuilt c top new) where
  lt_size : c < f.size

namespace Rebuilt

lemma refl (hf : f.WellFormed) (hc : c < f.size) : Rebuilt f c (f.children c) [] f := by
  refine ⟨⟨hf, rfl, fun x => ?_⟩, hc⟩
  by_cases hx : x < f.size
  · rw [rebuilt_old hx]
    exact (congrFun (relist_self rfl) x).symm
  · rw [rebuilt, if_neg hx, content, node_of_size_le (by omega)]
    rfl

variable (h : Rebuilt f c top new g)
include h

lemma children_self : g.children c = top := by
  rw [h.children, rebuilt_old h.lt_size, children_relist]

lemma content_old (hx : x < f.size) (hne : x ≠ c) : g.content x = f.content x := by
  rw [h.content_eq, rebuilt_old hx, relist, if_neg hne]

lemma content_new (k : Nat) : g.content (f.size + k) = new.getD k {} := by
  rw [h.content_eq, rebuilt_new]

lemma label_eq (hx : x < f.size) :
    g.tag x = f.tag x ∧ g.text x = f.text x ∧ g.attributes x = f.attributes x := by
  have hcontent := h.content_eq x
  rw [rebuilt_old hx] at hcontent
  exact ⟨(congrArg Node.tag hcontent :), (congrArg Node.text hcontent :),
    (congrArg Node.attributes hcontent :)⟩

lemma subtree_new (k : Nat) :
    g.subtree (f.size + k) = .node (new.getD k {}).tag (new.getD k {}).text
    (new.getD k {}).attributes ((new.getD k {}).children.map g.subtree) := by
  rw [h.subtree, rebuilt_new]

lemma subtree_of_child (hf : f.WellFormed) (ha : a ∈ f.children c) : g.subtree a = f.subtree a := by
  have hparent := hf.parent_of_mem ha
  refine h.subtree_eq hf fun y hy => ?_
  rw [← h.content_eq, h.content_old (hy.lt_size (lt_size_of_parent hparent))]
  rintro rfl
  exact hf.not_under_of_child hparent hy

/-- Nothing has changed under a child that stays. -/
lemma node_eq_of_kept {y : Nat} (hf : f.WellFormed) (ha : f.parent a = some c) (hmem : a ∈ top)
    (hy : f.Under y a) : g.node y = f.node y := by
  have hne {z : Nat} (hz : f.Under z a) : z ≠ c := by
    rintro rfl
    exact hf.not_under_of_child ha hz
  have hlt {z : Nat} (hz : f.Under z a) : z < f.size := hz.lt_size (lt_size_of_parent ha)
  have hparent : g.parent y = f.parent y := by
    obtain rfl | hbelow := under_iff_eq_or_below.1 hy
    · rw [ha, h.wellFormed.parent_of_mem (by rwa [h.children_self])]
    · obtain ⟨p, hp, hpa⟩ := below_iff.1 hbelow
      have hlist : g.children p = f.children p :=
        (congrArg Node.children (h.content_old (hlt hpa) (hne hpa)) :)
      rw [hp, h.wellFormed.parent_of_mem (by rwa [hlist, hf.mem_children_iff])]
  rw [h.node_eq, ← h.content_eq, h.content_old (hlt hy) (hne hy), hparent]
  rfl

/-- What is in the list of a new node is known from the new nodes. -/
lemma exists_new {q : Nat} (hq : f.size ≤ q) (ha : a ∈ g.children q) :
    ∃ node ∈ new, a ∈ node.children := by
  obtain ⟨k, rfl⟩ := Nat.exists_eq_add_of_le hq
  rw [h.children, rebuilt_new, getD_eq_getElem?_getD] at ha
  cases hnode : new[k]? with
  | none => simp [hnode] at ha
  | some node => exact ⟨node, mem_of_getElem? hnode, by simpa [hnode] using ha⟩

/-- If the node has only got such nodes as are new or were its children, only it has changed. -/
lemma grafted (hf : f.WellFormed) (htop : ∀ a ∈ top, a < f.size → a ∈ f.children c)
    (hnew : ∀ node ∈ new, ∀ a ∈ node.children, a < f.size → a ∈ f.children c) :
    Grafted f c (.node (f.tag c) (f.text c) (f.attributes c) (top.map g.subtree)) g := by
  obtain ⟨htag, htext, hattributes⟩ := h.label_eq h.lt_size
  rw [← htag, ← htext, ← hattributes, ← h.children_self, ← h.wellFormed.subtree_eq]
  refine h.toShows.grafted hf h.lt_size (by omega) (fun y hy hnot => ?_) fun q a hq ha hlt => ?_
  · rw [← h.content_eq, h.content_old hy]
    rintro rfl
    exact hnot (.refl f y)
  · rw [← h.children] at ha
    by_cases hold : q < f.size
    · by_cases hqc : q = c
      · rw [hqc, h.children_self] at ha
        exact below_of_parent (hf.parent_of_mem (htop a ha hlt))
      · have hsame : g.children q = f.children q :=
          (congrArg Node.children (h.content_old hold hqc) :)
        rw [hsame] at ha
        exact .of_parent_under (hf.parent_of_mem ha) (hq.resolve_right (by omega))
    · obtain ⟨node, hnode, ha⟩ := h.exists_new (not_lt.1 hold) ha
      exact below_of_parent (hf.parent_of_mem (hnew node hnode a ha hlt))

end Rebuilt

end Forest

open Forest

namespace Conversion

variable {w : Workspace} {f : Forest} {c i k mark : Nat} {before after ids top : List Nat}
  {new : List Node}
  {node : Node} {tag : Tag} {text : String} {E : ConversionError → Workspace → Prop}

section

variable (h : Rebuilt f c top new w.forest)
include h

lemma create_rebuilt (hk : new.length = k) :
    Ends (create tag text) w (fun id w' => id = f.size + k ∧
    Rebuilt f c top (new ++ [{ tag := tag, text }]) w'.forest) E := by
  subst hk
  refine (create_shows h.toShows tag text).imp fun id w' h' => ⟨h'.1, ⟨?_, h.lt_size⟩⟩
  rw [length_append, ← label_rebuilt]
  exact h'.2

lemma append_new (hi : new[i]? = some node) (hk : new.length = k) :
    Ends (append (f.size + i) tag text) w (fun id w' => id = f.size + k ∧ Rebuilt f c top
      (new.set i { node with children := node.children ++ [f.size + k] } ++ [{ tag := tag, text }])
        w'.forest) E := by
  subst hk
  have hlt := (List.getElem?_eq_some_iff.1 hi).1
  have hlist : (f.rebuilt c top new (f.size + i)).children = node.children := by
    rw [rebuilt_new, getD_eq_getElem?_getD, hi]
    rfl
  refine (append_shows h.toShows hlist (by omega)).imp fun id w' h' => ⟨h'.1, ⟨?_, h.lt_size⟩⟩
  have h' := h'.2
  rw [label_rebuilt, relist_rebuilt_new (by rw [getElem?_append_left hlt, hi]),
    set_append_left _ _ hlt] at h'
  simpa [Nat.add_assoc] using h'

lemma append_top (hk : new.length = k) : Ends (append c tag text) w (fun id w' => id = f.size + k ∧
    Rebuilt f c (top ++ [f.size + k]) (new ++ [{ tag := tag, text }]) w'.forest) E := by
  subst hk
  have hlt := h.lt_size
  have hlist := (h.children c).symm.trans h.children_self
  refine (append_shows h.toShows hlist (by omega)).imp fun id w' h' => ⟨h'.1, ⟨?_, hlt⟩⟩
  have h' := h'.2
  rw [label_rebuilt, relist_rebuilt_top hlt] at h'
  simpa [Nat.add_assoc] using h'

lemma addChild_top (hi : i < new.length) : Does (addChild c (f.size + i)) w fun _ w' =>
    Rebuilt f c (top ++ [f.size + i]) new w'.forest := by
  have hlt := h.lt_size
  refine (addChild_shows h.toShows (by omega) (by omega)).imp
    fun _ w' h' => ⟨?_, hlt⟩
  rwa [← h.children, h.children_self, relist_rebuilt_top hlt] at h'

lemma insertNewAfter_top (before after : List Nat) (htop : top = before ++ mark :: after)
    (hk : new.length = k) : Does (insertNewAfter c tag text mark) w fun id w' => id = f.size + k ∧
      Rebuilt f c (before ++ mark :: (f.size + k) :: after) (new ++ [{ tag := tag, text }])
        w'.forest := by
  subst hk
  have hlist := ((h.children c).symm.trans h.children_self).trans htop
  refine (insertNewAfter_shows h.toShows before after hlist).imp fun id w' h' =>
    ⟨h'.1, ⟨?_, h.lt_size⟩⟩
  have h' := h'.2
  rw [label_rebuilt, relist_rebuilt_top h.lt_size] at h'
  simpa [Nat.add_assoc] using h'

/-- Children of `c` come to the end of a new node. -/
lemma moveAllTo_new (before after : List Nat) (hi : new[i]? = some node)
    (htop : top = before ++ ids ++ after) :
    Does (moveAllTo (f.size + i) ids) w fun _ w' => Rebuilt f c (before ++ after)
      (new.set i { node with children := node.children ++ ids }) w'.forest := by
  have hlt := h.lt_size
  have hilt := (List.getElem?_eq_some_iff.1 hi).1
  have hlist := ((h.children c).symm.trans h.children_self).trans htop
  have hnodup := h.wellFormed.nodup_children c
  rw [h.children_self, htop] at hnodup
  have hids (a : Nat) (ha : a ∈ ids) : a ∈ (f.rebuilt c top new c).children := by simp [hlist, ha]
  have hself : ids.Nodup := (nodup_append.1 (nodup_append.1 hnodup).1).2.1
  refine (moveAllTo_shows h.toShows (by omega) hself fun a ha => ?_).imp
    fun _ w' h' => ⟨?_, hlt⟩
  · exact h.toShows.lt_size (hids a ha)
  · have hleft : (before ++ ids ++ after).filter (· ∉ ids) = before ++ after := by
      simp only [nodup_append, mem_append] at hnodup
      rw [filter_append, filter_append, filter_eq_self.2, filter_eq_nil_iff.2, filter_eq_self.2,
        append_nil] <;> grind
    have hnode : (f.rebuilt c (before ++ after) new (f.size + i)).children = node.children := by
      rw [rebuilt_new, getD_eq_getElem?_getD, hi]
      rfl
    rw [h.without_eq hids, hlist, hleft, relist_rebuilt_top hlt, hnode, relist_rebuilt_new hi] at h'
    simpa using h'

end

end Conversion

end SqlDialect
