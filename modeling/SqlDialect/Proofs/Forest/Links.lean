import SqlDialect.Proofs.Forest.Edits

/-!
# The operations on links

For each operation that attaches or detaches a node: when it is carried out, and that it then
leaves a well-formed forest in which only the parent of that node has changed.  An operation that
is refused changes nothing.
-/

namespace SqlDialect.Forest

open List

variable {f g : Forest} {id c p x mark : Nat}

/-! ## Labels -/

/-- The links of the two forests are the same. -/
structure SameLinks (f g : Forest) : Prop where
  size_eq : g.size = f.size
  parent_eq : ∀ x : Nat, g.parent x = f.parent x
  children_eq : ∀ x : Nat, g.children x = f.children x

lemma SameLinks.wellFormed (h : SameLinks f g) (hf : f.WellFormed) : g.WellFormed :=
  hf.of_same_links h.size_eq.ge h.parent_eq h.children_eq

/-- A field that a change of one node keeps is kept everywhere. -/
lemma field_update {α : Type} (field : Node → α) {change : Node → Node}
    (hkeep : ∀ n, field (change n) = field n) (id x : Nat) :
    field ((f.update id change).node x) = field (f.node x) := by
  rw [node_update]
  split
  · exact hkeep _
  · rfl

lemma sameLinks_update {change : Node → Node} (hparent : ∀ n, (change n).parent = n.parent)
    (hchildren : ∀ n, (change n).children = n.children) (id : Nat) :
    SameLinks f (f.update id change) where
  size_eq := size_update f id change
  parent_eq := field_update Node.parent hparent id
  children_eq := field_update Node.children hchildren id

lemma sameLinks_setTag (f : Forest) (id : Nat) (tag : Tag) : SameLinks f (f.setTag id tag) := by
  rw [setTag]
  refine sameLinks_update ?_ ?_ id <;> exact fun _ => rfl

lemma sameLinks_setText (f : Forest) (id : Nat) (text : String) :
    SameLinks f (f.setText id text) := by
  rw [setText]
  refine sameLinks_update ?_ ?_ id <;> exact fun _ => rfl

lemma sameLinks_setAttribute (f : Forest) (id : Nat) (key value : String) :
    SameLinks f (f.setAttribute id key value) := by
  rw [setAttribute]
  refine sameLinks_update ?_ ?_ id <;> exact fun _ => rfl

lemma sameLinks_removeAttribute (f : Forest) (id : Nat) (key : String) :
    SameLinks f (f.removeAttribute id key) := by
  rw [removeAttribute]
  refine sameLinks_update ?_ ?_ id <;> exact fun _ => rfl

lemma tag_setText (f : Forest) (id : Nat) (text : String) (x : Nat) :
    (f.setText id text).tag x = f.tag x := by
  rw [Forest.tag, setText, field_update Node.tag (by exact fun _ => rfl) id x]
  rfl

lemma tag_setTag_of_ne (f : Forest) {id : Nat} (tag : Tag) (hne : x ≠ id) :
    (f.setTag id tag).tag x = f.tag x := by
  rw [Forest.tag, setTag, node_update, if_neg fun h => hne h.1, Forest.tag]

/-! ## New nodes -/

lemma parent_create (f : Forest) (tag : Tag) (text : String) (x : Nat) :
    (f.create tag text).2.parent x = f.parent x := by
  rw [create, parent, node_push]
  split
  · rename_i heq
    exact (parent_of_size_le (Nat.le_of_eq heq.symm)).symm
  · rfl

lemma tag_create (f : Forest) (tag : Tag) (text : String) (x : Nat) :
    (f.create tag text).2.tag x = if x = f.size then tag else f.tag x := by
  rw [create, Forest.tag, node_push]
  split <;> rfl

@[simp] lemma size_create (f : Forest) (tag : Tag) (text : String) :
    (f.create tag text).2.size = f.size + 1 :=
  size_push f _

lemma WellFormed.create (hf : f.WellFormed) (tag : Tag) (text : String) :
    (f.create tag text).2.WellFormed :=
  hf.push rfl rfl

/-! ## Attaching -/

/-- To place a node that has no parent, and is not above its new parent, among the children there
gives a well-formed forest. -/
lemma WellFormed.place (hf : f.WellFormed) (hp : p < f.size) (hc : c < f.size)
    (hnone : f.parent c = none) (hoff : ¬ f.Under p c) {arrange : List NodeId → List NodeId}
    (hperm : (arrange (f.children p)).Perm (c :: f.children p)) :
    (f.place p c arrange).WellFormed ∧ Relinked f (f.place p c arrange) [c] (some p) := by
  have hne : c ≠ p := fun heq => hoff (heq ▸ Under.refl f p)
  have hnode := node_place f arrange hp hc hne
  have hparent : ∀ x : Nat, (f.place p c arrange).parent x =
      if x = c then some p else f.parent x := by
    intro x
    simp only [parent, hnode]
    grind
  have hchildren : (f.place p c arrange).children p = arrange (f.children p) := by
    simp [children, hnode, Ne.symm hne]
  have hfresh : c ∉ f.children p := fun hmem => by
    rw [hf.parent_of_mem hmem] at hnone
    cases hnone
  refine ⟨hf.attach (size_place ..) hp hc hnone hoff hparent ?_ ?_ ?_, size_place .., ?_, ?_, ?_,
    ?_⟩
  · intro x hx
    simp only [children, hnode]
    grind
  · intro x
    rw [hchildren, hperm.mem_iff, mem_cons]
  · rw [hchildren, hperm.nodup_iff, nodup_cons]
    exact ⟨hfresh, hf.nodup_children p⟩
  · intro x
    simp only [hparent, mem_singleton]
  · intro x
    simp only [tag, hnode]
    grind
  · intro x
    simp only [text, hnode]
    grind
  · intro x
    simp only [attributes, hnode]
    grind

/-- The checks before an attachment ask for a node without a parent that is not above its new
parent. -/
lemma WellFormed.checkAttachable_eq_ok_iff (hf : f.WellFormed) :
    f.checkAttachable p c = .ok () ↔ f.parent c = none ∧ ¬ f.Under p c := by
  rw [checkAttachable]
  cases hc : f.parent c with
  | some q => simp
  | none =>
    simp only [true_and]
    split
    · rename_i hmem
      simp [hf.mem_self_ancestors_iff.1 hmem]
    · rename_i hmem
      simp only [true_iff]
      exact fun hunder => hmem (hf.mem_self_ancestors_iff.2 hunder)

lemma WellFormed.addChild_eq (hf : f.WellFormed) (hnone : f.parent c = none)
    (hoff : ¬ f.Under p c) : f.addChild p c = .ok (f.placeLast p c) := by
  rw [addChild, hf.checkAttachable_eq_ok_iff.2 ⟨hnone, hoff⟩]
  rfl

lemma addChild_eq_ok (h : f.addChild p c = .ok g) :
    f.checkAttachable p c = .ok () ∧ g = f.placeLast p c := by
  rw [addChild] at h
  cases hcheck : f.checkAttachable p c with
  | error e => rw [hcheck] at h; cases h
  | ok u =>
    rw [hcheck] at h
    exact ⟨rfl, (Except.ok.inj h).symm⟩

lemma insertAt_eq_ok {arrange : List NodeId → List NodeId → List NodeId}
    (h : f.insertAt p c mark arrange = .ok g) :
    f.checkAttachable p c = .ok () ∧ ∃ before after,
      f.children p = before ++ mark :: after ∧ g = f.place p c fun _ => arrange before after := by
  rw [insertAt] at h
  cases hcheck : f.checkAttachable p c with
  | error e => rw [hcheck] at h; cases h
  | ok u =>
    rw [hcheck] at h
    cases hsplit : splitAround mark (f.children p) with
    | none => simp [hsplit, bind, Except.bind, throw, throwThe, MonadExceptOf.throw] at h
    | some parts =>
      obtain ⟨before, after⟩ := parts
      simp only [hsplit, bind, Except.bind] at h
      exact ⟨rfl, before, after, splitAround_eq_some hsplit, (Except.ok.inj h).symm⟩

lemma WellFormed.insertAt_eq_place {arrange : List NodeId → List NodeId → List NodeId}
    {before after : List Nat} (hf : f.WellFormed) (hnone : f.parent c = none) (hoff : ¬ f.Under p c)
    (hlist : f.children p = before ++ mark :: after) :
    f.insertAt p c mark arrange = .ok (f.place p c fun _ => arrange before after) := by
  rw [insertAt, hf.checkAttachable_eq_ok_iff.2 ⟨hnone, hoff⟩, hlist,
    splitAround_eq_of_nodup (hlist ▸ hf.nodup_children p)]
  rfl

lemma WellFormed.insertAt_eq {arrange : List NodeId → List NodeId → List NodeId}
    (hf : f.WellFormed) (hnone : f.parent c = none) (hoff : ¬ f.Under p c)
    (hmark : f.parent mark = some p) :
    ∃ before after, f.children p = before ++ mark :: after ∧
      f.insertAt p c mark arrange = .ok (f.place p c fun _ => arrange before after) := by
  obtain ⟨before, after, hlist⟩ := append_of_mem (hf.mem_children_iff.2 hmark)
  exact ⟨before, after, hlist, hf.insertAt_eq_place hnone hoff hlist⟩

/-- A refused mark: the place is given by a node that is no child of the parent. -/
lemma WellFormed.insertAt_eq_error {arrange : List NodeId → List NodeId → List NodeId}
    (hf : f.WellFormed) (hnone : f.parent c = none) (hoff : ¬ f.Under p c)
    (hmark : f.parent mark ≠ some p) :
    f.insertAt p c mark arrange = .error (.notAChild mark p) := by
  rw [insertAt, hf.checkAttachable_eq_ok_iff.2 ⟨hnone, hoff⟩,
    splitAround_eq_none_iff.2 fun hmem => hmark (hf.parent_of_mem hmem)]
  rfl

lemma insertBefore_perm (before after : List Nat) (c mark : Nat) :
    (before ++ c :: mark :: after).Perm (c :: (before ++ mark :: after)) :=
  perm_middle

lemma insertAfter_perm (before after : List Nat) (c mark : Nat) :
    (before ++ mark :: c :: after).Perm (c :: (before ++ mark :: after)) :=
  ((List.Perm.swap c mark after).append_left before).trans perm_middle

/-- What an attachment leaves: a well-formed forest in which the node has its new parent. -/
lemma WellFormed.addChild (hf : f.WellFormed) (hp : p < f.size) (hc : c < f.size)
    (h : f.addChild p c = .ok g) : g.WellFormed ∧ Relinked f g [c] (some p) := by
  obtain ⟨hcheck, rfl⟩ := addChild_eq_ok h
  obtain ⟨hnone, hoff⟩ := hf.checkAttachable_eq_ok_iff.1 hcheck
  exact hf.place hp hc hnone hoff (perm_append_comm.trans (by simp))

/-- A node that has just been made has no parent, and nothing is under it. -/
lemma WellFormed.create_apart (hf : f.WellFormed) (hp : p < f.size) (tag : Tag) (text : String) :
    (f.create tag text).2.parent f.size = none ∧ ¬ (f.create tag text).2.Under p f.size := by
  refine ⟨by rw [parent_create, parent_of_size_le le_rfl], ?_⟩
  rw [under_congr fun z _ => parent_create f tag text z]
  exact fun hunder => lt_irrefl _ (hf.lt_size_of_under hunder hp)

lemma WellFormed.append (hf : f.WellFormed) (hp : p < f.size) (tag : Tag) (text : String) :
    (f.append p tag text).2.WellFormed := by
  have hcreate := hf.create tag text
  have hsize := size_create f tag text
  obtain ⟨hnone, hoff⟩ := hf.create_apart hp tag text
  exact (hcreate.addChild (by omega) (by omega) (hcreate.addChild_eq hnone hoff)).1

private lemma WellFormed.insertAt {arrange : List NodeId → List NodeId → List NodeId}
    (hperm : ∀ before after, (arrange before after).Perm (c :: (before ++ mark :: after)))
    (hf : f.WellFormed) (hp : p < f.size) (hc : c < f.size)
    (h : f.insertAt p c mark arrange = .ok g) : g.WellFormed ∧ Relinked f g [c] (some p) := by
  obtain ⟨hcheck, before, after, hchildren, rfl⟩ := insertAt_eq_ok h
  obtain ⟨hnone, hoff⟩ := hf.checkAttachable_eq_ok_iff.1 hcheck
  exact hf.place hp hc hnone hoff (hchildren ▸ hperm before after)

section

variable (hf : f.WellFormed)
include hf

lemma WellFormed.insertBefore (hp : p < f.size) (hc : c < f.size)
    (h : f.insertBefore p c mark = .ok g) : g.WellFormed ∧ Relinked f g [c] (some p) :=
  hf.insertAt (fun before after => insertBefore_perm before after c mark) hp hc h

lemma WellFormed.insertAfter (hp : p < f.size) (hc : c < f.size)
    (h : f.insertAfter p c mark = .ok g) : g.WellFormed ∧ Relinked f g [c] (some p) :=
  hf.insertAt (fun before after => insertAfter_perm before after c mark) hp hc h

lemma WellFormed.addChild_ok (hp : p < f.size) (hc : c < f.size)
    (hnone : f.parent c = none) (hoff : ¬ f.Under p c) :
    ∃ g, f.addChild p c = .ok g ∧ g.WellFormed ∧ Relinked f g [c] (some p) :=
  ⟨_, hf.addChild_eq hnone hoff, hf.addChild hp hc (hf.addChild_eq hnone hoff)⟩

section

variable (hc : c < f.size) (hnone : f.parent c = none) (hoff : ¬ f.Under p c)
  (hmark : f.parent mark = some p)
include hc hnone hoff hmark

lemma WellFormed.insertBefore_ok :
    ∃ g, f.insertBefore p c mark = .ok g ∧ g.WellFormed ∧ Relinked f g [c] (some p) := by
  obtain ⟨before, after, -, hinsert⟩ := hf.insertAt_eq hnone hoff hmark
  exact ⟨_, hinsert, hf.insertBefore (hf.parent_lt hmark) hc hinsert⟩

lemma WellFormed.insertAfter_ok :
    ∃ g, f.insertAfter p c mark = .ok g ∧ g.WellFormed ∧ Relinked f g [c] (some p) := by
  obtain ⟨before, after, -, hinsert⟩ := hf.insertAt_eq hnone hoff hmark
  exact ⟨_, hinsert, hf.insertAfter (hf.parent_lt hmark) hc hinsert⟩

end

/-- A node is refused a place below itself. -/
lemma WellFormed.checkAttachable_eq_cycle (hnone : f.parent c = none)
    (hunder : f.Under p c) : f.checkAttachable p c = .error (.cycle c p) := by
  rw [checkAttachable, hnone]
  exact if_pos (hf.mem_self_ancestors_iff.2 hunder)

end

lemma addChild_eq_error {cause : LinkError} (h : f.checkAttachable p c = .error cause) :
    f.addChild p c = .error cause := by
  rw [Forest.addChild, h]
  rfl

lemma insertAt_eq_error {cause : LinkError} {arrange : List NodeId → List NodeId → List NodeId}
    (h : f.checkAttachable p c = .error cause) : f.insertAt p c mark arrange = .error cause := by
  rw [Forest.insertAt, h]
  rfl

/-- A node that is attached cannot be attached again. -/
lemma checkAttachable_eq_attached {q : Nat} (h : f.parent c = some q) :
    f.checkAttachable p c = .error (.alreadyAttached c q) := by
  rw [checkAttachable, h]

/-! ## Detaching -/

lemma update_congr {change change' : Node → Node} (h : change (f.node id) = change' (f.node id)) :
    f.update id change = f.update id change' := by
  have hnodes : f.nodes.modify id change = f.nodes.modify id change' := by
    refine Array.ext_getElem? fun i => ?_
    rw [Array.getElem?_modify, Array.getElem?_modify]
    split_ifs with hi
    · cases hnode : f.nodes[i]? with
      | none => rfl
      | some n =>
        have hid : f.node id = n := by rw [hi, node, Array.getD_eq_getD_getElem?, hnode,
          Option.getD_some]
        rw [Option.map_some, Option.map_some, ← hid, h]
    · rfl
  rw [update, update, hnodes]

section

variable (hf : f.WellFormed)
include hf

/-- The other lists do not have the node in them. -/
lemma WellFormed.filter_notMem {x : Nat} (h : f.parent c ≠ some x) :
    (f.children x).filter (· ∉ [c]) = f.children x := by
  refine filter_eq_self.2 fun b hb => decide_eq_true fun hmem => h ?_
  rw [← mem_singleton.1 hmem]
  exact hf.parent_of_mem hb

lemma WellFormed.erase_children (c x : Nat) :
    (f.children x).erase c = (f.children x).filter (· ∉ [c]) := by
  rw [(hf.nodup_children x).erase_eq_filter]
  exact filter_congr fun b _ => by rw [Bool.eq_iff_iff]; simp

lemma WellFormed.node_detach (c x : Nat) : (f.detach c).node x =
    { f.node x with
      parent := if x = c then none else f.parent x
      children := (f.children x).filter (· ∉ [c]) } := by
  cases h : f.parent c with
  | none =>
    have hsame : f.detach c = f := by rw [Forest.detach, h]
    have hnone : (if x = c then none else f.parent x) = f.parent x := by grind
    rw [hsame, hf.filter_notMem (by simp [h]), hnone]
    rfl
  | some p =>
    have hc := lt_size_of_parent h
    have hp := hf.parent_lt h
    have hne := hf.parent_ne_self h
    have hself : (f.children x).filter (· ∉ [c]) = (f.node x).children.filter (· != c) :=
      (hf.erase_children c x).symm.trans ((hf.nodup_children x).erase_eq_filter c)
    have hother (hx : x ≠ p) : (f.node x).children.filter (· != c) = (f.node x).children :=
      hself.symm.trans (hf.filter_notMem (by simpa [h] using Ne.symm hx))
    rw [Forest.detach, h, hself]
    simp only [node_update, size_update, parent]
    by_cases hxp : x = p
    · simp [hxp, hp, hne.symm]
    · rw [hother hxp]
      by_cases hxc : x = c <;> simp [hxp, hxc, hc, hne]

lemma WellFormed.detach (id : Nat) :
    (f.detach id).WellFormed ∧ Relinked f (f.detach id) [id] none := by
  have hnode := hf.node_detach id
  have hsize : (f.detach id).size = f.size := by
    rw [Forest.detach]
    split <;> simp
  have hparent (x : Nat) : (f.detach id).parent x = if x = id then none else f.parent x := by
    rw [parent, hnode]
  refine ⟨hf.detached hsize hparent fun x => ?_, hsize, fun x => ?_, fun x => ?_, fun x =>
    ?_, fun x => ?_⟩
  · rw [children, hnode]
  · simp only [hparent, mem_singleton]
  · rw [tag, hnode, tag]
  · rw [text, hnode, text]
  · rw [attributes, hnode, attributes]

/-- To take a child away is to detach it. -/
lemma WellFormed.removeChild_eq (h : f.parent c = some p) :
    f.removeChild p c = .ok (f.detach c) := by
  rw [Forest.removeChild, if_pos (hf.mem_children_iff.2 h), Forest.detach, h]
  have herase : (f.node p).children.erase c = (f.node p).children.filter (· != c) :=
    (hf.nodup_children p).erase_eq_filter c
  congr 2
  exact update_congr (by rw [herase])

lemma WellFormed.removeChild_eq_error (h : f.parent c ≠ some p) :
    f.removeChild p c = .error (.notAChild c p) := by
  rw [Forest.removeChild, if_neg fun hmem => h (hf.parent_of_mem hmem)]

lemma WellFormed.removeChild_eq_ok (h : f.removeChild p c = .ok g) : f.parent c = some p ∧
    g = f.detach c := by
  by_cases hc : f.parent c = some p
  · rw [hf.removeChild_eq hc] at h
    exact ⟨hc, (Except.ok.inj h).symm⟩
  · rw [hf.removeChild_eq_error hc] at h
    cases h

end

end SqlDialect.Forest
