import SqlDialect.Proofs.Conversion.Rewrite

/-!
# Trees that are built under a new node

Passes put new constructs into a tree by making a node at its place and appending to it what belongs
below.  `Planted f p before after n tree g` says what this comes to in the end: the node `p` has one
more child `n`, with `tree` for its view, and nothing else of the forest has changed.

A node that is appended to grows at its end, and with it the view of the nodes above.  `Built` says
what it has become since the first of some steps.
-/

namespace SqlDialect

open List

variable {w1 : Workspace}

namespace Forest

variable {f g k : Forest} {mark n p x : Nat} {before after : List Nat} {tree tree' : SyntaxTree}
  {kind : Tag} {words : String}

@[simp] lemma text_subtree (f : Forest) (id : Nat) : (f.subtree id).text = f.text id := by
  rw [subtree]
  cases f.size <;> rfl

/-- Which child of a kind with a text comes first can be seen in the view. -/
lemma WellFormed.map_subtree_findChild (hf : f.WellFormed) (id : Nat) (tag : Tag)
    (text : Option String) : (f.findChild id tag text).map f.subtree =
      (f.subtree id).children.find? fun tree =>
        tree.tag == tag && text.all (Text.sameWord tree.text) := by
  rw [findChild, hf.children_subtree, find?_map]
  congr 2
  funext x
  simp only [fits, is, Function.comp_apply, tag_subtree, text_subtree]
  rfl

lemma WellFormed.isSome_childWithText (hf : f.WellFormed) (id : Nat) (tag : Tag) (text : String) :
    (f.childWithText id tag text).isSome = (f.subtree id).hasWord tag text := by
  rw [childWithText, ← Option.isSome_map, hf.map_subtree_findChild,
    SyntaxTree.hasWord, Bool.eq_iff_iff, find?_isSome, any_eq_true]
  rfl

/-! ## One more child -/

/-- The node `p` has one more child `n` between the others, with the view `tree`. -/
structure Planted (f : Forest) (p : Nat) (before after : List Nat) (n : Nat) (tree : SyntaxTree)
    (g : Forest) : Prop where
  wellFormed : g.WellFormed
  size_le : f.size ≤ g.size
  lt_size : p < f.size
  new : f.size ≤ n
  parent_new : g.parent n = some p
  subtree_eq : g.subtree n = tree
  node_self : g.node p = { f.node p with children := before ++ n :: after }
  node_eq : ∀ x : Nat, x < f.size → x ≠ p → g.node x = f.node x

/-- A field other than the children is as it was. -/
lemma Planted.field_eq {α : Type} (field : Node → α) (h : Planted f p before after n tree g)
    (hfield : ∀ node children, field { node with children } = field node) (hx : x < f.size) :
    field (g.node x) = field (f.node x) := by
  by_cases hxp : x = p
  · rw [hxp, h.node_self, hfield]
  · rw [h.node_eq x hx hxp]

section

variable (h : Planted f p before after n tree g)
include h

lemma Planted.parent_eq (hx : x < f.size) : g.parent x = f.parent x :=
  h.field_eq Node.parent (fun _ _ => rfl) hx

lemma Planted.extends : Extends f g :=
  ⟨h.size_le, fun _ => h.parent_eq, fun _ => h.field_eq Node.tag fun _ _ => rfl⟩

lemma Planted.children_eq (hx : x < f.size) :
    g.children x = if x = p then before ++ n :: after else f.children x := by
  split_ifs with hxp
  · rw [hxp, children, h.node_self]
  · rw [children, h.node_eq x hx hxp, children]

/-- Nothing that was there before is under the new node. -/
lemma Planted.not_under (hf : f.WellFormed) (hx : x < f.size) : ¬ g.Under x n :=
  h.extends.not_under_new hf hx h.new

/-- More may be built under the new node. -/
lemma Planted.grafted (hf : f.WellFormed)
    (hgraft : Grafted g n tree' k) : Planted f p before after n tree' k := by
  have hold : ∀ x : Nat, x < f.size → k.node x = g.node x := fun x hx =>
    hgraft.node_eq x (hx.trans_le h.size_le) (h.not_under hf hx)
  exact {
    wellFormed := hgraft.wellFormed
    size_le := h.size_le.trans hgraft.size_le
    lt_size := h.lt_size
    new := h.new
    parent_new := hgraft.parent_eq.trans h.parent_new
    subtree_eq := hgraft.subtree_eq
    node_self := (hold p h.lt_size).trans h.node_self
    node_eq x hx hxp := (hold x hx).trans (h.node_eq x hx hxp) }

/-- The view of a node that `p` is not under is as it was. -/
lemma Planted.subtree_of_not_under {y : Nat}
    (hf : f.WellFormed) (hy : y < f.size) (hnot : ¬ f.Under p y) : g.subtree y = f.subtree y := by
  refine subtree_eq_of_sameContent hf h.wellFormed rfl fun x hx => sameContent_of_node_eq ?_
  exact h.node_eq x (hx.lt_size hy) fun hxp => hnot (hxp ▸ hx)

end

section

variable (hk : k.WellFormed) (hp : p < f.size) (hold : ∀ x : Nat, x < f.size → k.node x = f.node x)
  (hsize : f.size ≤ k.size) (hn : f.size ≤ n) (hlt : n < k.size) (hnone : k.parent n = none)
include hk hp hold hsize hn hlt hnone

/-- A new tree that has no parent yet comes to a place among the children of an old node. -/
lemma WellFormed.planted_place {arrange : List NodeId → List NodeId}
    (harrange : arrange (f.children p) = before ++ n :: after)
    (hperm : before ++ after = f.children p)
    (hoff : ¬ k.Under p n) : Planted f p before after n (k.subtree n) (k.place p n arrange) := by
  have hpk : p < k.size := hp.trans_le hsize
  have hlist : k.children p = f.children p := by rw [children, hold p hp, children]
  have hnode := node_place k arrange hpk hlt (hp.trans_le hn).ne'
  have hplace : (arrange (k.children p)).Perm (n :: k.children p) := by
    rw [hlist, harrange, ← hperm]
    exact perm_middle
  obtain ⟨hg, hrelinked⟩ := hk.place hpk hlt hnone hoff hplace
  exact {
    wellFormed := hg
    size_le := hsize.trans hrelinked.size_eq.ge
    lt_size := hp
    new := hn
    parent_new := hrelinked.parent_of_mem (by simp)
    subtree_eq := by
      refine subtree_eq_of_sameContent hk hg rfl fun x hx => ?_
      have hxp : x ≠ p := by
        rintro rfl
        exact hoff hx
      refine ⟨hrelinked.tag_eq x, hrelinked.text_eq x, hrelinked.attributes_eq x, ?_⟩
      rw [children, hnode, children]
      grind
    node_self := by
      rw [hnode, if_neg (hp.trans_le hn).ne, if_pos rfl, hold p hp, ← harrange, children]
    node_eq := fun x hx hxp => by
      rw [hnode, if_neg (hx.trans_le hn).ne, if_neg hxp, hold x hx] }

/-- A new tree becomes the last child of an old node. -/
lemma WellFormed.planted_addChild (hf : f.WellFormed) :
    ∃ g, k.addChild p n = .ok g ∧ Planted f p (f.children p) [] n (k.subtree n) g := by
  have hoff : ¬ k.Under p n := by
    rw [under_congr (f := f) fun z hz => by rw [parent, hold z (hf.lt_size_of_under hz hp), parent]]
    exact fun hunder => (hf.lt_size_of_under hunder hp).not_ge hn
  exact ⟨_, hk.addChild_eq hnone hoff,
    hk.planted_place hp hold hsize hn hlt hnone rfl (append_nil _) hoff⟩

end

/-- A new leaf at a place among the children of a node. -/
lemma WellFormed.planted_leaf (hf : f.WellFormed) (arrange : List NodeId → List NodeId)
    (hp : p < f.size)
    (kind : Tag) (words : String) (harrange : arrange (f.children p) = before ++ f.size :: after)
    (hperm : before ++ after = f.children p) :
    Planted f p before after f.size (.node kind words .empty [])
      ((f.create kind words).2.place p f.size arrange) := by
  have hsize := size_create f kind words
  have hnode : ∀ x : Nat, (f.create kind words).2.node x =
      if x = f.size then { tag := kind, text := words } else f.node x := node_push f _
  have hleaf : (f.create kind words).2.subtree f.size = .node kind words .empty [] := by
    rw [(hf.create kind words).subtree_eq]
    simp [Forest.tag, Forest.text, Forest.attributes, children, hnode]
  obtain ⟨hnone, hoff⟩ := hf.create_apart hp kind words
  rw [← hleaf]
  exact (hf.create kind words).planted_place hp (fun x hx => by rw [hnode, if_neg hx.ne])
    (by omega) le_rfl (by omega) hnone harrange hperm hoff

/-- A new leaf beside a child of a node. -/
lemma WellFormed.planted_insertAt {arrange : List NodeId → List NodeId → List NodeId}
    (hf : f.WellFormed) (hchildren : f.children p = before ++ mark :: after) (kind : Tag)
    (words : String) {before' after' : List Nat}
    (harrange : arrange before after = before' ++ f.size :: after')
    (hperm : before' ++ after' = before ++ mark :: after) :
    ∃ g, (f.create kind words).2.insertAt p f.size mark arrange = .ok g ∧
      Planted f p before' after' f.size (.node kind words .empty []) g := by
  have hp := hf.parent_lt (hf.parent_of_split hchildren)
  obtain ⟨hnone, hoff⟩ := hf.create_apart hp kind words
  have hplanted := hf.planted_leaf (fun _ => arrange before after) hp kind words harrange
    (hperm.trans hchildren.symm)
  refine ⟨_, (hf.create kind words).insertAt_eq_place hnone hoff ?_, hplanted⟩
  have hnode : (f.create kind words).2.node p = _ := node_push f _ p
  rw [children, hnode, if_neg hp.ne, ← children, hchildren]

/-- Seen from the node, it has one more child. -/
lemma Planted.grafted_self {tag : Tag} {text : String} {attributes : Dict String}
    {trees : List SyntaxTree} (h : Planted f p before after n tree g) (hf : f.WellFormed)
    (hchildren : f.children p = before ++ after)
    (htree : f.subtree p = .node tag text attributes trees) :
    Grafted f p (.node tag text attributes (before.map f.subtree ++ tree :: after.map f.subtree))
      g := by
  obtain ⟨htag, htext, hattributes, -⟩ := hf.of_subtree_eq htree
  have hviews : ∀ c ∈ f.children p, g.subtree c = f.subtree c := fun c hc =>
    h.subtree_of_not_under hf (hf.child_lt hc) (hf.not_under_of_child (hf.parent_of_mem hc))
  have hfield : ∀ {α : Type} (field : Node → α),
      (∀ node children, field { node with children } = field node) →
      field (g.node p) = field (f.node p) := fun field hkeep => h.field_eq field hkeep h.lt_size
  refine ⟨h.wellFormed, ?_, h.size_le, h.parent_eq h.lt_size, fun x hx hnot => h.node_eq x hx ?_⟩
  · rw [h.wellFormed.subtree_eq, h.children_eq h.lt_size, if_pos rfl, map_append, map_cons,
      h.subtree_eq, map_congr_left fun c hc => hviews c (by simp [hchildren, hc]),
      map_congr_left fun c hc => hviews c (by simp [hchildren, hc]), ← htag, ← htext, ← hattributes]
    congr 1
    · exact hfield Node.tag fun _ _ => rfl
    · exact hfield Node.text fun _ _ => rfl
    · exact hfield Node.attributes fun _ _ => rfl
  · rintro rfl
    exact hnot (.refl f x)

/-- A new leaf at the end of a node. -/
lemma WellFormed.planted_append (hf : f.WellFormed) (hp : p < f.size) (kind : Tag)
    (words : String) :
    Planted f p (f.children p) [] f.size (.node kind words .empty []) (f.append p kind words).2 :=
  hf.planted_leaf (· ++ [f.size]) hp kind words rfl (append_nil _)

lemma grafted_append {tag : Tag} {text : String} {attributes : Dict String}
    {trees : List SyntaxTree}
    (hf : f.WellFormed) (hp : p < f.size) (htree : f.subtree p = .node tag text attributes trees)
    (kind : Tag) (words : String) :
    Grafted f p (.node tag text attributes (trees ++ [.node kind words .empty []]))
      (f.append p kind words).2 := by
  have hgrafted := (hf.planted_append hp kind words).grafted_self hf (append_nil _).symm htree
  rwa [(hf.of_subtree_eq htree).2.2.2] at hgrafted

lemma WellFormed.planted_insertBefore (hf : f.WellFormed)
    (hchildren : f.children p = before ++ mark :: after) (kind : Tag) (words : String) :
    ∃ g, (f.create kind words).2.insertBefore p f.size mark = .ok g ∧
      Planted f p before (mark :: after) f.size (.node kind words .empty []) g :=
  hf.planted_insertAt hchildren kind words rfl rfl

lemma WellFormed.planted_insertAfter (hf : f.WellFormed)
    (hchildren : f.children p = before ++ mark :: after) (kind : Tag) (words : String) :
    ∃ g, (f.create kind words).2.insertAfter p f.size mark = .ok g ∧
      Planted f p (before ++ [mark]) after f.size (.node kind words .empty []) g :=
  hf.planted_insertAt hchildren kind words (by simp) (by simp)

end Forest

/-! ## Steps -/

open Forest

namespace Conversion

variable {α β : Type} {w w1 : Workspace} {c mark n p : Nat} {before after : List Nat}
  {Q : α → Workspace → Prop} {E : ConversionError → Workspace → Prop} {tag kind : Tag}
  {text words : String} {attributes : Dict String} {tree : SyntaxTree} {trees : List SyntaxTree}

/-- A workspace whose forest has grown without changing its root. -/
lemma whole_of_planted {w' : Workspace} (hw : Whole w)
    (h : Planted w.forest p before after n tree w'.forest) (hnotes : w'.notes = w.notes) :
    Whole w' :=
  whole_of_size_le hw h.wellFormed h.size_le (h.parent_eq hw.size_pos) hnotes

section

variable (hf : w.forest.WellFormed) (hchildren : w.forest.children p = before ++ mark :: after)
include hf hchildren

/-- A new leaf before a child of `p`, and what is made of it. -/
lemma ends_insertNewBefore {next : NodeId → Conversion α}
    (h : ∀ w' : Workspace, w'.notes = w.notes →
      Planted w.forest p before (mark :: after) w.forest.size (.node kind words .empty [])
        w'.forest → Ends (next w.forest.size) w' Q E) :
    Ends (insertNewBefore p kind words mark >>= next) w Q E := by
  obtain ⟨g, hok, hplanted⟩ := hf.planted_insertBefore hchildren kind words
  refine ends_bind (ends_bind (ends_grow (ends_bind (ends_relink hok (ends_pure ?_)))))
  exact h _ rfl hplanted

lemma ends_insertNewAfter {next : NodeId → Conversion α} (h : ∀ w' : Workspace, w'.notes = w.notes →
      Planted w.forest p (before ++ [mark]) after w.forest.size (.node kind words .empty [])
        w'.forest → Ends (next w.forest.size) w' Q E) :
    Ends (insertNewAfter p kind words mark >>= next) w Q E := by
  obtain ⟨g, hok, hplanted⟩ := hf.planted_insertAfter hchildren kind words
  refine ends_bind (ends_bind (ends_grow (ends_bind (ends_relink hok (ends_pure ?_)))))
  exact h _ rfl hplanted

end

/-- The view of a node has become `tree` since the workspace was `w₀`. -/
structure Built (w₀ : Workspace) (p : Nat) (tree : SyntaxTree) (w : Workspace) : Prop
    extends Turned w₀ p tree w where
  start_whole : Whole w₀
  start_lt : p < w₀.forest.size

namespace Built

variable {w₀ : Workspace}

lemma start (hw : Whole w) (hp : p < w.forest.size) (htree : w.forest.subtree p = tree) :
    Built w p tree w :=
  ⟨htree ▸ .refl hw p, hw, hp⟩

lemma whole (h : Built w₀ p tree w) : Whole w := h.toTurned.whole h.start_whole

lemma lt_size (h : Built w₀ p tree w) : p < w.forest.size := h.start_lt.trans_le h.grafted.size_le

lemma turned {tree' : SyntaxTree} (h : Built w₀ p tree w) (h' : Turned w p tree' w1) :
    Built w₀ p tree' w1 :=
  ⟨h.toTurned.trans h.start_whole h', h.start_whole, h.start_lt⟩

/-- What is built at the last child of a node is seen at the end of the node. -/
lemma last {ids : List Nat} {leaf : SyntaxTree}
    (h : Built w₀ p (.node tag text attributes (trees ++ [leaf])) w)
    (hchildren : w.forest.children p = ids ++ [c]) (h' : Turned w c tree w1) :
    Built w₀ p (.node tag text attributes (trees ++ [tree])) w1 ∧
    w1.forest.children p = ids ++ [c] := by
  obtain ⟨htag, htext, hattributes, hviews⟩ := h.whole.wellFormed.of_subtree_eq h.grafted.subtree_eq
  rw [hchildren, map_append] at hviews
  obtain ⟨hsame, -, -, hup⟩ := h'.up h.whole hchildren
  rw [htag, htext, hattributes, (append_inj' hviews rfl).1] at hup
  exact ⟨h.turned hup, hsame.children_eq.trans hchildren⟩

section

variable (h : Built w₀ p (.node tag text attributes trees) w)
include h

/-- A new leaf at the end of a node. -/
lemma append {next : NodeId → Conversion α}
    (hnext : ∀ w' : Workspace, w'.forest.children p = w.forest.children p ++ [w.forest.size] →
      Built w' w.forest.size (.node kind words .empty []) w' →
      Built w₀ p (.node tag text attributes (trees ++ [.node kind words .empty []])) w' →
        Ends (next w.forest.size) w' Q E) :
    Ends (append p kind words >>= next) w Q E := by
  have hplanted := h.whole.wellFormed.planted_append h.lt_size kind words
  have hchildren := hplanted.children_eq h.lt_size
  rw [if_pos rfl] at hchildren
  have hturned : Turned w p _ { w with forest := (w.forest.append p kind words).2 } :=
    ⟨grafted_append h.whole.wellFormed h.lt_size h.grafted.subtree_eq kind words, rfl⟩
  exact ends_bind (ends_grow (hnext _ hchildren (.start (hturned.whole h.whole)
    (lt_size_of_parent hplanted.parent_new) hplanted.subtree_eq) (h.turned hturned)))

lemma leaf : Ends (appendLeaf p kind words) w
    (fun _ => Built w₀ p (.node tag text attributes (trees ++ [.node kind words .empty []])))
      E := by
  refine ends_discard ?_
  rw [← bind_pure (Conversion.append p kind words)]
  exact h.append fun _ _ _ h' => ends_pure h'

/-- Leaves at the end of a node. -/
lemma leaves {leaves : List (Tag × String)} : Ends (appendLeaves p leaves) w
    (fun _ => Built w₀ p (.node tag text attributes
      (trees ++ leaves.map fun leaf => .node leaf.1 leaf.2 .empty []))) E := by
  induction leaves generalizing w trees with
  | nil => exact ends_pure (by rwa [map_nil, append_nil])
  | cons leaf leaves ih =>
    refine ends_bind (h.leaf.imp fun _ w1 h1 => (ih h1).imp fun _ w2 h2 => ?_)
    rwa [append_assoc] at h2

/-- A new tree that has no parent yet is added to a node. -/
lemma addChild {Q : PUnit → Workspace → Prop}
    (hk : w1.forest.WellFormed) (hnotes : w1.notes = w.notes)
    (hold : ∀ x : Nat, x < w.forest.size → w1.forest.node x = w.forest.node x)
    (hsize : w.forest.size ≤ w1.forest.size) (hn : w.forest.size ≤ n) (hlt : n < w1.forest.size)
    (hnone : w1.forest.parent n = none) (hQ : ∀ w' : Workspace,
      Built w₀ p (.node tag text attributes (trees ++ [w1.forest.subtree n])) w' → Q () w') :
    Ends (addChild p n) w1 Q E := by
  have hf := h.whole.wellFormed
  obtain ⟨g, hok, hplanted⟩ := hk.planted_addChild h.lt_size hold hsize hn hlt hnone hf
  have hgraft := hplanted.grafted_self hf (append_nil _).symm h.grafted.subtree_eq
  rw [(hf.of_subtree_eq h.grafted.subtree_eq).2.2.2] at hgraft
  exact ends_relink hok (hQ _ (h.turned ⟨hgraft, hnotes⟩))

/-- A copy of a node at the end of another. -/
lemma copy (id : Nat) : Ends (appendCopy p id) w
    (fun _ => Built w₀ p (.node tag text attributes (trees ++ [w.forest.subtree id]))) E := by
  have hf := h.whole.wellFormed
  have hspec := sow_spec (w.forest.subtree id) w.forest
  have hone := one_le_size (w.forest.subtree id)
  have hsize := hspec.size_eq
  refine ends_bind (ends_grow (h.addChild (hspec.wellFormed hf) rfl hspec.node_eq
    (by dsimp only [Forest.copy]; omega) (by rw [copy_fst])
    (by rw [copy_fst]; dsimp only [Forest.copy]; omega)
    (by rw [copy_fst]; exact hspec.top_parent) fun w' h' => ?_))
  rw [copy_fst] at h'
  have hview : (w.forest.copy id).2.subtree w.forest.size = w.forest.subtree id :=
    hspec.sown.subtree_eq (hspec.wellFormed hf)
  rwa [hview] at h'

section

variable {inner : NodeId → Conversion β}
  (hinner : ∀ (c : Nat) (w' : Workspace), w'.forest.parent c = some p →
    Built w₀ p (.node tag text attributes (trees ++ [.node kind words .empty []])) w' →
    Built w' c (.node kind words .empty []) w' → Ends (inner c) w' (fun _ => Built w' c tree) E)
include hinner

/-- A new child at the end of a node, what is built below it, and what comes next. -/
lemma build {next : NodeId → β → Conversion α}
    (hnext : ∀ (c : Nat) (b : β) (w' : Workspace),
      Built w₀ p (.node tag text attributes (trees ++ [tree])) w' → Ends (next c b) w' Q E) :
    Ends (Conversion.append p kind words >>= fun c => inner c >>= next c) w Q E := by
  refine h.append fun w1 hchildren hleaf h1 => ?_
  have hparent := h1.whole.wellFormed.parent_of_split hchildren
  refine ends_bind ((hinner _ w1 hparent h1 hleaf).imp fun b w2 h2 => hnext _ b w2 ?_)
  exact (h1.last hchildren h2.toTurned).1

/-- A new child at the end of a node, and what is built below it. -/
lemma build_last : Ends (Conversion.append p kind words >>= inner) w
    (fun _ => Built w₀ p (.node tag text attributes (trees ++ [tree]))) E := by
  have hlast : (Conversion.append p kind words >>= inner) =
      Conversion.append p kind words >>= fun c => inner c >>= Pure.pure := by simp
  rw [hlast]
  exact h.build hinner fun _ _ _ h' => ends_pure h'

end

end

end Built

end Conversion

end SqlDialect
