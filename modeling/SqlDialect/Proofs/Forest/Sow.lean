import SqlDialect.Forest.Navigation
import SqlDialect.Proofs.Forest.Links

/-!
# Trees in a forest

The view of a node as a syntax tree and the nodes below it are read off with the number of nodes
as a bound on the way down.  In a well-formed forest the bound is never felt, and both follow
the children (`subtree_eq`, `descendants_eq`).

`Sown f n t` says that the tree `t` lies in the forest with its top at `n` and all its nodes
numbered from there in pre-order.  Sowing a tree makes it so and leaves the older nodes alone
(`sow_spec`); from `Sown` alone one reads off that the view at `n` is `t` again and that the nodes
met in pre-order have the numbers `n`, `n + 1` and so on.
-/

namespace SqlDialect.Forest

open List

variable {f g : Forest} {id n p x : Nat}

/-! ## Down to the leaves -/

/-- A node as deep as the forest is large has no children. -/
lemma WellFormed.children_eq_nil_of_depth (hf : f.WellFormed) (h : f.size ≤ f.depth id + 1) :
    f.children id = [] := by
  refine eq_nil_iff_forall_not_mem.2 fun c hc => ?_
  have hdepth := hf.depth_of_parent (hf.parent_of_mem hc)
  have hbound := hf.depth_lt_size (hf.child_lt hc)
  omega

/-- What follows from the children level by level is the same with one level more than there are
nodes. -/
lemma WellFormed.levels_succ {β : Type} {F : Nat → Nat → β} (hf : f.WellFormed)
    (hleaf : ∀ id, f.children id = [] → F 0 id = F 1 id)
    (hstep : ∀ levels id, (∀ c ∈ f.children id, F levels c = F (levels + 1) c) →
      F (levels + 1) id = F (levels + 2) id) (id : Nat) : F f.size id = F (f.size + 1) id := by
  have hlevels (levels : Nat) : ∀ id, f.size ≤ f.depth id + levels + 1 →
      F levels id = F (levels + 1) id := by
    induction levels with
    | zero => exact fun id h => hleaf id (hf.children_eq_nil_of_depth h)
    | succ levels ih =>
      refine fun id h => hstep levels id fun c hc => ih c ?_
      have hdepth := hf.depth_of_parent (hf.parent_of_mem hc)
      omega
  exact hlevels f.size id (by omega)

/-- The view of a node is its labels and the views of its children. -/
lemma WellFormed.subtree_eq (hf : f.WellFormed) (id : Nat) :
    f.subtree id =
      .node (f.tag id) (f.text id) (f.attributes id) ((f.children id).map f.subtree) := by
  have hone : f.subtree id = f.subtreeTo (f.size + 1) id :=
    hf.levels_succ (fun _ hnil => by simp [subtreeTo, hnil])
      (fun _ _ h => by rw [subtreeTo, subtreeTo, map_congr_left h]) id
  rw [hone, subtreeTo]
  rfl

lemma WellFormed.descendants_eq (hf : f.WellFormed) (id : Nat) :
    f.descendants id = (f.children id).flatMap fun c => c :: f.descendants c := by
  have hone : f.descendants id = f.descendantsTo (f.size + 1) id :=
    hf.levels_succ (fun _ hnil => by simp [descendantsTo, hnil])
      (fun _ _ h => flatMap_congr fun c hc => by rw [h c hc]) id
  rw [hone, descendantsTo]
  rfl

/-! ## Trees numbered in pre-order -/

/-- The numbers of the tops of trees that are numbered one after the other from `n`. -/
def tops (n : Nat) : List SyntaxTree → List Nat
  | [] => []
  | tree :: rest => n :: tops (n + tree.size) rest

mutual

/-- The tree lies in the forest, numbered in pre-order from `n`. -/
def Sown (f : Forest) (n : Nat) : SyntaxTree → Prop
  | .node tag text attributes children =>
    f.tag n = tag ∧ f.text n = text ∧ f.attributes n = attributes ∧
      f.children n = tops (n + 1) children ∧ SownAll f (n + 1) children

/-- The trees lie in the forest, numbered one after the other from `n`. -/
def SownAll (f : Forest) (n : Nat) : List SyntaxTree → Prop
  | [] => True
  | tree :: rest => Sown f n tree ∧ SownAll f (n + tree.size) rest

end

/-- Apart from its parent, a node is the same in both forests. -/
def SameBelow (f g : Forest) (x : Nat) : Prop :=
  g.tag x = f.tag x ∧ g.text x = f.text x ∧ g.attributes x = f.attributes x ∧
    g.children x = f.children x

lemma SameBelow.of_node_eq (h : g.node x = f.node x) : SameBelow f g x := by
  simp [SameBelow, tag, text, attributes, children, h]

mutual

lemma Sown.congr : ∀ {tree : SyntaxTree} {n : Nat},
    (∀ x, n ≤ x → x < n + tree.size → SameBelow f g x) → Sown f n tree → Sown g n tree
  | .node tag text attributes children, n, hsame, hsown => by
    rw [SyntaxTree.size] at hsame
    obtain ⟨h1, h2, h3, h4⟩ := hsame n le_rfl (by omega)
    rw [Sown] at hsown ⊢
    rw [h1, h2, h3, h4]
    refine ⟨hsown.1, hsown.2.1, hsown.2.2.1, hsown.2.2.2.1, ?_⟩
    exact SownAll.congr (fun x hlow hhigh => hsame x (by omega) (by omega)) hsown.2.2.2.2

lemma SownAll.congr : ∀ {trees : List SyntaxTree} {n : Nat},
    (∀ x, n ≤ x → x < n + SyntaxTree.sizeAll trees → SameBelow f g x) → SownAll f n trees →
      SownAll g n trees
  | [], _, _, _ => by simp [SownAll]
  | tree :: rest, n, hsame, hsown => by
    rw [SyntaxTree.sizeAll] at hsame
    rw [SownAll] at hsown ⊢
    exact ⟨Sown.congr (fun x hlow hhigh => hsame x hlow (by omega)) hsown.1,
      SownAll.congr (fun x hlow hhigh => hsame x (by omega) (by omega)) hsown.2⟩

end

mutual

/-- A sown tree is what the forest shows at its top. -/
lemma Sown.subtree_eq (hf : f.WellFormed) :
    ∀ {tree : SyntaxTree} {n : Nat}, Sown f n tree → f.subtree n = tree
  | .node tag text attributes children, n, h => by
    rw [Sown] at h
    obtain ⟨rfl, rfl, rfl, hchildren, hall⟩ := h
    rw [hf.subtree_eq, hchildren, SownAll.map_subtree_tops hf hall]

lemma SownAll.map_subtree_tops (hf : f.WellFormed) :
    ∀ {trees : List SyntaxTree} {n : Nat}, SownAll f n trees → (tops n trees).map f.subtree = trees
  | [], _, _ => rfl
  | tree :: rest, n, h => by
    rw [SownAll] at h
    rw [tops, map_cons, Sown.subtree_eq hf h.1, SownAll.map_subtree_tops hf h.2]

end

mutual

/-- The nodes of a sown tree, met in pre-order, are numbered from its top on. -/
lemma Sown.preorder_eq (hf : f.WellFormed) :
    ∀ {tree : SyntaxTree} {n : Nat}, Sown f n tree →
      n :: f.descendants n = List.range' n tree.size
  | .node tag text attributes children, n, h => by
    rw [Sown] at h
    obtain ⟨-, -, -, hchildren, hall⟩ := h
    rw [hf.descendants_eq, hchildren, SownAll.preorder_eq hf hall, SyntaxTree.size, Nat.add_comm 1,
      range'_succ]

lemma SownAll.preorder_eq (hf : f.WellFormed) :
    ∀ {trees : List SyntaxTree} {n : Nat}, SownAll f n trees →
      ((tops n trees).flatMap fun c => c :: f.descendants c) =
        List.range' n (SyntaxTree.sizeAll trees)
  | [], _, _ => rfl
  | tree :: rest, n, h => by
    rw [SownAll] at h
    rw [tops, flatMap_cons, Sown.preorder_eq hf h.1, SownAll.preorder_eq hf h.2,
      SyntaxTree.sizeAll, range'_append_1]

end

section

variable {P : SyntaxTree → Prop} (hP : ∀ tree, P tree → ∀ child ∈ tree.children, P child)
include hP

lemma SownAll.exists_sown : ∀ {trees : List SyntaxTree} {n : Nat}, SownAll f n trees →
    (∀ tree ∈ trees, P tree) → n ≤ x → x < n + SyntaxTree.sizeAll trees → ∃ tree,
    P tree ∧ Sown f x tree
  | [], _, _, _, hlow, hhigh => absurd hhigh hlow.not_gt
  | .node tag text attributes children :: rest, n, ⟨htop, h⟩, htrees, hlow, hhigh => by
    obtain ⟨htree, hrest⟩ := forall_mem_cons.1 htrees
    rw [SyntaxTree.sizeAll] at hhigh
    obtain rfl | hx | hx : n = x ∨ (n + 1 ≤ x ∧ x < n + 1 + SyntaxTree.sizeAll children) ∨
      n + (SyntaxTree.node tag text attributes children).size ≤ x := by rw [SyntaxTree.size]; omega
    · exact ⟨_, htree, htop⟩
    · exact exists_sown htop.2.2.2.2 (hP _ htree) hx.1 hx.2
    · exact exists_sown h hrest hx (by omega)

/-- What holds of a tree and of the trees in it, one reads off at each node of the sown tree. -/
lemma Sown.exists_sown {tree : SyntaxTree} (h : Sown f n tree) (htree : P tree) (hlow : n ≤ x)
    (hhigh : x < n + tree.size) : ∃ tree, P tree ∧ Sown f x tree := by
  have hall : SownAll f n [tree] := ⟨h, trivial⟩
  exact hall.exists_sown hP (by simpa using htree) hlow (by simpa [SyntaxTree.sizeAll] using hhigh)

end

/-! ## Sowing -/

lemma node_placeLast (f : Forest) {c : Nat} (hp : p < f.size) (hc : c < f.size) (hne : c ≠ p)
    (x : Nat) :
    (f.placeLast p c).node x =
      if x = c then { f.node x with parent := some p }
      else if x = p then { f.node x with children := (f.node x).children ++ [c] }
      else f.node x :=
  node_place f _ hp hc hne x

lemma sow_fst (f : Forest) (tree : SyntaxTree) : (f.sow tree).1 = f.size := by
  cases tree
  rw [sow]
  rfl

lemma sowUnder_cons (f : Forest) (p : Nat) (tree : SyntaxTree) (rest : List SyntaxTree) :
    f.sowUnder p (tree :: rest) = ((f.sow tree).2.placeLast p f.size).sowUnder p rest := by
  rw [sowUnder, ← sow_fst f tree]

lemma one_le_size (tree : SyntaxTree) : 1 ≤ tree.size := by
  cases tree
  rw [SyntaxTree.size]
  omega

/-- What sowing a tree does: the tree is there, numbered in pre-order from the first free number
and without a parent; older nodes are as they were. -/
structure SowSpec (f g : Forest) (tree : SyntaxTree) : Prop where
  size_eq : g.size = f.size + tree.size
  node_eq : ∀ x < f.size, g.node x = f.node x
  sown : Sown g f.size tree
  top_parent : g.parent f.size = none
  wellFormed : f.WellFormed → g.WellFormed

/-- What sowing trees under `p` does: `p` has further children, the tops of the trees. -/
structure SowUnderSpec (f g : Forest) (p : Nat) (trees : List SyntaxTree) : Prop where
  size_eq : g.size = f.size + SyntaxTree.sizeAll trees
  node_eq : ∀ x < f.size, x ≠ p → g.node x = f.node x
  node_parent : g.node p = { f.node p with children := f.children p ++ tops f.size trees }
  sown : SownAll g f.size trees
  wellFormed : f.WellFormed → g.WellFormed

/-- The top of a tree that has just been sown can be placed under any older node. -/
lemma SowSpec.placeLast {tree : SyntaxTree} (h : SowSpec f g tree) (hp : p < f.size)
    (hf : f.WellFormed) : (g.placeLast p f.size).WellFormed := by
  have hsize := h.size_eq
  have hone := one_le_size tree
  -- Above an older node there are only older nodes.
  have hoff : ¬ g.Under p f.size := by
    have hcongr : g.Under p f.size ↔ f.Under p f.size := under_congr fun z hz => by
      rw [parent, parent, h.node_eq z (hf.lt_size_of_under hz hp)]
    rw [hcongr]
    exact fun hunder => lt_irrefl _ (hf.lt_size_of_under hunder hp)
  exact ((h.wellFormed hf).place (by omega) (by omega) h.top_parent hoff
    perm_append_comm).1

mutual

lemma sow_spec : ∀ (tree : SyntaxTree) (f : Forest), SowSpec f (f.sow tree).2 tree
  | .node tag text attributes children, f => by
    set root : Forest := (f.push { tag, text, attributes }).2 with hroot
    have hunder := sowUnder_spec children root f.size (by simp [hroot])
    have hold : ∀ x < f.size, root.node x = f.node x := fun x hx => by
      rw [hroot, node_push, if_neg (by omega)]
    have hnew : root.node f.size = { tag, text, attributes } := by
      rw [hroot, node_push, if_pos rfl]
    have hsize : root.size = f.size + 1 := by simp [hroot]
    have hsow : (f.sow (.node tag text attributes children)).2 =
        root.sowUnder f.size children := by
      rw [sow]
      rfl
    rw [hsow]
    have htop := hunder.node_parent
    rw [hnew] at htop
    refine ⟨?_, ?_, ?_, ?_, ?_⟩
    · rw [hunder.size_eq, hsize, SyntaxTree.size]
      omega
    · intro x hx
      rw [hunder.node_eq x (by omega) (by omega), hold x hx]
    · rw [Sown]
      have hchildren : root.children f.size = [] := by rw [Forest.children, hnew]
      simp only [Forest.tag, Forest.text, Forest.attributes, Forest.children, htop, true_and]
      rw [← Forest.children, hchildren, hsize]
      exact ⟨rfl, hsize ▸ hunder.sown⟩
    · rw [parent, htop]
    · intro hf
      exact hunder.wellFormed (hf.push rfl rfl)

lemma sowUnder_spec : ∀ (trees : List SyntaxTree) (f : Forest) (p : Nat), p < f.size →
    SowUnderSpec f (f.sowUnder p trees) p trees
  | [], f, p, _ => by
    rw [sowUnder]
    exact ⟨by simp [SyntaxTree.sizeAll], fun _ _ _ => rfl, by simp [tops, children],
      by simp [SownAll], fun hf => hf⟩
  | tree :: rest, f, p, hp => by
    have htree := sow_spec tree f
    set planted : Forest := (f.sow tree).2 with hplanted
    have hone := one_le_size tree
    have hsize := htree.size_eq
    set placed : Forest := planted.placeLast p f.size with hplaced
    have hnode := node_placeLast planted (c := f.size) (p := p) (by omega) (by omega) (by omega)
    have hplacedSize : placed.size = planted.size := by simp [hplaced, Forest.placeLast]
    have hrest := sowUnder_spec rest placed p (by omega)
    rw [sowUnder_cons]
    have hpnode : placed.node p = { f.node p with children := f.children p ++ [f.size] } := by
      rw [hplaced, hnode, if_neg (by omega), if_pos rfl, htree.node_eq p hp]
      rfl
    refine ⟨?_, ?_, ?_, ?_, ?_⟩
    · rw [hrest.size_eq, hplacedSize, hsize, SyntaxTree.sizeAll]
      omega
    · intro x hx hxp
      rw [hrest.node_eq x (by omega) hxp, hplaced, hnode, if_neg (by omega), if_neg hxp,
        htree.node_eq x hx]
    · rw [hrest.node_parent, children, hpnode, tops, hplacedSize, hsize]
      simp [children]
    · rw [SownAll]
      refine ⟨?_, ?_⟩
      · -- Placing the top changes its parent only, and the later trees come after it.
        refine (htree.sown.congr (g := placed) fun x hlow hhigh => ?_).congr fun x hlow hhigh => ?_
        · simp only [SameBelow, tag, text, attributes, children, hplaced, hnode]
          rw [if_neg (show x ≠ p by omega)]
          split <;> simp
        · exact SameBelow.of_node_eq (hrest.node_eq x (by omega) (by omega))
      · have := hrest.sown
        rwa [hplacedSize, hsize] at this
    · intro hf
      exact hrest.wellFormed (htree.placeLast hp hf)

end

/-! ## The forest of a tree -/

lemma wellFormed_empty : ({ nodes := #[] } : Forest).WellFormed where
  parent_lt h := by simp [parent, node] at h
  child_lt h := by simp [children, node] at h
  mem_children_iff := by simp [children, parent, node]
  nodup_children p := by simp [children, node]
  acyclic id h := by
    obtain ⟨p, hp, _⟩ := below_iff.1 h
    simp [parent, node] at hp

section

variable (tree : SyntaxTree)
include tree

lemma ofTree_spec : SowSpec { nodes := #[] } (ofTree tree) tree :=
  sow_spec tree _

lemma wellFormed_ofTree : (ofTree tree).WellFormed :=
  (ofTree_spec tree).wellFormed wellFormed_empty

lemma size_ofTree : (ofTree tree).size = tree.size := by
  rw [(ofTree_spec tree).size_eq]
  simp [size]

lemma sown_ofTree : Sown (ofTree tree) root tree :=
  (ofTree_spec tree).sown

lemma parent_root_ofTree : (ofTree tree).parent root = none :=
  (ofTree_spec tree).top_parent

/-- A forest made of a tree shows that tree. -/
lemma tree_ofTree : (ofTree tree).tree = tree :=
  (sown_ofTree tree).subtree_eq (wellFormed_ofTree tree)

/-- The nodes of a forest made of a tree are numbered in pre-order. -/
lemma preorder_ofTree : root :: (ofTree tree).descendants root = List.range (ofTree tree).size := by
  rw [(sown_ofTree tree).preorder_eq (wellFormed_ofTree tree), size_ofTree, range_eq_range']
  rfl

end

/-! ## Copies -/

lemma WellFormed.copy (hf : f.WellFormed) (id : Nat) : (f.copy id).2.WellFormed :=
  (sow_spec (f.subtree id) f).wellFormed hf

lemma copy_fst (f : Forest) (id : Nat) : (f.copy id).1 = f.size :=
  sow_fst f _

end SqlDialect.Forest
