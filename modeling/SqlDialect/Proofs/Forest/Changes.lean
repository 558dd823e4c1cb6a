import SqlDialect.Proofs.Forest.Sow

/-!
# How a forest changes

A conversion leaves most of a forest alone, and what one step does to the links is one of a few
changes: some nodes get another parent (`Relinked`), one new node is put under a parent
(`Sprouted`), new nodes come in (`Extends`), or only labels change (`Reworded`, `Retagged`).

A node may be put below another unless that one is under it.  To follow this through a number of
changes, one fixes at the start a set `S` of nodes that may be moved.  `Since S f g` says that
nothing else has been moved between `f` and `g`; a target `p` is `Clear` of `S` if neither it nor
a node above it may be moved.  Targets stay clear, and any node of `S` can be put below them.
-/

namespace SqlDialect.Forest

variable {ids : List Nat} {v : Option Nat} {f g h : Forest} {a c n p q x y : Nat} {tag : Tag}
  {S : Nat → Prop}

/-! ## Single changes -/

/-- All nodes are still there, with the same parents and tags. -/
structure Extends (f g : Forest) : Prop where
  size_le : f.size ≤ g.size
  parent_eq : ∀ x < f.size, g.parent x = f.parent x
  tag_eq : ∀ x < f.size, g.tag x = f.tag x

/-- One node was added, `n`, as a child of `p`. -/
structure Sprouted (f g : Forest) (n p : Nat) (tag : Tag) : Prop where
  id_eq : n = f.size
  size_eq : g.size = f.size + 1
  parent_eq : ∀ x : Nat, g.parent x = if x = n then some p else f.parent x
  tag_eq : ∀ x : Nat, g.tag x = if x = n then tag else f.tag x

/-- One node was added, `n`, without a parent. -/
structure Created (f g : Forest) (n : Nat) : Prop where
  id_eq : n = f.size
  size_eq : g.size = f.size + 1
  parent_eq : ∀ x : Nat, g.parent x = f.parent x
  tag_eq : ∀ x < f.size, g.tag x = f.tag x

/-- Texts or attributes may have changed, and nothing else. -/
structure Reworded (f g : Forest) : Prop where
  size_eq : g.size = f.size
  parent_eq : ∀ x : Nat, g.parent x = f.parent x
  tag_eq : ∀ x : Nat, g.tag x = f.tag x

/-- The tag of `id` may have changed, and nothing else. -/
structure Retagged (f g : Forest) (id : Nat) : Prop where
  size_eq : g.size = f.size
  parent_eq : ∀ x : Nat, g.parent x = f.parent x
  tag_eq : ∀ x : Nat, x ≠ id → g.tag x = f.tag x

lemma Extends.refl (f : Forest) : Extends f f := ⟨le_rfl, fun _ _ => rfl, fun _ _ => rfl⟩

lemma Extends.trans (hfg : Extends f g) (hgh : Extends g h) : Extends f h where
  size_le := hfg.size_le.trans hgh.size_le
  parent_eq x hx := (hgh.parent_eq x (hx.trans_le hfg.size_le)).trans (hfg.parent_eq x hx)
  tag_eq x hx := (hgh.tag_eq x (hx.trans_le hfg.size_le)).trans (hfg.tag_eq x hx)

lemma Extends.lt_size (hfg : Extends f g) (hx : x < f.size) : x < g.size :=
  hx.trans_le hfg.size_le

lemma Extends.parent_of (hfg : Extends f g) (hx : f.parent x = some p) : g.parent x = some p :=
  (hfg.parent_eq x (lt_size_of_parent hx)).trans hx

lemma Extends.parent_eq_none (hfg : Extends f g) (hlt : x < f.size) (hx : f.parent x = none) :
    g.parent x = none :=
  (hfg.parent_eq x hlt).trans hx

/-- A new node is not above an old one. -/
lemma Extends.not_under_new (hfg : Extends f g) (hf : f.WellFormed) (hp : p < f.size)
    (hn : f.size ≤ n) : ¬ g.Under p n := by
  have hcongr : g.Under p n ↔ f.Under p n :=
    under_congr fun z hz => hfg.parent_eq z (hf.lt_size_of_under hz hp)
  rw [hcongr]
  exact fun hunder => absurd (hf.lt_size_of_under hunder hp) (Nat.not_lt.2 hn)

lemma Sprouted.extends (hfg : Sprouted f g n p tag) : Extends f g where
  size_le := by rw [hfg.size_eq]; omega
  parent_eq x hx := by rw [hfg.parent_eq, if_neg (by have := hfg.id_eq; omega)]
  tag_eq x hx := by rw [hfg.tag_eq, if_neg (by have := hfg.id_eq; omega)]

lemma Sprouted.parent_new (hfg : Sprouted f g n p tag) : g.parent n = some p := by
  rw [hfg.parent_eq, if_pos rfl]

/-- Only `p` has got a further child. -/
lemma Sprouted.parent_of_ne (hfg : Sprouted f g n p tag) (hpq : p ≠ q)
    (hx : g.parent x = some q) : f.parent x = some q := by
  rw [hfg.parent_eq] at hx
  split at hx
  · exact absurd (Option.some.inj hx) hpq
  · exact hx

lemma Created.extends (hfg : Created f g n) : Extends f g :=
  ⟨by rw [hfg.size_eq]; omega, fun x _ => hfg.parent_eq x, hfg.tag_eq⟩

lemma Created.parent_new (hfg : Created f g n) : g.parent n = none := by
  rw [hfg.parent_eq, parent_of_size_le hfg.id_eq.ge]

lemma Created.lt_size (hfg : Created f g n) : n < g.size := by
  rw [hfg.size_eq, hfg.id_eq]
  omega

lemma Sprouted.lt_size (hfg : Sprouted f g n p tag) : n < g.size := by
  rw [hfg.size_eq, hfg.id_eq]
  omega

lemma Reworded.extends (hfg : Reworded f g) : Extends f g :=
  ⟨hfg.size_eq.ge, fun x _ => hfg.parent_eq x, fun x _ => hfg.tag_eq x⟩

lemma SowSpec.extends {tree : SyntaxTree} (hg : SowSpec f g tree) : Extends f g where
  size_le := by rw [hg.size_eq]; omega
  parent_eq x hx := by rw [parent, parent, hg.node_eq x hx]
  tag_eq x hx := by rw [tag, tag, hg.node_eq x hx]

lemma Retagged.parent_of (hfg : Retagged f g n) (hx : f.parent x = some p) :
    g.parent x = some p :=
  (hfg.parent_eq x).trans hx

lemma Retagged.under_iff (hfg : Retagged f g n) : g.Under x y ↔ f.Under x y :=
  under_congr fun z _ => hfg.parent_eq z

/-! ## The nodes that may be moved -/

/-- Between the two forests no node has got another parent but some in `S`, and new ones. -/
structure Since (S : Nat → Prop) (f g : Forest) : Prop where
  size_le : f.size ≤ g.size
  parent_eq : ∀ x < f.size, ¬ S x → g.parent x = f.parent x

/-- Neither the node nor one above it is in `S`. -/
structure Clear (S : Nat → Prop) (f : Forest) (p : Nat) : Prop where
  lt_size : p < f.size
  not_mem_above : ∀ z, f.Under p z → ¬ S z

/-- The node has a parent, and `a` is not under it. -/
def Loose (f : Forest) (a c : Nat) : Prop :=
  (∃ p, f.parent c = some p) ∧ ¬ f.Under a c

lemma clear_loose (ha : a < f.size) : Clear (f.Loose a) f a :=
  ⟨ha, fun _ hz hloose => hloose.2 hz⟩

lemma clear_unmoved (hp : p < f.size) : Clear (fun _ => False) f p :=
  ⟨hp, fun _ _ h => h⟩

/-- Nothing above a node is below it. -/
lemma WellFormed.clear_below (hf : f.WellFormed) (ha : f.Under a p) (hp : p < f.size) :
    Clear (f.Below · a) f p :=
  ⟨hp, fun _ hz hbelow => hf.acyclic a ((ha.trans hz).trans_below hbelow)⟩

/-- Nothing above a node is a child of it. -/
lemma WellFormed.clear_children (hf : f.WellFormed) (ha : a < f.size) :
    Clear (f.parent · = some a) f a :=
  ⟨ha, fun _ hz hparent => hf.acyclic a (hz.trans_below (below_of_parent hparent))⟩

lemma WellFormed.loose_of_parent (hf : f.WellFormed) (hc : f.parent c = some a) : f.Loose a c :=
  ⟨⟨a, hc⟩, hf.not_under_of_child hc⟩

lemma WellFormed.loose_of_below (hf : f.WellFormed) (hc : f.Below c a) : f.Loose a c :=
  ⟨(below_iff.1 hc).imp fun _ hp => hp.1, hf.not_under_of_below hc⟩

namespace Since

lemma refl (S : Nat → Prop) (f : Forest) : Since S f f := ⟨le_rfl, fun _ _ _ => rfl⟩

section

variable (hfg : Since S f g)
include hfg

lemma relinked (hgh : Relinked g h ids v) (hids : ∀ i ∈ ids, S i ∨ f.size ≤ i) : Since S f h where
  size_le := hgh.size_eq ▸ hfg.size_le
  parent_eq x hx hS := by
    have hmem : x ∉ ids := fun hmem => (hids x hmem).elim hS (by omega)
    rw [hgh.parent_of_notMem hmem, hfg.parent_eq x hx hS]

lemma extend (hgh : Extends g h) : Since S f h where
  size_le := hfg.size_le.trans hgh.size_le
  parent_eq x hx hS := by
    rw [hgh.parent_eq x (hx.trans_le hfg.size_le), hfg.parent_eq x hx hS]

lemma retagged (hgh : Retagged g h n) : Since S f h where
  size_le := hgh.size_eq ▸ hfg.size_le
  parent_eq x hx hS := by rw [hgh.parent_eq, hfg.parent_eq x hx hS]

lemma mono {T : Nat → Prop} (hST : ∀ x, S x → T x) : Since T f g :=
  ⟨hfg.size_le, fun x hx hT => hfg.parent_eq x hx fun hS => hT (hST x hS)⟩

lemma trans (hgh : Since S g h) : Since S f h where
  size_le := hfg.size_le.trans hgh.size_le
  parent_eq x hx hS := by
    rw [hgh.parent_eq x (hx.trans_le hfg.size_le) hS, hfg.parent_eq x hx hS]

/-- Above a node that is clear of `S`, nothing has changed. -/
lemma under_iff (hf : f.WellFormed) (hclear : Clear S f p) : g.Under p x ↔ f.Under p x :=
  under_congr fun z hz =>
    hfg.parent_eq z (hf.lt_size_of_under hz hclear.lt_size) (hclear.not_mem_above z hz)

lemma clear (hf : f.WellFormed) (hclear : Clear S f p) : Clear S g p where
  lt_size := hclear.lt_size.trans_le hfg.size_le
  not_mem_above z hz := hclear.not_mem_above z ((hfg.under_iff hf hclear).1 hz)

end

end Since

namespace Clear

lemma not_mem (hp : Clear S f p) : ¬ S p := hp.not_mem_above p (Under.refl f p)

/-- A node whose parent is clear is clear, unless it is itself in `S`. -/
lemma of_parent (hp : Clear S f p) (hc : f.parent c = some p) (hS : ¬ S c) : Clear S f c := by
  refine ⟨lt_size_of_parent hc, fun z hz => ?_⟩
  rw [Forest.under_iff, hc] at hz
  obtain rfl | ⟨q, hq, hqz⟩ := hz
  · exact hS
  · cases hq
    exact hp.not_mem_above z hqz

lemma up (hc : Clear S f c) (hf : f.WellFormed) (hp : f.parent c = some p) : Clear S f p :=
  ⟨hf.parent_lt hp, fun z hz => hc.not_mem_above z (under_iff.2 (.inr ⟨p, hp, hz⟩))⟩

lemma of_parent_eq_none (hlt : c < f.size) (hc : f.parent c = none) (hS : ¬ S c) :
    Clear S f c := by
  refine ⟨hlt, fun z hz => ?_⟩
  rw [under_iff_eq_of_parent_eq_none hc] at hz
  exact hz ▸ hS

lemma relinked (hp : Clear S f p) (hfg : Relinked f g ids v)
    (hids : ∀ i ∈ ids, S i) : Clear S g p where
  lt_size := hfg.size_eq ▸ hp.lt_size
  not_mem_above z hz := hp.not_mem_above z
    ((hfg.under_iff fun i hi hunder => hp.not_mem_above i hunder (hids i hi)).1 hz)

/-- A clear node keeps its parent. -/
lemma parent_eq (hp : Clear S f p) (hfg : Relinked f g ids v)
    (hids : ∀ i ∈ ids, S i) : g.parent p = f.parent p :=
  hfg.parent_of_notMem fun hmem => hp.not_mem (hids p hmem)

lemma extend (hp : Clear S f p) (hfg : Extends f g) (hf : f.WellFormed) : Clear S g p :=
  ((Since.refl S f).extend hfg).clear hf hp

lemma retagged (hp : Clear S f p) (hfg : Retagged f g n) (hf : f.WellFormed) : Clear S g p :=
  ((Since.refl S f).retagged hfg).clear hf hp

/-- A new node under a clear one is clear. -/
lemma sprouted (hp : Clear S f p) (hfg : Sprouted f g n p tag) (hf : f.WellFormed) (hS : ¬ S n) :
    Clear S g n :=
  (hp.extend hfg.extends hf).of_parent hfg.parent_new hS

end Clear

end SqlDialect.Forest
