import SqlDialect.Proofs.Forest.Changes

/-!
# The keys of attributes

Steps of a conversion copy attributes, remove them or set one with a key of their own, so a
property of all keys of a forest is kept if the keys that are set have it.
-/

namespace SqlDialect

variable {K : String → Prop}

namespace SyntaxTree

mutual

/-- All keys of attributes in the tree satisfy `K`. -/
def KeysIn (K : String → Prop) : SyntaxTree → Prop
  | .node _ _ attributes children =>
    (∀ entry ∈ attributes.entries, K entry.1) ∧ KeysInAll K children

/-- All keys of attributes in the trees satisfy `K`. -/
def KeysInAll (K : String → Prop) : List SyntaxTree → Prop
  | [] => True
  | tree :: rest => KeysIn K tree ∧ KeysInAll K rest

end

lemma keysInAll_iff {trees : List SyntaxTree} :
    KeysInAll K trees ↔ ∀ tree ∈ trees, KeysIn K tree := by
  induction trees with
  | nil => simp [KeysInAll]
  | cons tree rest ih => simp [KeysInAll, ih]

mutual

lemma keysIn_true : ∀ tree : SyntaxTree, KeysIn (fun _ => True) tree
  | .node _ _ _ children => ⟨fun _ _ => trivial, keysInAll_true children⟩

lemma keysInAll_true : ∀ trees : List SyntaxTree, KeysInAll (fun _ => True) trees
  | [] => trivial
  | tree :: rest => ⟨keysIn_true tree, keysInAll_true rest⟩

end

end SyntaxTree

namespace Forest

variable {f g : Forest}

/-- All keys of attributes in the forest satisfy `K`. -/
def KeysIn (K : String → Prop) (f : Forest) : Prop :=
  ∀ x : Nat, ∀ entry ∈ (f.attributes x).entries, K entry.1

lemma KeysIn.of_attributes (hf : f.KeysIn K)
    (h : ∀ x : Nat, g.attributes x = f.attributes x ∨ g.attributes x = .empty) : g.KeysIn K := by
  intro x entry hmem
  obtain hx | hx := h x
  · exact hf x entry (hx ▸ hmem)
  · rw [hx] at hmem
    cases hmem

lemma KeysIn.relinked {ids : List Nat} {v : Option Nat} (hf : f.KeysIn K)
    (hfg : Relinked f g ids v) : g.KeysIn K :=
  hf.of_attributes fun x => .inl (hfg.attributes_eq x)

lemma KeysIn.setTag (hf : f.KeysIn K) (id : Nat) (tag : Tag) : (f.setTag id tag).KeysIn K :=
  hf.of_attributes fun x => .inl (field_update Node.attributes (by exact fun _ => rfl) id x)

lemma KeysIn.setText (hf : f.KeysIn K) (id : Nat) (text : String) : (f.setText id text).KeysIn K :=
  hf.of_attributes fun x => .inl (field_update Node.attributes (by exact fun _ => rfl) id x)

lemma KeysIn.setAttribute (hf : f.KeysIn K) (id : Nat) {key : String} (value : String)
    (hkey : K key) : (f.setAttribute id key value).KeysIn K := by
  intro x entry hmem
  rw [attributes, Forest.setAttribute, node_update] at hmem
  split at hmem
  · obtain rfl | hold := Dict.mem_insertEntry hmem
    · exact hkey
    · exact hf x entry hold
  · exact hf x entry hmem

lemma KeysIn.create (hf : f.KeysIn K) (tag : Tag) (text : String) :
    (f.create tag text).2.KeysIn K := by
  refine hf.of_attributes fun x => ?_
  rw [attributes, Forest.create, node_push]
  split
  · exact .inr rfl
  · exact .inl rfl

/-! ## Trees sown and read off -/

lemma KeysIn.subtreeTo (hf : f.KeysIn K) : ∀ (levels id : Nat), (f.subtreeTo levels id).KeysIn K
  | 0, id => ⟨hf id, trivial⟩
  | levels + 1, id => by
    refine ⟨hf id, SyntaxTree.keysInAll_iff.2 fun tree hmem => ?_⟩
    obtain ⟨c, -, rfl⟩ := List.mem_map.1 hmem
    exact hf.subtreeTo levels c

lemma KeysIn.subtree (hf : f.KeysIn K) (id : Nat) : (f.subtree id).KeysIn K :=
  hf.subtreeTo f.size id

lemma KeysIn.of_sow {tree : SyntaxTree} (hf : f.KeysIn K) (htree : tree.KeysIn K)
    (h : SowSpec f g tree) : g.KeysIn K := by
  intro x entry hmem
  have hsize := h.size_eq
  by_cases hold : x < f.size
  · rw [attributes, h.node_eq x hold] at hmem
    exact hf x entry hmem
  · by_cases hnew : x < g.size
    · obtain ⟨⟨tag, text, attributes, children⟩, hkeys, hsown⟩ := h.sown.exists_sown
        (fun ⟨_, _, _, _⟩ hkeys => SyntaxTree.keysInAll_iff.1 hkeys.2) htree
          (not_lt.1 hold) (by omega)
      exact hkeys.1 entry (hsown.2.2.1 ▸ hmem)
    · rw [attributes, node_of_size_le (by omega)] at hmem
      cases hmem

lemma keysIn_ofTree {tree : SyntaxTree} (htree : tree.KeysIn K) : (ofTree tree).KeysIn K :=
  KeysIn.of_sow (fun x entry hmem => by simp [attributes, node, Dict.empty] at hmem) htree
    (ofTree_spec tree)

lemma KeysIn.copy (hf : f.KeysIn K) (id : Nat) : (f.copy id).2.KeysIn K :=
  hf.of_sow (hf.subtree id) (sow_spec (f.subtree id) f)

end Forest

end SqlDialect
