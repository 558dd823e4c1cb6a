import SqlDialect.Proofs.Conversion.Preorder
import SqlDialect.Proofs.ControlFlow.GuardedDrop

/-!
# The statements of guarded drops

`flattened` says what becomes of a tree: every statement with a guarded drop in one of its clauses
gives way to the drop.  The pass meets the conditions in pre-order and changes what is around them,
so `Lifting` says of every node where it is once some of them have been met.
`convertGuardedDrops_flattened` puts this together.
-/

namespace SqlDialect

open List

namespace SyntaxTree

/-- The first guarded drop in a clause of the statement. -/
def guardedIn (statement : SyntaxTree) : Option SyntaxTree :=
  (statement.children.flatMap children).find? isGuardedDrop

mutual

/-- The tree with every statement that holds a guarded drop replaced by the drop. -/
def flattened : SyntaxTree → SyntaxTree
  | .node tag text attributes children => .node tag text attributes (flattenedAll children)

def flattenedAll : List SyntaxTree → List SyntaxTree
  | [] => []
  | tree :: rest => ((guardedIn tree).map unguarded).getD (flattened tree) :: flattenedAll rest

end

lemma flattened_node (tag : Tag) (text : String) (attributes : Dict String)
    (trees : List SyntaxTree) : flattened (.node tag text attributes trees) =
      .node tag text attributes
        (trees.map fun tree => ((guardedIn tree).map unguarded).getD (flattened tree)) := by
  have hall : flattenedAll trees =
      trees.map fun tree => ((guardedIn tree).map unguarded).getD (flattened tree) := by
    induction trees with
    | nil => rfl
    | cons tree rest ih => rw [flattenedAll, ih, map_cons]
  rw [flattened, hall]

end SyntaxTree

namespace ControlFlow

open Conversion Forest SyntaxTree

/-! ## All guarded drops -/

section

variable {f g k : Forest} {clause drop i outer x : Nat} {done rest taken : List NodeId}

def Guarded (f : Forest) (id : NodeId) : Prop :=
  isGuardedDrop (f.subtree id) = true

/-- The statement that a condition is in. -/
def outerOf (f : Forest) (id : NodeId) : Option NodeId :=
  f.parent id >>= f.parent

/-- What stands in the place of a node once the drops of `taken` have been lifted. -/
def standIn (f : Forest) (taken : List NodeId) (id : NodeId) : NodeId :=
  ((taken.find? fun i => outerOf f i == some id) >>= (f.path · branchPath)).getD id

lemma standIn_of_ne (h : ∀ i ∈ taken, outerOf f i ≠ some x) : standIn f taken x = x := by
  rw [standIn, find?_eq_none.2 fun i hi => by simpa using h i hi]
  rfl

lemma standIn_cons_self (h : outerOf f i = some x) (hdrop : f.path i branchPath = some drop) :
    standIn f (i :: taken) x = drop := by
  rw [standIn, find?_cons_of_pos (by simp [h]), Option.bind_eq_bind, Option.bind_some, hdrop]
  rfl

lemma standIn_cons_of_ne (h : outerOf f i ≠ some x) :
    standIn f (i :: taken) x = standIn f taken x := by
  rw [standIn, find?_cons_of_neg (by simpa using h), standIn]

lemma standIn_cases (f : Forest) (taken : List NodeId) (id : NodeId) :
    standIn f taken id = id ∨ ∃ i ∈ taken, f.path i branchPath = some (standIn f taken id) := by
  rw [standIn]
  cases hfind : taken.find? fun i => outerOf f i == some id with
  | none => exact .inl rfl
  | some i =>
    have hi := mem_of_find?_eq_some hfind
    cases hdrop : f.path i branchPath with
    | none => exact .inl (by simp [hdrop])
    | some drop => exact .inr ⟨i, hi, by simp [hdrop]⟩

/-- The drops of `taken` have been lifted, and these are the guarded drops in `done` that are not in
another one. The nodes in `rest` are still to come. -/
structure Lifting (f : Forest) (done rest taken : List NodeId) (g : Forest) : Prop
    extends Labelled f g where
  passed : Passed f (Guarded f) done rest
  mem_done : ∀ i ∈ taken, i ∈ done
  mem_taken_iff : ∀ x ∈ done, x ∈ taken ↔ Guarded f x ∧ ∀ a, f.Below x a → ¬ Guarded f a
  parent_eq : ∀ x : Nat, x < f.size → (∀ i ∈ taken, ¬ f.Below x i) →
    (∀ i ∈ taken, outerOf f i ≠ some x) → g.parent x = f.parent x
  parent_outer : ∀ i ∈ taken, ∀ o, outerOf f i = some o → g.parent o = none ∧ f.parent o ≠ none
  children_eq : ∀ x : Nat, x < f.size → (∀ i ∈ taken, ¬ f.Under x i) →
    g.children x = (f.children x).map (standIn f taken)
  lifted : ∀ i ∈ taken, ∃ outer drop, outerOf f i = some outer ∧ f.path i branchPath = some drop ∧
    standIn f taken outer = drop ∧ g.subtree drop = unguarded (f.subtree i) ∧
      ∀ x : Nat, x < f.size → g.Under x drop → f.Under x i

namespace Lifting

lemma start (hf : f.WellFormed) : Lifting f [] (root :: (f.descendants root ++ [])) [] f where
  toLabelled := .refl hf
  passed := .start f _
  mem_done := by simp
  mem_taken_iff := by simp
  parent_eq _ _ _ _ := rfl
  parent_outer := by simp
  children_eq x _ _ := by
    rw [map_congr_left fun c _ => standIn_of_ne (by simp), map_id']
  lifted := by simp

/-- A node that is still to come is in no drop that has been lifted. -/
lemma not_under (h : Lifting f done rest taken g) (hx : x ∈ rest) : ∀ i ∈ taken, ¬ f.Under x i := by
  intro i hi
  have hdone := h.mem_done i hi
  exact h.passed.shut i hdone ((h.mem_taken_iff i hdone).1 hi).1 x hx

/-- The statements that have gone are among the nodes that have been passed. -/
lemma outer_mem_done (h : Lifting f done rest taken g) (hf : f.WellFormed)
    (hroot : f.parent root = none) (hi : i ∈ taken) (houter : outerOf f i = some outer) :
    outer ∈ done := by
  obtain ⟨p, hp, houter⟩ := Option.bind_eq_some_iff.1 houter
  have hbelow : f.Below i outer := (below_of_parent hp).trans (below_of_parent houter)
  exact h.passed.mem_done_of_below hf hroot (h.mem_done i hi) hbelow

/-- Under a node that is still to come nothing has changed. -/
lemma sameContent (h : Lifting f done (i :: (f.descendants i ++ rest)) taken g) (hf : f.WellFormed)
    (hroot : f.parent root = none) (hi : i < f.size) (hx : f.Under x i) : SameContent f g x := by
  have hmem (y : Nat) (hy : f.Under y i) : y ∈ i :: (f.descendants i ++ rest) := by
    rw [← cons_append]
    exact mem_append_left _ (hf.mem_preorder_iff.2 hy)
  have hlt : x < f.size := hx.lt_size hi
  refine ⟨h.tag_eq x hlt, h.text_eq x hlt, h.attributes_eq x hlt, ?_⟩
  rw [h.children_eq x hlt (h.not_under (hmem x hx))]
  refine (map_congr_left fun c hc => standIn_of_ne fun j hj houter => ?_).trans (map_id _)
  have hc : f.Under c i := (under_of_parent (hf.parent_of_mem hc)).trans hx
  exact h.passed.not_mem_done hf (hmem c hc) (h.outer_mem_done hf hroot hj houter)

/-- Where a node that is in no lifted drop has a parent, it is the one that it had. -/
lemma parent_of (h : Lifting f done rest taken g) {z q : Nat} (hlt : z < f.size)
    (hz : ∀ j ∈ taken, ¬ f.Below z j) (hq : g.parent z = some q) : f.parent z = some q := by
  rw [← h.parent_eq z hlt hz fun j hj houter => ?_]
  · exact hq
  · rw [(h.parent_outer j hj z houter).1] at hq
    cases hq

section

variable (h : Lifting f done (i :: (f.descendants i ++ rest)) taken g) (hf : f.WellFormed)
  (hroot : f.parent root = none) (hi : i < f.size)
include h hf hroot hi

/-- The parts of a drop that has been lifted are not disturbed by a further one. -/
lemma sameContent_lifted
    (houter : g.Below i outer) (hl : Lifted g i drop outer k) {j dropped z : Nat} (hj : j ∈ taken)
    (hdropped : f.path j branchPath = some dropped)
    (hin : ∀ x : Nat, x < f.size → g.Under x dropped → f.Under x j) (hz : g.Under z dropped) :
    SameContent g k z := by
  have hbelow : f.Below dropped j := hf.below_of_path hdropped
  have hzlt : z < g.size := hz.lt_size (hbelow.lt_size.trans_le h.size_le)
  have hij : ¬ f.Under i j := h.not_under (.head _) j hj
  have hoff : ¬ g.Under i dropped := fun hunder => hij (hin i hi hunder)
  have hzi : ¬ g.Under z i := fun hunder => by
    obtain hunder | hunder := hz.total hunder
    · have hold := under_of_sameContent hf h.wellFormed
        (fun y hy => h.sameContent hf hroot hi hy) hunder
      obtain hunder | hunder := hbelow.under.total hold
      · exact h.passed.not_mem_done_of_under hf hunder (h.mem_done j hj)
      · exact hij hunder
    · exact hoff hunder
  have hnot : outer ∉ g.children z := fun hmem =>
    hoff ((houter.under.trans (under_of_parent (h.wellFormed.parent_of_mem hmem))).trans hz)
  refine ⟨hl.tag_eq z hzlt, hl.text_eq z hzlt, hl.attributes_eq z hzlt, ?_⟩
  rw [hl.children_eq z hzlt hzi, map_ite_of_not_mem hnot]

/-- One more drop is lifted. -/
lemma take {p : Nat} (hguarded : Guarded f i)
    (hp : g.parent i = some p) (houter : g.parent p = some outer) (hplaced : g.parent outer ≠ none)
    (hpath : g.path i branchPath = some drop) (hl : Lifted g i drop outer k) :
    Lifting f (done ++ i :: f.descendants i) rest (i :: taken) k := by
  have hsame (y : Nat) (hy : f.Under y i) : SameContent f g y := h.sameContent hf hroot hi hy
  have hold {y : Nat} (hy : g.Under y i) : f.Under y i :=
    under_of_sameContent hf h.wellFormed hsame hy
  have hbelow {y : Nat} (hy : g.Below y i) : f.Below y i := by
    obtain ⟨q, hq, hqi⟩ := below_iff.1 hy
    have hmem : y ∈ f.children q :=
      (hsame q (hold hqi)).children_eq ▸ h.wellFormed.mem_children_iff.2 hq
    exact .of_parent_under (hf.parent_of_mem hmem) (hold hqi)
  have hoff := h.not_under (.head _)
  have hlt (y : Nat) (hy : y < f.size) : y < g.size := hy.trans_le h.size_le
  -- the statement around the condition, as it was at the start
  have hpf : f.parent i = some p := h.parent_of hi (fun j hj hb => hoff j hj hb.under) hp
  have houterf : f.parent p = some outer := h.parent_of (hf.parent_lt hpf)
    (fun j hj hb => hoff j hj ((under_of_parent hpf).trans hb.under)) houter
  have hiouter : f.Below i outer := (below_of_parent hpf).trans (below_of_parent houterf)
  have hselfOuter : outerOf f i = some outer := by
    rw [outerOf, hpf]
    exact houterf
  have hothers (j : Nat) (hj : j ∈ taken) : outerOf f j ≠ some outer := fun heq =>
    hplaced (h.parent_outer j hj outer heq).1
  have hpathf : f.path i branchPath = some drop := by
    rw [← path_congr hf branchPath hsame]
    exact hpath
  have habove : g.Below i outer := (below_of_parent hp).trans (below_of_parent houter)
  exact {
    passed := h.passed.skip hf
    toLabelled := h.toLabelled.trans hl.toLabelled
    mem_done := fun j hj => by
      obtain rfl | hj := mem_cons.1 hj
      · simp
      · exact mem_append_left _ (h.mem_done j hj)
    mem_taken_iff := fun x hx => by
      obtain hdone | hunder := mem_append.1 hx
      · have hne : x ≠ i := fun heq => h.passed.not_mem_done hf (.head _) (heq ▸ hdone)
        simpa [hne] using h.mem_taken_iff x hdone
      · obtain rfl | hxi := under_iff_eq_or_below.1 (hf.mem_preorder_iff.1 hunder)
        · exact iff_of_true (.head _)
            ⟨hguarded, fun a ha => h.passed.not_above hf hroot ha⟩
        · refine iff_of_false (fun hmem => ?_) fun hopen => hopen.2 i hxi hguarded
          obtain rfl | hmem := mem_cons.1 hmem
          · exact hf.acyclic x hxi
          · exact h.passed.not_mem_done_of_under hf hxi.under (h.mem_done x hmem)
    parent_eq := fun x hx hnot hne => by
      rw [forall_mem_cons] at hnot hne
      have hxouter : x ≠ outer := fun heq => hne.1 (heq ▸ hselfOuter)
      rw [hl.parent_eq x (hlt x hx) (fun hb => hnot.1 (hbelow hb)) hxouter,
        h.parent_eq x hx hnot.2 hne.2]
    parent_outer := fun j hj o ho => by
      obtain rfl | hj := mem_cons.1 hj
      · obtain rfl := Option.mem_unique hselfOuter ho
        obtain ⟨q, hq⟩ := Option.ne_none_iff_exists'.1 hplaced
        have hqf : f.parent outer = some q := h.parent_of (hf.parent_lt houterf)
          (fun j hj hb => hoff j hj (hiouter.under.trans hb.under)) hq
        exact ⟨hl.parent_outer, by simp [hqf]⟩
      · have hdone := h.outer_mem_done hf hroot hj ho
        obtain ⟨hnone, hkept⟩ := h.parent_outer j hj o ho
        have hone : o ≠ outer := fun heq => hplaced (heq ▸ hnone)
        have holt : o < f.size := by
          obtain ⟨q, hq, ho⟩ := Option.bind_eq_some_iff.1 ho
          exact hf.parent_lt ho
        rw [hl.parent_eq o (hlt o holt) (fun hb =>
          h.passed.not_mem_done_of_under hf (hbelow hb).under hdone) hone]
        exact ⟨hnone, hkept⟩
    children_eq := fun x hx hnot => by
      rw [forall_mem_cons] at hnot
      rw [hl.children_eq x (hlt x hx) fun hunder => hnot.1 (hold hunder), h.children_eq x hx hnot.2,
        map_map]
      refine map_congr_left fun o _ => ?_
      rw [Function.comp_apply]
      by_cases ho : o = outer
      · rw [ho, standIn_of_ne hothers, if_pos rfl, standIn_cons_self hselfOuter hpathf]
      · have hne : outerOf f i ≠ some o := fun heq => ho (Option.mem_unique heq hselfOuter)
        rw [standIn_cons_of_ne hne, if_neg fun heq => ?_]
        -- what stands in for another statement is a drop, and the condition is in none
        obtain hself | ⟨j, hj, hdropped⟩ := standIn_cases f taken o
        · exact ho (hself.symm.trans heq)
        · have hunder := (hf.below_of_path hdropped).under
          rw [heq] at hunder
          exact hoff j hj (hiouter.under.trans hunder)
    lifted := fun j hj => by
      obtain rfl | hj := mem_cons.1 hj
      · refine ⟨outer, drop, hselfOuter, hpathf, standIn_cons_self hselfOuter hpathf, ?_,
          fun x hx hunder => hold (hl.under_drop x (hlt x hx) hunder)⟩
        rw [hl.subtree_drop, subtree_eq_of_sameContent hf h.wellFormed rfl hsame]
      · obtain ⟨o, dropped, ho, hdropped, hstand, hview, hin⟩ := h.lifted j hj
        have hkept (z : Nat) (hz : g.Under z dropped) : SameContent g k z :=
          h.sameContent_lifted hf hroot hi habove hl hj hdropped hin hz
        have hne : outerOf f i ≠ some o := fun heq => by
          obtain rfl := Option.mem_unique hselfOuter heq
          exact hothers j hj ho
        refine ⟨o, dropped, ho, hdropped, (standIn_cons_of_ne hne).trans hstand, ?_,
          fun x hx hunder => hin x hx ?_⟩
        · rw [subtree_eq_of_sameContent h.wellFormed hl.wellFormed rfl hkept, hview]
        · exact under_of_sameContent h.wellFormed hl.wellFormed hkept hunder }

end

/-- A node that is no guarded drop is passed. -/
lemma pass (h : Lifting f done (i :: rest) taken g) (hf : f.WellFormed) (hi : ¬ Guarded f i) :
    Lifting f (done ++ [i]) rest taken g :=
  { h with
    passed := h.passed.descend hi
    mem_done j hj := mem_append_left _ (h.mem_done j hj)
    mem_taken_iff x hx := by
      obtain hdone | hself := mem_append.1 hx
      · exact h.mem_taken_iff x hdone
      · obtain rfl := mem_singleton.1 hself
        exact iff_of_false (fun hmem => h.passed.not_mem_done hf (.head _) (h.mem_done x hmem))
          fun hopen => hi hopen.1 }

end Lifting

/-- A guarded drop is in one that is in no other. -/
lemma exists_open (hf : f.WellFormed) {a : Nat} (ha : Guarded f a) :
    ∃ b, f.Under a b ∧ Guarded f b ∧ ∀ c, f.Below b c → ¬ Guarded f c := by
  induction hn : f.depth a using Nat.strong_induction_on generalizing a with
  | _ n ih =>
    by_cases habove : ∃ c, f.Below a c ∧ Guarded f c
    · obtain ⟨c, hac, hc⟩ := habove
      obtain ⟨b, hcb, hb, hopen⟩ := ih (f.depth c) (hn ▸ hf.depth_lt_of_below hac) hc rfl
      exact ⟨b, hac.under.trans hcb, hb, hopen⟩
    · exact ⟨a, .refl f a, ha, fun c hac hc => habove ⟨c, hac, hc⟩⟩

/-- The first guarded drop in a statement, by its number. -/
lemma guardedIn_subtree (hf : f.WellFormed) (o : Nat) :
    guardedIn (f.subtree o) = (((f.children o).flatMap f.children).find?
      fun i => isGuardedDrop (f.subtree i)).map f.subtree := by
  have hviews : (f.subtree o).children.flatMap SyntaxTree.children =
      ((f.children o).flatMap f.children).map f.subtree := by
    rw [hf.children_subtree, flatMap_map, map_flatMap]
    exact flatMap_congr fun c _ => hf.children_subtree c
  rw [guardedIn, hviews, find?_map]
  rfl

namespace Lifting

/-- No statement around the node has gone. -/
def Stays (f : Forest) (taken : List NodeId) (x : Nat) : Prop :=
  ∀ a, f.Under x a → ∀ j ∈ taken, outerOf f j ≠ some a

/-- A guarded drop in a child of a node that stays has been lifted. -/
lemma mem_taken_of_stays (h : Lifting f done [] taken g) (hf : f.WellFormed)
    (hroot : f.parent root = none) {o p : Nat} (hxroot : f.Under x root) (hx : Stays f taken x)
    (ho : f.parent o = some x) (hp : f.parent p = some o) (hi : f.parent i = some p)
    (hguarded : Guarded f i) : i ∈ taken := by
  have hix : f.Under i x :=
    ((under_of_parent hi).trans (under_of_parent hp)).trans (under_of_parent ho)
  have hidone : i ∈ done := (h.passed.mem_done_iff hf).2 (hix.trans hxroot)
  refine (h.mem_taken_iff i hidone).2 ⟨hguarded, fun a hia ha => ?_⟩
  -- if it were in another one, then the statement around that one would be around the node
  obtain ⟨b, hab, hb, hopen⟩ := exists_open hf ha
  have hib : f.Below i b := Relation.TransGen.trans_left hia hab
  have hbdone := h.passed.mem_done_of_below hf hroot hidone hib
  have htaken : b ∈ taken := (h.mem_taken_iff b hbdone).2 ⟨hb, hopen⟩
  obtain ⟨outer, -, houter, -⟩ := h.lifted b htaken
  obtain ⟨q, hq, hqouter⟩ := Option.bind_eq_some_iff.1 houter
  refine hx outer ?_ b htaken houter
  obtain ⟨p', hp', hpb⟩ := below_iff.1 hib
  obtain rfl := Option.mem_unique hi hp'
  obtain rfl | ⟨o', ho', hob⟩ := under_iff.1 hpb
  · obtain rfl := Option.mem_unique hp hq
    obtain rfl := Option.mem_unique ho hqouter
    exact .refl f x
  obtain rfl := Option.mem_unique hp ho'
  obtain rfl | ⟨x', hx', hxb⟩ := under_iff.1 hob
  · obtain rfl := Option.mem_unique ho hq
    exact under_of_parent hqouter
  obtain rfl := Option.mem_unique ho hx'
  exact (hxb.trans (under_of_parent hq)).trans (under_of_parent hqouter)

/-- A node that stays looks as the function on trees says. -/
lemma subtree_eq (h : Lifting f done [] taken g) (hf : f.WellFormed) (hroot : f.parent root = none)
    (x : Nat) : f.Under x root → x < f.size → Stays f taken x →
      g.subtree x = flattened (f.subtree x) := by
  induction x using hf.induction_children with
  | _ x ih =>
    intro hxroot hlt hx
    have hoff : ∀ j ∈ taken, ¬ f.Under x j := by
      intro j hj hxj
      obtain ⟨outer, -, houter, -⟩ := h.lifted j hj
      obtain ⟨q, hq, hqouter⟩ := Option.bind_eq_some_iff.1 houter
      exact hx outer ((hxj.trans (under_of_parent hq)).trans (under_of_parent hqouter)) j hj houter
    rw [h.wellFormed.subtree_eq x, hf.subtree_eq x, flattened_node, h.tag_eq x hlt, h.text_eq x hlt,
      h.attributes_eq x hlt, h.children_eq x hlt hoff, map_map, map_map]
    congr 1
    refine map_congr_left fun o hox => ?_
    have ho := hf.parent_of_mem hox
    rw [Function.comp_apply, Function.comp_apply, guardedIn_subtree hf]
    cases hfind : ((f.children o).flatMap f.children).find? fun i =>
      isGuardedDrop (f.subtree i) with
    | some i =>
      obtain ⟨p, hp, hi⟩ := mem_flatMap.1 (mem_of_find?_eq_some hfind)
      have hp := hf.parent_of_mem hp
      have hi := hf.parent_of_mem hi
      have hguarded : Guarded f i := find?_some (p := fun i => isGuardedDrop (f.subtree i)) hfind
      have htaken := h.mem_taken_of_stays hf hroot hxroot hx ho hp hi hguarded
      obtain ⟨outer, drop, houter, -, hstand, hview, -⟩ := h.lifted i htaken
      obtain rfl : o = outer := by
        rw [outerOf, hi] at houter
        exact Option.mem_unique hp houter
      rw [hstand, hview]
      rfl
    | none =>
      have hstays : ∀ j ∈ taken, outerOf f j ≠ some o := by
        intro j hj houter
        obtain ⟨p, hp, hpo⟩ := Option.bind_eq_some_iff.1 houter
        have hmem : j ∈ (f.children o).flatMap f.children :=
          mem_flatMap.2 ⟨p, hf.mem_children_iff.2 hpo, hf.mem_children_iff.2 hp⟩
        exact find?_eq_none.1 hfind j hmem ((h.mem_taken_iff j (h.mem_done j hj)).1 hj).1
      rw [standIn_of_ne hstays]
      refine ih o hox ((under_of_parent ho).trans hxroot) (lt_size_of_parent ho) fun a ha => ?_
      obtain rfl | ⟨x', hx', hxa⟩ := under_iff.1 ha
      · exact hstays
      · obtain rfl := Option.mem_unique ho hx'
        exact hx a hxa

end Lifting

/-- Every guarded drop has a name, and is in a clause of a statement that is in something; no two
are in the same statement. -/
structure Orderly (f : Forest) : Prop where
  liftable : ∀ i, f.Under i root → Guarded f i → ∃ clause p outer holder,
    f.path i (branchPath ++ [.clause]) = some clause ∧ f.child clause .otherNode ≠ none ∧
      f.parent i = some p ∧ f.tag p = .clause ∧
        f.parent p = some outer ∧ f.tag outer = .statement ∧ f.parent outer = some holder
  unique : ∀ i j, f.Under i root → f.Under j root → Guarded f i → Guarded f j →
    outerOf f i = outerOf f j → i = j

/-- In an orderly forest the next guarded drop can be lifted. -/
lemma Lifting.liftable (h : Lifting f done (i :: (f.descendants i ++ rest)) taken g)
    (hf : f.WellFormed) (hroot : f.parent root = none) (hi : i < f.size) (hguarded : Guarded f i)
    (hclause : g.path i (branchPath ++ [.clause]) = some clause) (horderly : Orderly f) :
    Liftable g i clause := by
  have hsame (y : Nat) (hy : f.Under y i) : SameContent f g y := h.sameContent hf hroot hi hy
  have hreached (x : Nat) (hx : x ∈ done ++ (i :: (f.descendants i ++ rest))) : f.Under x root :=
    hf.mem_preorder_iff.1 (h.passed.preorder ▸ hx)
  have htaken (j : Nat) (hj : j ∈ taken) : f.Under j root ∧ Guarded f j :=
    ⟨hreached j (mem_append_left _ (h.mem_done j hj)),
      ((h.mem_taken_iff j (h.mem_done j hj)).1 hj).1⟩
  have hiroot : f.Under i root := hreached i (by simp)
  obtain ⟨c, p, outer, holder, hpath, hname, hp, hptag, houter, hotag, hholder⟩ :=
    horderly.liftable i hiroot hguarded
  obtain rfl : c = clause := by
    rw [path_congr hf _ hsame, hpath] at hclause
    exact Option.some.inj hclause
  have hoff := h.not_under (.head _)
  -- neither the clause around the condition nor the statement has gone
  have hpkept : ∀ j ∈ taken, outerOf f j ≠ some p := by
    intro j hj heq
    obtain ⟨-, q, o, -, -, -, hq, -, ho, hotag', -⟩ :=
      horderly.liftable j (htaken j hj).1 (htaken j hj).2
    rw [outerOf, hq, Option.bind_eq_bind, Option.bind_some, ho] at heq
    obtain rfl := Option.some.inj heq
    rw [hptag] at hotag'
    cases hotag'
  have hokept : ∀ j ∈ taken, outerOf f j ≠ some outer := by
    intro j hj heq
    have hself : outerOf f i = some outer := by
      rw [outerOf, hp]
      exact houter
    have hij := horderly.unique i j hiroot (htaken j hj).1 hguarded (htaken j hj).2
      (hself.trans heq.symm)
    exact hoff j hj (hij ▸ .refl f i)
  have habove (z : Nat) (hz : f.Under i z) : ∀ j ∈ taken, ¬ f.Below z j := fun j hj hb =>
    hoff j hj (hz.trans hb.under)
  have hpi : f.Under i p := under_of_parent hp
  have hoi : f.Under i outer := hpi.trans (under_of_parent houter)
  have hikept : ∀ j ∈ taken, outerOf f j ≠ some i := fun j hj heq =>
    h.passed.not_mem_done hf (.head _) (h.outer_mem_done hf hroot hj heq)
  refine ⟨?_, p, outer, holder, ?_, ?_, ?_⟩
  · have hunder : f.Under c i := hf.under_of_path hpath
    rwa [(hf.sameChildren fun d hd => hsame d (hd.trans hunder)).child_eq]
  · rw [h.parent_eq i hi (habove i (.refl f i)) hikept, hp]
  · rw [h.parent_eq p (hf.parent_lt hp) (habove p hpi) hpkept, houter]
  · rw [h.parent_eq outer (hf.parent_lt houter) (habove outer hoi) hokept, hholder]

end

/-! ## The pass -/

section

variable {w w' : Workspace} {i : Nat} {rest : List NodeId}

/-- What holds while the nodes of `rest` are still to come. -/
def Flattening (w : Workspace) (rest : List NodeId) (w' : Workspace) : Prop :=
  w'.notes = w.notes ∧ ∃ done taken, Lifting w.forest done rest taken w'.forest

lemma guardVisit_flattening (hf : w.forest.WellFormed) (hroot : w.forest.parent root = none)
    (hi : i < w.forest.size) (h : Flattening w (i :: (w.forest.descendants i ++ rest)) w') :
    Ends (guardVisit i) w' (fun decision w'' => match decision with
      | .skip => Flattening w rest w''
      | .descend => w''.forest.children i = w.forest.children i ∧
        Flattening w (w.forest.descendants i ++ rest) w'')
      fun e _ => (∃ missing, e = .shape missing) ∧ ¬ Orderly w.forest := by
  obtain ⟨hnotes, done, taken, h⟩ := h
  have hsame (y : Nat) (hy : w.forest.Under y i) : SameContent w.forest w'.forest y :=
    h.sameContent hf hroot hi hy
  have hview : w'.forest.subtree i = w.forest.subtree i :=
    subtree_eq_of_sameContent hf h.wellFormed rfl hsame
  refine ends_forest ?_
  cases hdrop : guardedDrop? w'.forest i with
  | none =>
    have hnot : ¬ Guarded w.forest i := fun hguarded => by
      rw [Guarded, ← hview] at hguarded
      obtain ⟨clause, hclause⟩ := exists_guardedDrop? h.wellFormed hguarded
      rw [hdrop] at hclause
      cases hclause
    exact ends_pure ⟨(hsame i (.refl _ i)).children_eq, hnotes, _, taken, h.pass hf hnot⟩
  | some clause =>
    have hguarded : Guarded w.forest i := by
      rw [Guarded, ← hview]
      exact (exists_of_guardedDrop? h.wellFormed hdrop).1
    refine ends_bind ((unguardDrop_lifted h.wellFormed hdrop).mono ?_ ?_)
    · rintro - w'' ⟨hnotes', p, outer, drop, hp, houter, hplaced, hpath, hl⟩
      exact ends_pure ⟨hnotes'.trans hnotes, _, _,
        h.take hf hroot hi hguarded hp houter hplaced hpath hl⟩
    · rintro e - ⟨hshape, hnot⟩
      refine ⟨hshape, fun horderly => hnot (h.liftable hf hroot hi hguarded ?_ horderly)⟩
      rw [guardedDrop?_eq h.wellFormed] at hdrop
      split at hdrop
      · exact hdrop
      · cases hdrop

lemma convertGuardedDrops_lifting (hw : Whole w) :
    Ends convertGuardedDrops w (fun _ => Flattening w [])
      fun e _ => (∃ missing, e = .shape missing) ∧ ¬ Orderly w.forest := by
  have hf := hw.wellFormed
  have hroot := hw.root_parent
  refine ends_forest (walkFrom_preorder hf (fun rest (_ : Unit) => Flattening w rest)
    ?_ ?_ _ root [] () w hw.size_pos ?_ ?_ (absurd hroot))
  · rintro id rest - w' ⟨-, done, taken, h⟩ hparent hnone
    refine absurd hnone ?_
    obtain ⟨p, hp⟩ := Option.ne_none_iff_exists'.1 hparent
    have hoff := h.not_under (.head _)
    rw [h.parent_eq id (lt_size_of_parent hp) (fun j hj hb => hoff j hj hb.under) fun j hj heq =>
      h.passed.not_mem_done hf (.head _) (h.outer_mem_done hf hroot hj heq)]
    exact hparent
  · intro id rest _ w' hid h _
    refine ends_bind ((guardVisit_flattening hf hroot hid h).imp ?_)
    intro decision w'' h''
    exact ends_pure (by cases decision <;> exact h'')
  · have hlimit : w.forest.size < walkLimit w.forest := le_walkLimit (by omega)
    omega
  · exact ⟨rfl, [], [], .start hf⟩

end

/-- The pass replaces every statement around a guarded drop by the drop, and does nothing else. If
it fails, some guarded drop is not where a drop can be put in the place of a statement, or does not
have a name. -/
theorem convertGuardedDrops_flattened {w : Workspace} (hw : Whole w) :
    (Orderly w.forest → ∃ w', convertGuardedDrops w = .ok () w') ∧
      (∀ w', convertGuardedDrops w = .ok () w' → w'.notes = w.notes ∧
        w'.forest.tree = flattened w.forest.tree) ∧
      ∀ e w', convertGuardedDrops w = .error e w' → ∃ missing, e = .shape missing := by
  obtain ⟨hok, herror⟩ := ends_iff.1 (convertGuardedDrops_lifting hw)
  refine ⟨fun horderly => ?_, fun w' hrun => ?_, fun e w' hrun => (herror e w' hrun).1⟩
  · cases hrun : convertGuardedDrops w with
    | ok _ w' => exact ⟨w', rfl⟩
    | error e w' => exact absurd horderly (herror e w' hrun).2
  · obtain ⟨hnotes, done, taken, h⟩ := hok () w' hrun
    refine ⟨hnotes, h.subtree_eq hw.wellFormed hw.root_parent root (.refl _ _) hw.size_pos ?_⟩
    intro a ha j hj houter
    have haroot : a = root := ((under_iff_eq_of_parent_eq_none hw.root_parent).1 ha).symm
    rw [haroot] at houter
    exact (h.parent_outer j hj root houter).2 hw.root_parent

/-- A table is dropped if it exists and the condition `also` holds. -/
def dropIf (also : List SyntaxTree) : SyntaxTree :=
  group .root [asStatement [group .ifStatement [opener "if",
    group .booleanExpression ([.node .functionKeyword "object_id" .empty [],
      group .functionParens [.node .string "t" .empty []], keyword "is", keyword "not",
      keyword "null"] ++ also),
    group .containerSingleStatement [asStatement [keyword "drop", keyword "table",
      .node .otherNode "t" .empty [], semicolon]]]]]

/-- A further condition. -/
def isOne : List SyntaxTree :=
  [keyword "and", .node .otherNode "@x" .empty [], .node .equalsSign "=" .empty [],
    .node .numberValue "1" .empty []]

lemma orderly_dropIf : Orderly (ofTree (dropIf isOne)) := by
  have honly : ∀ i < (ofTree (dropIf isOne)).size, Guarded (ofTree (dropIf isOne)) i → i = 3 := by
    simp only [Guarded]
    decide +kernel
  have hpos : root < (ofTree (dropIf isOne)).size := by decide +kernel
  constructor
  · intro i hi hguarded
    obtain rfl := honly i (hi.lt_size hpos) hguarded
    refine ⟨19, 2, 1, 0, ?_⟩
    decide +kernel
  · intro i j hi hj hguarded hguarded' _
    rw [honly i (hi.lt_size hpos) hguarded, honly j (hj.lt_size hpos) hguarded']

theorem convertGuardedDrops_flattened_dropIf :
    Whole { forest := ofTree (dropIf isOne) } ∧ Orderly (ofTree (dropIf isOne)) ∧
      ∃ w', convertGuardedDrops { forest := ofTree (dropIf isOne) } = .ok () w' ∧
        w'.forest.tree = flattened (dropIf isOne) := by
  have hw : Whole { forest := ofTree (dropIf isOne) } := whole_ofTree _
  obtain ⟨hok, htree, -⟩ := convertGuardedDrops_flattened hw
  obtain ⟨w', hrun⟩ := hok orderly_dropIf
  refine ⟨hw, orderly_dropIf, w', hrun, ?_⟩
  rw [(htree w' hrun).2, tree_ofTree]

/-- The further condition is lost, and the table is dropped if it exists. -/
theorem runPasses_dropIf :
    ∃ w, runPasses [⟨"guarded_drop", convertGuardedDrops⟩] { forest := ofTree (dropIf isOne) } =
        .ok w ∧ (dropIf isOne).render = "if object_id('t') is not null and @x = 1 drop table t;" ∧
      w.forest.tree.render = "drop table if exists t;" := by
  decide +kernel

end ControlFlow

end SqlDialect
