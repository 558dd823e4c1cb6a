import SqlDialect.Proofs.Conversion.Move
import SqlDialect.Proofs.SyntaxTree.Parts

/-!
# Drops that are guarded by a condition

A condition without an else branch whose body is a drop gives way to the drop, made conditional by
the words `if exists`, if its condition asks for an object.  All that the pass looks for in the
condition is the word `object_id`: what it is compared with, and what else the condition says, does
not matter (`isGuardedDrop`).

The statement around the condition is replaced as a whole (`Lifted`).
-/

namespace SqlDialect

open List

/-! ## Guarded drops -/

namespace SyntaxTree

/-- From a condition to the statement that is its body. -/
def branchPath : List Tag := [.containerSingleStatement, .statement]

/-- A condition with the word `object_id`, a drop for its body and no else branch. -/
def isGuardedDrop (tree : SyntaxTree) : Bool :=
  tree.tag == .ifStatement
    && (tree.child? .booleanExpression).any (hasWord .functionKeyword "object_id")
    && (tree.path? (branchPath ++ [.clause])).any (hasWord .otherKeyword "drop")
    && (tree.child? .elseClause).isNone

/-- The clause with the words `if exists` before its first name. -/
def withIfExists : SyntaxTree → SyntaxTree
  | .node tag text attributes children => .node tag text attributes
    (insertFirst .otherNode (keyword "exists") (insertFirst .otherNode (keyword "if") children))

/-- The drop of a condition, made conditional itself. -/
def unguarded (tree : SyntaxTree) : SyntaxTree :=
  ((tree.path? branchPath).map (changeAt withIfExists [.clause])).getD tree

end SyntaxTree

/-! ## What the pass asks about a condition -/

namespace ControlFlow

open Conversion Forest SyntaxTree

section

variable {f g : Forest} {clause drop i : Nat}

/-- The pass recognizes a guarded drop by its view, and takes the first clause of its body. -/
lemma guardedDrop?_eq (hf : f.WellFormed) (i : Nat) :
    guardedDrop? f i =
      if isGuardedDrop (f.subtree i) then f.path i (branchPath ++ [.clause]) else none := by
  have hpath : branchPath ++ [Tag.clause] = [.containerSingleStatement, .statement, .clause] := rfl
  rw [guardedDrop?, isGuardedDrop, ← is_eq, ← hf.map_subtree_child, ← hf.map_subtree_child,
    ← hf.map_subtree_path, hpath, Option.isNone_map, Option.any_map, Option.any_map]
  cases f.is i .ifStatement with
  | false => rfl
  | true =>
    cases f.child i .booleanExpression with
    | none => rfl
    | some condition =>
      cases f.path i [.containerSingleStatement, .statement, .clause] with
      | none => cases f.childWithText condition .functionKeyword "object_id" <;> simp
      | some clause =>
        have hobject := hf.isSome_childWithText condition .functionKeyword "object_id"
        have hdrop := hf.isSome_childWithText clause .otherKeyword "drop"
        cases f.child i .elseClause <;>
          cases hword : f.childWithText condition .functionKeyword "object_id" <;>
          cases hword' : f.childWithText clause .otherKeyword "drop" <;>
          simp_all

/-- The places that matter for a guarded drop: its drop, and the child of the condition that holds
it. -/
lemma exists_of_guardedDrop? (hf : f.WellFormed) (h : guardedDrop? f i = some clause) :
    isGuardedDrop (f.subtree i) = true ∧ ∃ home drop, f.parent home = some i ∧
      f.parent drop = some home ∧ f.path i branchPath = some drop ∧
        f.child drop .clause = some clause := by
  rw [guardedDrop?_eq hf] at h
  split at h
  · rename_i hguarded
    rw [path_append, Option.bind_eq_bind, Option.bind_eq_some_iff] at h
    obtain ⟨drop, hdrop, hclause⟩ := h
    obtain ⟨home, hhome, hpath⟩ := Option.bind_eq_some_iff.1 hdrop
    obtain ⟨d, hd, heq⟩ := Option.bind_eq_some_iff.1 hpath
    obtain rfl : d = drop := Option.some.inj heq
    obtain ⟨c, hc, heq⟩ := Option.bind_eq_some_iff.1 hclause
    obtain rfl : c = clause := Option.some.inj heq
    exact ⟨hguarded, home, d, hf.parent_of_child hhome, hf.parent_of_child hd, hdrop, hc⟩
  · cases h

lemma exists_guardedDrop? (hf : f.WellFormed) (h : isGuardedDrop (f.subtree i) = true) :
    ∃ clause, guardedDrop? f i = some clause := by
  rw [guardedDrop?_eq hf, if_pos h]
  rw [isGuardedDrop, ← hf.map_subtree_path, Bool.and_eq_true, Bool.and_eq_true] at h
  cases hpath : f.path i (branchPath ++ [.clause]) with
  | none => simp [hpath] at h
  | some clause => exact ⟨clause, rfl⟩

/-! ## One guarded drop -/

/-- The drop `drop` of the condition `i` has taken the place of the statement `outer`, and has been
made conditional. -/
structure Lifted (f : Forest) (i drop outer : Nat) (g : Forest) : Prop extends Labelled f g where
  parent_eq : ∀ x : Nat, x < f.size → ¬ f.Below x i → x ≠ outer → g.parent x = f.parent x
  parent_outer : g.parent outer = none
  children_eq : ∀ x : Nat, x < f.size → ¬ f.Under x i →
    g.children x = (f.children x).map fun o => if o = outer then drop else o
  subtree_drop : g.subtree drop = unguarded (f.subtree i)
  under_drop : ∀ x : Nat, x < f.size → g.Under x drop → f.Under x i

lemma map_ite_of_not_mem {outer : Nat} {l : List Nat} (h : outer ∉ l) :
    (l.map fun o => if o = outer then drop else o) = l := by
  refine (map_congr_left fun o ho => ?_).trans (map_id l)
  exact if_neg fun (heq : o = outer) => h (heq ▸ ho)

/-- The clause of the drop has been changed, and the drop has been moved then. -/
lemma lifted_of_rearranged {k : Forest} {before after : List Nat} {home holder outer : Nat}
    (hf : f.WellFormed) (hhome : f.parent home = some i) (hdrop : f.parent drop = some home)
    (hpath : f.path i branchPath = some drop) (hclause : f.child drop .clause = some clause)
    (houter : f.Below i outer) (hholder : f.parent outer = some holder)
    (hchildren : f.children holder = before ++ outer :: after)
    (hwords : Rearranged f clause [] g)
    (hgraft : Grafted f clause (withIfExists (f.subtree clause)) g)
    (hmoved : Rearranged g holder [drop, outer] k)
    (hchildren' : k.children holder = before ++ drop :: after) (hnone : k.parent outer = none) :
    Lifted f i drop outer k := by
  have hdropi : f.Below drop i := (below_of_parent hdrop).trans (below_of_parent hhome)
  have hclausei : f.Below clause i := (below_of_parent (hf.parent_of_child hclause)).trans hdropi
  have hunder (x y : Nat) (hx : x < f.size) : g.Under x y ↔ f.Under x y :=
    hwords.under_iff hf hx (by simp)
  have hlt (x : Nat) (hx : x < f.size) : x < g.size := hx.trans_le hwords.size_le
  -- the drop is neither above the place it goes to nor above the statement that goes
  have hholderdrop : ¬ g.Under holder drop := by
    rw [hunder holder drop (hf.parent_lt hholder)]
    exact hf.not_under_of_below ((hdropi.trans houter).trans (below_of_parent hholder))
  have hkeep : ∀ a ∈ [drop, outer], ¬ g.Below a drop := by
    intro a ha hbelow
    obtain rfl | rfl : a = drop ∨ a = outer := by simpa using ha
    · exact hwords.wellFormed.acyclic a hbelow
    · exact hf.not_under_of_below (hdropi.trans houter)
        ((hunder a drop (lt_size_of_parent hholder)).1 hbelow.under)
  have hsame (y : Nat) (hy : g.Under y drop) : SameContent g k y :=
    hmoved.sameContent hwords.wellFormed (hlt drop (lt_size_of_parent hdrop)) hholderdrop hkeep hy
  exact {
    toLabelled := hwords.toLabelled.trans hmoved.toLabelled
    parent_eq := fun x hx hnot hne => by
      have hmem : x ∉ [drop, outer] := by
        have hne' : x ≠ drop := fun heq => hnot (heq ▸ hdropi)
        simp [hne, hne']
      rw [hmoved.parent_eq x (hlt x hx) hmem, hwords.parent_eq x hx (by simp)]
    parent_outer := hnone
    children_eq := fun x hx hnot => by
      by_cases hxholder : x = holder
      · have hnodup := hf.nodup_children holder
        rw [hchildren, nodup_append, nodup_cons] at hnodup
        obtain ⟨-, ⟨hafter, -⟩, hbefore⟩ := hnodup
        rw [hxholder, hchildren', hchildren, map_append, map_cons, if_pos rfl,
          map_ite_of_not_mem hafter, map_ite_of_not_mem fun hmem =>
            hbefore outer hmem outer (.head _) rfl]
      · have hxclause : x ≠ clause := fun heq => hnot (heq ▸ hclausei.under)
        have hnotdrop : drop ∉ f.children x := fun hmem => by
          obtain rfl := Option.mem_unique (hf.parent_of_mem hmem) hdrop
          exact hnot (under_of_parent hhome)
        have hnotouter : outer ∉ f.children x := fun hmem =>
          hxholder (Option.mem_unique (hf.parent_of_mem hmem) hholder)
        rw [map_ite_of_not_mem hnotouter, hmoved.children_eq x (hlt x hx) hxholder,
          hwords.children_eq x hx hxclause, filter_filter, filter_eq_self]
        intro c hc
        have hne : c ≠ drop ∧ c ≠ outer :=
          ⟨fun heq => hnotdrop (heq ▸ hc), fun heq => hnotouter (heq ▸ hc)⟩
        simp [hne]
    subtree_drop := by
      have hpart : (f.subtree drop).path? [.clause] = some (f.subtree clause) := by
        rw [← hf.map_subtree_path, path_of_child hclause, Option.map_some]
      rw [unguarded, ← hf.map_subtree_path, hpath, Option.map_some, Option.map_some,
        Option.getD_some, subtree_eq_of_sameContent hwords.wellFormed hmoved.wellFormed rfl hsame,
        (hgraft.path hf (path_of_child hclause)).subtree_eq]
      exact changeAt_congr hpart rfl
    under_drop := fun x hx hxdrop => by
      have hold : g.Under x drop :=
        under_of_sameContent hwords.wellFormed hmoved.wellFormed hsame hxdrop
      exact ((hunder x drop hx).1 hold).trans hdropi.under }

end

section

variable {w : Workspace} {clause drop i : Nat} {α : Type} {Q : α → Workspace → Prop}
  {E : ConversionError → Workspace → Prop}

/-- The words are put before the first name of the clause. -/
lemma ends_ifExists {next : PUnit → Conversion α} {table : Nat} (hf : w.forest.WellFormed)
    (htable : w.forest.child clause .otherNode = some table)
    (h : ∀ w' : Workspace, w'.notes = w.notes → Rearranged w.forest clause [] w'.forest →
      Grafted w.forest clause (withIfExists (w.forest.subtree clause)) w'.forest →
        Ends (next ()) w' Q E) :
    Ends (discard (insertNewBefore clause .otherKeyword "if" table) >>= fun _ =>
      discard (insertNewBefore clause .otherKeyword "exists" table) >>= next) w Q E := by
  obtain ⟨before, after, hchildren, hbefore, htag⟩ := exists_of_child htable
  have hview := hf.subtree_eq clause
  refine ends_bind (ends_discard ?_)
  obtain ⟨g1, hok1, h1⟩ := hf.planted_insertBefore hchildren .otherKeyword "if"
  refine ends_bind (ends_grow (ends_bind (ends_relink hok1 (ends_pure ?_))))
  have hf1 := h1.wellFormed
  have hgraft1 := h1.grafted_self hf hchildren hview
  have hchildren1 : g1.children clause = (before ++ [w.forest.size]) ++ table :: after := by
    rw [h1.children_eq h1.lt_size, if_pos rfl]
    simp
  refine ends_bind (ends_discard ?_)
  obtain ⟨g2, hok2, h2⟩ := hf1.planted_insertBefore hchildren1 .otherKeyword "exists"
  refine ends_bind (ends_grow (ends_bind (ends_relink hok2 (ends_pure ?_))))
  have hgraft2 := h2.grafted_self hf1 hchildren1 hgraft1.subtree_eq
  refine h _ rfl (h1.rearranged.trans h2.rearranged (.inl rfl)) ?_
  have hold (x : Nat) (hx : x ∈ w.forest.children clause) : g1.subtree x = w.forest.subtree x :=
    h1.subtree_of_not_under hf (hf.child_lt hx) (hf.not_under_of_child (hf.parent_of_mem hx))
  have hbefore1 : before.map g1.subtree = before.map w.forest.subtree :=
    map_congr_left fun x hx => hold x (by simp [hchildren, hx])
  have hafter1 : (table :: after).map g1.subtree = (table :: after).map w.forest.subtree :=
    map_congr_left fun x hx => hold x (hchildren ▸ mem_append_right _ hx)
  rw [map_append, map_singleton, h1.subtree_eq, hbefore1, hafter1] at hgraft2
  have htrees : withIfExists (w.forest.subtree clause) = .node (w.forest.tag clause)
      (w.forest.text clause) (w.forest.attributes clause) (before.map w.forest.subtree ++
        [keyword "if"] ++ keyword "exists" :: (table :: after).map w.forest.subtree) := by
    have hnames : ∀ t ∈ before.map w.forest.subtree, t.tag ≠ .otherNode := by
      intro t ht
      obtain ⟨x, hx, rfl⟩ := mem_map.1 ht
      rw [tag_subtree]
      exact hbefore x hx
    have hname : (w.forest.subtree table).tag = .otherNode := (tag_subtree _ _).trans htag
    rw [hview, withIfExists, hchildren, map_append, map_cons, insertFirst_append hnames hname,
      ← singleton_append, ← append_assoc, insertFirst_append ?_ hname]
    intro t ht
    obtain ht | ht := mem_append.1 ht
    · exact hnames t ht
    · rw [mem_singleton.1 ht]
      decide
  rw [htrees]
  exact hgraft1.trans hf hgraft2

/-- What a guarded drop needs to be lifted: a name in its clause, and a statement around it that is
a child of another node. -/
structure Liftable (f : Forest) (i clause : Nat) : Prop where
  named : f.child clause .otherNode ≠ none
  placed : ∃ p outer holder, f.parent i = some p ∧ f.parent p = some outer ∧
    f.parent outer = some holder

lemma unguardDrop_lifted (hf : w.forest.WellFormed) (h : guardedDrop? w.forest i = some clause) :
    Ends (unguardDrop i clause) w (fun _ w' => w'.notes = w.notes ∧ ∃ p outer drop,
        w.forest.parent i = some p ∧ w.forest.parent p = some outer ∧
          w.forest.parent outer ≠ none ∧ w.forest.path i branchPath = some drop ∧
            Lifted w.forest i drop outer w'.forest)
      fun e _ => (∃ missing, e = .shape missing) ∧ ¬ Liftable w.forest i clause := by
  obtain ⟨-, home, drop, hhome, hdrop, hpath, hclause⟩ := exists_of_guardedDrop? hf h
  refine ends_forest (ends_need_or (fun hnone => ⟨⟨_, rfl⟩, fun hfit => hfit.named hnone⟩)
    fun table htable => ?_)
  refine ends_ifExists hf htable fun w1 hnotes hwords hgraft => ends_forest ?_
  have hlt : i < w.forest.size := hf.parent_lt hhome
  have hparent (x : Nat) (hx : x < w.forest.size) : w1.forest.parent x = w.forest.parent x :=
    hwords.parent_eq x hx (by simp)
  refine ends_need_some ((hparent clause (lt_size_of_parent (hf.parent_of_child hclause))).trans
    (hf.parent_of_child hclause)) ?_
  -- the nodes above the condition are those that there were before the words were added
  have habove : (w1.forest.parent i >>= w1.forest.parent) =
      (w.forest.parent i >>= w.forest.parent) := by
    rw [hparent i hlt]
    exact Option.bind_congr fun p hp => hparent p (hf.parent_lt hp)
  refine ends_need_or (fun hnone => ⟨⟨_, rfl⟩, fun hfit => ?_⟩) fun outer houter => ?_
  · obtain ⟨p, outer, -, hp, houter, -⟩ := hfit.placed
    rw [habove, hp] at hnone
    exact absurd (hnone.symm.trans houter) (by simp)
  rw [habove] at houter
  obtain ⟨p, hp, houter⟩ := Option.bind_eq_some_iff.1 houter
  have houterlt : outer < w.forest.size := hf.parent_lt houter
  refine ends_need_or (fun hnone => ⟨⟨_, rfl⟩, fun hfit => ?_⟩) fun holder hholder => ?_
  · obtain ⟨p', outer', holder, hp', houter', hholder⟩ := hfit.placed
    obtain rfl := Option.mem_unique hp hp'
    obtain rfl := Option.mem_unique houter houter'
    rw [hparent outer houterlt, hholder] at hnone
    cases hnone
  rw [hparent outer houterlt] at hholder
  have hbelow : w.forest.Below i outer := (below_of_parent hp).trans (below_of_parent houter)
  obtain ⟨before, after, hchildren⟩ := append_of_mem (hf.mem_children_iff.2 hholder)
  have hdropi : w.forest.Below drop i := (below_of_parent hdrop).trans (below_of_parent hhome)
  have hdropholder : w.forest.Below drop holder :=
    (hdropi.trans hbelow).trans (below_of_parent hholder)
  have hhomeholder : w.forest.Below home holder :=
    (below_of_parent hhome).trans (hbelow.trans (below_of_parent hholder))
  have hclauseholder : holder ≠ clause := by
    rintro rfl
    exact hf.acyclic holder ((below_of_parent (hf.parent_of_child hclause)).trans hdropholder)
  have hchildren1 : w1.forest.children holder = before ++ outer :: after := by
    rw [hwords.children_eq holder (hf.parent_lt hholder) hclauseholder, ← hchildren]
    simp
  have hoff : ¬ w1.forest.Under holder drop := by
    rw [hwords.under_iff hf (hf.parent_lt hholder) (by simp)]
    exact hf.not_under_of_below hdropholder
  have hne : home ≠ holder := by
    rintro rfl
    exact hf.acyclic home hhomeholder
  have hdrop1 := (hparent drop (lt_size_of_parent hdrop)).trans hdrop
  have hlist1 : (w1.forest.detach drop).children holder = before ++ outer :: after := by
    rw [Forest.children, hwords.wellFormed.node_detach,
      hwords.wellFormed.filter_notMem (by simpa [hdrop1] using hne), hchildren1]
  obtain ⟨g2, hok2, h2, hchildren2⟩ := hwords.wellFormed.rearranged_insertAt hdrop1 hoff hlist1
    (insertAfter_perm · · drop outer)
  obtain ⟨g3, hok3, h3, hchildren3, hnone⟩ := h2.wellFormed.rearranged_removeChild hchildren2
  refine ends_bind (ends_bind (ends_edit (ends_relink hok2 (ends_relink hok3 ?_))))
  exact ⟨hnotes, p, outer, drop, hp, houter, by simp [hholder], hpath,
    lifted_of_rearranged hf hhome hdrop hpath hclause hbelow hholder hchildren hwords hgraft
      (h2.trans h3 (.inl rfl)) hchildren3 hnone⟩

end

end ControlFlow

end SqlDialect
