import SqlDialect.Proofs.Terminator.Settled

/-!
# What the pass does to the forest

`Ending f S g` says how the forest `g` comes about: every clause in `S` has been given a terminator
at its end, and nothing else has changed.  The pass meets the nodes of the forest in pre-order and
takes each clause as it was, but for the clause around it: if that one has been terminated, then
after the clause in it (`addTerminators_ending`).  So it makes of any tree what `settle` makes of it
(`addTerminators_turns`).
-/

namespace SqlDialect.Terminator

open Conversion Forest SyntaxTree List

/-! ## Forests with terminators added -/

section

variable {f g k : Forest} {S : Nat → Prop} {x : Nat}

/-- The last child, if it is white space. -/
def lastBlank (f : Forest) (id : NodeId) : List NodeId :=
  ((f.children id).getLast?.filter f.isWhiteSpace).toList

/-- The nodes in `S` have one more child, a terminator, after which only white space is left. -/
structure Ending (f : Forest) (S : Nat → Prop) (g : Forest) : Prop where
  wellFormed : g.WellFormed
  size_le : f.size ≤ g.size
  old : ∀ x : Nat, x < f.size → { g.node x with children := f.children x } = f.node x
  children_eq : ∀ x : Nat, x < f.size → ¬ S x → g.children x = f.children x
  children_split : ∀ x : Nat, x < f.size → S x → ∃ before n, f.size ≤ n ∧
    f.children x = before ++ lastBlank f x ∧ g.children x = before ++ n :: lastBlank f x
  new : ∀ n : Nat, f.size ≤ n → n < g.size → g.tag n = .semicolon ∧ g.text n = ";" ∧
    g.children n = [] ∧ ∃ x, x < f.size ∧ S x ∧ g.parent n = some x
  attributes_new : ∀ n : Nat, f.size ≤ n → n < g.size → g.attributes n = .empty

namespace Ending

lemma refl (hf : f.WellFormed) : Ending f (fun _ => False) f where
  wellFormed := hf
  size_le := le_rfl
  old _ _ := rfl
  children_eq _ _ _ := rfl
  children_split _ _ h := h.elim
  new _ hn hlt := absurd hlt (Nat.not_lt.2 hn)
  attributes_new _ hn hlt := absurd hlt (Nat.not_lt.2 hn)

section

variable (h : Ending f S g)
include h

lemma children_ended (x : Nat) (hx : x < f.size) (hS : S x) : ∃ before after n, f.size ≤ n ∧
    f.children x = before ++ after ∧ g.children x = before ++ n :: after ∧
      (∀ y ∈ after, f.isWhiteSpace y) ∧ after.length ≤ 1 := by
  obtain ⟨before, n, hn, hold, hnew⟩ := h.children_split x hx hS
  refine ⟨before, lastBlank f x, n, hn, hold, hnew, fun y hy => ?_, by simp [lastBlank]⟩
  rw [lastBlank, Option.mem_toList, Option.filter_eq_some_iff] at hy
  exact hy.2

/-- A field other than the children is as it was. -/
lemma field_eq {α : Type} (field : Node → α)
    (hfield : ∀ node children, field { node with children } = field node) (hx : x < f.size) :
    field (g.node x) = field (f.node x) := by
  rw [← h.old x hx]
  exact (hfield (g.node x) (f.children x)).symm

lemma tag_eq (hx : x < f.size) : g.tag x = f.tag x :=
  h.field_eq Node.tag (fun _ _ => rfl) hx

lemma parent_eq (hx : x < f.size) : g.parent x = f.parent x :=
  h.field_eq Node.parent (fun _ _ => rfl) hx

lemma sameContent (hx : x < f.size) (hS : ¬ S x) : SameContent f g x where
  tag_eq := h.tag_eq hx
  text_eq := h.field_eq Node.text (fun _ _ => rfl) hx
  attributes_eq := h.field_eq Node.attributes (fun _ _ => rfl) hx
  children_eq := h.children_eq x hx hS

/-- The children that were there before, in their order. -/
lemma filter_children (hf : f.WellFormed) (hx : x < f.size) :
    (g.children x).filter (· < f.size) = f.children x := by
  have hold (ids : List Nat) (hids : ∀ c ∈ ids, c ∈ f.children x) :
      ids.filter (· < f.size) = ids :=
    filter_eq_self.2 fun c hc => by simpa using hf.child_lt (hids c hc)
  by_cases hS : S x
  · obtain ⟨before, after, n, hn, hchildren, hended, -⟩ := h.children_ended x hx hS
    rw [hended, filter_append, filter_cons_of_neg (by simpa using hn),
      hold before (by simp +contextual [hchildren]), hold after (by simp +contextual [hchildren]),
      hchildren]
  · rw [h.children_eq x hx hS, hold _ fun _ hc => hc]

/-- New nodes are no else branches, and so a node owns one as before. -/
lemma ownsElse_eq (hf : f.WellFormed) (hx : x < f.size) : ownsElse g x = ownsElse f x := by
  have hchild : (g.child x .elseClause).isSome = (f.child x .elseClause).isSome := by
    rw [child_eq_find?, child_eq_find?, ← h.filter_children hf hx, find?_filter]
    congr 1
    refine find?_congr fun c hc => ?_
    by_cases hlt : c < f.size
    · rw [is, h.tag_eq hlt, ← is]
      simp [hlt]
    · have htag := (h.new c (Nat.le_of_not_lt hlt) (h.wellFormed.child_lt hc)).1
      simp [is, htag, hlt]
  rw [ownsElse, ownsElse, hchild, is, is, h.tag_eq hx]

lemma ownersAbove_eq (hf : f.WellFormed) (hx : x < f.size) : ownersAbove g x = ownersAbove f x := by
  have hancestors : g.ancestors x = f.ancestors x :=
    ancestors_congr hf h.wellFormed fun z hz => h.parent_eq (hf.lt_size_of_under hz hx)
  rw [ownersAbove, ownersAbove, hancestors]
  refine map_congr_left fun y hy => h.ownsElse_eq hf ?_
  exact hf.lt_size_of_under (hf.mem_ancestors_iff.1 hy).under hx

/-- A clause that was the last child is so no more if the node around it has been terminated. -/
lemma isLast_iff (hf : f.WellFormed) (hx : x < f.size) (hclause : f.tag x = .clause) :
    isLast g x = true ↔ isLast f x = true ∧ ∀ p, f.parent x = some p → ¬ S p := by
  rw [isLast, isLast, h.parent_eq hx]
  cases hp : f.parent x with
  | none => simp
  | some p =>
    have hlt : p < f.size := hf.parent_lt hp
    rw [Option.any_some, Option.any_some]
    by_cases hS : S p
    · obtain ⟨before, after, n, hn, -, hended, hwhite, -⟩ := h.children_ended p hlt hS
      refine iff_of_false ?_ fun hboth => hboth.2 p rfl hS
      rw [hended, beq_iff_eq, getLast?_append_cons]
      intro hlast
      obtain heq | hmem := mem_cons.1 (mem_of_getLast? hlast)
      · exact absurd (heq ▸ hx) (Nat.not_lt.2 hn)
      · have hblank := hwhite x hmem
        rw [isWhiteSpace, is, hclause] at hblank
        cases hblank
    · rw [h.children_eq p hlt hS]
      simp [hS]

/-- A clause under which nothing has been terminated lacks a terminator if it did before, and the
node around it has not been terminated. -/
lemma lacksTerminator_iff (hf : f.WellFormed) (hx : x < f.size)
    (hclause : f.tag x = .clause) (hbelow : ∀ y, f.Under y x → ¬ S y) :
    lacksTerminator g x = true ↔
      lacksTerminator f x = true ∧ ∀ p, f.parent x = some p → ¬ S p := by
  have hview : g.subtree x = f.subtree x := by
    refine subtree_eq_of_sameContent hf h.wellFormed rfl fun y hy => ?_
    exact h.sameContent (hy.lt_size hx) (hbelow y hy)
  have htree := hf.subtree_eq x
  rw [lacksTerminator_eq h.wellFormed (hx.trans_le h.size_le) (hview.trans htree),
    lacksTerminator_eq hf hx htree, h.ownersAbove_eq hf hx, Bool.and_eq_true, Bool.and_eq_true,
    h.isLast_iff hf hx hclause, and_right_comm]

lemma lastBlank_eq (hf : f.WellFormed) (hx : x < f.size) (hS : ¬ S x) :
    lastBlank g x = lastBlank f x := by
  rw [lastBlank, lastBlank, h.children_eq x hx hS]
  cases hlast : (f.children x).getLast? with
  | none => rfl
  | some c =>
    have htag := h.tag_eq (hf.child_lt (mem_of_getLast? hlast))
    rw [Option.filter_some, Option.filter_some, isWhiteSpace, isWhiteSpace, is, is, htag]

/-- One more clause is terminated. -/
lemma step {before : List Nat} (hf : f.WellFormed) (hx : x < f.size) (hS : ¬ S x)
    (hchildren : g.children x = before ++ lastBlank g x)
    (hplanted : Planted g x before (lastBlank g x) g.size semicolon k)
    (hsize : k.size = g.size + 1) : Ending f (fun y => y = x ∨ S y) k where
  wellFormed := hplanted.wellFormed
  size_le := h.size_le.trans hplanted.size_le
  old y hy := by
    rw [← h.old y hy]
    by_cases hyx : y = x
    · rw [hyx, hplanted.node_self]
    · rw [hplanted.node_eq y (hy.trans_le h.size_le) hyx]
  children_eq y hy hnot := by
    rw [hplanted.children_eq (hy.trans_le h.size_le), if_neg fun hyx => hnot (.inl hyx),
      h.children_eq y hy fun hSy => hnot (.inr hSy)]
  children_split y hy hyS := by
    by_cases hyx : y = x
    · have hblank := h.lastBlank_eq hf hx hS
      rw [hyx, hplanted.children_eq (hx.trans_le h.size_le), if_pos rfl, ← hblank]
      exact ⟨before, g.size, h.size_le, (h.children_eq x hx hS).symm.trans hchildren, rfl⟩
    · rw [hplanted.children_eq (hy.trans_le h.size_le), if_neg hyx]
      exact h.children_split y hy (hyS.resolve_left hyx)
  new n hn hlt := by
    by_cases hnew : n < g.size
    · obtain ⟨htag, htext, hleaf, y, hy, hSy, hparent⟩ := h.new n hn hnew
      have hnode := hplanted.node_eq n hnew (hx.trans_le hn).ne'
      rw [Forest.tag, Forest.text, Forest.children, parent, hnode]
      exact ⟨htag, htext, hleaf, y, hy, .inr hSy, hparent⟩
    · obtain rfl : n = g.size := by omega
      obtain ⟨htag, htext, -, hleaf⟩ := hplanted.wellFormed.of_subtree_eq hplanted.subtree_eq
      exact ⟨htag, htext, map_eq_nil_iff.1 hleaf, x, hx, .inl rfl, hplanted.parent_new⟩
  attributes_new n hn hlt := by
    by_cases hnew : n < g.size
    · rw [Forest.attributes, hplanted.node_eq n hnew (hx.trans_le hn).ne']
      exact h.attributes_new n hn hnew
    · obtain rfl : n = g.size := by omega
      exact (hplanted.wellFormed.of_subtree_eq hplanted.subtree_eq).2.2.1

end

end Ending

end

/-! ## The pass -/

section

variable {w w' : Workspace} {id : Nat}

/-- A clause is given one new node, a terminator with at most white space after it. -/
lemma terminate_planted (hf : w.forest.WellFormed) (hid : id < w.forest.size) :
    Succeeds (terminate id) w fun _ w' => w'.notes = w.notes ∧
      w'.forest.size = w.forest.size + 1 ∧ ∃ before,
        w.forest.children id = before ++ lastBlank w.forest id ∧
          Planted w.forest id before (lastBlank w.forest id) w.forest.size semicolon w'.forest := by
  refine ends_forest ?_
  rw [lastBlank]
  cases hblank : (w.forest.children id).getLast?.filter w.forest.isWhiteSpace with
  | some blank =>
    obtain ⟨before, hchildren⟩ := getLast?_eq_some_iff.1 (Option.filter_eq_some_iff.1 hblank).1
    obtain ⟨g, hok, hplanted⟩ := hf.planted_insertBefore hchildren .semicolon ";"
    have hcreate := hf.create .semicolon ";"
    have hsize : g.size = w.forest.size + 1 := by
      have hnew := size_create w.forest .semicolon ";"
      rw [(hcreate.insertBefore (by omega) (by omega) hok).2.size_eq, hnew]
    refine ends_discard (ends_bind (ends_grow (ends_bind (ends_relink hok (ends_pure ?_)))))
    exact ⟨rfl, hsize, before, hchildren, hplanted⟩
  | none =>
    refine ends_discard (ends_grow ⟨rfl, by simp [Forest.append, Forest.create, placeLast],
      w.forest.children id, by simp, ?_⟩)
    exact hf.planted_append hid .semicolon ";"

/-- The node is not inside of brackets that the pass does not look into. -/
def IsOpen (f : Forest) (id : NodeId) : Prop :=
  ∀ a, f.Below id a → f.tag a ∉ brackets

/-- A clause that is to be terminated, if the clauses in `S` are: it lacks a terminator, and is in
no brackets that the pass does not look into. Once the node around it has been terminated, it is the
last one no more and is left alone. -/
def IsEnded (f : Forest) (S : Nat → Prop) (x : Nat) : Prop :=
  f.tag x = .clause ∧ IsOpen f x ∧ lacksTerminator f x = true ∧ ∀ p, f.parent x = some p → ¬ S p

/-- The pass has been to the nodes in `done` and has terminated the clauses in `S`; those in `rest`
are still to come. -/
structure Progress (f : Forest) (done rest : List NodeId) (S : Nat → Prop) (g : Forest) : Prop where
  passed : Passed f (f.tag · ∈ brackets) done rest
  ending : Ending f S g
  ended_iff : ∀ x ∈ done, S x ↔ IsEnded f S x
  mem_done : ∀ x, S x → x ∈ done

namespace Progress

variable {f g k : Forest} {done rest : List NodeId} {S : Nat → Prop}

section

variable (h : Progress f done (id :: (f.descendants id ++ rest)) S g)
include h

/-- Nothing under the next node has been terminated. -/
lemma not_ended (hf : f.WellFormed) {x : Nat} (hx : f.Under x id) : ¬ S x := fun hS =>
  h.passed.not_mem_done_of_under hf hx (h.mem_done x hS)

/-- Brackets are passed over with all that is in them. -/
lemma skip (hf : f.WellFormed)
    (htag : f.tag id ∈ brackets) : Progress f (done ++ id :: f.descendants id) rest S g := by
  have hclause : f.tag id ≠ .clause := fun heq => by
    rw [heq] at htag
    exact absurd htag (by decide)
  refine ⟨h.passed.skip hf, h.ending, ?_, fun x hx => mem_append_left _ (h.mem_done x hx)⟩
  intro x hx
  obtain hx | hx := mem_append.1 hx
  · exact h.ended_iff x hx
  · have hunder := hf.mem_preorder_iff.1 hx
    refine iff_of_false (h.not_ended hf hunder) fun hended => ?_
    obtain heq | hbelow := under_iff_eq_or_below.1 hunder
    · exact hclause (heq ▸ hended.1)
    · exact hended.2.1 id hbelow htag

/-- The next node has been terminated if it is to be. -/
lemma descend (hf : f.WellFormed) (htag : f.tag id ∉ brackets)
    (hending : Ending f (fun x => x = id ∧ IsEnded f S id ∨ S x) k) :
    Progress f (done ++ [id]) (f.descendants id ++ rest)
      (fun x => x = id ∧ IsEnded f S id ∨ S x) k := by
  have hid := h.not_ended hf (.refl f id)
  have hnew := h.passed.not_mem_done hf (.head _)
  refine ⟨h.passed.descend htag, hending, ?_, ?_⟩
  · intro x hx
    -- the node around a node that has been visited is not the next one
    have haround : ∀ p, f.parent x = some p → p ≠ id := by
      rintro p hp rfl
      obtain hx | hx := mem_append.1 hx
      · exact h.passed.not_mem_done_of_under hf (under_of_parent hp) hx
      · rw [mem_singleton.1 hx] at hp
        exact hf.parent_ne_self hp rfl
    have hsame : IsEnded f (fun x => x = id ∧ IsEnded f S id ∨ S x) x ↔ IsEnded f S x := by
      refine and_congr_right fun _ => and_congr_right fun _ => and_congr_right fun _ => ?_
      refine forall_congr' fun p => forall_congr' fun hp => not_congr ?_
      simp [haround p hp]
    rw [hsame]
    obtain hx | hx := mem_append.1 hx
    · have hne : x ≠ id := fun heq => hnew (heq ▸ hx)
      simpa [hne] using h.ended_iff x hx
    · rw [mem_singleton.1 hx]
      simp [hid]
  · rintro x (⟨rfl, -⟩ | hx)
    · simp
    · exact mem_append_left _ (h.mem_done x hx)

end

end Progress

/-- What holds while the nodes of `rest` are still to come. -/
def Terminating (w : Workspace) (rest : List NodeId) (w' : Workspace) : Prop :=
  w'.notes = w.notes ∧ ∃ done S, Progress w.forest done rest S w'.forest

lemma terminatorVisit_progress {rest : List NodeId} (hf : w.forest.WellFormed)
    (hroot : w.forest.parent root = none) (hid : id < w.forest.size)
    (h : Terminating w (id :: (w.forest.descendants id ++ rest)) w') :
    Succeeds (terminatorVisit id) w' fun decision w'' => match decision with
      | .skip => Terminating w rest w''
      | .descend => (w''.forest.children id).filter (· < w.forest.size) = w.forest.children id ∧
        Terminating w (w.forest.descendants id ++ rest) w'' := by
  obtain ⟨hnotes, done, S, h⟩ := h
  have htag := h.ending.tag_eq hid
  -- a node that is not terminated
  have hidle : w.forest.tag id ∉ brackets → ¬ IsEnded w.forest S id →
      (w'.forest.children id).filter (· < w.forest.size) = w.forest.children id ∧
        Terminating w (w.forest.descendants id ++ rest) w' := by
    intro hbracket hnot
    have hsame : (fun x => x = id ∧ IsEnded w.forest S id ∨ S x) = S := by
      funext x
      simp [hnot]
    have hending : Ending w.forest (fun x => x = id ∧ IsEnded w.forest S id ∨ S x) w'.forest := by
      rw [hsame]
      exact h.ending
    exact ⟨h.ending.filter_children hf hid, hnotes, _, _, h.descend hf hbracket hending⟩
  refine ends_forest ?_
  rw [htag]
  split
  · exact ends_pure ⟨hnotes, _, S, h.skip hf (by simp [*, brackets])⟩
  · exact ends_pure ⟨hnotes, _, S, h.skip hf (by simp [*, brackets])⟩
  · exact ends_pure ⟨hnotes, _, S, h.skip hf (by simp [*, brackets])⟩
  · rename_i hclause
    have hbracket : w.forest.tag id ∉ brackets := by simp [hclause, brackets]
    have hlacks := h.ending.lacksTerminator_iff hf hid hclause fun y hy => h.not_ended hf hy
    refine ends_ite (fun hlacking => ?_) fun hlacking => ends_pure (hidle hbracket fun hended =>
      hlacking (hlacks.2 hended.2.2))
    have hended : IsEnded w.forest S id :=
      ⟨hclause, fun _ ha => h.passed.not_above hf hroot ha, hlacks.1 hlacking⟩
    have hwf := h.ending.wellFormed
    refine ends_bind ((terminate_planted hwf (hid.trans_le h.ending.size_le)).imp ?_)
    rintro - w'' ⟨hnotes', hsize, before, hchildren, hplanted⟩
    have hending := h.ending.step hf hid (h.not_ended hf (.refl _ id)) hchildren hplanted hsize
    have hsame : (fun x => x = id ∧ IsEnded w.forest S id ∨ S x) = fun x => x = id ∨ S x := by
      funext x
      simp [hended]
    rw [← hsame] at hending
    exact ends_pure ⟨hending.filter_children hf hid, hnotes'.trans hnotes, _, _,
      h.descend hf hbracket hending⟩
  · rename_i hexpression hfunction hselection hclause
    exact ends_pure (hidle (by simp_all [brackets]) fun hended => hclause hended.1)

/-- A visit of a new node comes to nothing. -/
lemma terminatorVisit_new {rest : List NodeId} (hid : w.forest.size ≤ id)
    (h : Terminating w rest w') :
    Succeeds (terminatorVisit id) w' fun _ w'' => w'' = w' ∧ w'.forest.children id = [] := by
  obtain ⟨-, done, S, h⟩ := h
  have hleaf : w'.forest.children id = [] ∧
      (w'.forest.tag id = .semicolon ∨ w'.forest.tag id = .root) := by
    by_cases hlt : id < w'.forest.size
    · obtain ⟨htag, -, hchildren, -⟩ := h.ending.new id hid hlt
      exact ⟨hchildren, .inl htag⟩
    · rw [Forest.children, Forest.tag, node_of_size_le (Nat.le_of_not_lt hlt)]
      exact ⟨rfl, .inr rfl⟩
  refine ends_forest ?_
  obtain ⟨hchildren, htag | htag⟩ := hleaf <;> rw [htag] <;> exact ends_pure ⟨rfl, hchildren⟩

/-- The pass terminates the clauses that are to be terminated, and does nothing else. -/
lemma addTerminators_ending (hw : Whole w) :
    Succeeds addTerminators w fun _ w' => w'.notes = w.notes ∧ ∃ S, Ending w.forest S w'.forest ∧
      (∀ x, S x → w.forest.Under x root) ∧
        ∀ x, w.forest.Under x root → (S x ↔ IsEnded w.forest S x) := by
  have hf := hw.wellFormed
  have hroot := hw.root_parent
  refine ends_forest ((walkFrom_preorder_new hf (fun rest (_ : Unit) => Terminating w rest)
    ?_ (N := True) ?_ ?_ _ root [] () w hw.size_pos ?_ ?_ (absurd hroot)).imp ?_)
  · rintro id rest - w' ⟨-, done, S, h⟩ hparent hnone
    refine absurd hnone ?_
    have hid : id < w.forest.size := by
      obtain ⟨p, hp⟩ := Option.ne_none_iff_exists'.1 hparent
      exact lt_size_of_parent hp
    rwa [h.ending.parent_eq hid]
  · intro id rest _ w' hid h _
    refine ends_bind ((terminatorVisit_progress hf hroot hid h).imp ?_)
    intro decision w'' h''
    refine ends_pure ?_
    cases decision with
    | skip => exact h''
    | descend => exact ⟨h''.1, .inr trivial, h''.2⟩
  · intro _ id rest _ w' hid h
    refine ends_bind ((terminatorVisit_new hid h).imp ?_)
    rintro decision w'' ⟨rfl, hchildren⟩
    exact ends_pure ⟨h, fun _ => hchildren⟩
  · have hlimit : 16 * (w.forest.size + 4) ≤ walkLimit w.forest := le_walkLimit le_rfl
    omega
  · exact ⟨rfl, [], fun _ => False, .start _ _, .refl hf, by simp, fun _ h => h.elim⟩
  · rintro - w' ⟨hnotes, done, S, h⟩
    exact ⟨hnotes, S, h.ending, fun x hx => (h.passed.mem_done_iff hf).1 (h.mem_done x hx),
      fun x hx => h.ended_iff x ((h.passed.mem_done_iff hf).2 hx)⟩

end

/-! ## What comes of a tree -/

/-- The children, with a terminator before the white space at their end. -/
lemma putSemicolon_views {f : Forest} {id : Nat} {before : List Nat}
    (h : f.children id = before ++ lastBlank f id) :
    putSemicolon ((f.children id).map f.subtree) =
      before.map f.subtree ++ semicolon :: (lastBlank f id).map f.subtree := by
  cases hlast : (f.children id).getLast? with
  | none =>
    have hnil := getLast?_eq_none_iff.1 hlast
    rw [lastBlank, hlast] at h ⊢
    obtain rfl : before = [] := by simpa [hnil] using h.symm
    rw [hnil]
    rfl
  | some last =>
    obtain ⟨init, hinit⟩ := getLast?_eq_some_iff.1 hlast
    have htag : ((f.subtree last).tag == .whiteSpace) = f.isWhiteSpace last := by
      rw [tag_subtree]
      rfl
    rw [lastBlank, hlast, Option.filter_some, hinit] at h ⊢
    rw [map_append, map_singleton, putSemicolon_concat, htag]
    cases hblank : f.isWhiteSpace last <;> simp [hblank] at h ⊢ <;> simp [← h]

namespace Ending

variable {f g : Forest} {S : Nat → Prop} {x : Nat}

/-- What was to be seen of a node of the new forest, with the terminators as they are. -/
def former (f : Forest) (id : NodeId) : SyntaxTree :=
  if id < f.size then f.subtree id else semicolon

section

variable (h : Ending f S g) (hf : f.WellFormed)
include h hf

/-- The children of a node that the pass looks at have been completed. -/
lemma completed_eq (hx : x < f.size) (hopen : IsOpen f x) (hended : S x ↔ IsEnded f S x) :
    completed (ownersAbove f x) (isLast g x) (f.tag x) ((f.children x).map f.subtree) =
      (g.children x).map (former f) := by
  have hiff : (f.tag x == .clause && isLast g x &&
      lacks (ownersAbove f x) ((f.children x).map f.subtree)) = true ↔ S x := by
    rw [hended, IsEnded, Bool.and_eq_true, Bool.and_eq_true, beq_iff_eq, and_assoc,
      lacksTerminator_eq hf hx (hf.subtree_eq x), Bool.and_eq_true]
    refine and_congr_right fun hclause => ?_
    rw [h.isLast_iff hf hx hclause]
    tauto
  have hmap (ids : List Nat) (hids : ∀ c ∈ ids, c ∈ f.children x) :
      ids.map f.subtree = ids.map (former f) :=
    map_congr_left fun c hc => (if_pos (hf.child_lt (hids c hc))).symm
  rw [completed]
  by_cases hS : S x
  · obtain ⟨before, n, hn, hold, hnew⟩ := h.children_split x hx hS
    rw [if_pos (hiff.2 hS), putSemicolon_views hold, hnew, map_append, map_cons,
      hmap before fun c hc => hold ▸ mem_append_left _ hc,
      hmap (lastBlank f x) fun c hc => hold ▸ mem_append_right _ hc, former,
      if_neg (Nat.not_lt.2 hn)]
  · rw [if_neg fun hlacking => hS (hiff.1 hlacking), h.children_eq x hx hS, hmap _ fun _ hc => hc]

omit hf in
/-- If each child has been settled, then all of them have. -/
lemma map_eq_settleAll {owners : List Bool} {done rest : List Nat}
    (hchildren : g.children x = done ++ rest)
    (hsettled : ∀ c ∈ rest, g.subtree c = settle owners (isLast g c) (former f c)) :
    rest.map g.subtree = settleAll owners true (rest.map (former f)) := by
  induction rest generalizing done with
  | nil => rfl
  | cons c rest ih =>
    have hlast : isLast g c = rest.isEmpty := by
      have hnodup : (done ++ c :: rest).Nodup := hchildren ▸ h.wellFormed.nodup_children x
      rw [isLast, h.wellFormed.parent_of_split hchildren, Option.any_some, hchildren]
      cases rest with
      | nil => simp
      | cons d rest =>
        refine beq_eq_false_iff_ne.2 fun hc => ?_
        have hmem : c ∈ d :: rest := mem_of_getLast? (by simpa using hc)
        exact (nodup_cons.1 (nodup_append.1 hnodup).2.1).1 hmem
    have hnext : g.children x = (done ++ [c]) ++ rest := by simp [hchildren]
    rw [map_cons, map_cons, settleAll, isEmpty_map, Bool.true_and, ← hlast, hsettled c (.head _),
      ih hnext fun d hd => hsettled d (.tail _ hd)]

omit hf in
lemma subtree_new {n : Nat} (hn : f.size ≤ n) (hlt : n < g.size) : g.subtree n = semicolon := by
  obtain ⟨htag, htext, hchildren, -⟩ := h.new n hn hlt
  rw [h.wellFormed.subtree_eq, htag, htext, h.attributes_new n hn hlt, hchildren]
  rfl

/-- What the pass looks at has been settled. -/
lemma subtree_eq_settle (hended : ∀ x, f.Under x root → (S x ↔ IsEnded f S x)) (x : Nat) :
    x < f.size → f.Under x root → IsOpen f x →
      g.subtree x = settle (ownersAbove f x) (isLast g x) (f.subtree x) := by
  induction x using hf.induction_children with
  | _ x ih =>
    intro hx hunder hopen
    by_cases htag : f.tag x ∈ brackets
    · -- nothing is terminated in brackets that are not looked into
      have hnone (y : Nat) (hy : f.Under y x) : ¬ S y := fun hS => by
        obtain ⟨hclause, hopen', -⟩ := (hended y (hy.trans hunder)).1 hS
        obtain rfl | hbelow := under_iff_eq_or_below.1 hy
        · rw [hclause] at htag
          exact absurd htag (by decide)
        · exact hopen' x hbelow htag
      have hview : g.subtree x = f.subtree x :=
        subtree_eq_of_sameContent hf h.wellFormed rfl fun y hy =>
          h.sameContent (hy.lt_size hx) (hnone y hy)
      rw [hview, hf.subtree_eq x, settle, if_pos htag]
    · have htree := hf.subtree_eq x
      rw [htree, settle_eq htag, ← Terminator.ownsElse_eq hf htree,
        h.completed_eq hf hx hopen (hended x hunder), h.wellFormed.subtree_eq x, h.tag_eq hx,
        Forest.text, Forest.attributes, h.field_eq Node.text (fun _ _ => rfl) hx,
        h.field_eq Node.attributes (fun _ _ => rfl) hx]
      congr 1
      refine h.map_eq_settleAll (nil_append _).symm fun c hc => ?_
      by_cases hlt : c < f.size
      · have hparent : f.parent c = some x :=
          (h.parent_eq hlt).symm.trans (h.wellFormed.parent_of_mem hc)
        have hopen' : IsOpen f c := fun a ha => by
          obtain ⟨p, hp, hpa⟩ := below_iff.1 ha
          obtain rfl : x = p := Option.some.inj (hparent.symm.trans hp)
          obtain rfl | hbelow := under_iff_eq_or_below.1 hpa
          · exact htag
          · exact hopen a hbelow
        rw [former, if_pos hlt, ← ownersAbove_of_parent hf hparent]
        exact ih c (hf.mem_children_iff.2 hparent) hlt ((under_of_parent hparent).trans hunder)
          hopen'
      · rw [former, if_neg hlt, settle_semicolon,
          h.subtree_new (Nat.le_of_not_lt hlt) (h.wellFormed.child_lt hc)]

end

end Ending

/-- The pass settles the tree. -/
lemma addTerminators_turns {w : Workspace} (hw : Whole w) :
    Succeeds addTerminators w fun _ => Turned w root (settle [] false w.forest.tree) := by
  refine (addTerminators_ending hw).imp ?_
  rintro - w' ⟨hnotes, S, hending, hreached, hended⟩
  have hf := hw.wellFormed
  have hparent : w'.forest.parent root = w.forest.parent root := hending.parent_eq hw.size_pos
  have hopen : IsOpen w.forest root := fun a ha => by
    obtain ⟨p, hp, -⟩ := below_iff.1 ha
    rw [hw.root_parent] at hp
    cases hp
  have hview := hending.subtree_eq_settle hf hended root hw.size_pos (.refl _ _) hopen
  rw [ownersAbove, ancestors_of_parent_eq_none hw.root_parent, map_nil, isLast, hparent,
    hw.root_parent, Option.any_none] at hview
  refine ⟨⟨hending.wellFormed, hview, hending.size_le, hparent, fun x hx hnot => ?_⟩, hnotes⟩
  have hchildren := hending.children_eq x hx fun hS => hnot (hreached x hS)
  rw [← hending.old x hx, ← hchildren]
  rfl

end SqlDialect.Terminator
