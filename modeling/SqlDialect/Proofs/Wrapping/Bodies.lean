import SqlDialect.Proofs.ControlFlow.Visits
import SqlDialect.Proofs.Conversion.Preorder
import SqlDialect.Proofs.Pass.Routine

/-!
# Bodies of routines as blocks

The pass that makes the body of a routine a begin/end block looks for a block among the statements
of the body.  If there is none, all of them come into a new one; if there is one, the body is left
as it is, also where other statements stand beside the block.  So the body is a single block
afterwards if it was one before or had no block in it, and otherwise it is not
(`blockBodies_bodies`).  Routines that are defined inside of another one are not looked at.

`Boxed f T g` says how the forest `g` comes about: the children of the containers in `T` have come
into blocks, and all other nodes have the children that they had.
-/

namespace SqlDialect.Routine

open Conversion Forest SyntaxTree ControlFlow List

/-! ## Containers in blocks -/

section

variable {f g k : Forest} {T : Nat → Prop} {c id x : Nat}

/-- A routine definition that is not part of another one. -/
def isOuterRoutine (f : Forest) (id : NodeId) : Bool :=
  (f.routineAsBlock id).isSome && (f.ancestors id).all fun a => (f.routineAsBlock a).isNone

lemma isOuterRoutine_iff (hf : f.WellFormed) :
    isOuterRoutine f id ↔ (f.routineAsBlock id).isSome ∧ ∀ a, f.Below id a →
    f.routineAsBlock a = none := by
  simp [isOuterRoutine, hf.mem_ancestors_iff]

/-- A routine is the only one of those under it that is not part of another one. -/
lemma isOuterRoutine_of_below {a : Nat} (hf : f.WellFormed) (hsome : (f.routineAsBlock id).isSome)
    (ha : f.Below a id) : isOuterRoutine f a = false := by
  by_contra houter
  have hnone := ((isOuterRoutine_iff hf).1 (by simpa using houter)).2 id ha
  rw [hnone] at hsome
  cases hsome

/-- The child of `c` is a block of the given statements, whose nodes are those from `n` on. -/
structure Housed (f : Forest) (c n : Nat) (statements : List Nat) : Prop where
  size_le : n + 7 < f.size
  children_eq : f.children c = [n]
  content_eq : ∀ k : Nat, k < 8 → f.content (n + k) = (blockNodes n statements).getD k {}

/-- The children of the containers in `T` have come into new blocks. -/
structure Boxed (f : Forest) (T : Nat → Prop) (g : Forest) : Prop where
  wellFormed : g.WellFormed
  size_le : f.size ≤ g.size
  label_eq : ∀ x : Nat, x < f.size →
    g.tag x = f.tag x ∧ g.text x = f.text x ∧ g.attributes x = f.attributes x
  children_eq : ∀ x : Nat, x < f.size → ¬ T x → g.children x = f.children x
  housed : ∀ c : Nat, c < f.size → T c → ∃ n, f.size ≤ n ∧ Housed g c n (f.children c)

namespace Boxed

lemma refl (hf : f.WellFormed) : Boxed f (fun _ => False) f where
  wellFormed := hf
  size_le := le_rfl
  label_eq _ _ := ⟨rfl, rfl, rfl⟩
  children_eq _ _ _ := rfl
  housed _ _ h := h.elim

section

variable (h : Boxed f T g)
include h

lemma of_iff {T' : Nat → Prop} (hT : ∀ c, T' c ↔ T c) : Boxed f T' g := by
  obtain rfl : T' = T := funext fun c => propext (hT c)
  exact h

/-- A node that had a parent has one, be it the old one or a new block. -/
lemma parent_ne_none (hf : f.WellFormed) (hx : f.parent x ≠ none) : g.parent x ≠ none := by
  obtain ⟨p, hp⟩ := Option.ne_none_iff_exists'.1 hx
  have hmem := hf.mem_children_iff.2 hp
  have hlt := hf.parent_lt hp
  by_cases hT : T p
  · obtain ⟨n, -, hhoused⟩ := h.housed p hlt hT
    have hbody : x ∈ (g.content (n + 5)).children := by rwa [hhoused.content_eq 5 (by omega)]
    rw [h.wellFormed.parent_of_mem hbody]
    simp
  · rw [h.wellFormed.parent_of_mem ((h.children_eq p hlt hT).symm ▸ hmem)]
    simp

/-- One more container is put into a block. -/
lemma step (hc : c < f.size) (hT : ¬ T c)
    (hblocked : Blocked g c k) : Boxed f (fun x => x = c ∨ T x) k := by
  have hsize : k.size = g.size + 8 := hblocked.size_eq
  have hle := h.size_le
  refine ⟨hblocked.wellFormed, by omega, fun x hx => ?_, fun x hx hnot => ?_, fun x hx hbox => ?_⟩
  · obtain ⟨htag, htext, hattributes⟩ := h.label_eq x hx
    rw [← htag, ← htext, ← hattributes]
    exact hblocked.label_eq (hx.trans_le hle)
  · rw [← h.children_eq x hx fun hTx => hnot (.inr hTx)]
    have hsame := hblocked.content_old (hx.trans_le hle) fun heq => hnot (.inl heq)
    exact (congrArg Node.children hsame :)
  · by_cases hxc : x = c
    · subst hxc
      refine ⟨g.size, hle, by omega, ?_, fun i _ => ?_⟩
      · exact hblocked.children_self
      · rw [hblocked.content_new, h.children_eq x hx hT]
    · obtain ⟨n, hn, hhoused⟩ := h.housed x hx (hbox.resolve_left hxc)
      have hlt := hhoused.size_le
      refine ⟨n, hn, by omega, ?_, fun i hi => ?_⟩
      · exact (congrArg Node.children (hblocked.content_old (hx.trans_le hle) hxc)).trans
          hhoused.children_eq
      · rw [hblocked.content_old (by omega) (by omega), hhoused.content_eq i hi]

/-- In a node that has its children a child is found as before. -/
lemma sameChildren (hf : f.WellFormed) (hid : id < f.size) (hT : ¬ T id) : SameChildren f g id :=
  ⟨h.children_eq id hid hT, fun c hc =>
    have hlabel := h.label_eq c (hf.child_lt hc)
    ⟨hlabel.1, hlabel.2.1⟩⟩

lemma routineAsBlock_eq (hf : f.WellFormed) (hid : id < f.size) (hT : ¬ T id) :
    g.routineAsBlock id = f.routineAsBlock id :=
  (h.sameChildren hf hid hT).routineAsBlock_eq (h.label_eq id hid).1

lemma sameContent (hx : x < f.size) (hT : ¬ T x) : SameContent f g x where
  tag_eq := (h.label_eq x hx).1
  text_eq := (h.label_eq x hx).2.1
  attributes_eq := (h.label_eq x hx).2.2
  children_eq := h.children_eq x hx hT

/-- What is under a node is as it was, if nothing there has been put into a block. -/
lemma subtree_eq (hf : f.WellFormed) (hid : id < f.size)
    (hT : ∀ x, f.Under x id → ¬ T x) : g.subtree id = f.subtree id :=
  subtree_eq_of_sameContent hf h.wellFormed rfl fun x hx => h.sameContent (hx.lt_size hid) (hT x hx)

/-- A container that has been put into a block, if nothing else in it has. -/
lemma children_subtree_eq (hf : f.WellFormed) (hc : c < f.size) (hbox : T c)
    (hT : ∀ x, f.Below x c → ¬ T x) : (g.subtree c).children =
      [asStatement [enclosed [opener "begin"] (f.subtree c).children [closer "end"]]] := by
  obtain ⟨n, -, hhoused⟩ := h.housed c hc hbox
  have hg := h.wellFormed
  have hstatements : (f.children c).map g.subtree = (f.children c).map f.subtree := by
    refine map_congr_left fun x hx => h.subtree_eq hf (hf.child_lt hx) fun y hy => hT y ?_
    exact Relation.TransGen.tail' hy (hf.parent_of_mem hx)
  rw [hg.children_subtree, hhoused.children_eq, map_singleton, hg.subtree_block hhoused.content_eq,
    hstatements, hf.children_subtree]

end

end Boxed

/-! ## Bodies without a block -/

/-- The body of a routine that is not part of another one, if there is no block in it. -/
def IsBare (f : Forest) (routine body : Nat) : Prop :=
  isOuterRoutine f routine ∧ (f.routineAsBlock routine >>= f.routineBody) = some body ∧
    f.holdsBlock body = false

instance (f : Forest) (routine body : Nat) : Decidable (IsBare f routine body) :=
  inferInstanceAs (Decidable (_ ∧ _ ∧ _))

namespace IsBare

variable {routine body : Nat}

lemma exists_asBlock (h : IsBare f routine body) :
    ∃ asBlock, f.routineAsBlock routine = some asBlock ∧ f.routineBody asBlock = some body :=
  Option.bind_eq_some_iff.1 h.2.1

lemma tag_eq (h : IsBare f routine body) : f.tag body = .containerGeneralContent := by
  obtain ⟨asBlock, -, hbody⟩ := h.exists_asBlock
  exact tag_of_child hbody

lemma below (h : IsBare f routine body) (hf : f.WellFormed) : f.Below body routine := by
  obtain ⟨asBlock, hblock, hbody⟩ := h.exists_asBlock
  exact below_iff.2 ⟨asBlock, hf.parent_of_routineBody hbody,
    under_of_parent (hf.parent_of_routineAsBlock hblock)⟩

/-- There is no such body in the body of a routine. -/
lemma not_below {outer c asBlock : Nat} (h : IsBare f routine c) (hf : f.WellFormed)
    (hblock : f.routineAsBlock outer = some asBlock) (hbody : f.routineBody asBlock = some body) :
    ¬ f.Below c body := by
  intro hc
  obtain ⟨other, hother, hinner⟩ := h.exists_asBlock
  have hparent := hf.parent_of_routineBody hinner
  have houter : f.Below c outer := by
    refine Relation.TransGen.trans hc (below_iff.2 ⟨asBlock, hf.parent_of_routineBody hbody, ?_⟩)
    exact under_of_parent (hf.parent_of_routineAsBlock hblock)
  -- the block that holds the body is under the other routine and is not that routine
  have hunder : f.Under other outer := by
    obtain ⟨p, hp, hunder⟩ := below_iff.1 houter
    rw [hparent] at hp
    exact Option.some.inj hp ▸ hunder
  obtain rfl | hbelow := under_iff_eq_or_below.1 hunder
  · have htag := (tag_of_routineAsBlock hother).2
    rw [(tag_of_routineAsBlock hblock).1] at htag
    cases htag
  obtain ⟨p, hp, hroutine⟩ := below_iff.1 hbelow
  rw [hf.parent_of_routineAsBlock hother] at hp
  obtain rfl := Option.some.inj hp
  obtain rfl | hroutine := under_iff_eq_or_below.1 hroutine
  · rw [hblock] at hother
    obtain rfl := Option.some.inj hother
    rw [hbody] at hinner
    obtain rfl := Option.some.inj hinner
    exact hf.acyclic _ hc
  · have hfalse := isOuterRoutine_of_below hf (by simp [hblock]) hroutine
    rw [h.1] at hfalse
    cases hfalse

end IsBare

/-! ## The pass -/

/-- Of a routine and what is below it only the body of the routine itself counts. -/
lemma exists_bare_append_iff {done : List NodeId} (hf : f.WellFormed)
    (hsome : (f.routineAsBlock id).isSome) :
    (∃ r ∈ done ++ id :: f.descendants id, IsBare f r c) ↔
      IsBare f id c ∨ ∃ r ∈ done, IsBare f r c := by
  constructor
  · rintro ⟨r, hr, hbare⟩
    rw [mem_append, mem_cons] at hr
    obtain hr | rfl | hr := hr
    · exact .inr ⟨r, hr, hbare⟩
    · exact .inl hbare
    · have hfalse := isOuterRoutine_of_below hf hsome (hf.mem_descendants_iff.1 hr)
      rw [hbare.1] at hfalse
      cases hfalse
  · rintro (hbare | ⟨r, hr, hbare⟩)
    · exact ⟨id, by simp, hbare⟩
    · exact ⟨r, mem_append_left _ hr, hbare⟩

/-- What holds while the nodes in `rest` are still to come. -/
def Boxing (f : Forest) (rest : List NodeId) (w : Workspace) : Prop :=
  ∃ done, Passed f (fun a => (f.routineAsBlock a).isSome) done rest ∧
    Boxed f (fun c => ∃ r ∈ done, IsBare f r c) w.forest

variable {w w' : Workspace}

/-- The body of a routine comes into a block exactly if it is bare. -/
lemma blockBody_boxed {asBlock : Nat} (hf : f.WellFormed) (h : Boxed f T w.forest)
    (houter : isOuterRoutine f id) (hblock : f.routineAsBlock id = some asBlock)
    (hT : ∀ x, f.Under x id → ¬ T x) :
    Ends (blockBody asBlock) w
      (fun _ w' => Boxed f (fun c => IsBare f id c ∨ T c) w'.forest) fun _ _ => True := by
  have hunder : f.Under asBlock id := under_of_parent (hf.parent_of_routineAsBlock hblock)
  have hlt := lt_size_of_parent (hf.parent_of_routineAsBlock hblock)
  have hsame : w.forest.routineBody asBlock = f.routineBody asBlock :=
    (h.sameChildren hf hlt (hT asBlock hunder)).child_eq _
  refine ends_forest ?_
  rw [hsame]
  cases hbody : f.routineBody asBlock with
  | none => exact ends_bind (ends_throw trivial)
  | some body => ?_
  refine ends_need_some rfl ?_
  have hparent := hf.parent_of_routineBody hbody
  have hbelow : f.Under body id := (under_of_parent hparent).trans hunder
  have hsize := lt_size_of_parent hparent
  have hholds : w.forest.holdsBlock body = f.holdsBlock body := by
    rw [holdsBlock_eq h.wellFormed, holdsBlock_eq hf,
      h.subtree_eq hf hsize fun x hx => hT x (hx.trans hbelow)]
  have hbare (c : Nat) : IsBare f id c ↔ c = body ∧ f.holdsBlock body = false := by
    rw [IsBare, hblock, Option.bind_eq_bind, Option.bind_some, hbody, Option.some.injEq]
    constructor
    · rintro ⟨-, rfl, hnot⟩
      exact ⟨rfl, hnot⟩
    · rintro ⟨rfl, hnot⟩
      exact ⟨houter, rfl, hnot⟩
  cases hcase : f.holdsBlock body with
  | true =>
    refine ends_forest (ends_ite (fun _ => ends_pure ?_) fun hnot => ?_)
    · exact h.of_iff fun c => by simp [hbare, hcase]
    · exact absurd (hholds.trans hcase) hnot
  | false =>
    refine (wrapInBeginEnd_shows h.wellFormed (hsize.trans_le h.size_le)
      (hholds.trans hcase)).mono (fun _ w' hblocked => ?_) fun _ _ _ => trivial
    exact (h.step hsize (hT body hbelow) hblocked).of_iff fun c => by simp [hbare, hcase]

lemma routineVisit_boxing {rest : List NodeId} (hf : f.WellFormed) (hroot : f.parent root = none)
    (hid : id < f.size) (h : Boxing f (id :: (f.descendants id ++ rest)) w) :
    Ends (routineVisit (fun _ asBlock => blockBody asBlock) id) w
      (fun decision w' => match decision with
        | .skip => Boxing f rest w'
        | .descend => w'.forest.children id = f.children id ∧
        Boxing f (f.descendants id ++ rest) w')
      fun _ _ => True := by
  obtain ⟨done, hpassed, hboxed⟩ := h
  -- the bodies seen so far belong to routines that do not reach to here
  have hfree (x : Nat) (hx : f.Under x id) : ¬ ∃ r ∈ done, IsBare f r x := by
    rintro ⟨r, hr, hbare⟩
    have hsome : (f.routineAsBlock r).isSome := by
      obtain ⟨asBlock, hblock, -⟩ := hbare.exists_asBlock
      simp [hblock]
    have hmem : x ∈ id :: (f.descendants id ++ rest) := by
      rw [← cons_append]
      exact mem_append_left _ (hf.mem_preorder_iff.2 hx)
    exact hpassed.shut r hr hsome x hmem (hbare.below hf).under
  have hself := hfree id (.refl f id)
  refine ends_forest ?_
  rw [hboxed.routineAsBlock_eq hf hid hself]
  cases hblock : f.routineAsBlock id with
  | none =>
    refine ends_pure ⟨hboxed.children_eq id hid hself, _, hpassed.descend (by simp [hblock]), ?_⟩
    refine hboxed.of_iff fun c => ?_
    have hnot : ¬ IsBare f id c := fun hbare => by simp [IsBare, hblock] at hbare
    simp [or_and_right, exists_or, hnot]
  | some asBlock =>
    have hsome : (f.routineAsBlock id).isSome := by simp [hblock]
    have houter : isOuterRoutine f id := (isOuterRoutine_iff hf).2
      ⟨hsome, fun a ha => by simpa using hpassed.not_above hf hroot ha⟩
    refine ends_bind ((blockBody_boxed hf hboxed houter hblock hfree).imp ?_)
    intro _ w' hboxed'
    exact ends_pure ⟨_, hpassed.skip hf, hboxed'.of_iff fun c => exists_bare_append_iff hf hsome⟩

/-- The bodies that come into blocks are the bare ones. -/
lemma blockBodies_boxed (hw : Whole w) (hrun : blockBodies w = .ok () w') :
    Boxed w.forest (fun c => ∃ r, w.forest.Under r root ∧ IsBare w.forest r c) w'.forest := by
  have hf := hw.wellFormed
  have hends : Ends blockBodies w (fun _ w' => Boxing w.forest [] w') fun _ _ => True := by
    refine ends_forest ((walkFrom_preorder hf (fun rest (_ : Unit) => Boxing w.forest rest) ?_ ?_ _
      root [] () w hw.size_pos ?_ ?_ (absurd hw.root_parent)).imp (fun _ _ h => h))
    · rintro id rest - v ⟨done, -, hboxed⟩ hparent hnone
      exact absurd hnone (hboxed.parent_ne_none hf hparent)
    · intro id rest _ v hid hboxing _
      refine ends_bind ((routineVisit_boxing hf hw.root_parent hid hboxing).imp ?_)
      intro decision v' h
      exact ends_pure (by cases decision <;> exact h)
    · exact (le_walkLimit (by omega)).trans (Nat.le_add_right _ _)
    · exact ⟨[], .start _ _, (Boxed.refl hf).of_iff (by simp)⟩
  obtain ⟨done, hpassed, hboxed⟩ := (ends_iff.1 hends).1 _ _ hrun
  exact hboxed.of_iff fun c => by simp only [hpassed.mem_done_iff hf]

/-- The body is, noise apart, one statement, and the only clause of this statement holds a block. -/
def isSingleBlock (body : SyntaxTree) : Bool :=
  match body.children.filter (fun tree => !(tree.tag == .whiteSpace || tree.tag.isComment)) with
  | [statement] => statement.tag == .statement &&
    match statement.children.filter (·.tag == .clause) with
    | [clause] => (clause.child? .beginEndBlock).isSome
    | _ => false
  | _ => false

lemma isSingleBlock_of_children {body : SyntaxTree} {statements : List SyntaxTree}
    (h : body.children = [asStatement [enclosed [opener "begin"] statements [closer "end"]]]) :
    isSingleBlock body = true := by
  rw [isSingleBlock, h]
  rfl

/-- A routine is found as before after the pass, and so is its body. If there was no block among the
statements of the body and the routine is not part of another one, then the body now is a single
block, in which the statements stand as they were. In all other cases the body is as it was, and so
is a single block only if it was one; in particular it is not, if there are statements beside a
block. -/
theorem blockBodies_bodies {routine asBlock body : Nat} (hw : Whole w)
    (hrun : blockBodies w = .ok () w') (hroutine : w.forest.Under routine root)
    (hblock : w.forest.routineAsBlock routine = some asBlock)
    (hbody : w.forest.routineBody asBlock = some body) :
    w'.forest.routineAsBlock routine = some asBlock ∧ w'.forest.routineBody asBlock = some body ∧
      (IsBare w.forest routine body → (w'.forest.subtree body).children =
        [asStatement [enclosed [opener "begin"] (w.forest.subtree body).children [closer "end"]]]) ∧
      (¬ IsBare w.forest routine body → w'.forest.subtree body = w.forest.subtree body) ∧
      (isSingleBlock (w'.forest.subtree body) ↔
        IsBare w.forest routine body ∨ isSingleBlock (w.forest.subtree body)) := by
  have hf := hw.wellFormed
  have hboxed := blockBodies_boxed hw hrun
  have hparent := hf.parent_of_routineBody hbody
  have hlt := lt_size_of_parent hparent
  have hup := hf.parent_of_routineAsBlock hblock
  obtain ⟨hprocedural, has⟩ := tag_of_routineAsBlock hblock
  -- a body is no routine and no block of one
  have hfree {x : Nat} (hx : w.forest.tag x ≠ .containerGeneralContent) :
      ¬ ∃ r, w.forest.Under r root ∧ IsBare w.forest r x := fun ⟨_, _, hbare⟩ => hx hbare.tag_eq
  have hbelow (x : Nat) (hx : w.forest.Below x body) :
      ¬ ∃ r, w.forest.Under r root ∧ IsBare w.forest r x :=
    fun ⟨_, _, hbare⟩ => hbare.not_below hf hblock hbody hx
  have hwrapped (hbare : IsBare w.forest routine body) : (w'.forest.subtree body).children =
      [asStatement [enclosed [opener "begin"] (w.forest.subtree body).children [closer "end"]]] :=
    hboxed.children_subtree_eq hf hlt ⟨routine, hroutine, hbare⟩ hbelow
  have hkept (hnot : ¬ IsBare w.forest routine body) :
      w'.forest.subtree body = w.forest.subtree body := by
    refine hboxed.subtree_eq hf hlt fun x hx => ?_
    obtain rfl | hx := under_iff_eq_or_below.1 hx
    · rintro ⟨r, -, hbare⟩
      obtain ⟨other, hother, hinner⟩ := hbare.exists_asBlock
      rw [hf.parent_of_routineBody hinner] at hparent
      obtain rfl := Option.some.inj hparent
      rw [hf.parent_of_routineAsBlock hother] at hup
      obtain rfl := Option.some.inj hup
      exact hnot hbare
    · exact hbelow x hx
  refine ⟨?_, ?_, hwrapped, hkept, ?_⟩
  · rw [hboxed.routineAsBlock_eq hf (hf.parent_lt hup) (hfree (by simp [hprocedural])), hblock]
  · exact ((hboxed.sameChildren hf (lt_size_of_parent hup) (hfree (by simp [has]))).child_eq
      _).trans hbody
  · by_cases hbare : IsBare w.forest routine body
    · exact iff_of_true (isSingleBlock_of_children (hwrapped hbare)) (.inl hbare)
    · rw [hkept hbare]
      simp [hbare]

end

/-! ## A statement beside a block -/

/-- The pass that makes bodies blocks. -/
def bodyPasses : List Pass :=
  ["ddl_begin_end"].filterMap standardPass?

lemma bodyPasses_eq : bodyPasses = [⟨"ddl_begin_end", blockBodies⟩] := by
  rfl

/-- A procedure with the given statements as its body. -/
def procedureOf (statements : List SyntaxTree) : SyntaxTree :=
  group .root [asStatement [group .ddlProceduralBlock [keyword "create", keyword "procedure",
    .node .otherNode "p" .empty [],
    group .ddlAsBlock [opener "as", group .containerGeneralContent statements]]]]

/-- The statement that selects a name. -/
def selectOf (name : String) : SyntaxTree :=
  asStatement [keyword "select", .node .otherNode name .empty [], semicolon]

/-- `begin select y; end;` -/
def selectBlock : SyntaxTree :=
  asStatement [enclosed [opener "begin"] [selectOf "y"] [closer "end"], semicolon]

theorem blockBodies_bodies_select :
    Whole { forest := ofTree (procedureOf [selectOf "x"]) } ∧
      ∃ w', blockBodies { forest := ofTree (procedureOf [selectOf "x"]) } = .ok () w' ∧
        isSingleBlock (w'.forest.subtree 10) = true := by
  have hw : Whole { forest := ofTree (procedureOf [selectOf "x"]) } := whole_ofTree _
  have hroutine : (ofTree (procedureOf [selectOf "x"])).Under 3 root :=
    hw.wellFormed.mem_preorder_iff.1 (by decide +kernel)
  have hbare : IsBare (ofTree (procedureOf [selectOf "x"])) 3 10 := by decide +kernel
  obtain ⟨w', hpasses, -⟩ : ∃ w', runPasses bodyPasses
      { forest := ofTree (procedureOf [selectOf "x"]) } = .ok w' ∧ True := by decide +kernel
  rw [bodyPasses_eq] at hpasses
  have hrun := ok_of_runPasses_singleton hpasses
  have hblock : (ofTree (procedureOf [selectOf "x"])).routineAsBlock 3 = some 7 := by decide +kernel
  have hbody : (ofTree (procedureOf [selectOf "x"])).routineBody 7 = some 10 := by decide +kernel
  obtain ⟨-, -, -, -, hsingle⟩ := blockBodies_bodies hw hrun hroutine hblock hbody
  exact ⟨hw, w', hrun, hsingle.2 (.inl hbare)⟩

/-- The block beside the other statement keeps the body from becoming a single block. -/
theorem runPasses_selectBlock :
    ∃ w, runPasses bodyPasses { forest := ofTree (procedureOf [selectOf "x", selectBlock]) } =
      .ok w ∧ w.forest.routineBody 7 = some 10 ∧ isSingleBlock (w.forest.subtree 10) = false ∧
      w.forest.tree.render = "create procedure p as select x; begin select y; end;" := by
  decide +kernel

end SqlDialect.Routine
