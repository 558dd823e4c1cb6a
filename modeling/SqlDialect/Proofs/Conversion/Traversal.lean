import SqlDialect.Proofs.Conversion.Preorder
import SqlDialect.Proofs.SyntaxTree.Parts

/-!
# Three ways through a tree

What is below a node can be listed with a stack, found by looking for the node among the ancestors
of each node, or met by a walk.  In a well-formed forest all three come to the same nodes, and the
two that have an order come to them in pre-order.  The limit of a walk only stops it, and one that
takes nodes off at most never goes that deep.
-/

namespace SqlDialect

open List Forest Conversion SyntaxTree

variable {f : Forest} {σ : Type} {visit : NodeId → σ → Conversion (Visit × σ)}

/-- The nodes that come off a stack in the given number of steps, where the children of a node take
its place. -/
def Forest.unstack (f : Forest) : Nat → List NodeId → List NodeId
  | 0, _ => []
  | _, [] => []
  | steps + 1, id :: stack => id :: f.unstack steps (f.children id ++ stack)

/-- With a step for each node that is still to come the stack runs empty. -/
lemma Forest.WellFormed.unstack_eq (hf : f.WellFormed) (steps : Nat) (stack : List NodeId)
    (h : (stack.flatMap fun c => c :: f.descendants c).length ≤ steps) :
    f.unstack steps stack = stack.flatMap fun c => c :: f.descendants c := by
  fun_induction unstack f steps stack with
  | case1 => exact (length_eq_zero_iff.1 (Nat.le_zero.1 h)).symm
  | case2 => rfl
  | case3 steps id stack ih =>
    rw [flatMap_append, ← hf.descendants_eq] at ih
    rw [ih (by simpa using h), flatMap_cons, cons_append]

/-- The visits always let the walk go down and leave parents and children as they are. -/
def Steady (visit : NodeId → σ → Conversion (Visit × σ)) : Prop :=
  ∀ id state w result w', visit id state w = .ok result w' → result.1 = .descend ∧
    ∀ x : Nat, w'.forest.parent x = w.forest.parent x ∧ w'.forest.children x = w.forest.children x

/-- Visits to the nodes of a list, one after the other. -/
def visitAll (visit : NodeId → σ → Conversion (Visit × σ)) : List NodeId → σ → Conversion σ
  | [], state => pure state
  | id :: ids, state => do
    let (_, state) ← visit id state
    visitAll visit ids state

/-- The visits of a walk are those to the nodes in pre-order.  The nodes still to come always lead
to the end that the whole list leads to. -/
lemma walkWith_eq_visitAll (hvisit : Steady visit) {w : Workspace} (hf : w.forest.WellFormed)
    {id : Nat} (hid : id < w.forest.size) (state : σ) :
    walkWith id state visit w = visitAll visit (id :: w.forest.descendants id) state w := by
  generalize hend : visitAll visit (id :: w.forest.descendants id) state w = outcome
  have hlimit : w.forest.size < walkLimit w.forest := le_walkLimit (by omega)
  suffices hwalk : Ends (walkFrom visit (walkLimit w.forest) id state) w
      (fun state' w' => .ok state' w' = outcome) (fun e w' => .error e w' = outcome) by
    rw [ends_iff] at hwalk
    change walkFrom visit (walkLimit w.forest) id state w = outcome
    cases hrun : walkFrom visit (walkLimit w.forest) id state w with
    | ok state' w' => exact hwalk.1 state' w' hrun
    | error e w' => exact hwalk.2 e w' hrun
  refine (walkFrom_preorder hf (fun rest state w' => visitAll visit rest state w' = outcome ∧
      ∀ x : Nat,
      w'.forest.parent x = w.forest.parent x ∧ w'.forest.children x = w.forest.children x)
    (fun id _ _ w' h hparent hnone => absurd ((h.2 id).1 ▸ hnone) hparent)
    (fun id rest state w' _ h _ => ends_iff.2 ⟨fun result w'' hok => ?_, fun e w'' herror => ?_⟩)
    (walkLimit w.forest) id [] state w hid (Nat.lt_add_right _ hlimit)
    ⟨by simpa using hend, fun _ => ⟨rfl, rfl⟩⟩ fun h => h).imp fun _ _ h => h.1
  · obtain ⟨hdescend, hsame⟩ := hvisit id state w' result w'' hok
    have hlinks (x : Nat) := And.intro ((hsame x).1.trans (h.2 x).1) ((hsame x).2.trans (h.2 x).2)
    rw [hdescend]
    refine ⟨(hlinks id).2, ?_, hlinks⟩
    rw [← h.1, visitAll, bind_of_ok hok]
  · rw [← h.1, visitAll, bind_of_error herror]

/-! ## The limit -/

section

variable {α β : Type}

/-- The second computation does what the first does, unless that goes too deep. -/
def IsBoundedBy (first second : Conversion α) : Prop :=
  ∀ w, second w = first w ∨ ∃ w', first w = .error .tooDeep w'

lemma IsBoundedBy.refl (step : Conversion α) : IsBoundedBy step step :=
  fun _ => .inl rfl

lemma IsBoundedBy.bind {first second : Conversion α} {next next' : α → Conversion β}
    (h : IsBoundedBy first second) (hnext : ∀ a, IsBoundedBy (next a) (next' a)) :
    IsBoundedBy (first >>= next) (second >>= next') := by
  intro w
  obtain hw | ⟨w', hw⟩ := h w
  · cases hrun : first w with
    | ok a w' =>
      rw [bind_of_ok hrun, bind_of_ok (hw.trans hrun)]
      exact hnext a w'
    | error e w' =>
      rw [bind_of_error hrun, bind_of_error (hw.trans hrun)]
      exact .inl rfl
  · exact .inr ⟨w', bind_of_error hw⟩

lemma IsBoundedBy.foldlM {first second : α → β → Conversion α}
    (h : ∀ a b, IsBoundedBy (first a b) (second a b)) (items : List β) (a : α) :
    IsBoundedBy (items.foldlM first a) (items.foldlM second a) := by
  induction items generalizing a with
  | nil => exact .refl _
  | cons item items ih =>
    rw [foldlM_cons, foldlM_cons]
    exact (h a item).bind ih

/-- A walk ends as it would without a limit, unless it goes beyond it. -/
lemma walkFrom_isBoundedBy {limit more : Nat} (hle : limit ≤ more) (id : NodeId) (state : σ) :
    IsBoundedBy (walkFrom visit limit id state) (walkFrom visit more id state) := by
  induction limit generalizing more id state with
  | zero => exact fun w => .inr ⟨w, rfl⟩
  | succ limit ih =>
    obtain ⟨more, rfl⟩ := Nat.exists_eq_add_one_of_ne_zero (by omega : more ≠ 0)
    rw [walkFrom_succ, walkFrom_succ]
    refine (IsBoundedBy.refl _).bind ?_
    rintro ⟨decision, state⟩
    cases decision with
    | skip => exact .refl _
    | descend =>
      refine (IsBoundedBy.refl _).bind fun f => .foldlM (fun state child => ?_) _ _
      refine (IsBoundedBy.refl _).bind fun f => ?_
      split
      · exact .refl _
      · exact ih (by omega) child state

end

section

variable {α β : Type} {w w' : Workspace}

/-- Some nodes may have lost their parents, and none has got another one. -/
structure Pruned (f g : Forest) : Prop where
  wellFormed : g.WellFormed
  parent_of : ∀ {x p : Nat}, g.parent x = some p → f.parent x = some p

/-- The step takes nodes off at most, and does not go too deep. -/
class Prunes (step : Conversion α) : Prop where
  ends : ∀ {f : Forest} {w : Workspace}, Pruned f w.forest →
    Ends step w (fun _ w' => Pruned f w'.forest) fun e _ => e ≠ .tooDeep

lemma Pruned.sameLinks {g h : Forest} (hg : Pruned f g) (hlinks : SameLinks g h) : Pruned f h :=
  ⟨hlinks.wellFormed hg.wellFormed, fun hp => hg.parent_of (hlinks.parent_eq _ ▸ hp)⟩

lemma Pruned.detach {g : Forest} (hg : Pruned f g) (id : NodeId) : Pruned f (g.detach id) := by
  obtain ⟨hwf, hlinks⟩ := hg.wellFormed.detach id
  refine ⟨hwf, fun hp => hg.parent_of ?_⟩
  rw [hlinks.parent_eq] at hp
  split at hp
  · cases hp
  · exact hp

namespace Prunes

instance {a : α} : Prunes (pure a) := ⟨fun h => ends_pure h⟩

instance : Prunes forest := ⟨fun h => ends_forest (ends_pure h)⟩

instance {missing : String} {part : Option α} : Prunes (need missing part) := by
  cases part with
  | some a => exact inferInstanceAs (Prunes (pure a))
  | none => exact ⟨fun _ => ends_throw nofun⟩

lemma next {step : Conversion β} {next : β → Conversion α} [hstep : Prunes step]
    (hnext : ∀ b, Prunes (next b)) : Prunes (step >>= next) :=
  ⟨fun h => ends_bind ((hstep.ends h).imp fun b _ h1 => (hnext b).ends h1)⟩

instance bind {step : Conversion β} {next : β → Conversion α} [Prunes step]
    [h : ∀ b, Prunes (next b)] : Prunes (step >>= next) := .next h

instance {p : Prop} [Decidable p] {step other : Conversion α} [Prunes step] [Prunes other] :
    Prunes (if p then step else other) := by
  split <;> infer_instance

instance {step : β → Conversion PUnit} {item : Option β} [h : ∀ item, Prunes (step item)] :
    Prunes (item.forM step) := by
  cases item with
  | none => exact inferInstanceAs (Prunes (pure ()))
  | some item => exact h item

instance {id : NodeId} {tag : Tag} : Prunes (setTag id tag) :=
  ⟨fun h => ends_edit (h.sameLinks (sameLinks_setTag ..))⟩

instance {id : NodeId} {text : String} : Prunes (setText id text) :=
  ⟨fun h => ends_edit (h.sameLinks (sameLinks_setText ..))⟩

instance {id : NodeId} : Prunes (detach id) := ⟨fun h => ends_edit (h.detach id)⟩

instance {parent child : NodeId} : Prunes (removeChild parent child) := by
  refine ⟨fun {f w} h => ?_⟩
  by_cases hparent : w.forest.parent child = some parent
  · exact ends_relink (h.wellFormed.removeChild_eq hparent) (h.detach child)
  · exact ends_relink_error (h.wellFormed.removeChild_eq_error hparent) nofun

end Prunes

/-- The way down of such a walk is one in the forest that it started with. -/
lemma walkFrom_prunes [hvisit : ∀ id state, Prunes (visit id state)]
    (hf : f.WellFormed) (limit : Nat)
    {id : Nat} {state : σ} (h : Pruned f w.forest) (hid : id < f.size)
    (hlimit : f.size ≤ f.depth id + limit) :
    Ends (walkFrom visit limit id state) w (fun _ w' => Pruned f w'.forest) fun e _ =>
      e ≠ .tooDeep := by
  induction limit generalizing id state w with
  | zero => exact absurd (hf.depth_lt_size hid) hlimit.not_gt
  | succ limit ih =>
    rw [walkFrom_succ]
    refine ends_bind (((hvisit id state).ends h).imp ?_)
    rintro ⟨decision, state⟩ w₁ h₁
    cases decision with
    | skip => exact ends_pure h₁
    | descend =>
      refine ends_forest (ends_foldlM (fun rest _ w => Pruned f w.forest ∧ ∀ c ∈ rest,
        f.parent c = some id)
        ⟨h₁, fun c hc => h₁.parent_of (h₁.wellFormed.parent_of_mem hc)⟩ ?_ fun _ _ h => h.1)
      rintro c rest state w₂ ⟨h₂, hrest⟩
      have hparent := hrest c mem_cons_self
      have hdepth := hf.depth_of_parent hparent
      have hrest (b : Nat) (hb : b ∈ rest) := hrest b (.tail _ hb)
      exact ends_forest (ends_ite (fun _ => ends_pure ⟨h₂, hrest⟩) fun _ =>
        (ih h₂ (lt_size_of_parent hparent) (by omega)).imp fun _ _ h => ⟨h, hrest⟩)

lemma walk_ne_tooDeep {visit : NodeId → Conversion Visit} [∀ id, Prunes (visit id)] (hw : Whole w) :
    walk root visit w ≠ .error .tooDeep w' := by
  have hlimit : w.forest.size ≤ walkLimit w.forest := le_walkLimit (by omega)
  have hwalk : Ends (walkFrom (fun id _ => return (← visit id, ())) (walkLimit w.forest) root ()) w
      (fun _ w' => Pruned w.forest w'.forest) fun e _ => e ≠ .tooDeep :=
    walkFrom_prunes hw.wellFormed _ ⟨hw.wellFormed, id⟩ hw.size_pos (Nat.le_add_left_of_le hlimit)
  exact fun h => (ends_iff.1 hwalk).2 _ _ h rfl

section

variable {id : NodeId}

instance {word : String} : Prunes (FunctionCall.toKeyword id word) := .bind

instance : Prunes (DateFunction.convertPart id) := .bind

instance : Prunes (DataType.convertType id) := .bind

instance : Prunes (DataType.convertIdentity id) :=
  .next fun _ => .next fun _ => .next fun ⟨_, _⟩ => inferInstance

instance : Prunes (DeclareSection.dropBlock id) :=
  .next fun _ => .next fun _ => by split <;> infer_instance

instance {act : NodeId → Conversion Unit} [∀ id, Prunes (act id)] :
    Prunes (DeclareSection.blockVisit act id) := .bind

instance {tag : Tag} {text : Option String} {convertNode : NodeId → Conversion Unit}
    [∀ id, Prunes (convertNode id)] : Prunes (matchVisit tag text convertNode id) := .bind

end

/-- The passes that change labels and take nodes off, and do nothing else. -/
def pruningPasses : List Pass :=
  [⟨"cleanup_declare", DeclareSection.dropDeclarations⟩,
    ⟨"unnecessary_statements", Terminator.dropStatements⟩, ⟨"datepart", DateFunction.convertParts⟩,
    ⟨"transactions", ErrorHandling.dropTransactions⟩, ⟨"data_types", DataType.convertTypes⟩,
    ⟨"identity", DataType.convertIdentities⟩, ⟨"nstrings", Wording.convertNationalStrings⟩]

lemma pruningPasses_ne_tooDeep (hw : Whole w) :
    ∀ pass ∈ pruningPasses, pass.run w ≠ .error .tooDeep w' := by
  simp only [pruningPasses, forall_mem_cons, not_mem_nil, false_implies, implies_true, and_true]
  and_intros <;> exact walk_ne_tooDeep hw

end

/-- A stack, the ancestors and a walk find the same nodes below a node, each once and in
pre-order. -/
theorem traversals_agree (hf : f.WellFormed) {id : NodeId} (hid : id < f.size) :
    (f.descendants id = (f.children id).flatMap fun c => c :: f.descendants c) ∧
    f.unstack f.size (f.children id) = f.descendants id ∧ (f.descendants id).Nodup ∧
    (∀ n, n ∈ f.descendants id ↔ f.isWithin n id = true) ∧
    ∀ (σ : Type) (visit : NodeId → σ → Conversion (Visit × σ)), Steady visit → ∀ state notes,
      walkWith id state visit { forest := f, notes } =
        visitAll visit (id :: f.descendants id) state { forest := f, notes } := by
  have hlist := hf.descendants_eq id
  have hnodup := hf.nodup_preorder id
  have hlength : (f.descendants id).length ≤ f.size := by
    have hsize := hf.size_subtree_le hid
    rw [hf.size_subtree, length_cons] at hsize
    omega
  refine ⟨hlist, ?_, hnodup.of_cons, fun n => ?_, fun σ visit hvisit state notes => ?_⟩
  · rw [hlist] at hlength ⊢
    exact hf.unstack_eq _ _ hlength
  · rw [hf.mem_descendants_iff, ← hf.mem_ancestors_iff]
    simp [isWithin]
  · exact walkWith_eq_visitAll hvisit hf hid state

/-- A walk that notes down where it has been. -/
theorem traversals_agree_noted :
    let w : Workspace :=
      { forest := ofTree (group .root [group .clause [group .comma []], group .semicolon []]) }
    walkWith root [] (fun id seen => return (.descend, seen ++ [id])) w = .ok [0, 1, 2, 3] w := by
  intro w
  have hwalk := (traversals_agree (wellFormed_ofTree _) (by decide : root < w.forest.size)).2.2.2.2
  refine (hwalk _ _ ?_ [] {}).trans rfl
  rintro id seen w _ _ ⟨⟩
  exact ⟨rfl, fun _ => ⟨rfl, rfl⟩⟩

end SqlDialect
