import SqlDialect.Proofs.Conversion.Ends

/-!
# When a node is attached

`Refused` lists the reasons for which a node is not attached at a position, in the order in which
they count.  A step that attaches a node fails for these reasons and no others, and then leaves
everything as it was; otherwise the node is where it was asked for, and of all other nodes only the
children of its parent have changed (`attach_outcomes`).  A step that moves a node does the same
after it has detached the node.
-/

namespace SqlDialect.Forest

open Conversion

variable {f g : Forest} {c p : Nat} {w : Workspace}

/-- A position among the children of a node. -/
inductive Position where
  | last
  | before (mark : NodeId)
  | after (mark : NodeId)

namespace Position

/-- The child that marks the position. -/
def mark? : Position → Option NodeId
  | last => none
  | before mark | after mark => some mark

/-- The step that attaches a node at the position. -/
def attach (parent child : NodeId) : Position → Conversion Unit
  | last => Conversion.addChild parent child
  | before mark => Conversion.insertBefore parent child mark
  | after mark => Conversion.insertAfter parent child mark

/-- The step that moves a node to the position. -/
def move (parent child : NodeId) : Position → Conversion Unit
  | last => moveTo parent child
  | before mark => moveBefore parent child mark
  | after mark => moveAfter parent child mark

/-- The second list is the first one with the node at the position. -/
def Puts (c : Nat) : Position → List Nat → List Nat → Prop
  | last, ids, ids' => ids' = ids ++ [c]
  | before mark, ids, ids' => ∃ front back, ids = front ++ mark :: back ∧
  ids' = front ++ c :: mark :: back
  | after mark, ids, ids' => ∃ front back, ids = front ++ mark :: back ∧
  ids' = front ++ mark :: c :: back

/-- The change of links that attaches a node at the position. -/
def link (f : Forest) (parent child : NodeId) : Position → Except LinkError Forest
  | last => f.addChild parent child
  | before mark => f.insertBefore parent child mark
  | after mark => f.insertAfter parent child mark

lemma attach_eq (position : Position) (p c : Nat) :
    position.attach p c = relink fun f => position.link f p c := by
  cases position <;> rfl

lemma move_eq (position : Position) (p c : Nat) :
    position.move p c = (do Conversion.detach c; position.attach p c) := by
  cases position <;> rfl

end Position

variable {position : Position}

/-- Why `c` is not attached at a position among the children of `p`. -/
inductive Refused (f : Forest) (p c : Nat) (position : Position) : LinkError → Prop
  | attached {q : Nat} : f.parent c = some q → Refused f p c position (.alreadyAttached c q)
  | cycle : f.parent c = none → f.Under p c → Refused f p c position (.cycle c p)
  | notAChild {mark : Nat} : f.parent c = none → ¬ f.Under p c → position.mark? = some mark →
    mark ∉ f.children p → Refused f p c position (.notAChild mark p)

/-- In `g`, the node `c` is at the position among the children of `p`. All else is as in `f`. -/
structure Attached (f : Forest) (p c : Nat) (position : Position) (g : Forest) : Prop where
  size_eq : g.size = f.size
  node_child : g.node c = { f.node c with parent := some p }
  node_parent : ∃ ids, position.Puts c (f.children p) ids ∧
    g.node p = { f.node p with children := ids }
  node_eq : ∀ x ≠ c, x ≠ p → g.node x = f.node x

/-- The node has been taken out of the children of its parent. All else is as in `f`. -/
structure Detached (f : Forest) (c : Nat) (g : Forest) : Prop where
  size_eq : g.size = f.size
  node_child : g.node c = { f.node c with parent := none }
  node_eq : ∀ x ≠ c, g.node x = { f.node x with children := (f.children x).erase c }

/-- How an attempt to attach a node in `w` ends. -/
structure Attempted (w : Workspace) (p c : Nat) (position : Position)
    (result : EStateM.Result ConversionError Workspace Unit) : Prop where
  error_iff : ∀ e w', result = .error e w' ↔
    w' = w ∧ ∃ cause, e = .link cause ∧ Refused w.forest p c position cause
  ok : ∀ w', result = .ok () w' → w'.notes = w.notes ∧ Attached w.forest p c position w'.forest

/-! ## Attaching -/

section

variable (hf : f.WellFormed)
include hf

lemma WellFormed.link_of_refused {cause : LinkError} (h : Refused f p c position cause) :
    position.link f p c = .error cause := by
  have hcheck (hcheck : f.checkAttachable p c = .error cause) :
    position.link f p c = .error cause := by
    cases position with
    | last => exact addChild_eq_error hcheck
    | before _ | after _ => exact Forest.insertAt_eq_error hcheck
  cases h with
  | attached hparent => exact hcheck (checkAttachable_eq_attached hparent)
  | cycle hnone hunder => exact hcheck (hf.checkAttachable_eq_cycle hnone hunder)
  | @notAChild mark hnone hoff hmark hmem =>
    have hparent : f.parent mark ≠ some p := fun h => hmem (hf.mem_children_iff.2 h)
    cases position with
    | last => cases hmark
    | before _ | after _ =>
      cases hmark
      exact hf.insertAt_eq_error hnone hoff hparent

/-- A node that is not refused is attached. -/
lemma WellFormed.link_attached (hp : p < f.size) (hc : c < f.size)
    (h : ∀ cause, ¬ Refused f p c position cause) :
    ∃ g, position.link f p c = .ok g ∧ Attached f p c position g := by
  have hnone : f.parent c = none := by
    cases hparent : f.parent c with
    | none => rfl
    | some q => exact absurd (.attached hparent) (h _)
  have hoff : ¬ f.Under p c := fun hunder => h _ (.cycle hnone hunder)
  have hmark {mark : Nat} (hmark : position.mark? = some mark) : f.parent mark = some p :=
    hf.parent_of_mem (by_contra fun hmem => h _ (.notAChild hnone hoff hmark hmem))
  have hne : c ≠ p := fun heq => hoff (heq ▸ Under.refl f p)
  have hplace {arrange : List NodeId → List NodeId}
      (hputs : position.Puts c (f.children p) (arrange (f.children p))) :
      Attached f p c position (f.place p c arrange) := by
    have hnode := node_place f arrange hp hc hne
    exact ⟨size_place .., by simp [hnode], ⟨_, hputs, by simp [hnode, hne.symm, children]⟩,
      fun x hxc hxp => by simp [hnode, hxc, hxp]⟩
  cases position with
  | last => exact ⟨_, hf.addChild_eq hnone hoff, hplace rfl⟩
  | before mark | after mark =>
    obtain ⟨front, back, hsplit, hok⟩ := hf.insertAt_eq hnone hoff (hmark rfl)
    exact ⟨_, hok, hplace ⟨front, back, hsplit, rfl⟩⟩

lemma WellFormed.detached_detach (c : Nat) : Detached f c (f.detach c) := by
  refine ⟨(hf.detach c).2.size_eq, ?_, fun x hx => ?_⟩
  · rw [hf.node_detach, if_pos rfl, hf.filter_notMem fun h => hf.parent_ne_self h rfl]
    rfl
  · rw [hf.node_detach, if_neg hx, hf.erase_children]
    rfl

end

/-! ## Steps -/

lemma relink_eq_ok {change : Forest → Except LinkError Forest} (h : change w.forest = .ok g) :
    relink change w = .ok () { w with forest := g } := by
  refine (bind_of_ok rfl).trans ?_
  rw [h]
  rfl

lemma relink_eq_error {change : Forest → Except LinkError Forest} {cause : LinkError}
    (h : change w.forest = .error cause) : relink change w = .error (.link cause) w := by
  refine (bind_of_ok rfl).trans ?_
  rw [h]
  rfl

section

variable (hf : w.forest.WellFormed)
include hf

lemma attempted_attach (hp : p < w.forest.size) (hc : c < w.forest.size) (position : Position) :
    Attempted w p c position (position.attach p c w) := by
  rw [position.attach_eq]
  by_cases h : ∃ cause, Refused w.forest p c position cause
  · have hrefused {cause : LinkError} (h : Refused w.forest p c position cause) :
        (relink fun f => position.link f p c) w = .error (.link cause) w :=
      relink_eq_error (hf.link_of_refused h)
    obtain ⟨cause, h⟩ := h
    refine ⟨fun e w' => ⟨?_, ?_⟩, fun w' hok => ?_⟩
    · rw [hrefused h]
      rintro ⟨⟩
      exact ⟨rfl, cause, rfl, h⟩
    · rintro ⟨rfl, cause', rfl, h'⟩
      exact hrefused h'
    · rw [hrefused h] at hok
      cases hok
  · obtain ⟨g, hlink, hattached⟩ := hf.link_attached hp hc (not_exists.1 h)
    rw [relink_eq_ok hlink]
    refine ⟨fun e w' => ⟨nofun, ?_⟩, ?_⟩
    · rintro ⟨-, cause, -, h'⟩
      exact absurd ⟨cause, h'⟩ h
    · rintro _ ⟨⟩
      exact ⟨rfl, hattached⟩

lemma removeChild_outcomes (p c : Nat) :
    (∀ e w', Conversion.removeChild p c w = .error e w' ↔
      w' = w ∧ e = .link (.notAChild c p) ∧ c ∉ w.forest.children p) ∧
      ∀ w', Conversion.removeChild p c w = .ok () w' →
      w' = { w with forest := w.forest.detach c } := by
  by_cases h : w.forest.parent c = some p
  · have hok : Conversion.removeChild p c w = _ := relink_eq_ok (hf.removeChild_eq h)
    rw [hok]
    exact ⟨fun e w' =>
      ⟨nofun, fun ⟨_, _, hnot⟩ => absurd (hf.mem_children_iff.2 h) hnot⟩, by rintro _ ⟨⟩; rfl⟩
  · have herror : Conversion.removeChild p c w = _ := relink_eq_error (hf.removeChild_eq_error h)
    rw [herror]
    refine ⟨fun e w' => ⟨?_, ?_⟩, nofun⟩
    · rintro ⟨⟩
      exact ⟨rfl, rfl, fun hmem => h (hf.parent_of_mem hmem)⟩
    · rintro ⟨rfl, rfl, -⟩
      rfl

end

/-- A node is attached, moved or removed unless there is a reason against it, and the first reason
is the error. -/
theorem attach_outcomes (hf : w.forest.WellFormed) (hp : p < w.forest.size) (hc : c < w.forest.size)
    (position : Position) :
    Attempted w p c position (position.attach p c w) ∧
      Detached w.forest c (w.forest.detach c) ∧
      Attempted { w with forest := w.forest.detach c } p c position (position.move p c w) ∧
      (∀ e w', Conversion.removeChild p c w = .error e w' ↔
        w' = w ∧ e = .link (.notAChild c p) ∧ c ∉ w.forest.children p) ∧
      ∀ w', Conversion.removeChild p c w = .ok () w' →
        w' = { w with forest := w.forest.detach c } := by
  refine ⟨attempted_attach hf hp hc position, hf.detached_detach c, ?_, removeChild_outcomes hf p c⟩
  obtain ⟨hwf, hlinks⟩ := hf.detach c
  rw [position.move_eq]
  exact attempted_attach hwf (hlinks.size_eq ▸ hp)
    (hlinks.size_eq ▸ hc) position

/-- A node cannot be moved to a position that it marks itself. -/
theorem move_after_itself_refused :
    let w : Workspace := { forest := ofTree (.node .root "" .empty [.node .comma "," .empty []]) }
    (Position.after 1).move 0 1 w =
      .error (.link (.notAChild 1 0)) { w with forest := w.forest.detach 1 } := by
  intro w
  have hf : w.forest.WellFormed := wellFormed_ofTree _
  have hsize : w.forest.size = 2 := size_ofTree _
  have hlinks := (hf.detach 1).2
  refine ((attach_outcomes hf (by omega) (by omega) _).2.2.1.error_iff _ _).2
    ⟨rfl, _, rfl, .notAChild (hlinks.parent_of_mem (by simp)) (fun hunder => ?_) rfl fun hmem => ?_⟩
  · obtain h | ⟨p, hp, -⟩ := under_iff.1 hunder
    · cases h
    · rw [hlinks.parent_of_notMem (by simp)] at hp
      cases (parent_root_ofTree _).symm.trans hp
  · have hparent := (hf.detach 1).1.parent_of_mem hmem
    rw [hlinks.parent_of_mem (by simp)] at hparent
    cases hparent

end SqlDialect.Forest
