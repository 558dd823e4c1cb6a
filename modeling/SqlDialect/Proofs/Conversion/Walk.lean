import SqlDialect.Proofs.Conversion.Construct

/-!
# Walks

A walk visits nodes of the forest that it finds at the time, and each visit may change the forest.
`Comes visit limit id state w v` says that a walk from `id`, started at `w`, gets to the visit `v`:
to a node, with the value and the workspace that the earlier visits have left.

If every visit that the walk comes to leaves a sound workspace with no fewer nodes, so does the walk
(`walkFrom_safe`).  If it comes to a visit that fails, it fails with the same error
(`Comes.walkFrom_eq_error`).
-/

namespace SqlDialect.Conversion

open Forest List

variable {child id target : NodeId} {e : ConversionError} {limit : Nat} {K : String → Prop}
  {P : Prop} {w w' : Workspace} {σ : Type} {visit : NodeId → σ → Conversion (Visit × σ)}

/-- What a walk does about a child of the node it has visited. -/
def walkChild (visit : NodeId → σ → Conversion (Visit × σ)) (limit : Nat) (state : σ)
    (child : NodeId) : Conversion σ := do
  if ((← forest).parent child).isNone then return state
  walkFrom visit limit child state

lemma walkFrom_succ (limit : Nat) (id : NodeId) (state : σ) :
    walkFrom visit (limit + 1) id state = (do
      let (decision, state) ← visit id state
      match decision with
      | .skip => return state
      | .descend => ((← forest).children id).foldlM (walkChild visit limit) state) :=
  rfl

/-- A moment of a walk: the node to be visited, and the value and the workspace at that time. -/
structure Moment (σ : Type) where
  id : NodeId
  state : σ
  workspace : Workspace

/-- The walk from a node comes to a visit. -/
inductive Comes (visit : NodeId → σ → Conversion (Visit × σ)) :
    Nat → NodeId → σ → Workspace → Moment σ → Prop
  | here {limit : Nat} {id : NodeId} {state : σ} {w : Workspace} :
    Comes visit (limit + 1) id state w ⟨id, state, w⟩
  | down {limit : Nat} {id child : NodeId} {state state₁ state₂ : σ} {w w₁ w₂ : Workspace}
      {before after : List NodeId} {moment : Moment σ} :
    visit id state w = .ok (.descend, state₁) w₁ →
    w₁.forest.children id = before ++ child :: after →
    before.foldlM (walkChild visit limit) state₁ w₁ = .ok state₂ w₂ →
    w₂.forest.parent child ≠ none →
    Comes visit limit child state₂ w₂ moment →
    Comes visit (limit + 1) id state w moment

lemma walkChild_safe {state : σ} (hw : w.Sound K)
    (h : w.forest.parent child ≠ none → Safe K P (walkFrom visit limit child state) w) :
    Safe K P (walkChild visit limit state child) w := by
  refine ends_forest (ends_ite (fun _ => ends_pure (.refl hw)) fun hsome => h ?_)
  simpa using hsome

/-- The rule for a list of steps each of which may rely on how those before it went. -/
lemma ends_foldlM_run {α β : Type} {step : β → α → Conversion β} {items : List α} {b : β}
    {E : ConversionError → Workspace → Prop} (I : List α → β → Workspace → Prop) (hstart : I [] b w)
    (hstep : ∀ before item after b1 w1, items = before ++ item :: after →
      before.foldlM step b w = .ok b1 w1 → I before b1 w1 →
      Ends (step b1 item) w1 (I (before ++ [item])) E) :
    Ends (items.foldlM step b) w (I items) E := by
  suffices hrest : ∀ rest before b1 w1, items = before ++ rest →
      before.foldlM step b w = .ok b1 w1 → I before b1 w1 →
      Ends (rest.foldlM step b1) w1 (I items) E from hrest items [] b w rfl rfl hstart
  intro rest
  induction rest with
  | nil =>
    intro before b1 w1 hsplit _ hI
    rw [append_nil] at hsplit
    exact ends_pure (hsplit ▸ hI)
  | cons item rest ih =>
    intro before b1 w1 hsplit hbefore hI
    refine Ends.bind (hstep before item rest b1 w1 hsplit hbefore hI) fun b2 w2 hrun hI2 => ?_
    refine ih (before ++ [item]) b2 w2 (by simp [hsplit]) ?_ hI2
    rw [foldlM_append, bind_of_ok hbefore, foldlM_cons, bind_of_ok hrun]
    rfl

/-- If every visit that a walk comes to leaves a sound workspace, so does the walk. -/
lemma walkFrom_safe : ∀ {limit id : Nat} {state : σ} {w : Workspace}, w.Sound K →
    id < w.forest.size →
    (∀ moment, Comes visit limit id state w moment → moment.workspace.Sound K →
      (moment.id : Nat) < moment.workspace.forest.size →
      Safe K P (visit moment.id moment.state) moment.workspace) →
    Safe K P (walkFrom visit limit id state) w
  | 0, id, state, w, hw, _, _ => ends_throw ⟨hw, fun ⟨_, hcause⟩ => by cases hcause⟩
  | limit + 1, id, state, w, hw, hid, hvisit => by
    rw [walkFrom_succ]
    refine Ends.bind (hvisit _ .here hw hid) ?_
    rintro ⟨decision, state1⟩ w1 hrun hnext
    cases decision with
    | skip => exact ends_pure hnext
    | descend =>
      refine ends_forest ((ends_foldlM_run (fun _ _ => Next K w1) (.refl hnext.1) ?_).imp
        fun _ _ hnext2 => hnext.trans hnext2)
      intro before child after state2 w2 hchildren hbefore hnext2
      have hchild : child ∈ w1.forest.children id := by simp [hchildren]
      have hlt : child < w2.forest.size := (hnext.1.wellFormed.child_lt hchild).trans_le hnext2.2
      exact (walkChild_safe hnext2.1 fun hparent => walkFrom_safe hnext2.1 hlt fun moment hcomes =>
        hvisit moment (.down hrun hchildren hbefore hparent hcomes)).imp
        fun _ _ hnext3 => hnext2.trans hnext3

/-- If every visit of a sound workspace leaves a sound one, the walk comes to sound ones only. -/
lemma Comes.sound (hvisit : ∀ (id : Nat) (state : σ) (w : Workspace), w.Sound K →
    id < w.forest.size → Safe K P (visit id state) w) {state : σ}
    {w : Workspace} {moment : Moment σ} (h : Comes visit limit id state w moment) (hw : w.Sound K)
    (hid : (id : Nat) < w.forest.size) :
    moment.workspace.Sound K ∧ (moment.id : Nat) < moment.workspace.forest.size := by
  induction h with
  | here => exact ⟨hw, hid⟩
  | @down limit id child state state1 state2 w w1 w2 before after moment hrun hchildren hbefore _ _
      ih =>
    have hnext1 := (ends_iff.1 (hvisit id state w hw hid)).1 _ w1 hrun
    have hlt (c : NodeId) (hc : c ∈ before ++ child :: after) : (c : Nat) < w1.forest.size :=
      hnext1.1.wellFormed.child_lt (hchildren ▸ hc)
    have hwalked : Ends (before.foldlM (walkChild visit limit) state1) w1 (fun _ => Next K w1)
        (Halts K P) := by
      refine ends_foldlM (fun rest _ w' => Next K w1 w' ∧ ∀ c ∈ rest, (c : Nat) < w1.forest.size)
        ⟨.refl hnext1.1, fun c hc => hlt c (by simp [hc])⟩ ?_ fun _ _ h => h.1
      rintro c rest state' w' ⟨hnext, hrest⟩
      have hc := (hrest c (.head _)).trans_le hnext.2
      refine (walkChild_safe hnext.1 fun _ => walkFrom_safe hnext.1 hc
        fun moment _ hsound hlt => hvisit _ _ _ hsound hlt).imp
        (fun _ _ h => ⟨hnext.trans h, fun c hc => hrest c (.tail _ hc)⟩)
    have hnext2 := (ends_iff.1 hwalked).1 state2 w2 hbefore
    exact ih hnext2.1 ((hlt child (by simp)).trans_le hnext2.2)

/-- A walk that comes to a visit that fails does so with the same error. -/
lemma Comes.walkFrom_eq_error {state : σ} {moment : Moment σ}
    (h : Comes visit limit id state w moment)
    (hfails : visit moment.id moment.state moment.workspace = .error e w') :
    walkFrom visit limit id state w = .error e w' := by
  induction h with
  | here => rw [walkFrom_succ, bind_of_error hfails]
  | @down limit id child state state1 state2 w w1 w2 before after moment hrun hchildren
      hbefore hparent _ ih =>
    rw [walkFrom_succ, bind_of_ok hrun]
    change (w1.forest.children id).foldlM (walkChild visit limit) state1 w1 = _
    rw [hchildren, foldlM_append, bind_of_ok hbefore, foldlM_cons, bind_of_error]
    change (if (w2.forest.parent child).isNone then pure state2 else walkFrom visit limit
      child state2) w2 = _
    rw [if_neg (by simpa using hparent), ih hfails]

/-! ## Walks of the whole tree -/

/-- A walk of the whole tree comes to a node, in the workspace that it finds there. -/
def Meets (visit : NodeId → Conversion Visit) (w : Workspace) (id : Nat) (w' : Workspace) : Prop :=
  Comes (fun id (_ : Unit) => return (← visit id, ())) (walkLimit w.forest) root () w ⟨id, (), w'⟩

variable {step : NodeId → Conversion Visit}

lemma walk_safe (hw : w.Sound K)
    (hstep : ∀ (id : Nat) (w' : Workspace), Meets step w id w' → w'.Sound K →
      id < w'.forest.size → Safe K P (step id) w') :
    Safe K P (walk root step) w := by
  refine ends_forest (walkFrom_safe hw hw.size_pos ?_)
  rintro ⟨id, ⟨⟩, w'⟩ hcomes hw' hid
  exact (hstep id w' hcomes hw' hid).bind fun _ _ hnext => safe_pure hnext.1

lemma Meets.walk_eq_error {id : Nat} {w1 : Workspace} (h : Meets step w id w1)
    (hfails : step id w1 = .error e w') : walk root step w = .error e w' :=
  Comes.walkFrom_eq_error h (bind_of_error hfails)

lemma Meets.sound {id : Nat} (h : Meets step w id w') (hw : w.Sound K)
    (hstep : ∀ (id : Nat) (w : Workspace), w.Sound K → id < w.forest.size →
      Safe K P (step id) w) : w'.Sound K ∧ id < w'.forest.size :=
  Comes.sound (fun id _ w hw hid => (hstep id w hw hid).bind fun _ _ hnext =>
    safe_pure hnext.1) h hw hw.size_pos

section Matches

variable {tag : Tag} {text : Option String} {convertNode : NodeId → Conversion Unit}

/-- The visit of a node of a kind, with nothing to be carried from visit to visit. -/
abbrev visitMatch (tag : Tag) (text : Option String) (convertNode : NodeId → Conversion Unit)
    (id : NodeId) (_ : Unit) : Conversion (Visit × Unit) :=
  return (← matchVisit tag text convertNode id, ())

lemma visitMatch_idle (hfits : w.forest.fits tag text id = false) :
    visitMatch tag text convertNode id () w = .ok (.descend, ()) w := by
  have hrun : matchVisit tag text convertNode id w =
      (if w.forest.fits tag text id then do convertNode id; return Visit.descend
        else return Visit.descend : Conversion Visit) w := rfl
  rw [if_neg (by simp [hfits])] at hrun
  exact bind_of_ok hrun

/-- A walk that converts the nodes of a kind passes over leaves of another kind. -/
lemma foldlM_idle {leaves : List NodeId}
    (h : ∀ x ∈ leaves, w.forest.fits tag text x = false ∧ w.forest.children x = []) :
    leaves.foldlM (walkChild (visitMatch tag text convertNode) (limit + 1)) () w = .ok () w := by
  induction leaves with
  | nil => rfl
  | cons x leaves ih =>
    obtain ⟨⟨hfits, hleaf⟩, h⟩ := forall_mem_cons.1 h
    have hwalk : walkFrom (visitMatch tag text convertNode) (limit + 1) x () w = .ok () w := by
      rw [walkFrom_succ, bind_of_ok (visitMatch_idle hfits)]
      refine (bind_of_ok (rfl : forest w = .ok w.forest w)).trans ?_
      rw [hleaf]
      rfl
    have hchild : walkChild (visitMatch tag text convertNode) (limit + 1) () x w = .ok () w := by
      refine (bind_of_ok (rfl : forest w = .ok w.forest w)).trans ?_
      split
      · rfl
      · exact hwalk
    rw [foldlM_cons, bind_of_ok hchild, ih h]

/-- A walk that converts the nodes of a kind comes to one of them. -/
def MeetsMatch (tag : Tag) (text : Option String) (convertNode : NodeId → Conversion Unit)
    (w : Workspace) (id : Nat) (w' : Workspace) : Prop :=
  Meets (matchVisit tag text convertNode) w id w' ∧ w'.forest.fits tag text id

/-- The way from a node to `target` leads from each node to the first child that has children or is
of the kind, and has no node of the kind before `target`. -/
def leadsTo (f : Forest) (tag : Tag) (text : Option String) (target : NodeId) :
    NodeId → List NodeId → Bool
  | id, [] => id == target
  | id, child :: way => !f.fits tag text id && (f.parent child).isSome &&
    (f.children id).find? (fun c => f.fits tag text c || !(f.children c).isEmpty) == some child &&
    leadsTo f tag text target child way

lemma comes_of_leadsTo :
    ∀ {way : List NodeId} {id : NodeId} {limit : Nat}, leadsTo w.forest tag text target id way →
      Comes (visitMatch tag text convertNode) (way.length + 1 + limit) id () w ⟨target, (), w⟩
  | [], id, limit, h => by
    rw [leadsTo, beq_iff_eq] at h
    rw [h, length_nil, Nat.add_comm]
    exact .here
  | child :: way, id, limit, h => by
    simp only [leadsTo, Bool.and_eq_true, beq_iff_eq, Bool.not_eq_true'] at h
    obtain ⟨⟨⟨hfits, hparent⟩, hfind⟩, hway⟩ := h
    obtain ⟨-, before, after, hchildren, hbefore⟩ := find?_eq_some_iff_append.1 hfind
    rw [length_cons, Nat.add_right_comm _ 1 limit]
    refine .down (visitMatch_idle hfits) hchildren ?_ (Option.isSome_iff_ne_none.1 hparent)
      (comes_of_leadsTo hway)
    rw [Nat.add_right_comm]
    exact foldlM_idle fun x hx => by simpa using hbefore x hx

lemma meetsMatch_of_leadsTo {way : List NodeId}
    (h : leadsTo w.forest tag text target root way) (hlimit : way.length < walkLimit w.forest)
    (hfits : w.forest.fits tag text target) : MeetsMatch tag text convertNode w target w := by
  refine ⟨?_, hfits⟩
  rw [Meets, ← Nat.add_sub_of_le hlimit]
  exact comes_of_leadsTo h

lemma MeetsMatch.sound {id : Nat} (h : MeetsMatch tag text convertNode w id w') (hw : w.Sound K)
    (hconvert : ∀ (id : Nat) (w : Workspace), w.Sound K → Safe K P (convertNode id) w) :
    w'.Sound K ∧ id < w'.forest.size :=
  h.1.sound hw fun id w1 hw1 _ => ends_forest (ends_ite
    (fun _ => (hconvert id w1 hw1).bind fun _ _ hnext => safe_pure hnext.1) fun _ => safe_pure hw1)

lemma forEachMatch_safe (hw : w.Sound K)
    (hconvert : ∀ (id : Nat) (w' : Workspace), MeetsMatch tag text convertNode w id w' →
      w'.Sound K → id < w'.forest.size → Safe K P (convertNode id) w') :
    Safe K P (forEachMatch tag text convertNode) w := by
  refine walk_safe hw fun id w' hmeets hw' hid => ?_
  refine ends_forest (ends_ite (fun hfits => ?_) fun _ => safe_pure hw')
  exact (hconvert id w' ⟨hmeets, hfits⟩ hw' hid).bind fun _ _ hnext => safe_pure hnext.1

/-- A node that cannot be converted makes the walk fail. -/
lemma MeetsMatch.eq_error {id : Nat} {w'' : Workspace} (h : MeetsMatch tag text convertNode w id w')
    (hfails : convertNode id w' = .error e w'') :
    forEachMatch tag text convertNode w = .error e w'' := by
  refine h.1.walk_eq_error ?_
  change (if w'.forest.fits tag text id then do convertNode id; return Visit.descend
    else return Visit.descend : Conversion Visit) w' = _
  rw [if_pos h.2, bind_of_error hfails]

lemma forEachMatch_eq_error {id : Nat} (hw : w.Sound K)
    (hconvert : ∀ (id : Nat) (w : Workspace), w.Sound K → Safe K True (convertNode id) w)
    (hmeets : MeetsMatch tag text convertNode w id w')
    (hfails : w'.Sound K → Fails K (convertNode id) w') :
    ∃ cause w'', forEachMatch tag text convertNode w = .error (.link cause) w'' := by
  obtain ⟨cause, w'', herror⟩ := (hfails (hmeets.sound hw hconvert).1).exists_error
  exact ⟨cause, w'', hmeets.eq_error herror⟩

end Matches

end SqlDialect.Conversion
