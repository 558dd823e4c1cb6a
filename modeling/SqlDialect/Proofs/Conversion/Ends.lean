import SqlDialect.Conversion.Construct
import SqlDialect.Proofs.Forest.Keys

/-!
# How a conversion ends

`Ends step w Q E` says of a step that starts at the workspace `w`: if it succeeds, its value and
the workspace after it satisfy `Q`, and if it fails, its error and the workspace it leaves behind
satisfy `E`.  Since the workspace survives an error, `E` is about it too.

A workspace is `Sound` if its forest is well-formed, its root has no parent and the notes point at
nodes.  `Halts K P` is what holds after a failure: the workspace is still sound, and the failure
was not one of the links unless `P`.  The keys of all attributes satisfy `K`; nothing is said here
about which keys these are.

The rules have the form that a proof needs when it follows a conversion line by line: what comes
next has to be shown in the workspace that a line leaves.
-/

namespace SqlDialect

variable {e : ConversionError} {p : Prop} {missing : String}

/-- All nodes that the notes mention are numbered below `bound`. -/
structure Notes.Within (notes : Notes) (bound : Nat) : Prop where
  declarations : ∀ d ∈ notes.declarations, ∀ x : Nat, x ∈ d.signature ++ d.value → x < bound
  tempTables : ∀ entry ∈ notes.tempTables.entries, (entry.2 : Nat) < bound

/-- The forest is well-formed with its root on top, all keys satisfy `K`, and the notes hold numbers
of nodes only. -/
structure Workspace.Sound (K : String → Prop) (w : Workspace) : Prop where
  wellFormed : w.forest.WellFormed
  size_pos : 0 < w.forest.size
  root_parent : w.forest.parent Forest.root = none
  keys : w.forest.KeysIn K
  notes : w.notes.Within w.forest.size

open Forest in
lemma sound_ofTree {K : String → Prop} {tree : SyntaxTree} (htree : tree.KeysIn K) :
    Workspace.Sound K { forest := ofTree tree } where
  wellFormed := wellFormed_ofTree tree
  size_pos := by
    rw [size_ofTree]
    exact one_le_size tree
  root_parent := parent_root_ofTree tree
  keys := keysIn_ofTree htree
  notes := ⟨by simp, by simp [Dict.empty]⟩

namespace Conversion

variable {α β : Type} {K : String → Prop} {P : Prop} {w w' : Workspace} {step : Conversion β}
  {next : β → Conversion α}
  {E : ConversionError → Workspace → Prop}

/-! ## Running a sequence -/

lemma bind_of_ok {b : β} (h : step w = .ok b w') : (step >>= next) w = next b w' := by
  change EStateM.bind step next w = _
  rw [EStateM.bind, h]

lemma bind_of_error (h : step w = .error e w') : (step >>= next) w = .error e w' := by
  change EStateM.bind step next w = _
  rw [EStateM.bind, h]

lemma forM_append {γ : Type} (items more : List γ) (step : γ → Conversion PUnit) :
    (items ++ more).forM step = (do items.forM step; more.forM step) :=
  List.forM_append

/-! ## The end of a step -/

/-- What holds at the end of a step: `Q` if it succeeds, `E` if it fails. -/
def Ends (step : Conversion α) (w : Workspace) (Q : α → Workspace → Prop)
    (E : ConversionError → Workspace → Prop) : Prop :=
  match step w with
  | .ok a w' => Q a w'
  | .error e w' => E e w'

/-- A failure leaves a sound workspace, and is no failure of the links unless `P`. -/
def Halts (K : String → Prop) (P : Prop) (e : ConversionError) (w : Workspace) : Prop :=
  w.Sound K ∧ ((∃ cause, e = .link cause) → P)

/-- A later workspace: it is sound and still has all nodes. -/
def Next (K : String → Prop) (w w' : Workspace) : Prop :=
  w'.Sound K ∧ w.forest.size ≤ w'.forest.size

/-- Started at `w`, the step leaves a sound workspace with no fewer nodes, whether it succeeds or
fails, and it fails because of the links only if `P`. -/
abbrev Safe (K : String → Prop) (P : Prop) (step : Conversion α) (w : Workspace) : Prop :=
  Ends step w (fun _ => Next K w) (Halts K P)

/-- Started at `w`, the step fails because of the links, and leaves a sound workspace. -/
abbrev Fails (K : String → Prop) (step : Conversion α) (w : Workspace) : Prop :=
  Ends step w (fun _ _ => False) fun e w' => w'.Sound K ∧ ∃ cause, e = .link cause

lemma Next.refl (hw : w.Sound K) : Next K w w := ⟨hw, le_rfl⟩

lemma Next.trans {w1 w2 : Workspace} (h : Next K w w1) (h' : Next K w1 w2) : Next K w w2 :=
  ⟨h'.1, h.2.trans h'.2⟩

/-! ## Rules -/

section

variable {Q : α → Workspace → Prop}

lemma Ends.mono {Q' : α → Workspace → Prop} {E' : ConversionError → Workspace → Prop}
    {step : Conversion α} (h : Ends step w Q E) (hQ : ∀ a w', Q a w' → Q' a w')
    (hE : ∀ e w', E e w' → E' e w') : Ends step w Q' E' := by
  rw [Ends] at h ⊢
  split <;> simp_all

lemma Ends.imp {Q' : α → Workspace → Prop} {step : Conversion α} (h : Ends step w Q E)
    (hQ : ∀ a w', Q a w' → Q' a w') : Ends step w Q' E :=
  h.mono hQ fun _ _ he => he

lemma ends_iff {step : Conversion α} :
    Ends step w Q E ↔ (∀ a w', step w = .ok a w' → Q a w') ∧
      ∀ e w', step w = .error e w' → E e w' := by
  rw [Ends]
  cases step w <;> simp

lemma ends_of_ok {step : Conversion α} {a : α} (h : step w = .ok a w') (hQ : Q a w') :
    Ends step w Q E := by
  rw [Ends, h]
  exact hQ

lemma ends_pure {a : α} (h : Q a w) : Ends (pure a) w Q E := h

lemma ends_throw (h : E e w) : Ends (throw e) w Q E := h

lemma ends_bind
    (h : Ends step w (fun b w' => Ends (next b) w' Q E) E) : Ends (step >>= next) w Q E := by
  rw [Ends] at h ⊢
  split at h
  · rename_i b w' hstep
    rw [bind_of_ok hstep]
    exact h
  · rename_i e w' hstep
    rw [bind_of_error hstep]
    exact h

/-- The rule for what comes next, where the way the first step went matters. -/
lemma Ends.bind {Q' : β → Workspace → Prop} (h : Ends step w Q' E)
    (hnext : ∀ b w', step w = .ok b w' → Q' b w' → Ends (next b) w' Q E) :
    Ends (step >>= next) w Q E := by
  refine ends_bind (ends_iff.2 ⟨fun b w' hstep => ?_, (ends_iff.1 h).2⟩)
  exact hnext b w' hstep ((ends_iff.1 h).1 b w' hstep)

/-- The run of the step may be taken along. -/
lemma Ends.run {step : Conversion α} (h : Ends step w Q E) :
    Ends step w (fun a w' => step w = .ok a w' ∧ Q a w') E :=
  ends_iff.2 ⟨fun a w' hstep => ⟨hstep, (ends_iff.1 h).1 a w' hstep⟩, (ends_iff.1 h).2⟩

lemma Fails.exists_error {step : Conversion α} (h : Fails K step w) :
    ∃ cause w', step w = .error (.link cause) w' := by
  obtain ⟨hok, herror⟩ := ends_iff.1 h
  cases hstep : step w with
  | ok a w' => exact (hok a w' hstep).elim
  | error e w' =>
    obtain ⟨-, cause, rfl⟩ := herror e w' hstep
    exact ⟨cause, w', rfl⟩

lemma Fails.bind (h : Fails K step w) : Fails K (step >>= next) w :=
  ends_bind (h.imp (fun _ _ hfalse => hfalse.elim))

lemma safe_pure {a : α} (hw : w.Sound K) : Safe K P (pure a) w := ends_pure (.refl hw)

lemma Safe.bind (h : Safe K P step w)
    (hnext : ∀ b w', Next K w w' → Safe K P (next b) w') : Safe K P (step >>= next) w :=
  ends_bind (h.imp (fun b w' hw' => (hnext b w' hw').imp (fun _ _ hw'' => hw'.trans hw'')))

lemma ends_edit {change : Forest → Forest} {Q : PUnit → Workspace → Prop}
    (h : Q () { w with forest := change w.forest }) : Ends (edit change) w Q E := h

lemma ends_note {change : Notes → Notes} {Q : PUnit → Workspace → Prop}
    (h : Q () { w with notes := change w.notes }) : Ends (note change) w Q E := h

lemma ends_grow {add : Forest → NodeId × Forest} {Q : NodeId → Workspace → Prop}
    (h : Q (add w.forest).1 { w with forest := (add w.forest).2 }) : Ends (grow add) w Q E := h

lemma ends_forest {next : Forest → Conversion α} (h : Ends (next w.forest) w Q E) :
    Ends (forest >>= next) w Q E := h

lemma ends_relink {change : Forest → Except LinkError Forest} {g : Forest}
    {Q : PUnit → Workspace → Prop} (hchange : change w.forest = .ok g)
    (h : Q () { w with forest := g }) : Ends (relink change) w Q E := by
  refine ends_forest ?_
  rw [hchange]
  exact h

lemma ends_relink_error {change : Forest → Except LinkError Forest} {cause : LinkError}
    {Q : PUnit → Workspace → Prop} (hchange : change w.forest = .error cause)
    (h : E (.link cause) w) : Ends (relink change) w Q E := by
  refine ends_forest ?_
  rw [hchange]
  exact h

lemma ends_notes {next : Notes → Conversion α} (h : Ends (next w.notes) w Q E) :
    Ends (notes >>= next) w Q E := h

/-- A part that is missing is no failure of the links. -/
lemma halts_shape (hw : w.Sound K) : Halts K P (.shape missing) w :=
  ⟨hw, fun ⟨_, hcause⟩ => by cases hcause⟩

lemma need_ends {part : Option α} (hw : w.Sound K)
    (h : ∀ a, part = some a → Q a w) : Ends (need missing part) w Q (Halts K P) := by
  cases part with
  | some a => exact h a rfl
  | none => exact halts_shape hw

/-- A part that is there. -/
lemma ends_need_some {part : Option β} {b : β}
    (hpart : part = some b) (h : Ends (next b) w Q E) : Ends
    (need missing part >>= next) w Q E := by
  subst hpart
  exact h

/-- A part that may be missing. -/
lemma ends_need_or {part : Option β} (hnone : part = none → E (.shape missing) w)
    (hsome : ∀ b, part = some b → Ends (next b) w Q E) : Ends
    (need missing part >>= next) w Q E := by
  cases part with
  | none => exact hnone rfl
  | some b => exact hsome b rfl

lemma ends_need {part : Option β} (hw : w.Sound K)
    (h : ∀ b, part = some b → Ends (next b) w Q (Halts K P)) :
    Ends (need missing part >>= next) w Q (Halts K P) :=
  ends_bind (need_ends hw h)

lemma discard_eq (step : Conversion β) (w : Workspace) :
    discard step w =
      match step w with
      | .ok _ w' => .ok PUnit.unit w'
      | .error e w' => .error e w' := by
  change EStateM.map (fun _ => PUnit.unit) step w = _
  rw [EStateM.map]
  cases step w <;> rfl

lemma ends_discard {Q : PUnit → Workspace → Prop}
    (h : Ends step w (fun _ w' => Q () w') E) : Ends (discard step) w Q E := by
  rw [Ends] at h
  rw [Ends, discard_eq]
  split at h <;> simp_all

-- From here on a step is taken apart by the rules only.
attribute [irreducible] Ends

lemma ends_ite [Decidable p] {step other : Conversion α}
    (hstep : p → Ends step w Q E) (hother : ¬ p → Ends other w Q E) :
    Ends (if p then step else other) w Q E := by
  by_cases hp : p
  · rw [if_pos hp]
    exact hstep hp
  · rw [if_neg hp]
    exact hother hp

/-- A step that may be left out; what follows relies on `R` only. -/
lemma ends_optional [Decidable p] {step : Conversion PUnit} {next : PUnit → Conversion α}
    {R : Workspace → Prop} (hstep : p → Ends step w (fun _ => R) E) (hskip : ¬ p → R w)
    (hnext : ∀ w', R w' → Ends (next ()) w' Q E) :
    Ends (if p then step >>= next else next ()) w Q E :=
  ends_ite (fun hp => ends_bind ((hstep hp).imp (fun _ => hnext)))
    fun hp => hnext w (hskip hp)

/-- A choice between two steps; what follows relies on `R` only. -/
lemma ends_choice [Decidable p] {step other : Conversion β}
    {R : β → Workspace → Prop} (hstep : p → Ends step w R E) (hother : ¬ p → Ends other w R E)
    (hnext : ∀ b w', R b w' → Ends (next b) w' Q E) :
    Ends (if p then step >>= next else other >>= next) w Q E :=
  ends_ite (fun hp => ends_bind ((hstep hp).imp hnext))
    fun hp => ends_bind ((hother hp).imp hnext)

/-- What an item of a list may rely on is said by `I`, together with what is still to come. -/
lemma ends_forM {γ : Type} {Q : PUnit → Workspace → Prop} {step : γ → Conversion PUnit}
    (I : List γ → Workspace → Prop) :
    ∀ {items : List γ} {w : Workspace}, I items w →
      (∀ item rest w, I (item :: rest) w → Ends (step item) w (fun _ w' => I rest w') E) →
      (∀ w', I [] w' → Q () w') → Ends (items.forM step) w Q E
  | [], w, hI, _, hQ => ends_pure (hQ w hI)
  | item :: rest, w, hI, hstep, hQ => by
    exact ends_bind ((hstep item rest w hI).imp
      (fun _ w' hI' => ends_forM I hI' hstep hQ))

lemma ends_foldlM {γ : Type} {Q : β → Workspace → Prop} {step : β → γ → Conversion β}
    (I : List γ → β → Workspace → Prop) :
    ∀ {items : List γ} {b : β} {w : Workspace}, I items b w →
      (∀ item rest b w, I (item :: rest) b w → Ends (step b item) w (I rest) E) →
      (∀ b w', I [] b w' → Q b w') → Ends (items.foldlM step b) w Q E
  | [], b, w, hI, _, hQ => ends_pure (hQ b w hI)
  | item :: rest, b, w, hI, hstep, hQ => by
    rw [List.foldlM_cons]
    exact ends_bind ((hstep item rest b w hI).imp
      (fun _ w' hI' => ends_foldlM I hI' hstep hQ))

/-- A list whose items only have to find a sound workspace with nodes that were there before. -/
lemma ends_forM_next {γ : Type} {Q : PUnit → Workspace → Prop} {step : γ → Conversion PUnit}
    {items : List γ} (hw : w.Sound K)
    (hstep : ∀ item ∈ items, ∀ w', Next K w w' → Ends (step item) w' (fun _ => Next K w') E)
    (hQ : ∀ w', Next K w w' → Q () w') : Ends (items.forM step) w Q E := by
  refine ends_forM (fun rest w' => (∀ item ∈ rest, item ∈ items) ∧ Next K w w')
    ⟨fun _ h => h, Next.refl hw⟩ ?_ fun w' h => hQ w' h.2
  rintro item rest w' ⟨hmem, hnext⟩
  refine (hstep item (hmem item (.head _)) w' hnext).imp
    (fun _ w'' h => ⟨fun i hi => hmem i (.tail _ hi), hnext.trans h⟩)

end

end Conversion

end SqlDialect
