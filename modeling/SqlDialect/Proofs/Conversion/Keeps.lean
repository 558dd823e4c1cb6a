import SqlDialect.Proofs.Conversion.Walk

/-!
# What every step keeps

Of a change of links, and of a new node, it is often enough to know what becomes of the labels.  A
relation between workspaces is `Lax` with regard to a kind of nodes if it does not see links, and
new nodes only if they are of the kind.  A step `Keeps` the relation if it leads, wherever it starts
and if it succeeds, to a workspace that is in the relation to the first.  The rules for the steps of
a conversion are instances, so that they are found by following the text of the conversion.
-/

namespace SqlDialect

namespace Forest

variable {f g : Forest}

/-- The nodes are as many in both forests, and have the same kinds and texts. -/
structure SameLabels (f g : Forest) : Prop where
  size_eq : g.size = f.size
  tag_eq : ∀ id : Nat, g.tag id = f.tag id
  text_eq : ∀ id : Nat, g.text id = f.text id

lemma SameLabels.refl (f : Forest) : SameLabels f f := ⟨rfl, fun _ => rfl, fun _ => rfl⟩

lemma SameLabels.trans {h : Forest} (hfg : SameLabels f g) (hgh : SameLabels g h) :
    SameLabels f h :=
  ⟨hgh.size_eq.trans hfg.size_eq, fun id => (hgh.tag_eq id).trans (hfg.tag_eq id),
    fun id => (hgh.text_eq id).trans (hfg.text_eq id)⟩

lemma sameLabels_update {change : Node → Node} (htag : ∀ n, (change n).tag = n.tag)
    (htext : ∀ n, (change n).text = n.text) (id : Nat) : SameLabels f (f.update id change) :=
  ⟨size_update f id change, field_update Node.tag htag id, field_update Node.text htext id⟩

lemma sameLabels_place (f : Forest) (parent child : Nat) (arrange : List NodeId → List NodeId) :
    SameLabels f (f.place parent child arrange) := by
  rw [place]
  refine (sameLabels_update ?_ ?_ child).trans (sameLabels_update ?_ ?_ parent) <;>
    exact fun _ => rfl

lemma sameLabels_addChild {parent child : Nat} (h : f.addChild parent child = .ok g) :
    SameLabels f g := by
  rw [(addChild_eq_ok h).2]
  exact sameLabels_place f parent child _

lemma sameLabels_insertAt {parent child mark : Nat}
    {arrange : List NodeId → List NodeId → List NodeId}
    (h : f.insertAt parent child mark arrange = .ok g) : SameLabels f g := by
  obtain ⟨-, before, after, -, rfl⟩ := insertAt_eq_ok h
  exact sameLabels_place f parent child _

lemma sameLabels_removeChild {parent child : Nat} (h : f.removeChild parent child = .ok g) :
    SameLabels f g := by
  rw [removeChild] at h
  split at h
  · obtain rfl := Except.ok.inj h
    refine (sameLabels_update ?_ ?_ parent).trans (sameLabels_update ?_ ?_ child) <;>
      exact fun _ => rfl
  · cases h

lemma sameLabels_detach (f : Forest) (id : Nat) : SameLabels f (f.detach id) := by
  rw [detach]
  split
  · refine (sameLabels_update ?_ ?_ _).trans (sameLabels_update ?_ ?_ id) <;> exact fun _ => rfl
  · exact .refl f

lemma tag_of_size_le {id : Nat} (hid : f.size ≤ id) : f.tag id = .root := by
  rw [tag, node, Array.getD_eq_getD_getElem?, Array.getElem?_eq_none hid]
  rfl

end Forest

namespace Conversion

open Forest

variable {α β γ σ : Type} {w : Workspace} {tag : Tag} {text : String}

/-- A relation between workspaces that sees no links, and new nodes only if they are of a kind. -/
class Lax (R : Workspace → Workspace → Prop) (kind : outParam Tag) : Prop where
  trans {w w₁ w₂ : Workspace} : R w w₁ → R w₁ w₂ → R w w₂
  same {w : Workspace} {g : Forest} : SameLabels w.forest g → R w { w with forest := g }
  grown {w : Workspace} {tag : Tag} (text : String) :
    tag ≠ kind → R w { w with forest := (w.forest.create tag text).2 }

/-- Wherever it starts, the step leads to a workspace in the relation if it succeeds. -/
class Keeps (R : Workspace → Workspace → Prop) (step : Conversion α) : Prop where
  ends : ∀ w, Ends step w (fun _ => R w) fun _ _ => True

/-- Whether a kind is another one than `kind`, for the kinds that relations are lax about. It is
reducible so that instances can depend on it. -/
@[reducible] def isOther (kind tag : Tag) : Bool :=
  match kind, tag with
  | .commentMultiLine, .commentMultiLine => false
  | .commentMultiLine, _ => true
  | .otherNode, .otherNode => false
  | .otherNode, _ => true
  | .functionKeyword, .functionKeyword => false
  | .functionKeyword, _ => true
  | _, _ => false

instance : Fact (true = true) := ⟨rfl⟩

lemma ne_of_isOther {kind : Tag} [h : Fact (isOther kind tag = true)] : tag ≠ kind := by
  rintro rfl
  obtain ⟨h⟩ := h
  unfold isOther at h
  split at h <;> simp_all

/-- A part that is missing is a failure, of which nothing has to be shown. -/
lemma ends_part {missing : String} {part : Option β} {next : β → Conversion α}
    {Q : α → Workspace → Prop} (h : ∀ b, part = some b → Ends (next b) w Q fun _ _ => True) :
    Ends (need missing part >>= next) w Q fun _ _ => True := by
  cases part with
  | some b => exact h b rfl
  | none => exact ends_throw trivial

variable {R : Workspace → Workspace → Prop} {kind : Tag} [hR : Lax R kind]
include hR

lemma Lax.refl (w : Workspace) : R w w := hR.same (.refl w.forest)

omit hR in
/-- No notes are taken. -/
abbrev SameNotes (w w' : Workspace) : Prop := w'.notes = w.notes

omit hR in
instance : Lax SameNotes .commentMultiLine :=
  ⟨fun h h' => h'.trans h, fun _ => rfl, fun _ _ => rfl⟩

/-- A step of which more is known where it starts, and then one that relies on a node. -/
lemma ends_then {step : Conversion β} {next : β → Conversion α}
    (h : Ends step w (fun _ => R w) fun _ _ => True)
    (hnext : ∀ b w', R w w' → Ends (next b) w' (fun _ => R w') fun _ _ => True) :
    Ends (step >>= next) w (fun _ => R w) fun _ _ => True :=
  ends_bind (h.imp fun b w1 h1 => (hnext b w1 h1).imp fun _ _ h2 => hR.trans h1 h2)

namespace Keeps

instance {a : α} : Keeps R (pure a) := ⟨fun w => ends_pure (Lax.refl w)⟩

omit hR in
instance {e : ConversionError} : Keeps R (throw e : Conversion α) := ⟨fun _ => ends_throw trivial⟩

instance : Keeps R forest := ⟨fun w => ends_forest (ends_pure (Lax.refl w))⟩

instance : Keeps R notes := ⟨fun w => ends_notes (ends_pure (Lax.refl w))⟩

instance {missing : String} {part : Option β} : Keeps R (need missing part) := by
  cases part <;> rw [need] <;> infer_instance

lemma after {step : Conversion β} {next : β → Conversion α}
    (h : Ends step w (fun _ => R w) fun _ _ => True) [hnext : ∀ b, Keeps R (next b)] :
    Ends (step >>= next) w (fun _ => R w) fun _ _ => True :=
  ends_then h fun b w1 _ => (hnext b).ends w1

instance bind {step : Conversion β} {next : β → Conversion α} [h : Keeps R step]
    [∀ b, Keeps R (next b)] : Keeps R (step >>= next) := ⟨fun w => after (h.ends w)⟩

/-- What follows a step may have to be looked at. -/
lemma next {step : Conversion β} {next : β → Conversion α} [Keeps R step]
    (h : ∀ b, Keeps R (next b)) : Keeps R (step >>= next) := bind

omit hR in
instance {p : Prop} [Decidable p] {step other : Conversion α} [Keeps R step] [Keeps R other] :
    Keeps R (if p then step else other) := by
  split <;> infer_instance

omit hR in
instance {step : Conversion β} [h : Keeps R step] : Keeps R (discard step) :=
  ⟨fun w => ends_discard (h.ends w)⟩

instance {step : γ → Conversion PUnit} {items : List γ} [h : ∀ item, Keeps R (step item)] :
    Keeps R (items.forM step) :=
  ⟨fun w => ends_forM (fun _ => R w) (Lax.refl w)
    (fun item _ w1 h1 => ((h item).ends w1).imp fun _ _ h2 => hR.trans h1 h2) fun _ h => h⟩

instance {step : γ → Conversion PUnit} {item : Option γ} [h : ∀ item, Keeps R (step item)] :
    Keeps R (item.forM step) := by
  cases item with
  | none => exact inferInstanceAs (Keeps R (pure ()))
  | some item => exact h item

instance {step : β → γ → Conversion β} {items : List γ} {b : β}
    [h : ∀ b item, Keeps R (step b item)] : Keeps R (items.foldlM step b) :=
  ⟨fun w => ends_foldlM (fun _ _ => R w) (Lax.refl w)
    (fun item _ b w1 h1 => ((h b item).ends w1).imp fun _ _ h2 => hR.trans h1 h2) fun _ _ h => h⟩

/-! ### Walks -/

section Walks

variable {id : NodeId}

instance {visit : NodeId → σ → Conversion (Visit × σ)} {limit : Nat} {state : σ}
    [∀ id state, Keeps R (visit id state)] : Keeps R (walkFrom visit limit id state) := by
  induction limit generalizing id state with
  | zero => exact inferInstanceAs (Keeps R (throw _))
  | succ limit ih =>
    have hchild (state : σ) (child : NodeId) : Keeps R (walkChild visit limit state child) := by
      unfold walkChild
      infer_instance
    rw [walkFrom_succ]
    refine next fun ⟨decision, state⟩ => ?_
    cases decision with
    | skip => exact inferInstanceAs (Keeps R (pure state))
    | descend => exact inferInstanceAs (Keeps R (forest >>= fun f => (f.children id).foldlM _ _))

instance {visit : NodeId → σ → Conversion (Visit × σ)} {state : σ}
    [∀ id state, Keeps R (visit id state)] : Keeps R (walkWith id state visit) := bind

lemma walk {visit : NodeId → Conversion Visit} (h : ∀ id, Keeps R (visit id)) :
    Keeps R (walk id visit) :=
  inferInstanceAs (Keeps R (walkWith _ _ _))

instance {visit : NodeId → Conversion Visit} [h : ∀ id, Keeps R (visit id)] :
    Keeps R (Conversion.walk id visit) := walk h

variable {text : Option String} {convertNode : NodeId → Conversion Unit}

/-- A walk that converts nodes of a kind keeps what each conversion keeps; that it is of the kind is
known of a node when its conversion starts. -/
lemma forEachMatch (h : ∀ id w, w.forest.fits tag text id = true →
      Ends (convertNode id) w (fun _ => R w) fun _ _ => True) :
    Keeps R (forEachMatch tag text convertNode) := by
  have hvisit (id : NodeId) : Keeps R (do
      if (← forest).fits tag text id then convertNode id
      return Visit.descend) := ⟨fun w => ends_forest (ends_ite (fun hfits => after (h id w hfits))
    fun _ => ends_pure (Lax.refl w))⟩
  exact walk hvisit

instance [h : ∀ id, Keeps R (convertNode id)] :
    Keeps R (Conversion.forEachMatch tag text convertNode) :=
  forEachMatch fun id w _ => (h id).ends w

instance [∀ id, Keeps R (convertNode id)] : Keeps R (forEach tag convertNode) :=
  inferInstanceAs (Keeps R (Conversion.forEachMatch _ _ _))

instance {word : String} [∀ id, Keeps R (convertNode id)] :
    Keeps R (forEachKeyword word convertNode) :=
  inferInstanceAs (Keeps R (Conversion.forEachMatch _ _ _))

end Walks

/-! ### Links -/

section Links

variable {parent child id mark : NodeId} {ids : List NodeId}

lemma edit {change : Forest → Forest} (h : ∀ f, SameLabels f (change f)) : Keeps R (edit change) :=
  ⟨fun _ => ends_edit (hR.same (h _))⟩

lemma relink {change : Forest → Except LinkError Forest}
    (h : ∀ f g, change f = .ok g → SameLabels f g) : Keeps R (relink change) := ⟨fun w => by
  cases hchange : change w.forest with
  | ok g => exact ends_relink hchange (hR.same (h _ _ hchange))
  | error cause => exact ends_relink_error hchange trivial⟩

instance : Keeps R (addChild parent child) := relink fun _ _ => sameLabels_addChild

instance : Keeps R (insertBefore parent child mark) := relink fun _ _ => sameLabels_insertAt

instance : Keeps R (insertAfter parent child mark) := relink fun _ _ => sameLabels_insertAt

instance : Keeps R (removeChild parent child) := relink fun _ _ => sameLabels_removeChild

instance : Keeps R (detach id) := edit fun f => sameLabels_detach f id

instance {key value : String} : Keeps R (setAttribute id key value) := by
  refine edit fun f => sameLabels_update ?_ ?_ id <;> exact fun _ => rfl

instance : Keeps R (moveTo parent id) := bind

instance : Keeps R (moveBefore parent id mark) := bind

instance : Keeps R (moveAfter parent id mark) := bind

instance : Keeps R (moveAllTo parent ids) := inferInstanceAs (Keeps R (ids.forM _))

instance : Keeps R (moveAllAfter parent mark ids) := inferInstanceAs (Keeps R (ids.foldlM _ _))

end Links

/-! ### New nodes -/

section Grown

variable {parent mark : NodeId} {leaves : List (Tag × String)}
    [hother : Fact (isOther kind tag = true)]
include hother

instance : Keeps R (create tag text) := ⟨fun _ => ends_grow (hR.grown text ne_of_isOther)⟩

instance : Keeps R (append parent tag text) := ⟨fun w => by
  have hplaced : SameLabels (w.forest.create tag text).2 (w.forest.append parent tag text).2 :=
    sameLabels_place _ parent w.forest.size (· ++ [w.forest.size])
  exact ends_grow (hR.trans (hR.grown text ne_of_isOther) (hR.same hplaced))⟩

instance : Keeps R (appendLeaf parent tag text) := inferInstanceAs (Keeps R (discard _))

instance : Keeps R (insertNewBefore parent tag text mark) := bind

instance : Keeps R (insertNewAfter parent tag text mark) := bind

omit hother in
instance : Keeps R (appendLeaves parent []) := inferInstanceAs (Keeps R (pure _))

instance [Keeps R (appendLeaves parent leaves)] :
    Keeps R (appendLeaves parent ((tag, text) :: leaves)) :=
  inferInstanceAs (Keeps R (discard _ >>= fun _ => appendLeaves parent leaves))

omit hother in
instance : Keeps R (insertLeavesAfter parent mark []) := inferInstanceAs (Keeps R (pure _))

instance [∀ mark, Keeps R (insertLeavesAfter parent mark leaves)] :
    Keeps R (insertLeavesAfter parent mark ((tag, text) :: leaves)) := by
  rw [insertLeavesAfter, List.foldlM_cons]
  exact inferInstanceAs (Keeps R (_ >>= fun mark => insertLeavesAfter parent mark leaves))

end Grown

end Keeps

end Conversion

end SqlDialect
