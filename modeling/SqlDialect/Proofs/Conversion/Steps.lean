import SqlDialect.Proofs.Conversion.Ends
import SqlDialect.Proofs.Forest.Lookup

/-!
# The steps of a conversion

What each step on the links and labels of a forest does, in the form that a proof about a pass uses
it.  A pass fixes, in the forest `f` that it finds, the set `S` of nodes that it may move; `At K S f
w` says that the workspace `w` is sound and differs from `f` in no more than that.  Each rule
below asks for what makes its step succeed and hands on what holds afterwards, so none of them says
anything about errors.
-/

namespace SqlDialect

open Forest List

variable {K : String → Prop} {S : Nat → Prop} {f : Forest} {w : Workspace}

namespace Workspace.Sound

variable {g : Forest}

lemma relinked {ids : List Nat} {v : Option Nat} (hw : w.Sound K) (hg : g.WellFormed)
    (hwg : Relinked w.forest g ids v) (hroot : root ∉ ids ∨ v = none) :
    Workspace.Sound K { w with forest := g } where
  wellFormed := hg
  size_pos := hwg.size_eq ▸ hw.size_pos
  root_parent := by
    rw [hwg.parent_eq]
    split
    · rename_i hmem
      exact hroot.resolve_left fun h => h hmem
    · exact hw.root_parent
  keys := hw.keys.relinked hwg
  notes := hwg.size_eq ▸ hw.notes

/-- A forest that has grown in place of the old one. -/
lemma grown (hw : w.Sound K) (hg : g.WellFormed) (hwg : Extends w.forest g) (hkeys : g.KeysIn K) :
    Workspace.Sound K { w with forest := g } where
  wellFormed := hg
  size_pos := hw.size_pos.trans_le hwg.size_le
  root_parent := (hwg.parent_eq root hw.size_pos).trans hw.root_parent
  keys := hkeys
  notes :=
    ⟨fun d hd x hx => (hw.notes.declarations d hd x hx).trans_le hwg.size_le,
      fun entry hmem => (hw.notes.tempTables entry hmem).trans_le hwg.size_le⟩

/-- Labels have no part in the links. -/
lemma relabelled (hw : w.Sound K) (hwg : SameLinks w.forest g) (hkeys : g.KeysIn K) :
    Workspace.Sound K { w with forest := g } where
  wellFormed := hwg.wellFormed hw.wellFormed
  size_pos := hwg.size_eq ▸ hw.size_pos
  root_parent := (hwg.parent_eq root).trans hw.root_parent
  keys := hkeys
  notes := hwg.size_eq ▸ hw.notes

lemma withNotes {notes : Notes} (hw : w.Sound K) (hnotes : notes.Within w.forest.size) :
    Workspace.Sound K { w with notes } :=
  ⟨hw.wellFormed, hw.size_pos, hw.root_parent, hw.keys, hnotes⟩

end Workspace.Sound

namespace Conversion

variable {E : ConversionError → Workspace → Prop}

/-- The workspace is sound and, compared with the forest `f`, no node has got another parent but
some in `S`, and new ones. -/
structure At (K : String → Prop) (S : Nat → Prop) (f : Forest) (w : Workspace) : Prop where
  sound : w.Sound K
  since : Since S f w.forest
  start : f.WellFormed
  start_pos : 0 < f.size
  movable : ∀ c, S c → c < f.size ∧ c ≠ root

namespace At

variable {c p : Nat}

lemma of_sound (hw : w.Sound K) (hS : ∀ c, S c → ∃ p, w.forest.parent c = some p) :
    At K S w.forest w where
  sound := hw
  since := .refl S w.forest
  start := hw.wellFormed
  start_pos := hw.size_pos
  movable c hc := by
    obtain ⟨p, hp⟩ := hS c hc
    refine ⟨lt_size_of_parent hp, fun hroot => ?_⟩
    rw [hroot, hw.root_parent] at hp
    cases hp

/-- Where no node is going to be moved. -/
lemma unmoved (hw : w.Sound K) : At K (fun _ => False) w.forest w :=
  of_sound hw fun _ hc => hc.elim

lemma of_loose (hw : w.Sound K) (a : Nat) : At K (w.forest.Loose a) w.forest w :=
  of_sound hw fun _ hc => hc.1

lemma of_below (hw : w.Sound K) (a : Nat) : At K (w.forest.Below · a) w.forest w :=
  of_sound hw fun _ hc => (below_iff.1 hc).imp fun _ hp => hp.1

lemma of_children (hw : w.Sound K) (a : Nat) : At K (w.forest.parent · = some a) w.forest w :=
  of_sound hw fun _ hc => ⟨a, hc⟩

variable (h : At K S f w)
include h

lemma wellFormed : w.forest.WellFormed := h.sound.wellFormed

lemma lt_size (hp : p < f.size) : p < w.forest.size := hp.trans_le h.since.size_le

lemma lt_size_of (hc : S c) : c < w.forest.size := h.lt_size (h.movable c hc).1

lemma clear (hclear : Clear S f p) : Clear S w.forest p :=
  h.since.clear h.start hclear

lemma clear_up (hclear : Clear S f c) (hc : f.parent c = some p) : Clear S w.forest p :=
  h.clear (hclear.up h.start hc)

/-- A node that may not be moved still has its parent. -/
lemma parent_eq (hc : ¬ S c) (hlt : c < f.size) : w.forest.parent c = f.parent c :=
  h.since.parent_eq c hlt hc

lemma parent_of_clear (hclear : Clear S f c) (hc : f.parent c = some p) :
    w.forest.parent c = some p :=
  (h.parent_eq hclear.not_mem hclear.lt_size).trans hc

lemma next {w0 : Workspace} (hf : f = w0.forest) : Next K w0 w :=
  ⟨h.sound, hf ▸ h.since.size_le⟩

end At

/-! ## Labels -/

section Labels

variable {Q : PUnit → Workspace → Prop}

lemma setTag_at (h : At K S f w) {id : Nat} {tag : Tag}
    (hQ : ∀ w', At K S f w' → Retagged w.forest w'.forest id → Q () w') :
    Ends (setTag id tag) w Q E := by
  have hlinks := sameLinks_setTag w.forest id tag
  have htag : Retagged w.forest (w.forest.setTag id tag) id :=
    ⟨hlinks.size_eq, hlinks.parent_eq, fun x hx => tag_setTag_of_ne w.forest tag hx⟩
  exact ends_edit (hQ _ ⟨h.sound.relabelled hlinks (h.sound.keys.setTag id tag),
    h.since.retagged htag, h.start, h.start_pos, h.movable⟩ htag)

lemma setText_at (h : At K S f w) {id : Nat} {text : String}
    (hQ : ∀ w', At K S f w' → Reworded w.forest w'.forest → Q () w') :
    Ends (setText id text) w Q E := by
  have hlinks := sameLinks_setText w.forest id text
  have htext : Reworded w.forest (w.forest.setText id text) :=
    ⟨hlinks.size_eq, hlinks.parent_eq, tag_setText w.forest id text⟩
  exact ends_edit (hQ _ ⟨h.sound.relabelled hlinks (h.sound.keys.setText id text),
    h.since.extend htext.extends, h.start, h.start_pos, h.movable⟩ htext)

lemma setAttribute_at (h : At K S f w) {id : Nat} {key value : String} (hkey : K key)
    (hQ : ∀ w', At K S f w' → Reworded w.forest w'.forest → Q () w') :
    Ends (setAttribute id key value) w Q E := by
  have hlinks := sameLinks_setAttribute w.forest id key value
  have hattribute : Reworded w.forest (w.forest.setAttribute id key value) :=
    ⟨hlinks.size_eq, hlinks.parent_eq, fun x => field_update Node.tag (by exact fun _ => rfl) id x⟩
  exact ends_edit (hQ _ ⟨h.sound.relabelled hlinks (h.sound.keys.setAttribute id value hkey),
    h.since.extend hattribute.extends, h.start, h.start_pos, h.movable⟩ hattribute)

/-- Notes that hold numbers of nodes only may be taken at any time. -/
lemma note_at (h : At K S f w) {change : Notes → Notes}
    (hnotes : (change w.notes).Within w.forest.size)
    (hQ : ∀ w', At K S f w' → w'.forest = w.forest → Q () w') : Ends (note change) w Q E :=
  ends_note (hQ _ ⟨h.sound.withNotes hnotes, h.since, h.start, h.start_pos, h.movable⟩ rfl)

section

variable (h : At K S f w) (hQ : ∀ w', At K S f w' → w'.forest = w.forest → Q () w')
include h hQ

lemma warn_at : Ends warn w Q E :=
  note_at h ⟨h.sound.notes.declarations, h.sound.notes.tempTables⟩ hQ

lemma noteArray_at {name : String} : Ends (noteArray name) w Q E :=
  note_at h ⟨h.sound.notes.declarations, h.sound.notes.tempTables⟩ hQ

end

end Labels

/-! ## New nodes -/

lemma At.grown {g : Forest} (h : At K S f w) (hg : g.WellFormed) (hwg : Extends w.forest g)
    (hkeys : g.KeysIn K) : At K S f { w with forest := g } :=
  ⟨h.sound.grown hg hwg hkeys, h.since.extend hwg, h.start, h.start_pos, h.movable⟩

lemma created_create (f : Forest) (tag : Tag) (text : String) :
    Created f (f.create tag text).2 f.size where
  id_eq := rfl
  size_eq := size_create f tag text
  parent_eq := parent_create f tag text
  tag_eq x hx := by rw [tag_create, if_neg (by omega)]

lemma create_at (h : At K S f w) {tag : Tag} {text : String} {Q : NodeId → Workspace → Prop}
    (hQ : ∀ (n : Nat) w', At K S f w' → Created w.forest w'.forest n → Q n w') :
    Ends (create tag text) w Q E := by
  have hnew := created_create w.forest tag text
  exact ends_grow (hQ w.forest.size _ (h.grown (h.wellFormed.create tag text) hnew.extends
    (h.sound.keys.create tag text)) hnew)

/-- To put a node that has just been made at its place is to let it sprout there. -/
lemma sprouted_of_relinked {f g : Forest} {p : Nat} {tag : Tag} {text : String}
    (hg : Relinked (f.create tag text).2 g [f.size] (some p)) : Sprouted f g f.size p tag where
  id_eq := rfl
  size_eq := by rw [hg.size_eq, size_create]
  parent_eq x := by simp only [hg.parent_eq, parent_create, mem_singleton]
  tag_eq x := by rw [hg.tag_eq, tag_create]

lemma At.sprouted {g : Forest} {p : Nat} {tag : Tag} {text : String} (h : At K S f w)
    (hwf : g.WellFormed) (hg : Relinked (w.forest.create tag text).2 g [w.forest.size] (some p)) :
    At K S f { w with forest := g } :=
  h.grown hwf (sprouted_of_relinked hg).extends ((h.sound.keys.create tag text).relinked hg)

section Sprouts

variable {p mark : Nat} {tag : Tag} {text : String}

lemma append_at (h : At K S f w) {Q : NodeId → Workspace → Prop} (hp : p < w.forest.size)
    (hQ : ∀ (n : Nat) w', At K S f w' → Sprouted w.forest w'.forest n p tag → Q n w') :
    Ends (append p tag text) w Q E := by
  have hcreate := h.wellFormed.create tag text
  have hnew := created_create w.forest tag text
  obtain ⟨hwf, hg⟩ := hcreate.addChild (by rw [size_create]; omega) (by rw [size_create]; omega)
    (hcreate.addChild_eq hnew.parent_new
      (hnew.extends.not_under_new h.wellFormed hp le_rfl))
  exact ends_grow (hQ w.forest.size _ (h.sprouted hwf hg) (sprouted_of_relinked hg))

section

variable (h : At K S f w) {Q : NodeId → Workspace → Prop} (hmark : w.forest.parent mark = some p)
  (hQ : ∀ (n : Nat) w', At K S f w' → Sprouted w.forest w'.forest n p tag → Q n w')
include h hmark hQ

/-- A node is made and linked beside a mark. -/
private lemma linkNew_at {link : NodeId → Forest → Except LinkError Forest}
    (hlink : ∀ {g : Forest} {c : Nat}, g.WellFormed → c < g.size → g.parent c = none →
      ¬ g.Under p c → g.parent mark = some p →
      ∃ g', link c g = .ok g' ∧ g'.WellFormed ∧ Relinked g g' [c] (some p)) :
    Ends (do let n ← create tag text; relink (link n); pure n) w Q E := by
  have hnew := created_create w.forest tag text
  obtain ⟨g, hg, hwf, hlinked⟩ := hlink (h.wellFormed.create tag text) hnew.lt_size hnew.parent_new
    (hnew.extends.not_under_new h.wellFormed (h.wellFormed.parent_lt hmark) le_rfl)
    ((hnew.parent_eq mark).trans hmark)
  have hmiddle : Ends (relink (link w.forest.size)) { w with forest :=
      (w.forest.create tag text).2 } (fun _ w' => Ends (pure w.forest.size) w' Q E) E :=
    ends_relink hg (ends_pure (hQ _ _ (h.sprouted hwf hlinked) (sprouted_of_relinked hlinked)))
  exact ends_bind (ends_grow (ends_bind hmiddle))

lemma insertNewBefore_at : Ends (insertNewBefore p tag text mark) w Q E :=
  linkNew_at h hmark hQ WellFormed.insertBefore_ok

lemma insertNewAfter_at : Ends (insertNewAfter p tag text mark) w Q E :=
  linkNew_at h hmark hQ WellFormed.insertAfter_ok

end

/-- A mark that is no child of the parent is refused, when the node has been made. -/
lemma insertNewBefore_fails (h : At K S f w) (hp : p < w.forest.size)
    (hmark : w.forest.parent mark ≠ some p) : Fails K (insertNewBefore p tag text mark) w := by
  refine ends_bind (create_at h fun n w1 h1 hnew => Fails.bind ?_)
  refine ends_relink_error (h1.wellFormed.insertAt_eq_error hnew.parent_new
    (hnew.extends.not_under_new h.wellFormed hp hnew.id_eq.ge) ?_) ⟨h1.sound, _, rfl⟩
  rw [hnew.parent_eq]
  exact hmark

/-! ### Leaves -/

variable {leaves : List (Tag × String)}

lemma appendLeaf_at (h : At K S f w) {Q : PUnit → Workspace → Prop} (hp : p < w.forest.size)
    (hQ : ∀ w', At K S f w' → Extends w.forest w'.forest → Q () w') :
    Ends (appendLeaf p tag text) w Q E :=
  ends_discard (append_at h hp fun _ w' h' hn => hQ w' h' hn.extends)

lemma appendLeaves_at (h : At K S f w) {Q : PUnit → Workspace → Prop} (hp : p < w.forest.size)
    (hQ : ∀ w', At K S f w' → Extends w.forest w'.forest → Q () w') :
    Ends (appendLeaves p leaves) w Q E := by
  refine ends_forM (fun _ w' => At K S f w' ∧ Extends w.forest w'.forest) ⟨h, .refl _⟩ ?_
    fun w' h' => hQ w' h'.1 h'.2
  rintro ⟨tag, text⟩ rest w1 ⟨h1, hext⟩
  exact ends_discard (append_at h1 (hp.trans_le hext.size_le) fun _ w2 h2 hn =>
    ⟨h2, hext.trans hn.extends⟩)

lemma insertLeavesAfter_at (h : At K S f w) {Q : NodeId → Workspace → Prop}
    (hmark : w.forest.parent mark = some p)
    (hQ : ∀ (last : Nat) w', At K S f w' → Extends w.forest w'.forest →
      w'.forest.parent last = some p → Q last w') :
    Ends (insertLeavesAfter p mark leaves) w Q E := by
  refine ends_foldlM (fun _ (last : Nat) w' => At K S f w' ∧ Extends w.forest w'.forest ∧
    w'.forest.parent last = some p) ⟨h, .refl _, hmark⟩ ?_ fun last w' h' => hQ last w' h'.1 h'.2.1
      h'.2.2
  rintro ⟨tag, text⟩ rest last w1 ⟨h1, hext, hlast⟩
  exact insertNewAfter_at h1 hlast fun n w2 h2 hn => ⟨h2, hext.trans hn.extends, hn.parent_new⟩

end Sprouts

/-! ## Links -/

section Links

variable {c mark p : Nat} {ids : List Nat} {v : Option Nat} {Q : PUnit → Workspace → Prop}

section

variable (h : At K S f w)
include h

lemma At.relinked {g : Forest} (hwf : g.WellFormed)
    (hg : Relinked w.forest g ids v) (hids : ∀ i ∈ ids, S i ∨ f.size ≤ i) :
    At K S f { w with forest := g } where
  sound := h.sound.relinked hwf hg (.inl fun hroot =>
    (hids root hroot).elim (fun hS => (h.movable root hS).2 rfl)
      fun hle => absurd h.start_pos (Nat.not_lt.2 hle))
  since := h.since.relinked hg hids
  start := h.start
  start_pos := h.start_pos
  movable := h.movable

lemma At.not_mem_new (hc : f.size ≤ c) : ¬ S c := fun hS =>
  absurd (h.movable c hS).1 (Nat.not_lt.2 hc)

lemma At.clear_sprouted {g : Forest} {n : Nat} {tag : Tag}
    (hclear : Clear S w.forest p) (hg : Sprouted w.forest g n p tag) : Clear S g n :=
  hclear.sprouted hg h.wellFormed (h.not_mem_new (hg.id_eq ▸ h.since.size_le))

lemma At.clear_created {g : Forest} {n : Nat} (hg : Created w.forest g n) : Clear S g n :=
  .of_parent_eq_none hg.lt_size hg.parent_new (h.not_mem_new (hg.id_eq ▸ h.since.size_le))

/-- Nothing new is above an old node that is clear of `S`. -/
lemma At.not_under_new (hclear : Clear S f p) (hc : f.size ≤ c) : ¬ w.forest.Under p c := by
  rw [h.since.under_iff h.start hclear]
  exact fun hunder =>
    absurd (h.start.lt_size_of_under hunder hclear.lt_size) (Nat.not_lt.2 hc)

/-- Steps that give nodes their new parent one after the other. -/
lemma forM_at {step : Nat → Conversion PUnit}
    (hstep : ∀ moved i w1, (∀ j ∈ moved, j ∈ ids) → i ∈ ids → (ids.Nodup → i ∉ moved) →
      At K S f w1 → Relinked w.forest w1.forest moved v →
      Ends (step i) w1 (fun _ w2 => At K S f w2 ∧ Relinked w1.forest w2.forest [i] v) E)
    (hQ : ∀ w', At K S f w' → Relinked w.forest w'.forest ids v → Q () w') :
    Ends (ids.forM step) w Q E := by
  refine ends_forM (fun rest w' => ∃ moved, moved ++ rest = ids ∧ At K S f w' ∧
    Relinked w.forest w'.forest moved v) ⟨[], rfl, h, .nil _ _⟩ ?_ ?_
  · rintro i rest w1 ⟨moved, rfl, h1, hmoved⟩
    refine (hstep moved i w1 (by simp +contextual) (by simp) (fun hnodup hi => ?_) h1 hmoved).imp
      fun _ w2 ⟨h2, hi⟩ => ⟨moved ++ [i], by simp, h2, hmoved.trans hi⟩
    exact disjoint_of_nodup_append hnodup hi (.head _)
  · rintro w' ⟨moved, hsplit, h', hmoved⟩
    rw [append_nil] at hsplit
    exact hQ w' h' (hsplit ▸ hmoved)

lemma detach_at (hc : S c ∨ f.size ≤ c)
    (hQ : ∀ w', At K S f w' → Relinked w.forest w'.forest [c] none → Q () w') :
    Ends (detach c) w Q E := by
  obtain ⟨hwf, hg⟩ := h.wellFormed.detach c
  exact ends_edit (hQ _ (h.relinked hwf hg (by simpa using hc)) hg)

lemma detachAll_at (hids : ∀ i ∈ ids, S i)
    (hQ : ∀ w', At K S f w' → Relinked w.forest w'.forest ids none → Q () w') :
    Ends (ids.forM detach) w Q E :=
  forM_at h (fun _ i _ _ hi _ h1 _ => detach_at h1 (.inl (hids i hi)) fun _ h2 hoff => ⟨h2, hoff⟩)
    hQ

end

section

variable {tag kind : Tag} {text words : String} {α : Type} {next : NodeId → Conversion α}

lemma append_clear (h : At K S f w) (hclear : Clear S w.forest p) {Q : NodeId → Workspace → Prop}
    (hQ : ∀ (n : Nat) w', At K S f w' → Clear S w'.forest n → Sprouted w.forest w'.forest n p tag →
      Q n w') : Ends (append p tag text) w Q E :=
  append_at h hclear.lt_size fun n w' h' hn => hQ n w' h' (h.clear_sprouted hclear hn) hn

variable {Q : α → Workspace → Prop}

/-- A node is made with a leaf under it. -/
lemma appendWithLeaf_at (h : At K S f w) (hp : p < w.forest.size)
    (hnext : ∀ (n : Nat) w', At K S f w' → Extends w.forest w'.forest →
      w'.forest.parent n = some p → Ends (next n) w' Q E) :
    Ends (do let n ← append p tag text; appendLeaf n kind words; next n) w Q E :=
  ends_bind (append_at h hp fun n _ h1 hn =>
    ends_bind (appendLeaf_at h1 hn.lt_size fun w' h' hleaf =>
    hnext n w' h' (hn.extends.trans hleaf) (hleaf.parent_of hn.parent_new)))

lemma appendWithLeaf_clear (h : At K S f w) (hclear : Clear S w.forest p)
    (hnext : ∀ (n : Nat) w', At K S f w' → Extends w.forest w'.forest → Clear S w'.forest n →
      Ends (next n) w' Q E) :
    Ends (do let n ← append p tag text; appendLeaf n kind words; next n) w Q E :=
  ends_bind (append_clear h hclear fun n _ h1 hn hnew => ends_bind (appendLeaf_at h1 hn.lt_size
    fun w' h' hleaf => hnext n w' h' (hnew.extends.trans hleaf) (hn.extend hleaf h1.wellFormed)))

end

/-- Any node may be detached, the root too. -/
lemma detach_safe {P : Prop} (hw : w.Sound K) (c : Nat) : Safe K P (detach c) w := by
  obtain ⟨hwf, hg⟩ := hw.wellFormed.detach c
  exact ends_edit ⟨hw.relinked hwf hg (.inr rfl), hg.size_eq.ge⟩

section

variable (h : At K S f w)
include h

lemma removeChild_at (hc : S c ∨ f.size ≤ c) (hparent : w.forest.parent c = some p)
    (hQ : ∀ w', At K S f w' → Relinked w.forest w'.forest [c] none → Q () w') :
    Ends (removeChild p c) w Q E := by
  obtain ⟨hwf, hg⟩ := h.wellFormed.detach c
  exact ends_relink (h.wellFormed.removeChild_eq hparent)
    (hQ _ (h.relinked hwf hg (by simpa using hc)) hg)

omit h in
lemma removeChild_sound (hw : w.Sound K) (hparent : w.forest.parent c = some p)
    (hQ : ∀ w', At K (w.forest.Loose p) w.forest w' → Relinked w.forest w'.forest [c] none →
    Q () w') : Ends (removeChild p c) w Q E :=
  removeChild_at (.of_loose hw p) (.inl (hw.wellFormed.loose_of_parent hparent)) hparent hQ

/-- Removing children of one node, one after the other. -/
lemma removeAll_at (hids : ∀ i ∈ ids, S i)
    (hparent : ∀ i ∈ ids, w.forest.parent i = some p) (hnodup : ids.Nodup)
    (hQ : ∀ w', At K S f w' → Relinked w.forest w'.forest ids none → Q () w') :
    Ends (ids.forM (removeChild p)) w Q E := by
  refine forM_at h (fun removed i w1 _ hi hnot h1 hremoved => ?_) hQ
  have hparent1 : w1.forest.parent i = some p :=
    (hremoved.parent_of_notMem (hnot hnodup)).trans (hparent i hi)
  exact removeChild_at h1 (.inl (hids i hi)) hparent1 fun _ h2 hoff => ⟨h2, hoff⟩

/-- A node that may be moved, or was made on the way, is given its place. -/
lemma link_at {change : Forest → Except LinkError Forest} (hc : S c ∨ f.size ≤ c)
    (hlink : ∃ g, change w.forest = .ok g ∧ g.WellFormed ∧ Relinked w.forest g [c] (some p))
    (hQ : ∀ w', At K S f w' → Relinked w.forest w'.forest [c] (some p) → Q () w') :
    Ends (relink change) w Q E := by
  obtain ⟨g, hchange, hwf, hg⟩ := hlink
  exact ends_relink hchange (hQ _ (h.relinked hwf hg (by simpa using hc)) hg)

/-- The rule for a target that is not clear of all of `S`. -/
lemma addChild_off_at (hp : p < w.forest.size) (hc : S c ∨ f.size ≤ c) (hlt : c < w.forest.size)
    (hnone : w.forest.parent c = none) (hoff : ¬ w.forest.Under p c)
    (hQ : ∀ w', At K S f w' → Relinked w.forest w'.forest [c] (some p) → Q () w') :
    Ends (addChild p c) w Q E :=
  link_at h hc (h.wellFormed.addChild_ok hp hlt hnone hoff) hQ

lemma addChild_at (hclear : Clear S w.forest p) (hc : S c) (hnone : w.forest.parent c = none)
    (hQ : ∀ w', At K S f w' → Relinked w.forest w'.forest [c] (some p) → Q () w') :
    Ends (addChild p c) w Q E :=
  addChild_off_at h hclear.lt_size (.inl hc) (h.lt_size_of hc) hnone
    (fun hunder => hclear.not_mem_above c hunder hc) hQ

/-- Adding nodes one after the other. -/
lemma addAll_at (hclear : Clear S w.forest p) (hids : ∀ i ∈ ids, S i)
    (hnone : ∀ i ∈ ids, w.forest.parent i = none) (hnodup : ids.Nodup)
    (hQ : ∀ w', At K S f w' → Relinked w.forest w'.forest ids (some p) → Q () w') :
    Ends (ids.forM (addChild p)) w Q E := by
  refine forM_at h (fun added i w1 hsub hi hnot h1 hadded => ?_) hQ
  exact addChild_at h1 (hclear.relinked hadded fun j hj => hids j (hsub j hj)) (hids i hi)
    ((hadded.parent_of_notMem (hnot hnodup)).trans (hnone i hi)) fun _ h2 hon => ⟨h2, hon⟩

section

variable (hclear : Clear S w.forest p) (hc : S c) (hnone : w.forest.parent c = none)
  (hmark : w.forest.parent mark = some p)
  (hQ : ∀ w', At K S f w' → Relinked w.forest w'.forest [c] (some p) → Q () w')
include hclear hc hnone hmark hQ

lemma insertBefore_at : Ends (insertBefore p c mark) w Q E :=
  link_at h (.inl hc) (h.wellFormed.insertBefore_ok (h.lt_size_of hc) hnone
    (fun hunder => hclear.not_mem_above c hunder hc) hmark) hQ

lemma insertAfter_at : Ends (insertAfter p c mark) w Q E :=
  link_at h (.inl hc) (h.wellFormed.insertAfter_ok (h.lt_size_of hc) hnone
    (fun hunder => hclear.not_mem_above c hunder hc) hmark) hQ

end

end

/-! ### Moves -/

section

variable (h : At K S f w)
include h

lemma moveTo_at (hclear : Clear S w.forest p) (hc : S c)
    (hQ : ∀ w', At K S f w' → Relinked w.forest w'.forest [c] (some p) → Q () w') :
    Ends (moveTo p c) w Q E := by
  refine ends_bind (detach_at h (.inl hc) fun w1 h1 hoff => ?_)
  refine addChild_at h1 (hclear.relinked hoff (by simp [hc])) hc
    (hoff.parent_of_mem (by simp)) fun w2 h2 hon => ?_
  exact hQ w2 h2 (hoff.replace hon)

section

variable (hclear : Clear S w.forest p) (hc : S c) (hmark : w.forest.parent mark = some p)
  (hne : mark ≠ c) (hQ : ∀ w', At K S f w' → Relinked w.forest w'.forest [c] (some p) → Q () w')
include hclear hc hmark hne hQ

private lemma detach_then_at {next : Conversion PUnit}
    (hnext : ∀ w1, At K S f w1 → Clear S w1.forest p → w1.forest.parent c = none →
      w1.forest.parent mark = some p →
      (∀ w', At K S f w' → Relinked w1.forest w'.forest [c] (some p) → Q () w') →
      Ends next w1 Q E) :
    Ends (do detach c; next) w Q E :=
  ends_bind (detach_at h (.inl hc) fun w1 h1 hoff => hnext w1 h1
    (hclear.relinked hoff (by simp [hc])) (hoff.parent_of_mem (by simp))
    ((hoff.parent_of_notMem (by simpa)).trans hmark) fun w2 h2 hon => hQ w2 h2 (hoff.replace hon))

lemma moveBefore_at : Ends (moveBefore p c mark) w Q E :=
  detach_then_at h hclear hc hmark hne hQ fun _ h1 hclear1 => insertBefore_at h1 hclear1 hc

lemma moveAfter_at : Ends (moveAfter p c mark) w Q E :=
  detach_then_at h hclear hc hmark hne hQ fun _ h1 hclear1 => insertAfter_at h1 hclear1 hc

end

lemma moveAllTo_at (hclear : Clear S w.forest p) (hids : ∀ i ∈ ids, S i)
    (hQ : ∀ w', At K S f w' → Relinked w.forest w'.forest ids (some p) → Q () w') :
    Ends (moveAllTo p ids) w Q E :=
  forM_at h (fun _ i _ hsub hi _ h1 hmoved => moveTo_at h1
    (hclear.relinked hmoved fun j hj => hids j (hsub j hj)) (hids i hi) fun _ h2 hon =>
      ⟨h2, hon⟩) hQ

lemma At.restart (hids : ∀ i ∈ ids, S i ∨ f.size ≤ i)
    (hlt : ∀ i ∈ ids, i < w.forest.size) : At K (· ∈ ids) w.forest w where
  sound := h.sound
  since := .refl _ _
  start := h.wellFormed
  start_pos := h.sound.size_pos
  movable c hc := by
    refine ⟨hlt c hc, ?_⟩
    rintro rfl
    exact (hids root hc).elim (fun hS => (h.movable root hS).2 rfl)
      fun hle => absurd h.start_pos (Nat.not_lt.2 hle)

section

variable (hp : p < w.forest.size) (hids : ∀ i ∈ ids, S i ∨ f.size ≤ i)
  (hlt : ∀ i ∈ ids, i < w.forest.size)
include hp hids hlt

/-- The rule for a target that is not clear of all of `S`. -/
lemma moveAllTo_off_at (hoff : ∀ i ∈ ids, ¬ w.forest.Under p i)
    (hQ : ∀ w', At K S f w' → Relinked w.forest w'.forest ids (some p) → Q () w') :
    Ends (moveAllTo p ids) w Q E := by
  refine moveAllTo_at (h.restart hids hlt) ⟨hp, fun z hz hmem => hoff z hmem hz⟩ (fun _ hi => hi)
    fun w' h' hmoved => hQ w' ?_ hmoved
  exact ⟨h'.sound, h.since.relinked hmoved hids, h.start, h.start_pos, h.movable⟩

/-- Nodes cannot all be moved to a place that is inside one of them. -/
lemma moveAllTo_fails (hnodup : ids.Nodup)
    (hunique : ∀ i ∈ ids, ∀ j ∈ ids, w.forest.Under p i → w.forest.Under p j → i = j)
    (hunder : ∃ i ∈ ids, w.forest.Under p i) : Fails K (moveAllTo p ids) w := by
  obtain ⟨c, hmem, hc⟩ := hunder
  obtain ⟨before, after, rfl⟩ := append_of_mem hmem
  have hbefore : ∀ i ∈ before, ¬ w.forest.Under p i := fun i hi hup => by
    have heq : i = c := hunique i (by simp [hi]) c (by simp) hup hc
    exact disjoint_of_nodup_append hnodup hi (heq ▸ mem_cons_self)
  have hsplit : moveAllTo p (before ++ c :: after) =
      (do moveAllTo p before; moveTo p c; moveAllTo p after) := forM_append before (c :: after) _
  rw [hsplit]
  refine ends_bind (moveAllTo_off_at h hp (fun i hi => hids i (by simp [hi]))
    (fun i hi => hlt i (by simp [hi])) hbefore fun w1 h1 hmoved => ?_)
  refine Fails.bind (ends_bind (detach_at h1 (hids c hmem) fun w2 h2 hoff => ?_))
  -- The way up to the node does not use the link from the node itself.
  have hc2 : w2.forest.Under p c := by
    refine ((hmoved.under_iff hbefore).2 hc).congr fun z q hz hq => ?_
    rw [hoff.parent_of_notMem (by simpa using hz), hq]
  exact ends_relink_error (addChild_eq_error (h2.wellFormed.checkAttachable_eq_cycle
    (hoff.parent_of_mem (by simp)) hc2)) ⟨h2.sound, _, rfl⟩

end

section

variable (hclear : Clear S w.forest p) (hids : ∀ i ∈ ids, S i)
  (hmark : w.forest.parent mark = some p) (hnot : mark ∉ ids)
include hclear hids hmark hnot

/-- Moving nodes one after the other to before the same mark. -/
lemma moveAllBefore_at
    (hQ : ∀ w', At K S f w' → Relinked w.forest w'.forest ids (some p) → Q () w') :
    Ends (ids.forM fun i => moveBefore p i mark) w Q E := by
  refine forM_at h (fun moved i w1 hsub hi _ h1 hmoved => ?_) hQ
  have hmark1 : w1.forest.parent mark = some p :=
    (hmoved.parent_of_notMem fun hmem => hnot (hsub mark hmem)).trans hmark
  exact moveBefore_at h1 (hclear.relinked hmoved fun j hj => hids j (hsub j hj)) (hids i hi) hmark1
    (fun heq => hnot (heq ▸ hi)) fun _ h2 hon => ⟨h2, hon⟩

lemma moveAllAfter_at (hnodup : ids.Nodup) {Q : NodeId → Workspace → Prop}
    (hQ : ∀ (last : Nat) w', At K S f w' → Relinked w.forest w'.forest ids (some p) →
      w'.forest.parent last = some p → Q last w') : Ends (moveAllAfter p mark ids) w Q E := by
  refine ends_foldlM (fun rest (last : Nat) w' => ∃ moved, moved ++ rest = ids ∧ At K S f w' ∧
    Relinked w.forest w'.forest moved (some p) ∧ w'.forest.parent last = some p ∧ last ∉ rest)
    ⟨[], rfl, h, .nil _ _, hmark, hnot⟩ ?_ ?_
  · rintro i rest last w1 ⟨moved, hsplit, h1, hmoved, hlast, hnotMem⟩
    have hclear1 : Clear S w1.forest p := hclear.relinked hmoved fun j hj =>
      hids j (by simp [← hsplit, hj])
    have hi : i ∉ rest := by
      rw [← hsplit] at hnodup
      exact (nodup_cons.1 hnodup.of_append_right).1
    refine ends_bind (moveAfter_at h1 hclear1 (hids i (by simp [← hsplit])) hlast
      (fun heq => hnotMem (by simp [heq])) fun w2 h2 hon => ?_)
    exact ends_pure ⟨moved ++ [i], by simpa using hsplit, h2, hmoved.trans hon,
      hon.parent_of_mem (by simp), hi⟩
  · rintro last w' ⟨moved, hsplit, h', hmoved, hlast, -⟩
    rw [append_nil] at hsplit
    exact hQ last w' h' (hsplit ▸ hmoved) hlast

end

end

end Links

/-! ## Copies -/

section Copies

variable {id p : Nat}

lemma copy_at (h : At K S f w) {Q : NodeId → Workspace → Prop}
    (hQ : ∀ (n : Nat) w', At K S f w' → Extends w.forest w'.forest → n = w.forest.size →
      n < w'.forest.size → w'.forest.parent n = none → Q n w') :
    Ends (copy id) w Q E := by
  have hsow := sow_spec (w.forest.subtree id) w.forest
  have hlt : w.forest.size < (w.forest.copy id).2.size := by
    have hone := one_le_size (w.forest.subtree id)
    have hsize : (w.forest.copy id).2.size = _ := hsow.size_eq
    omega
  refine ends_grow ?_
  rw [copy_fst]
  exact hQ w.forest.size _ (h.grown (h.wellFormed.copy id) hsow.extends (h.sound.keys.copy id))
    hsow.extends rfl hlt hsow.top_parent

lemma appendCopy_at (h : At K S f w) {Q : PUnit → Workspace → Prop} (hp : p < w.forest.size)
    (hQ : ∀ w', At K S f w' → Extends w.forest w'.forest → Q () w') :
    Ends (appendCopy p id) w Q E := by
  refine ends_bind (copy_at h fun n w1 h1 hext hn hlt hnone => ?_)
  refine addChild_off_at h1 (hext.lt_size hp) (.inr (hn ▸ h.since.size_le)) hlt hnone
    (hext.not_under_new h.wellFormed hp hn.ge) fun w2 h2 hon => ?_
  refine hQ w2 h2 ⟨hon.size_eq ▸ hext.size_le, fun x hx => ?_, fun x hx => ?_⟩
  · rw [hon.parent_of_notMem (by simp; omega), hext.parent_eq x hx]
  · rw [hon.tag_eq, hext.tag_eq x hx]

end Copies

end Conversion

end SqlDialect
