import SqlDialect.Proofs.Conversion.Keeps

/-!
# Accounting for approximations

A conversion that is only approximate is reported: it is counted in the notes, and a comment that
starts with the words `converter warning` is written where it was made.  Passes that come later
move, copy and drop parts of the tree, so what is still reached in the end says little about the
count.  The forest keeps every node that was ever made, and there the comments can be held against
the count.

`Accounts strict w w'` says that what was reported between two workspaces is accounted for.  Without
anything reported, no warning comes into a forest that has none.  The strict form says moreover that
every warning which is there stays and that each report has come with a comment of its own.  A step
is `Tidy` if it accounts for what it reports wherever it starts.
-/

namespace SqlDialect

open List

variable {id : Nat} {text : String} {tag : Tag}

/-! ## Warnings -/

/-- Whether a node of the kind with the text is a warning: a comment that starts with the words
`converter warning`, in letters of any case. -/
def isWarningLabel (tag : Tag) (text : String) : Bool :=
  tag == .commentMultiLine && "converter warning".toList.isPrefixOf (text.toList.map Char.toLower)

lemma isWarningLabel_of_tag (h : tag ≠ .commentMultiLine) (text : String) :
    isWarningLabel tag text = false := by
  simp [isWarningLabel, h]

/-- A text that makes no warning of a comment makes none of any other node. -/
lemma isWarningLabel_of_text (h : isWarningLabel .commentMultiLine text = false)
    (tag : Tag) : isWarningLabel tag text = false := by
  by_cases htag : tag = .commentMultiLine
  · rw [htag, h]
  · exact isWarningLabel_of_tag htag text

namespace SyntaxTree

mutual

/-- The number of warnings in a tree. -/
def warningCount : SyntaxTree → Nat
  | .node tag text _ children => (isWarningLabel tag text).toNat + warningCountAll children

/-- The number of warnings in a list of trees. -/
def warningCountAll : List SyntaxTree → Nat
  | [] => 0
  | tree :: rest => tree.warningCount + warningCountAll rest

end

lemma warningCountAll_eq_zero {trees : List SyntaxTree} :
    warningCountAll trees = 0 ↔ ∀ tree ∈ trees, tree.warningCount = 0 := by
  induction trees with
  | nil => simp [warningCountAll]
  | cons tree rest ih => simp [warningCountAll, ih]

end SyntaxTree

namespace Forest

variable {f g : Forest}

def isWarning (f : Forest) (id : NodeId) : Bool :=
  isWarningLabel (f.tag id) (f.text id)

/-- All warnings of the forest, reached or not. -/
def warningComments (f : Forest) : List NodeId :=
  (List.range f.size).filter f.isWarning

/-- No node of the forest is a warning. -/
def Unmarked (f : Forest) : Prop :=
  ∀ id : Nat, f.isWarning id = false

lemma isWarning_of_size_le (hid : f.size ≤ id) : f.isWarning id = false := by
  rw [isWarning, tag_of_size_le hid]
  rfl

lemma mem_warningComments : id ∈ f.warningComments ↔ f.isWarning id = true := by
  rw [warningComments, mem_filter, mem_range]
  refine ⟨fun h => h.2, fun h => ⟨?_, h⟩⟩
  by_contra hle
  simp [isWarning_of_size_le (Nat.le_of_not_lt hle)] at h

lemma nodup_warningComments (f : Forest) : f.warningComments.Nodup :=
  nodup_range.filter _

lemma unmarked_iff : f.Unmarked ↔ f.warningComments = [] := by
  rw [eq_nil_iff_forall_not_mem, Unmarked]
  exact forall_congr' fun id => by rw [mem_warningComments, Bool.not_eq_true]

/-- Where all warnings stay, and those of a list come in, there are more by as many. -/
lemma length_warningComments_le (new : List Nat) (hnodup : new.Nodup)
    (hkept : ∀ id, f.isWarning id = true → g.isWarning id = true)
    (hnew : ∀ id ∈ new, f.isWarning id = false ∧ g.isWarning id = true) :
    f.warningComments.length + new.length ≤ g.warningComments.length := by
  rw [← length_append]
  refine (subperm_of_subset (nodup_append.2 ⟨nodup_warningComments f, hnodup, ?_⟩)
    fun id hid => ?_).length_le
  · rintro a ha b hb rfl
    simpa [(hnew a hb).1] using mem_warningComments.1 ha
  · rw [mem_warningComments]
    rcases mem_append.1 hid with hold | hid
    · exact hkept id (mem_warningComments.1 hold)
    · exact (hnew id hid).2

/-! ## Labels -/

lemma SameLabels.isWarning_eq (h : SameLabels f g) (id : Nat) :
    g.isWarning id = f.isWarning id := by
  rw [isWarning, isWarning, h.tag_eq, h.text_eq]

lemma isWarning_create (f : Forest) (tag : Tag) (text : String) (id : Nat) :
    (f.create tag text).2.isWarning id =
      if id = f.size then isWarningLabel tag text else f.isWarning id := by
  rw [isWarning, Forest.tag, Forest.text, create, node_push]
  split <;> rfl

lemma isWarning_append (f : Forest) (parent : Nat) (tag : Tag) (text : String) (id : Nat) :
    (f.append parent tag text).2.isWarning id =
      if id = f.size then isWarningLabel tag text else f.isWarning id := by
  rw [← isWarning_create]
  exact (sameLabels_place _ parent _ _).isWarning_eq id

lemma isWarning_setTag (f : Forest) (id : Nat) (tag : Tag) (x : Nat) :
    (f.setTag id tag).isWarning x =
      if x = id ∧ x < f.size then isWarningLabel tag (f.text x) else f.isWarning x := by
  rw [isWarning, Forest.tag, Forest.text, setTag, node_update]
  split <;> rfl

lemma isWarning_setText (f : Forest) (id : Nat) (text : String) (x : Nat) :
    (f.setText id text).isWarning x =
      if x = id ∧ x < f.size then isWarningLabel (f.tag x) text else f.isWarning x := by
  rw [isWarning, Forest.tag, Forest.text, setText, node_update]
  split <;> rfl

/-- What stands before a node, noise not counted, is no comment. -/
lemma tag_ne_of_previousSibling {x : Nat} (h : f.previousSibling id = some x) :
    f.tag x ≠ .commentMultiLine := by
  obtain ⟨parent, -, h⟩ := Option.bind_eq_some_iff.1 h
  obtain ⟨parts, -, h⟩ := Option.bind_eq_some_iff.1 h
  have hnoise := find?_some h
  intro htag
  simp [isNoise, isComment, htag, Tag.isComment] at hnoise

lemma isWarning_of_tag (h : f.tag id ≠ .commentMultiLine) : f.isWarning id = false :=
  isWarningLabel_of_tag h _

/-! ## Trees and forests -/

/-- The views of a forest without warnings have none. -/
lemma Unmarked.warningCount_subtree (hf : f.Unmarked) (id : Nat) :
    (f.subtree id).warningCount = 0 := by
  rw [subtree]
  generalize f.size = levels
  induction levels generalizing id with
  | zero =>
    have hid : isWarningLabel (f.tag id) (f.text id) = false := hf id
    simp [subtreeTo, SyntaxTree.warningCount, SyntaxTree.warningCountAll, hid]
  | succ levels ih =>
    have hid : isWarningLabel (f.tag id) (f.text id) = false := hf id
    rw [subtreeTo, SyntaxTree.warningCount, hid, SyntaxTree.warningCountAll_eq_zero.2]
    · rfl
    · intro tree htree
      obtain ⟨c, -, rfl⟩ := mem_map.1 htree
      exact ih c

lemma Sown.isWarning_eq_false {tree : SyntaxTree} {n x : Nat} (htree : tree.warningCount = 0)
    (h : Sown f n tree) (hlow : n ≤ x) (hhigh : x < n + tree.size) : f.isWarning x = false := by
  obtain ⟨⟨tag, text, attributes, children⟩, hnone, hsown⟩ :=
    h.exists_sown (fun ⟨_, _, _, _⟩ hnone =>
    SyntaxTree.warningCountAll_eq_zero.1 (Nat.add_eq_zero_iff.1 hnone).2) htree hlow hhigh
  rw [isWarning, hsown.1, hsown.2.1]
  exact Bool.toNat_eq_zero.1 (Nat.add_eq_zero_iff.1 hnone).1

/-- A tree without warnings makes a forest without warnings. -/
lemma unmarked_ofTree {tree : SyntaxTree} (htree : tree.warningCount = 0) :
    (ofTree tree).Unmarked := by
  intro x
  by_cases hx : x < (ofTree tree).size
  · rw [size_ofTree] at hx
    exact (sown_ofTree tree).isWarning_eq_false htree (Nat.zero_le x) (by simpa [root] using hx)
  · exact isWarning_of_size_le (Nat.le_of_not_lt hx)

end Forest

/-! ## Steps -/

namespace Conversion

open Forest

variable {α γ : Type} {strict : Prop} {w w1 w2 w' : Workspace}

/-- What is reported between the two workspaces is accounted for. -/
structure Accounts (strict : Prop) (w w' : Workspace) : Prop where
  size_le : w.forest.size ≤ w'.forest.size
  reported_le : w.notes.warnings ≤ w'.notes.warnings
  /-- Only the strict form allows for reports. -/
  silent : ¬ strict → w'.notes.warnings = w.notes.warnings
  /-- No node becomes a warning. -/
  old : ∀ id < w.forest.size, w'.forest.isWarning id = true → w.forest.isWarning id = true
  unmarked : w'.notes.warnings = w.notes.warnings → w.forest.Unmarked → w'.forest.Unmarked
  kept : strict → ∀ id, w.forest.isWarning id = true → w'.forest.isWarning id = true
  counted : strict → w'.notes.warnings + w.forest.warningComments.length ≤
    w.notes.warnings + w'.forest.warningComments.length

namespace Accounts

lemma trans (h : Accounts strict w w1) (h' : Accounts strict w1 w2) : Accounts strict w w2 where
  size_le := h.size_le.trans h'.size_le
  reported_le := h.reported_le.trans h'.reported_le
  silent hstrict := (h'.silent hstrict).trans (h.silent hstrict)
  old id hid hwarning := h.old id hid (h'.old id (hid.trans_le h.size_le) hwarning)
  unmarked heq hunmarked := by
    have h1 := h.reported_le
    have h2 := h'.reported_le
    exact h'.unmarked (by omega) (h.unmarked (by omega) hunmarked)
  kept hstrict id hwarning := h'.kept hstrict id (h.kept hstrict id hwarning)
  counted hstrict := by
    have h1 := h.counted hstrict
    have h2 := h'.counted hstrict
    omega

/-- A step that reports nothing and leaves all warnings that it finds, and that makes some only if
there are some. -/
lemma of_same (hsize : w.forest.size ≤ w'.forest.size)
    (hnotes : w'.notes.warnings = w.notes.warnings)
    (hold : ∀ id < w.forest.size, w'.forest.isWarning id = w.forest.isWarning id)
    (hnew : w.forest.Unmarked → ∀ id, w.forest.size ≤ id → w'.forest.isWarning id = false) :
    Accounts strict w w' where
  size_le := hsize
  reported_le := hnotes.ge
  silent _ := hnotes
  old id hid hwarning := (hold id hid).symm.trans hwarning
  unmarked _ hunmarked id := by
    by_cases hid : id < w.forest.size
    · rw [hold id hid, hunmarked]
    · exact hnew hunmarked id (Nat.le_of_not_lt hid)
  kept _ id hwarning := by
    by_cases hid : id < w.forest.size
    · rwa [hold id hid]
    · simp [isWarning_of_size_le (Nat.le_of_not_lt hid)] at hwarning
  counted _ := by
    have hle : w.forest.warningComments.length + 0 ≤ w'.forest.warningComments.length := by
      refine length_warningComments_le [] nodup_nil (fun id hwarning => ?_) (by simp)
      by_cases hid : id < w.forest.size
      · rwa [hold id hid]
      · simp [isWarning_of_size_le (Nat.le_of_not_lt hid)] at hwarning
    omega

lemma of_sameLabels (h : SameLabels w.forest w'.forest)
    (hnotes : w'.notes.warnings = w.notes.warnings) : Accounts strict w w' :=
  of_same h.size_eq.ge hnotes (fun id _ => h.isWarning_eq id) fun hunmarked id _ => by
    rw [h.isWarning_eq, hunmarked]

end Accounts

instance (strict : Prop) : Lax (Accounts strict) .commentMultiLine where
  trans := .trans
  same h := .of_sameLabels h rfl
  grown {w tag} text htag := by
    have hlabel := isWarningLabel_of_tag htag text
    refine .of_same (by simp [Forest.create]) rfl (fun id hid => ?_) fun hunmarked id _ => ?_
    · rw [isWarning_create, if_neg hid.ne]
    · rw [isWarning_create, hlabel, hunmarked, ite_self]

/-- From the workspace on, the step accounts for what it reports if it succeeds. -/
abbrev TidyAt (strict : Prop) (w : Workspace) (step : Conversion α) : Prop :=
  Ends step w (fun _ => Accounts strict w) fun _ _ => True

/-- Wherever it starts, the step accounts for what it reports if it succeeds. -/
abbrev Tidy (strict : Prop) (step : Conversion α) : Prop :=
  Keeps (Accounts strict) step

/-- A text that makes no warning of a comment. -/
abbrev IsWord (text : String) : Prop :=
  Fact (isWarningLabel .commentMultiLine text = false)

namespace Keeps

/-- A copy of warnings is made of warnings, but only where there are some. -/
instance {id : NodeId} : Tidy strict (copy id) := ⟨fun w => by
  have hsown := sow_spec (w.forest.subtree id) w.forest
  refine ends_grow (.of_same ?_ rfl (fun x hx => ?_) fun hunmarked x hx => ?_)
  · rw [Forest.copy, hsown.size_eq]
    exact Nat.le_add_right _ _
  · rw [isWarning, isWarning, Forest.tag, Forest.text, Forest.copy, hsown.node_eq x hx]
    rfl
  · by_cases hlt : x < w.forest.size + (w.forest.subtree id).size
    · exact hsown.sown.isWarning_eq_false (hunmarked.warningCount_subtree id) hx hlt
    · exact isWarning_of_size_le (hsown.size_eq.trans_le (Nat.le_of_not_lt hlt))⟩

instance {parent id : NodeId} : Tidy strict (appendCopy parent id) := bind

/-- A note that is no report. -/
lemma note {change : Notes → Notes} (h : ∀ notes, (change notes).warnings = notes.warnings) :
    Tidy strict (Conversion.note change) :=
  ⟨fun w => ends_note (.of_same le_rfl (h w.notes) (fun _ _ => rfl) fun hf id _ => hf id)⟩

instance {name : String} : Tidy strict (noteArray name) := note fun _ => rfl

/-! ### Labels -/

/-- A change of labels that makes no warning. -/
lemma relabel {change : Forest → Forest} (hsize : ∀ f, (change f).size = f.size)
    (h : ∀ f id, (change f).isWarning id = true → f.isWarning id = true) :
    Tidy False (Conversion.edit change) := ⟨fun w => ends_edit {
  size_le := (hsize _).ge
  reported_le := le_rfl
  silent _ := rfl
  old id _ := h _ id
  unmarked _ hunmarked id := Bool.eq_false_of_not_eq_true fun hid => by
    simpa [hunmarked id] using h _ id hid
  kept := False.elim
  counted := False.elim }⟩

instance {id : NodeId} [Fact (isOther .commentMultiLine tag = true)] :
    Tidy False (setTag id tag) := by
  refine relabel (fun f => size_update f id _) fun f x hx => ?_
  rw [isWarning_setTag] at hx
  split at hx
  · simp [isWarningLabel_of_tag ne_of_isOther] at hx
  · exact hx

instance {id : NodeId} [h : IsWord text] : Tidy False (setText id text) := by
  refine relabel (fun f => size_update f id _) fun f x hx => ?_
  rw [isWarning_setText] at hx
  split at hx
  · rw [isWarningLabel_of_text h.out] at hx
    cases hx
  · exact hx

end Keeps

/-- A label is changed of a node that is no warning before and none after. -/
lemma relabel_accounts {change : Forest → Forest} (hsize : (change w.forest).size = w.forest.size)
    (h : ∀ id, (change w.forest).isWarning id = w.forest.isWarning id) :
    TidyAt strict w (edit change) :=
  ends_edit (.of_same hsize.ge rfl (fun id _ => h id) fun hunmarked id _ => by rw [h, hunmarked])

lemma setTag_accounts {id : NodeId} (hid : w.forest.isWarning id = false)
    (h : (tag != .commentMultiLine) = true) :
    TidyAt strict w (setTag id tag) := by
  refine relabel_accounts (size_update _ id _) fun x => ?_
  rw [isWarning_setTag]
  split
  · rename_i hx
    rw [hx.1, hid, isWarningLabel_of_tag (bne_iff_ne.1 h)]
  · rfl

lemma setText_accounts {id : NodeId} (hid : w.forest.isWarning id = false)
    (h : isWarningLabel (w.forest.tag id) text = false) :
    TidyAt strict w (setText id text) := by
  refine relabel_accounts (size_update _ id _) fun x => ?_
  rw [isWarning_setText]
  split
  · rename_i hx
    rw [hx.1, hid, h]
  · rfl

/-- The node is there, and is no warning. -/
structure IsPlain (w : Workspace) (id : Nat) : Prop where
  lt_size : id < w.forest.size
  isWarning_eq : w.forest.isWarning id = false

lemma isPlain_of_tag (h : w.forest.tag id = tag)
    (htag : (tag != .commentMultiLine && tag != .root) = true) : IsPlain w id := by
  rw [Bool.and_eq_true, bne_iff_ne, bne_iff_ne, ← h] at htag
  exact ⟨Nat.lt_of_not_le fun hle => htag.2 (tag_of_size_le hle), isWarning_of_tag htag.1⟩

lemma isPlain_of_isText (h : w.forest.isText id tag text = true)
    (htag : (tag != .commentMultiLine && tag != .root) = true) : IsPlain w id := by
  rw [isText, Bool.and_eq_true] at h
  exact isPlain_of_tag (tag_of_is h.1) htag

lemma isPlain_of_isKeyword {words : List String} (h : w.forest.isKeyword id words = true) :
    IsPlain w id := by
  rw [isKeyword, Bool.and_eq_true] at h
  exact isPlain_of_tag (tag_of_is h.1) rfl

lemma isPlain_of_fits {text : Option String} (h : w.forest.fits tag text id = true)
    (htag : (tag != .commentMultiLine && tag != .root) = true) : IsPlain w id := by
  rw [fits, Bool.and_eq_true] at h
  exact isPlain_of_tag (tag_of_is h.1) htag

lemma IsPlain.of_accounts (h : IsPlain w id) (haccounts : Accounts strict w w') :
    IsPlain w' id where
  lt_size := h.lt_size.trans_le haccounts.size_le
  isWarning_eq := Bool.eq_false_of_not_eq_true fun hid => by
    simpa [h.isWarning_eq] using haccounts.old id h.lt_size hid

lemma IsPlain.setTag (hid : IsPlain w id) (h : (tag != .commentMultiLine) = true) :
    TidyAt strict w (setTag id tag) :=
  setTag_accounts hid.isWarning_eq h

lemma IsPlain.setText (hid : IsPlain w id) (h : isWarningLabel .commentMultiLine text = false) :
    TidyAt strict w (setText id text) :=
  setText_accounts hid.isWarning_eq (isWarningLabel_of_text h _)

/-- Items of which each relies on what was there before all of them. -/
lemma ends_forM_accounts {step : γ → Conversion PUnit} {items : List γ}
    (h : ∀ item ∈ items, ∀ w', Accounts strict w w' →
      TidyAt strict w' (step item)) :
    TidyAt strict w (items.forM step) := by
  refine ends_forM (fun rest w' => (∀ item ∈ rest, item ∈ items) ∧ Accounts strict w w')
    ⟨fun _ hitem => hitem, Lax.refl w⟩ ?_ fun _ hI => hI.2
  rintro item rest w1 ⟨hmem, h1⟩
  refine (h item (hmem item (.head _)) w1 h1).imp (fun _ w2 h2 => ?_)
  exact ⟨fun other hother => hmem other (.tail _ hother), h1.trans h2⟩

end Conversion

end SqlDialect
