import SqlDialect.Conversion.Construct
import SqlDialect.Proofs.Forest.Edits

/-!
# Where a lookup can lead

A lookup that finds a node says where it stands: a child has the node that was asked as its
parent, a sibling has the same parent and is another node, and what a search below or above a node
finds is below or above it.  Passes rely on nothing else when they move the nodes they have found.
-/

namespace SqlDialect

open List

variable {after before ids : List NodeId}

/-! ## Parts of a list -/

/-- The parts of a list hold its elements in order, without the separators. -/
lemma flatten_separate {α : Type} (isSeparator : α → Bool) (l : List α) :
    (separate isSeparator l).flatten = l.filter (!isSeparator ·) := by
  induction l with
  | nil => rfl
  | cons a rest ih =>
    rw [separate, filter_cons]
    cases hsep : isSeparator a with
    | true => simpa [hsep] using ih
    | false =>
      cases hparts : separate isSeparator rest with
      | nil =>
        rw [hparts] at ih
        simp [← ih]
      | cons part parts =>
        rw [hparts] at ih
        simp [← ih]

lemma sublist_of_mem_separate {α : Type} {isSeparator : α → Bool} {l part : List α}
    (hpart : part ∈ separate isSeparator l) : part.Sublist l :=
  (sublist_flatten_of_mem hpart).trans (flatten_separate isSeparator l ▸ filter_sublist)

lemma mem_of_mem_separate {α : Type} {isSeparator : α → Bool} {l part : List α} {a : α}
    (hpart : part ∈ separate isSeparator l) (ha : a ∈ part) : a ∈ l :=
  (sublist_of_mem_separate hpart).subset ha

section

variable {α : Type} {p : α → Bool} {part rest : List α} {c : α}

lemma separate_map {β : Type} {form : α → β} (p : β → Bool) (l : List α) :
    separate p (l.map form) = (separate (p ∘ form) l).map (map form) := by
  induction l with
  | nil => rfl
  | cons a l ih =>
    rw [map_cons, separate, separate, ih]
    by_cases ha : p (form a)
    · simp [ha]
    · cases separate (p ∘ form) l <;> simp [ha]

lemma separate_of_forall (h : ∀ a ∈ part, p a = false) : separate p part = [part] := by
  induction part with
  | nil => rfl
  | cons a part ih => rw [separate, if_neg (by simp [h a (.head _)]), ih fun b hb =>
    h b (.tail _ hb)]

lemma separate_append_cons (h : ∀ a ∈ part, p a = false) (hc : p c) :
    separate p (part ++ c :: rest) = part :: separate p rest := by
  induction part with
  | nil => rw [nil_append, separate, if_pos hc]
  | cons a part ih =>
    rw [cons_append, separate, if_neg (by simp [h a (.head _)]), ih fun b hb => h b (.tail _ hb)]

/-- A list is one part, or a part with a separator and what follows it. -/
@[elab_as_elim]
lemma parts_induction (p : α → Bool) {motive : List α → Prop}
    (last : ∀ part, (∀ a ∈ part, p a = false) → motive part)
    (more : ∀ part c rest, (∀ a ∈ part, p a = false) → p c → motive rest →
      motive (part ++ c :: rest)) (list : List α) : motive list := by
  obtain ⟨part, rest, rfl, hpart⟩ : ∃ part rest, list = part ++ rest ∧ ∀ a ∈ part, p a = false :=
    ⟨[], list, rfl, by simp⟩
  induction rest generalizing part with
  | nil => rw [append_nil]; exact last part hpart
  | cons a rest ih =>
    by_cases ha : p a
    · exact more part a rest hpart ha (ih [] (by simp))
    · rw [append_cons]
      exact ih (part ++ [a]) (by simpa [or_imp, forall_and, ha] using hpart)

end

namespace Forest

variable {f : Forest} {id c p x y : Nat} {tag : Tag} {text : String}

lemma trimWhiteSpace_sublist (f : Forest) (ids : List NodeId) :
    (f.trimWhiteSpace ids).Sublist ids := by
  have hfront : (ids.dropWhile f.isWhiteSpace).Sublist ids := dropWhile_sublist _
  have hback : ((ids.dropWhile f.isWhiteSpace).reverse.dropWhile f.isWhiteSpace).Sublist
      (ids.dropWhile f.isWhiteSpace).reverse := dropWhile_sublist _
  rw [trimWhiteSpace]
  exact (reverse_sublist.2 hback).trans (by rwa [reverse_reverse])

/-! ## Children -/

namespace WellFormed

variable (hf : f.WellFormed)
include hf

lemma parent_of_find? {test : NodeId → Bool} (h : (f.children id).find? test = some c) :
    f.parent c = some id :=
  hf.parent_of_mem (mem_of_find?_eq_some h)

lemma parent_of_findLast? {test : NodeId → Bool} (h : (f.children id).reverse.find? test = some c) :
    f.parent c = some id :=
  hf.parent_of_mem (mem_reverse.1 (mem_of_find?_eq_some h))

lemma parent_of_head? (h : (f.children id).head? = some c) : f.parent c = some id :=
  hf.parent_of_mem (mem_of_mem_head? h)

lemma parent_of_getLast? (h : (f.children id).getLast? = some c) : f.parent c = some id :=
  hf.parent_of_mem (mem_of_getLast? h)

lemma parent_of_child (h : f.child id tag = some c) : f.parent c = some id :=
  hf.parent_of_find? h

lemma parent_of_childWithText (h : f.childWithText id tag text = some c) : f.parent c = some id :=
  hf.parent_of_find? h

lemma parent_of_lastChild (h : f.lastChild id tag = some c) : f.parent c = some id :=
  hf.parent_of_findLast? h

lemma parent_of_mem_childrenOf (h : c ∈ f.childrenOf id tag) : f.parent c = some id :=
  hf.parent_of_mem (mem_of_mem_filter h)

lemma parent_of_firstSignificantChild (h : f.firstSignificantChild id = some c) :
    f.parent c = some id :=
  hf.parent_of_find? h

lemma parent_of_lastNonWhiteSpaceChild (h : f.lastNonWhiteSpaceChild id = some c) :
    f.parent c = some id :=
  hf.parent_of_findLast? h

lemma parent_of_clauseStartingWith (h : f.clauseStartingWith id tag text = some c) :
    f.parent c = some id :=
  hf.parent_of_find? h

lemma parent_of_childContaining (h : f.childContaining id tag text = some c) :
    f.parent c = some id :=
  hf.parent_of_find? h

/-- The first step of a path is a child, and the rest of the path starts there. -/
lemma below_of_path : ∀ {id : Nat} {tag : Tag} {tags : List Tag},
    f.path id (tag :: tags) = some x → f.Below x id
  | id, tag, [], h => by
    obtain ⟨d, hd, hx⟩ := Option.bind_eq_some_iff.1 h
    cases hx
    exact below_of_parent (hf.parent_of_child hd)
  | id, tag, next :: tags, h => by
    obtain ⟨d, hd, hx⟩ := Option.bind_eq_some_iff.1 h
    exact Relation.TransGen.tail (below_of_path hx) (hf.parent_of_child hd)

end WellFormed

lemma tag_of_is (h : f.is id tag = true) : f.tag id = tag := by
  simpa [is] using h

lemma tag_of_find?_fits {wanted : Option String}
    (h : ids.find? (f.fits tag wanted) = some c) : f.tag c = tag := by
  have hfits := find?_some h
  rw [fits, Bool.and_eq_true] at hfits
  exact tag_of_is hfits.1

lemma tag_of_child (h : f.child id tag = some c) : f.tag c = tag :=
  tag_of_find?_fits h

lemma tag_of_childWithText (h : f.childWithText id tag text = some c) : f.tag c = tag :=
  tag_of_find?_fits h

lemma tag_of_mem_childrenOf (h : c ∈ f.childrenOf id tag) : f.tag c = tag :=
  tag_of_is (mem_filter.1 h).2

/-! ## Ancestors and descendants -/

lemma tag_of_closestAncestor (h : f.closestAncestor id tag = some x) : f.tag x = tag :=
  tag_of_is (find?_some (p := (f.is · tag)) h)

/-! ## Siblings -/

/-- Two different children of one node. -/
def Siblings (f : Forest) (x y : Nat) : Prop :=
  x ≠ y ∧ ∃ p, f.parent x = some p ∧ f.parent y = some p

lemma Siblings.parent_eq (h : f.Siblings x y) : f.parent y = f.parent x := by
  obtain ⟨_, p, hx, hy⟩ := h
  rw [hx, hy]

lemma Siblings.parent (h : f.Siblings x y) (hx : f.parent x = some p) : f.parent y = some p :=
  h.parent_eq.trans hx

lemma Siblings.lt_size (h : f.Siblings x y) : y < f.size := by
  obtain ⟨_, p, -, hy⟩ := h
  exact lt_size_of_parent hy

/-- Both are children of one node, and `x` stands before `y`. -/
def Precedes (f : Forest) (x y : Nat) : Prop :=
  ∃ p, f.parent x = some p ∧ f.parent y = some p ∧
    (f.children p).idxOf x < (f.children p).idxOf y

lemma Precedes.trans {z : Nat} (h : f.Precedes x y) (h' : f.Precedes y z) : f.Precedes x z := by
  obtain ⟨p, hx, hy, hlt⟩ := h
  obtain ⟨q, hy', hz, hlt'⟩ := h'
  cases hy.symm.trans hy'
  exact ⟨p, hx, hz, hlt.trans hlt'⟩

lemma Precedes.ne (h : f.Precedes x y) : x ≠ y := by
  obtain ⟨p, -, -, hlt⟩ := h
  exact fun heq => lt_irrefl _ (heq ▸ hlt)

lemma Precedes.parent (h : f.Precedes x y) (hy : f.parent y = some p) : f.parent x = some p := by
  obtain ⟨q, hx, hy', -⟩ := h
  cases hy.symm.trans hy'
  exact hx

lemma Precedes.parent' (h : f.Precedes x y) (hx : f.parent x = some p) : f.parent y = some p := by
  obtain ⟨q, hx', hy, -⟩ := h
  cases hx.symm.trans hx'
  exact hy

lemma Precedes.siblings (h : f.Precedes x y) : f.Siblings y x := by
  have hne := h.ne
  obtain ⟨p, hx, hy, -⟩ := h
  exact ⟨Ne.symm hne, p, hy, hx⟩

lemma Siblings.symm (h : f.Siblings x y) : f.Siblings y x := by
  obtain ⟨hne, p, hx, hy⟩ := h
  exact ⟨Ne.symm hne, p, hy, hx⟩

section

variable (hf : f.WellFormed)
include hf

/-- Of the children of a node those before one of them precede it, and it precedes the others. -/
lemma WellFormed.precedes_of_children_eq (hchildren : f.children p = before ++ c :: after) :
    (x ∈ before → f.Precedes x c) ∧ (x ∈ after → f.Precedes c x) := by
  have hnodup := hf.nodup_children p
  rw [hchildren, nodup_append, nodup_cons] at hnodup
  have hc := hf.parent_of_split hchildren
  have hbefore : c ∉ before := fun hmem => hnodup.2.2 c hmem c (.head _) rfl
  have hindex : (f.children p).idxOf c = before.length := by
    rw [hchildren, idxOf_append_of_notMem hbefore, idxOf_cons_self, Nat.add_zero]
  refine ⟨fun hx => ⟨p, hf.parent_of_mem (by simp [hchildren, hx]), hc, ?_⟩,
    fun hx => ⟨p, hc, hf.parent_of_mem (by simp [hchildren, hx]), ?_⟩⟩
  · rw [hindex, hchildren, idxOf_append_of_mem hx]
    exact idxOf_lt_length_of_mem hx
  · have hxc : c ≠ x := fun heq => hnodup.2.1.1 (heq ▸ hx)
    have hxbefore : x ∉ before := fun hmem =>
      hnodup.2.2 x hmem x (.tail _ hx) rfl
    rw [hindex, hchildren, idxOf_append_of_notMem hxbefore, idxOf_cons_ne _ hxc]
    omega

lemma WellFormed.precedes_of_around (h : f.around p c = some (before, after)) :
    (x ∈ before → f.Precedes x c) ∧ (x ∈ after → f.Precedes c x) :=
  hf.precedes_of_children_eq (splitAround_eq_some h)

/-- Two children that are listed in this order. -/
lemma WellFormed.precedes_of_sublist (h : [x, y].Sublist (f.children p)) : f.Precedes x y := by
  obtain ⟨before, after, hchildren, hx, hy⟩ := cons_sublist_iff.1 h
  obtain ⟨start, middle, rfl⟩ := append_of_mem hx
  rw [append_assoc, cons_append] at hchildren
  exact (hf.precedes_of_children_eq hchildren).2
    (mem_append_right _ (singleton_sublist.1 hy))

/-- A node is not below a sibling of its. -/
lemma WellFormed.not_under_of_siblings (h : f.Siblings x y) : ¬ f.Under x y := by
  obtain ⟨hne, p, hx, hy⟩ := h
  exact fun hunder => hne (hf.eq_of_under_of_parent (Under.refl _ _) hunder hx hy)

/-- The children around a child are its siblings. -/
lemma WellFormed.siblings_of_around
    (h : f.around p c = some (before, after)) (hx : x ∈ before ∨ x ∈ after) : f.Siblings c x := by
  rcases hx with hx | hx
  · exact ((hf.precedes_of_around h).1 hx).siblings
  · exact ((hf.precedes_of_around h).2 hx).siblings.symm

lemma WellFormed.siblings_of_siblings
    (h : f.siblings c = some (before, after)) (hx : x ∈ before ∨ x ∈ after) : f.Siblings c x := by
  obtain ⟨p, _, haround⟩ := Option.bind_eq_some_iff.1 h
  exact hf.siblings_of_around haround hx

/-- The next sibling is the first after a node that is not noise. -/
lemma WellFormed.eq_or_precedes_of_nextSibling (h : f.nextSibling c = some x)
    (hy : f.Precedes c y) (hnoise : f.isNoise y = false) : x = y ∨ f.Precedes x y := by
  obtain ⟨p, hc, hfollow⟩ := Option.bind_eq_some_iff.1 h
  obtain ⟨⟨before, after⟩, haround, hfind⟩ := Option.bind_eq_some_iff.1 hfollow
  have hchildren : f.children p = before ++ c :: after := splitAround_eq_some haround
  obtain ⟨-, skipped, rest, rfl, hskipped⟩ := find?_eq_some_iff_append.1 hfind
  have hmem : y ∈ before ++ c :: (skipped ++ x :: rest) :=
    hchildren ▸ hf.mem_children_iff.2 (hy.parent' hc)
  have hnot : y ∉ skipped := fun hin => by
    have hskip := hskipped y hin
    simp only [isNoise, Bool.or_eq_false_iff] at hnoise
    simp [hnoise] at hskip
  have hlater : ¬ f.Precedes y c := fun hback => (hback.trans hy).ne rfl
  simp only [mem_append, mem_cons, hnot, false_or] at hmem
  obtain hbefore | rfl | rfl | hrest := hmem
  · exact absurd ((hf.precedes_of_around haround).1 hbefore) hlater
  · exact absurd rfl hy.ne
  · exact .inl rfl
  · rw [← cons_append, ← append_assoc] at hchildren
    exact .inr ((hf.precedes_of_children_eq hchildren).2 hrest)

lemma WellFormed.precedes_of_nextSibling (h : f.nextSibling c = some x) : f.Precedes c x := by
  obtain ⟨p, _, hfollow⟩ := Option.bind_eq_some_iff.1 h
  obtain ⟨⟨before, after⟩, haround, hfind⟩ := Option.bind_eq_some_iff.1 hfollow
  exact (hf.precedes_of_around haround).2 (mem_of_find?_eq_some hfind)

/-- Only one significant token stands directly before another. -/
lemma WellFormed.eq_of_nextSibling_eq (hx : f.nextSibling x = some c)
    (hy : f.nextSibling y = some c) (hxnoise : f.isNoise x = false)
    (hynoise : f.isNoise y = false) : x = y := by
  have hxc := hf.precedes_of_nextSibling hx
  have hyc := hf.precedes_of_nextSibling hy
  have hnot {a b : Nat} (ha : f.nextSibling a = some c) (hb : f.Precedes b c)
      (hnoise : f.isNoise b = false) : ¬ f.Precedes a b := fun hab => by
    obtain rfl | hcb := hf.eq_or_precedes_of_nextSibling ha hab hnoise
    · exact hb.ne rfl
    · exact (hcb.trans hb).ne rfl
  obtain ⟨p, hxp, hcp, -⟩ := hxc
  have hyp := hyc.parent hcp
  by_contra hne
  have hindex : (f.children p).idxOf x ≠ (f.children p).idxOf y := fun heq =>
    hne (idxOf_inj (hf.mem_children_iff.2 hxp) |>.1 heq)
  rcases Nat.lt_or_gt_of_ne hindex with hlt | hlt
  · exact hnot hx hyc hynoise ⟨p, hxp, hyp, hlt⟩
  · exact hnot hy (hf.precedes_of_nextSibling hx) hxnoise ⟨p, hyp, hxp, hlt⟩

lemma WellFormed.siblings_of_nextSibling (h : f.nextSibling c = some x) : f.Siblings c x :=
  (hf.precedes_of_nextSibling h).siblings.symm

lemma WellFormed.precedes_of_previousSibling
    (h : f.previousSibling c = some x) : f.Precedes x c := by
  obtain ⟨p, _, hfollow⟩ := Option.bind_eq_some_iff.1 h
  obtain ⟨⟨before, after⟩, haround, hfind⟩ := Option.bind_eq_some_iff.1 hfollow
  exact (hf.precedes_of_around haround).1 (mem_reverse.1 (mem_of_find?_eq_some hfind))

lemma WellFormed.precedes_of_previousAdjacent
    (h : f.previousAdjacent c = some x) : f.Precedes x c := by
  obtain ⟨⟨before, after⟩, hsiblings, hlast⟩ := Option.bind_eq_some_iff.1 h
  obtain ⟨p, _, haround⟩ := Option.bind_eq_some_iff.1 hsiblings
  exact (hf.precedes_of_around haround).1 (mem_of_getLast? hlast)

lemma WellFormed.siblings_of_mem_siblingsAfter (h : x ∈ f.siblingsAfter c) : f.Siblings c x := by
  rw [siblingsAfter] at h
  cases hsiblings : f.siblings c with
  | none => simp [hsiblings] at h
  | some parts =>
    rw [hsiblings] at h
    exact hf.siblings_of_siblings hsiblings (.inr h)

lemma WellFormed.siblings_of_mem_siblingsBefore (h : x ∈ f.siblingsBefore c) : f.Siblings c x := by
  rw [siblingsBefore] at h
  cases hsiblings : f.siblings c with
  | none => simp [hsiblings] at h
  | some parts =>
    rw [hsiblings] at h
    exact hf.siblings_of_siblings hsiblings (.inl h)

/-- The siblings after a node are listed once. -/
lemma WellFormed.nodup_siblingsAfter (c : Nat) : (f.siblingsAfter c).Nodup := by
  rw [siblingsAfter]
  cases hsiblings : f.siblings c with
  | none => simp
  | some parts =>
    obtain ⟨p, _, haround⟩ := Option.bind_eq_some_iff.1 hsiblings
    have hnodup := hf.nodup_children p
    rw [splitAround_eq_some haround, nodup_append] at hnodup
    exact (nodup_cons.1 hnodup.2.1).2

lemma WellFormed.siblings_eq (hchildren : f.children p = before ++ c :: after) :
    f.siblings c = some (before, after) := by
  have hparent := hf.parent_of_split hchildren
  have hnodup := hf.nodup_children p
  rw [hchildren] at hnodup
  simp [siblings, hparent, around, hchildren, splitAround_eq_of_nodup hnodup]

lemma WellFormed.siblingsAfter_eq
    (hchildren : f.children p = before ++ c :: after) : f.siblingsAfter c = after := by
  rw [siblingsAfter, hf.siblings_eq hchildren]
  rfl

lemma WellFormed.siblingsBefore_eq
    (hchildren : f.children p = before ++ c :: after) : f.siblingsBefore c = before := by
  rw [siblingsBefore, hf.siblings_eq hchildren]
  rfl

end

/-! ## Terminators -/

lemma WellFormed.below_of_terminatorTo (hf : f.WellFormed) :
    ∀ {levels : Nat} {id : Nat}, f.terminatorTo levels id = some x →
      f.Below x id ∧ f.tag x = .semicolon
  | 0, _, h => by simp [terminatorTo] at h
  | levels + 1, id, h => by
    rw [terminatorTo] at h
    split at h
    · rename_i semicolon hchild
      cases h
      exact ⟨below_of_parent (hf.parent_of_child hchild), tag_of_child hchild⟩
    · obtain ⟨d, hd, hx⟩ := Option.bind_eq_some_iff.1 h
      obtain ⟨hbelow, htag⟩ := below_of_terminatorTo hf hx
      exact ⟨Relation.TransGen.tail hbelow (hf.parent_of_lastNonWhiteSpaceChild hd), htag⟩

/-- The terminator of a node is a semicolon below it. -/
lemma WellFormed.below_of_terminator (hf : f.WellFormed) (h : f.terminator id = some x) :
    f.Below x id ∧ f.tag x = .semicolon :=
  hf.below_of_terminatorTo h

/-! ## Columns -/

/-- The columns of a clause hold children of the clause, each once, and not its keyword. -/
lemma flatten_selectColumns_sublist_filter (f : Forest) (id : Nat) :
    (f.selectColumns id).flatten.Sublist
      ((f.children id).filter (some · != f.childWithText id .otherKeyword "select")) := by
  rw [selectColumns, flatten_separate]
  exact filter_sublist

lemma flatten_selectColumns_sublist (f : Forest) (id : Nat) :
    (f.selectColumns id).flatten.Sublist (f.children id) :=
  (flatten_selectColumns_sublist_filter f id).trans filter_sublist

lemma WellFormed.parent_of_mem_column (hf : f.WellFormed) {column : List NodeId}
    (hcolumn : column ∈ f.selectColumns id) (hx : x ∈ column) : f.parent x = some id :=
  hf.parent_of_mem ((flatten_selectColumns_sublist f id).subset (mem_flatten_of_mem hcolumn hx))

lemma WellFormed.nodup_flatten_selectColumns (hf : f.WellFormed) (id : Nat) :
    (f.selectColumns id).flatten.Nodup :=
  (flatten_selectColumns_sublist f id).nodup (hf.nodup_children id)

/-! ## Routines -/

lemma WellFormed.parent_of_routineKeyword (hf : f.WellFormed) (h : f.routineKeyword id = some c) :
    f.parent c = some id :=
  hf.parent_of_find? h

lemma WellFormed.parent_of_routineBody (hf : f.WellFormed) (h : f.routineBody id = some c) :
    f.parent c = some id :=
  hf.parent_of_child h

lemma WellFormed.parent_of_routineAsBlock (hf : f.WellFormed) (h : f.routineAsBlock id = some c) :
    f.parent c = some id := by
  rw [routineAsBlock] at h
  split at h
  · exact hf.parent_of_child h
  · cases h

lemma tag_of_routineAsBlock (h : f.routineAsBlock id = some c) :
    f.tag id = .ddlProceduralBlock ∧ f.tag c = .ddlAsBlock := by
  rw [routineAsBlock] at h
  split at h
  · rename_i hcondition
    exact ⟨tag_of_is (Bool.and_eq_true_iff.1 hcondition).1, tag_of_child h⟩
  · cases h

/-! ## Declarations -/

lemma WellFormed.below_of_mem_declarationTokens (hf : f.WellFormed)
    (h : x ∈ f.declarationTokens id) : f.Below x id := by
  rw [declarationTokens] at h
  split at h
  · rename_i body hbody
    rcases mem_append.1 h with h | h
    · exact below_of_parent (hf.parent_of_mem (mem_of_mem_filter h))
    · exact Below.of_parent_under (hf.parent_of_mem h) (under_of_parent (hf.parent_of_child hbody))
  · exact below_of_parent (hf.parent_of_mem h)

end Forest

namespace DeclarationScan

/-- Every node of the scan, in a finished declaration or in the open one, satisfies `P`. -/
def All (P : Nat → Prop) (s : DeclarationScan) : Prop :=
  ∀ d ∈ s.current :: s.finished, ∀ x ∈ d.signature ++ d.value, P x

variable {P : Nat → Prop} {s : DeclarationScan} {f : Forest} {id : Nat}

lemma All.finish (h : s.All P) : (s.finish f).All P := by
  intro d hd x hx
  rw [DeclarationScan.finish] at hd
  have hcurrent : ∀ x ∈ (s.current.trimmed f).signature ++ (s.current.trimmed f).value, P x := by
    intro y hy
    refine h s.current (.head _) y ?_
    rcases mem_append.1 hy with hy | hy
    · exact mem_append_left _ ((f.trimWhiteSpace_sublist _).subset hy)
    · exact mem_append_right _ ((f.trimWhiteSpace_sublist _).subset hy)
  rcases mem_cons.1 hd with rfl | hd
  · simp at hx
  · dsimp only at hd
    split at hd
    · exact h d (.tail _ hd) x hx
    · rcases mem_append.1 hd with hd | hd
      · exact h d (.tail _ hd) x hx
      · rw [mem_singleton] at hd
        exact hcurrent x (hd ▸ hx)

lemma All.addToSignature (h : s.All P) (hid : P id) : (s.addToSignature id).All P := by
  intro d hd x hx
  rcases mem_cons.1 hd with rfl | hd
  · simp only [DeclarationScan.addToSignature, Declaration.addToSignature, mem_append,
      mem_singleton] at hx
    have hcurrent := h s.current (.head _) x
    grind
  · exact h d (.tail _ hd) x hx

lemma All.readName (h : s.All P) (hid : P id) : (s.readName f id).All P := by
  rw [DeclarationScan.readName]
  split
  · exact h
  · split
    · intro d hd x hx
      rcases mem_cons.1 hd with rfl | hd
      · exact h.addToSignature hid _ (.head _) x hx
      · exact h d (.tail _ hd) x hx
    · exact h.finish.addToSignature hid

lemma All.readWhiteSpace (h : s.All P) (hid : P id) : (s.readWhiteSpace f id).All P := by
  rw [DeclarationScan.readWhiteSpace]
  split
  · exact h
  · split
    · exact h
    · exact h.addToSignature hid

lemma All.setValue {b : Bool} (h : s.All P) (hids : ∀ x ∈ ids, P x) :
    ({ s with inValue := b, current := { s.current with value := ids } } : DeclarationScan).All
      P := by
  intro d hd x hx
  rcases mem_cons.1 hd with rfl | hd
  · rcases mem_append.1 hx with hx | hx
    · exact h s.current (.head _) x (mem_append_left _ hx)
    · exact hids x hx
  · exact h d (.tail _ hd) x hx

lemma All.read (h : s.All P) (hid : P id) : (s.read f id).All P := by
  have hvalue : ∀ x ∈ s.current.value, P x := fun x hx =>
    h s.current (.head _) x (mem_append_right _ hx)
  rw [DeclarationScan.read]
  split
  · split
    · exact h.finish
    · exact h.setValue (by simpa [or_imp, forall_and, hid] using hvalue)
  · split
    · exact h.readName hid
    · exact h.readName hid
    · exact h.readWhiteSpace hid
    · exact h.addToSignature hid
    · exact h.addToSignature hid
    · exact h.addToSignature hid
    · split
      · exact h.addToSignature hid
      · exact h
    · exact h.setValue (by simp)
    · split
      · exact h.addToSignature hid
      · exact h

lemma All.foldl_read (h : s.All P) (hids : ∀ x ∈ ids, P x) :
    (ids.foldl (fun s id => s.read f id) s).All P := by
  induction ids generalizing s with
  | nil => exact h
  | cons head rest ih =>
    exact ih (h.read (hids head (.head _))) fun x hx => hids x (.tail _ hx)

end DeclarationScan

namespace Forest

variable {f : Forest} {id x : Nat} {d : Declaration}

/-- The nodes of a declaration are tokens of its block. -/
lemma mem_declarationTokens_of_mem_extract (hd : d ∈ f.extract id)
    (hx : x ∈ d.signature ++ d.value) : x ∈ f.declarationTokens id := by
  have hstart : ({} : DeclarationScan).All (· ∈ f.declarationTokens id) := by
    intro d hd x hx
    simp only [mem_singleton] at hd
    subst hd
    simp at hx
  have hscan := (hstart.foldl_read (f := f) fun x hx => hx).finish (f := f)
  exact hscan d (.tail _ hd) x hx

lemma WellFormed.below_of_mem_extract (hf : f.WellFormed) (hd : d ∈ f.extract id)
    (hx : x ∈ d.signature ++ d.value) : f.Below x id :=
  hf.below_of_mem_declarationTokens (mem_declarationTokens_of_mem_extract hd hx)

lemma WellFormed.below_of_mem_declarationsTo (hf : f.WellFormed) :
    ∀ {levels : Nat} {id : Nat}, d ∈ f.declarationsTo levels id → x ∈ d.signature ++ d.value →
      f.Below x id
  | 0, id, hd, hx => by
    rw [declarationsTo] at hd
    split at hd
    · exact hf.below_of_mem_extract hd hx
    · cases hd
  | levels + 1, id, hd, hx => by
    rw [declarationsTo] at hd
    split at hd
    · exact hf.below_of_mem_extract hd hx
    · obtain ⟨c, hc, hd⟩ := mem_flatMap.1 hd
      exact Relation.TransGen.tail (below_of_mem_declarationsTo hf hd hx) (hf.parent_of_mem hc)

/-- The nodes of the declarations at or below a node are below it. -/
lemma WellFormed.below_of_mem_declarations (hf : f.WellFormed) (hd : d ∈ f.declarations id)
    (hx : x ∈ d.signature ++ d.value) : f.Below x id :=
  hf.below_of_mem_declarationsTo hd hx

end Forest

end SqlDialect
