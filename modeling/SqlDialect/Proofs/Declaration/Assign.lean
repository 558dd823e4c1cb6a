import SqlDialect.Proofs.Declaration.Clause
import SqlDialect.Proofs.Declaration.Extract
import SqlDialect.Proofs.Pass.DeclareSection

/-!
# Assignments in the place of declarations

The pass that assigns initial values puts one clause after the other next to the clause of a
declaration block, moves the name and the value of an entry into each, and takes the clause of the
block away in the end.  While it does so the tokens that are still to be moved stay where they are
(`Assigning`).
-/

namespace SqlDialect

open List hiding map

variable {b mark : Nat} {block tree : SyntaxTree} {attributes : Dict String}
  {rest : List SyntaxTree} {text : String} {w1 : Workspace}

namespace Entry

/-- The tokens of the value that are assigned. -/
def assigned {α : Type} (view : α → SyntaxTree) (e : Entry α) : List α :=
  e.value.filter fun token => !isNoise view token && !hasKind view .semicolon token

/-- The assignment of the initial value. -/
def assignment (e : Entry SyntaxTree) : SyntaxTree :=
  .group .clause (e.name :: .node .equalsSign ":=" .empty [] ::
    (e.assigned fun token => token) ++ [.semicolon])

lemma assignment_map {α : Type} (view : α → SyntaxTree) (e : Entry α) : (e.map view).assignment =
    .group .clause (view e.name :: .node .equalsSign ":=" .empty [] ::
      (e.assigned view).map view ++ [.semicolon]) := by
  rw [assignment, assigned, assigned, map, filter_map]
  rfl

variable {f g : Forest} {e : Entry Nat}

/-- White space at the ends of a value does not matter for what is assigned. -/
lemma filter_toDeclaration_value (h : ∀ a ∈ e.value, g.tag a = f.tag a) :
    (e.toDeclaration f).value.filter (fun id => !g.isNoise id && !g.is id .semicolon) =
      e.assigned f.subtree := by
  have hsub := Forest.trimWhiteSpace_sublist f e.value
  have htags : (e.toDeclaration f).value.filter (fun id => !g.isNoise id && !g.is id .semicolon) =
      (f.trimWhiteSpace e.value).filter fun id => !f.isNoise id && !f.is id .semicolon := by
    refine filter_congr fun id hid => ?_
    simp [Forest.isNoise, Forest.isWhiteSpace, Forest.isComment, Forest.is, h id (hsub.subset hid)]
  rw [htags, filter_trimWhiteSpace fun id hid => by simp [Forest.isNoise, hid], assigned]
  simp

lemma isEmpty_toDeclaration_value :
    (!(e.toDeclaration f).value.isEmpty) = e.isInitialised f.subtree := by
  have hnil : f.trimWhiteSpace e.value = [] ↔ ∀ id ∈ e.value, f.isWhiteSpace id := by
    rw [Forest.trimWhiteSpace, List.reverse_eq_nil_iff, List.dropWhile_eq_nil_iff]
    constructor
    · intro h id hid
      by_contra hblank
      have hmem : ∀ ids : List Nat, id ∈ ids → id ∈ ids.dropWhile f.isWhiteSpace := by
        intro ids hids
        rw [← List.takeWhile_append_dropWhile (l := ids), List.mem_append] at hids
        exact hids.resolve_left fun htake => hblank (List.mem_takeWhile_imp htake)
      exact hblank (h id (List.mem_reverse.2 (hmem _ hid)))
    · intro h id hid
      exact h id ((List.dropWhile_sublist _).subset (List.mem_reverse.1 hid))
  rw [isInitialised, Bool.eq_iff_iff, Bool.not_eq_true', ← Bool.not_eq_true, List.isEmpty_iff,
    toDeclaration, hnil]
  simp

lemma name_toDeclaration (hname : isName f.subtree e.name) (htag : g.tag e.name = f.tag e.name) :
    (e.toDeclaration f).name g = some e.name := by
  obtain ⟨rest, hrest⟩ := exists_signature_eq_cons hname
  have hkeep : g.isName e.name := by
    rw [isName_iff, Forest.tag_subtree] at hname
    obtain hname | hname := hname <;> simp [Forest.isName, Forest.is, htag, hname]
  rw [Declaration.name, toDeclaration, hrest, find?_cons_of_pos hkeep]

end Entry

namespace SyntaxTree

/-- The assignments of the initial values of a declaration block. -/
def assignments (block : SyntaxTree) : List SyntaxTree :=
  (block.entries.filter (Entry.isInitialised fun token => token)).map Entry.assignment

mutual

/-- The tree with assignments in the place of the declaration clauses that have initial values. -/
def assigned : SyntaxTree → List SyntaxTree
  | .node tag text attributes children =>
    match (node tag text attributes children).block? with
    | some block =>
      if block.assignments.isEmpty then [node tag text attributes children] else block.assignments
    | none => [node tag text attributes (assignedAll children)]

def assignedAll : List SyntaxTree → List SyntaxTree
  | [] => []
  | tree :: rest => assigned tree ++ assignedAll rest

end

lemma assignedAll_eq (trees : List SyntaxTree) : assignedAll trees = trees.flatMap assigned := by
  induction trees with
  | nil => rfl
  | cons tree rest ih => rw [assignedAll, ih, flatMap_cons]

lemma assigned_declaration (hblock : block.tag = .ddlDeclareBlock) :
    assigned (.node .clause text attributes (block :: rest)) =
      if block.assignments.isEmpty then [.node .clause text attributes (block :: rest)]
      else block.assignments := by
  rw [assigned, block?_eq_some_iff.2 ⟨hblock, text, attributes, rest, rfl⟩]

lemma assigned_node {tag : Tag}
    {children : List SyntaxTree} (h : (node tag text attributes children).isDeclaration = false) :
    assigned (.node tag text attributes children) =
      [.node tag text attributes (children.flatMap assigned)] := by
  rw [isDeclaration, Option.isSome_eq_false_iff, Option.isNone_iff_eq_none] at h
  rw [assigned, h, assignedAll_eq]

end SyntaxTree

namespace DeclareSection

open Conversion Forest SyntaxTree Entry

variable {w : Workspace} {f g k : Forest} {c n p : Nat}
  {before after front moved news ids : List Nat} {trees : List SyntaxTree}

/-! ## One assignment -/

/-- What the nodes hold once a name and a value have come to the nodes of a new assignment, and `p`
has the children `list`. -/
def assignedContent (f : Forest) (p : Nat) (list : List Nat) (name : Nat) (value : List Nat)
    (x : Nat) : Node :=
  if x < f.size then relist (without f.content (name :: value)) p list x
  else [{ tag := .clause, children := name :: (f.size + 1) :: value ++ [f.size + 2] },
    { tag := .equalsSign, text := ":=" }, { tag := .semicolon, text := ";" }].getD (x - f.size) {}

lemma assignedContent_new {list value : List Nat} {name : Nat} (i : Nat) :
    assignedContent f p list name value (f.size + i) =
      [{ tag := .clause, children := name :: (f.size + 1) :: value ++ [f.size + 2] },
        { tag := .equalsSign, text := ":=" }, { tag := .semicolon, text := ";" }].getD i {} := by
  rw [assignedContent, if_neg (by omega), Nat.add_sub_cancel_left]

lemma assignInitialValue_shows {d : Declaration} {name : Nat} {value : List Nat}
    (hf : w.forest.WellFormed) (hname : d.name w.forest = some name)
    (hvalue : d.value.filter (fun id => !w.forest.isNoise id && !w.forest.is id .semicolon) = value)
    (hlist : w.forest.children p = front ++ mark :: after) (hnodup : (name :: value).Nodup)
    (hlt : ∀ a ∈ name :: value, a < w.forest.size)
    (hoff : ∀ a ∈ name :: value, a ∉ w.forest.children p) :
    Does (assignInitialValue p mark d) w fun id w' => id = w.forest.size ∧
      Shows w'.forest (w.forest.size + 3)
      (assignedContent w.forest p (front ++ mark :: w.forest.size :: after) name value) := by
  obtain ⟨hfirst, hrest⟩ := nodup_cons.1 hnodup
  have hp := hf.parent_lt (hf.parent_of_split hlist)
  refine ends_forest (ends_need_some hname ?_)
  rw [hvalue]
  refine ends_bind ((insertNewAfter_shows (.refl hf) front after hlist).imp ?_)
  rintro _ w1 ⟨rfl, h1⟩
  refine ends_bind
    ((moveTo_last h1 (Nat.lt_succ_self _) ((hlt name (.head _)).trans (Nat.lt_succ_self _))).imp
    fun _ w2 h2 => ?_)
  refine ends_bind (ends_discard ((append_shows h2 children_relist (Nat.lt_succ_self _)).imp ?_))
  rintro _ w3 ⟨-, h3⟩
  refine ends_bind ((moveAllTo_shows h3 (by omega) hrest
    fun a ha => (hlt a (.tail _ ha)).trans (by omega)).imp fun _ w4 h4 => ?_)
  refine ends_bind (ends_discard ((append_shows h4 children_relist (by omega)).imp ?_))
  rintro _ w5 ⟨-, h5⟩
  refine ends_pure ⟨rfl, ?_⟩
  convert h5 using 1
  funext x
  have hself : (front ++ mark :: w.forest.size :: after).filter (· ∉ name :: value) =
      front ++ mark :: w.forest.size :: after := by
    refine filter_eq_self.2 fun a ha => ?_
    rw [hlist] at hoff
    grind
  by_cases hx : x < w.forest.size
  · have hnew : x ≠ w.forest.size ∧ x ≠ w.forest.size + 1 ∧ x ≠ w.forest.size + 1 + 1 := by omega
    rw [assignedContent, if_pos hx]
    by_cases hxp : x = p
    · simpa [relist, without, label, retag, retext, hxp ▸ hnew, hxp, Bool.and_comm] using hself.symm
    · simp [relist, without, label, retag, retext, hxp, hnew, Bool.and_comm]
  · have hnew (k : Nat) : w.forest.content (w.forest.size + k) = {} := by
      rw [content, node_of_size_le (by omega)]
    have hvalue : w.forest.size + 1 ∉ value := fun hmem => by
      have := hlt _ (.tail _ hmem)
      omega
    obtain ⟨k, rfl⟩ := Nat.exists_eq_add_of_le (not_lt.1 hx)
    have hne : w.forest.size + k ≠ p := by omega
    rcases k with _ | _ | _ | k
    · have hzero : w.forest.content w.forest.size = {} := hnew 0
      simp [assignedContent, relist, without, label, retag, retext, hzero, hp.ne', hfirst, hvalue]
      omega
    all_goals simp [assignedContent, relist, without, label, retag, retext, hnew, hne]
    omega

/-- The nodes `moved` have left the clause `c`, and after it the new clauses `news` of its parent
`p` have come, with the views `trees`. -/
structure Assigning (f : Forest) (p c : Nat) (before after moved news : List Nat)
    (trees : List SyntaxTree) (g : Forest) : Prop extends Rearranged f p moved g where
  children_self : g.children p = before ++ c :: (news ++ after)
  new : ∀ n ∈ news, f.size ≤ n
  views : news.map g.subtree = trees

lemma Assigning.start (hf : f.WellFormed) (hchildren : f.children p = before ++ c :: after) :
    Assigning f p c before after [] [] [] f where
  toRearranged := .refl hf p
  children_self := by simp [hchildren]
  new := by simp
  views := rfl

/-- Tokens below the clause `c` that can be moved one after the other. -/
structure Tokens (f : Forest) (c : Nat) (ids : List Nat) : Prop where
  nodup : ids.Nodup
  below : ∀ a ∈ ids, f.Below a c
  apart : ∀ a ∈ ids, ∀ b ∈ ids, f.Under b a → b = a

lemma Tokens.sublist {ids' : List Nat} (h : Tokens f c ids) (hsub : ids'.Sublist ids) :
    Tokens f c ids' where
  nodup := h.nodup.sublist hsub
  below a ha := h.below a (hsub.subset ha)
  apart a ha b hb := h.apart a (hsub.subset ha) b (hsub.subset hb)

/-- The tokens that an entry gives to its assignment. -/
def given (f : Forest) (e : Entry Nat) : List Nat :=
  e.name :: e.assigned f.subtree

section

variable {e : Entry Nat} (h : Assigning f p c before after moved news trees g) (hf : f.WellFormed)
  (hc : f.parent c = some p) (htokens : Tokens f c (moved ++ given f e))
include h hf hc htokens

/-- The tokens of the next entry are where they were. -/
lemma Assigning.parent_of_given {a : Nat} (ha : a ∈ given f e) :
    a < f.size ∧ g.parent a = f.parent a ∧ a ∉ g.children p := by
  have hbelow := htokens.below a (mem_append_right _ ha)
  have hparent : g.parent a = f.parent a := h.parent_eq a hbelow.lt_size fun hmem =>
    (nodup_append'.1 htokens.nodup).2.2 hmem ha
  refine ⟨hbelow.lt_size, hparent, fun hmem => ?_⟩
  obtain ⟨q, hq, hqc⟩ := below_iff.1 hbelow
  obtain rfl := Option.mem_unique (hparent.symm.trans (h.wellFormed.parent_of_mem hmem)) hq
  exact hf.not_under_of_child hc hqc

/-- One more assignment after the others. -/
lemma Assigning.step (hshows : Shows k (g.size + 3) (assignedContent g p
      (before ++ c :: (news ++ g.size :: after)) e.name (e.assigned f.subtree))) :
    Assigning f p c before after (moved ++ given f e) (news ++ [g.size])
      (trees ++ [(e.map f.subtree).assignment]) k := by
  have hp : p < g.size := (hf.parent_lt hc).trans_le h.size_le
  have hlist : k.children p = before ++ c :: (news ++ g.size :: after) := by
    rw [hshows.children, assignedContent, if_pos hp, children_relist]
  have hnext : Rearranged g p (given f e) k := by
    refine hshows.rearranged h.wellFormed (by omega) (fun x hx => if_pos hx)
      (fun q a hq ha hlt => ?_) fun a ha _ => by simp [h.children_self, ha.ne]
    obtain ⟨i, rfl⟩ := Nat.exists_eq_add_of_le hq
    rw [assignedContent_new] at ha
    rcases i with _ | _ | _ | i <;> simp at ha
    obtain rfl | rfl | ha | rfl := ha
    · exact .head _
    · omega
    · exact .tail _ ha
    · omega
  have hall := h.toRearranged.trans hnext (.inl rfl)
  have hview (a : Nat) (ha : a ∈ given f e) : k.subtree a = f.subtree a := by
    have hbelow := htokens.below a (mem_append_right _ ha)
    refine hall.subtree_eq hf hbelow.lt_size (hf.not_under_of_below (hbelow.tail hc))
      fun b hb hba => ?_
    obtain rfl := htokens.apart a (mem_append_right _ ha) b hb hba.under
    exact hf.acyclic b hba
  -- a clause that has been added before looks the same
  have hsame (x : Nat) (hx : x ∈ news) : k.subtree x = g.subtree x := by
    have hparent : g.parent x = some p := h.wellFormed.parent_of_mem (by simp [h.children_self, hx])
    refine hnext.subtree_eq h.wellFormed (lt_size_of_parent hparent)
      (h.wellFormed.not_under_of_child hparent) fun a ha hbelow => ?_
    have hlt := (htokens.below a (mem_append_right _ ha)).lt_size
    have hold := (h.under_iff hf hlt fun b hb hunder => ?_).1 hbelow.under
    · exact absurd (hf.lt_size_of_under hold hlt) (by simpa using h.new x hx)
    · obtain rfl := htokens.apart b (mem_append_left _ hb) a (mem_append_right _ ha) hunder
      exact (nodup_append'.1 htokens.nodup).2.2 hb ha
  refine ⟨hall, by simp [hlist], ?_, ?_⟩
  · simpa [or_imp, forall_and, h.size_le] using h.new
  · have hleaf (i : Nat) := hshows.subtree (g.size + i)
    simp only [assignedContent_new] at hleaf
    simp only [given, mem_cons, forall_eq_or_imp] at hview
    rw [map_append, map_congr_left hsame, h.views, map_singleton, assignment_map,
      show k.subtree g.size = _ from hleaf 0]
    simp [hleaf, hview.1, map_congr_left hview.2, group, semicolon]

lemma assignInitialValue_assigning (hw : w.forest = g) (he : isProper f.subtree e)
    (hvalue : ∀ a ∈ e.value, a < f.size) (hmark : (c :: news).getLast? = some mark) :
    Does (assignInitialValue p mark (e.toDeclaration f)) w fun n w' =>
      Assigning f p c before after (moved ++ given f e) (news ++ [n])
        (trees ++ [(e.map f.subtree).assignment]) w'.forest := by
  subst hw
  have hgiven (a : Nat) (ha : a ∈ given f e) := h.parent_of_given hf hc htokens ha
  have hname : isName f.subtree e.name := (Bool.and_eq_true_iff.1 he).1
  obtain ⟨front, hfront⟩ := getLast?_eq_some_iff.1 hmark
  have hlist : w.forest.children p = (before ++ front) ++ mark :: after := by
    rw [h.children_self, ← cons_append, hfront]
    simp
  refine (assignInitialValue_shows h.wellFormed
    (name_toDeclaration hname (h.tag_eq _ (hgiven _ (.head _)).1))
    (filter_toDeclaration_value fun a ha => h.tag_eq a (hvalue a ha)) hlist
    (nodup_append'.1 htokens.nodup).2.1 (fun a ha => (hgiven a ha).1.trans_le h.size_le)
    fun a ha => (hgiven a ha).2.2).imp ?_
  rintro _ w' ⟨rfl, hshows⟩
  refine h.step hf hc htokens ?_
  rwa [append_assoc, append_cons front, ← hfront] at hshows

end

/-! ## All assignments of a block -/

lemma foldlM_assigning {es : List (Entry Nat)}
    (h : Assigning f p c before after moved news trees w.forest)
    (hf : f.WellFormed) (hc : f.parent c = some p) (hes : ∀ e ∈ es, isProper f.subtree e)
    (hvalues : ∀ e ∈ es, ∀ a ∈ e.value, a < f.size)
    (htokens : Tokens f c (moved ++ es.flatMap (given f)))
    (hmark : (c :: news).getLast? = some mark) :
    Does ((es.map (toDeclaration f)).foldlM (assignInitialValue p) mark) w fun _ w' => ∃ news',
      Assigning f p c before after (moved ++ es.flatMap (given f)) news'
        (trees ++ es.map fun e => (e.map f.subtree).assignment) w'.forest := by
  induction es generalizing w moved news trees mark with
  | nil => exact ends_pure ⟨news, by simpa using h⟩
  | cons e es ih =>
    rw [flatMap_cons, ← append_assoc] at htokens ⊢
    rw [map_cons, foldlM_cons]
    refine ends_bind
      ((assignInitialValue_assigning h hf hc (htokens.sublist (sublist_append_left _ _)) rfl
      (hes e (.head _)) (hvalues e (.head _)) hmark).imp fun n w1 h1 => ?_)
    refine (ih h1 (fun e' he' => hes e' (.tail _ he')) (fun e' he' => hvalues e' (.tail _ he'))
      htokens (by rw [← cons_append, getLast?_concat])).imp ?_
    rintro - w2 ⟨news', h2⟩
    exact ⟨news', by simpa using h2⟩

/-- In the end the clause is taken away. -/
lemma Assigning.removeChild {w₀ : Workspace}
    (h : Assigning w₀.forest p c before after moved news trees w.forest)
    (hw0 : Whole w₀) (hchildren : w₀.forest.children p = before ++ c :: after)
    (hmoved : ∀ a ∈ moved, w₀.forest.Below a c) :
    Succeeds (removeChild p c) w fun _ w' => w'.notes = w₀.notes →
      Exchanged w₀ p before news after trees w' ∧
      Rearranged w₀.forest p (moved ++ [c]) w'.forest := by
  have hf := hw0.wellFormed
  have hc := hf.parent_of_split hchildren
  obtain ⟨g, hok, hremoved, hchildren1, -⟩ := h.wellFormed.rearranged_removeChild h.children_self
  have hre := h.toRearranged.trans hremoved (.inl rfl)
  have hunder : ∀ a ∈ moved ++ [c], w₀.forest.Under a c := by
    intro a ha
    rw [mem_append, mem_singleton] at ha
    obtain ha | rfl := ha
    · exact (hmoved a ha).under
    · exact .refl _ a
  have hviews : news.map g.subtree = trees := by
    rw [← h.views]
    refine map_congr_left fun x hx => ?_
    have hne : x ≠ c := ((lt_size_of_parent hc).trans_le (h.new x hx)).ne'
    have hx : w.forest.parent x = some p :=
      h.wellFormed.parent_of_mem (by simp [h.children_self, hx])
    have hself : ∀ a ∈ [c], w.forest.Under a c := by simp [Under.refl]
    exact hremoved.subtree_of_sibling h.wellFormed (h.wellFormed.parent_of_split h.children_self)
      hself hx hne
  have hplace1 : g.children p = before ++ news ++ after := by simp [hchildren1]
  exact ends_relink hok fun hnotes =>
    ⟨.of_rearranged hre hw0 hnotes hchildren hplace1 hunder hviews, hre⟩

/-- The entries of a block that have initial values. -/
def initialised (f : Forest) (b : Nat) : List (Entry Nat) :=
  (entriesOf f.subtree (f.declarationTokens b)).filter (isInitialised f.subtree)

/-- What the entries of a block give to their assignments are tokens of the block. -/
lemma flatMap_given_sublist (f : Forest) (b : Nat) :
    ((initialised f b).flatMap (given f)).Sublist (f.declarationTokens b) := by
  have hes : ∀ es : List (Entry Nat), ((es.filter (isInitialised f.subtree)).flatMap
      (given f)).Sublist (es.flatMap fun e => e.name :: (e.type ++ e.value)) := by
    intro es
    induction es with
    | nil => exact .refl _
    | cons e es ih =>
      rw [flatMap_cons]
      by_cases he : e.isInitialised f.subtree
      · rw [filter_cons_of_pos he, flatMap_cons]
        have hvalue : (e.assigned f.subtree).Sublist (e.type ++ e.value) :=
          filter_sublist.trans (sublist_append_right _ _)
        exact (hvalue.cons_cons e.name).append ih
      · rw [filter_cons_of_neg he]
        exact ih.trans (sublist_append_right _ _)
  exact (hes _).trans (flatMap_entriesOf_sublist _)

lemma tokens_initialised {f : Forest} (hf : f.WellFormed) (hb : f.parent b = some c) :
    Tokens f c ((initialised f b).flatMap (given f)) := by
  obtain ⟨hnodup, hapart⟩ := hf.declarationTokens_apart b
  have hall : Tokens f c (f.declarationTokens b) :=
    ⟨hnodup, fun a ha => (hf.below_of_mem_declarationTokens ha).trans (below_of_parent hb), hapart⟩
  exact hall.sublist (flatMap_given_sublist f b)

lemma filter_extract {f : Forest} (hf : f.WellFormed) (h : (f.subtree b).holdsEntries) :
    (f.extract b).filter (!·.value.isEmpty) = (initialised f b).map (toDeclaration f) ∧
      (f.subtree b).assignments = (initialised f b).map fun e => (e.map f.subtree).assignment := by
  obtain ⟨hextract, hentries, -⟩ := hf.extract_eq h
  constructor
  · rw [hextract, List.filter_map]
    congr 1
    exact List.filter_congr fun e _ => isEmpty_toDeclaration_value
  · rw [assignments, ← hentries, List.filter_map, List.map_map]
    congr 1
    refine List.filter_congr fun e _ => ?_
    simp only [Function.comp_apply, isInitialised, map, List.any_map]
    rfl

set_option synthInstance.maxSize 20000 in
/-- A declaration block gives way to the assignments of its initial values. -/
lemma assignBlock_exchanged {others : List Nat} (hw : Whole w)
    (hchildren : w.forest.children p = before ++ c :: after)
    (hb : w.forest.children c = b :: others) (h : (w.forest.subtree b).holdsEntries) :
    Succeeds (assignBlock b) w fun _ w' =>
      (∃ ids, Exchanged w p before ids after (if (w.forest.subtree b).assignments.isEmpty then
        [w.forest.subtree c] else (w.forest.subtree b).assignments) w') ∧
      others.map w'.forest.subtree = others.map w.forest.subtree := by
  have hf := hw.wellFormed
  have hc := hf.parent_of_split hchildren
  have hparent : w.forest.parent b = some c := hf.parent_of_mem (by simp [hb])
  obtain ⟨hextract, hassignments⟩ := filter_extract hf h
  obtain ⟨-, -, hproper⟩ := hf.extract_eq h
  have (p mark : Nat) (d : Declaration) : Keeps SameNotes (assignInitialValue p mark d) := .bind
  have : Keeps SameNotes (assignBlock b) := .bind
  suffices hdoes : Does (assignBlock b) w fun _ w' => w'.notes = w.notes → _ from
    (hdoes.noted.succeeds (assignBlock_safe hw b)).imp fun _ _ h' => h'.2 h'.1
  apply ends_forest
  rw [hextract]
  apply ends_ite
  · intro hnone
    have hempty : (w.forest.subtree b).assignments.isEmpty := by simpa [hassignments] using hnone
    rw [if_pos hempty]
    exact ends_pure fun _ => ⟨⟨[c], .of_turned (.refl hw c) hw hchildren⟩, rfl⟩
  · intro hsome
    have hempty : ¬ (w.forest.subtree b).assignments.isEmpty := by simpa [hassignments] using hsome
    rw [if_neg hempty]
    refine ends_need_some hparent (ends_need_some hc ?_)
    have hmem : ∀ e ∈ initialised w.forest b,
        e ∈ entriesOf w.forest.subtree (w.forest.declarationTokens b) :=
      fun e he => mem_of_mem_filter he
    have hvalues : ∀ e ∈ initialised w.forest b, ∀ a ∈ e.value, a < w.forest.size := by
      intro e he a ha
      have htoken : a ∈ w.forest.declarationTokens b :=
        (flatMap_entriesOf_sublist _).subset (mem_flatMap.2 ⟨e, hmem e he, by simp [ha]⟩)
      exact (hf.below_of_mem_declarationTokens htoken).lt_size
    have hgiven : ∀ a ∈ (initialised w.forest b).flatMap (given w.forest), w.forest.Below a b :=
      fun a ha => hf.below_of_mem_declarationTokens ((flatMap_given_sublist w.forest b).subset ha)
    have htokens : Tokens w.forest c ([] ++ (initialised w.forest b).flatMap (given w.forest)) :=
      tokens_initialised hf hparent
    refine ends_bind (ends_discard ((foldlM_assigning (.start hf hchildren) hf hc
      (fun e he => hproper e (hmem e he)) hvalues htokens rfl).imp ?_))
    rintro - w1 ⟨news, h1⟩
    rw [nil_append, nil_append, ← hassignments] at h1
    refine (h1.removeChild hw hchildren fun a ha =>
      (hgiven a ha).trans (below_of_parent hparent)).mono ?_ (fun _ _ hfalse => hfalse.elim)
    intro _ w2 h2 hnotes
    obtain ⟨h2, hre⟩ := h2 hnotes
    refine ⟨⟨news, h2⟩, map_congr_left fun o ho => ?_⟩
    have hparent' : w.forest.parent o = some c := hf.parent_of_mem (by simp [hb, ho])
    refine hre.subtree_eq hf (lt_size_of_parent hparent')
      (hf.not_under_of_below ((below_of_parent hparent').trans (below_of_parent hc))) ?_
    -- what has been moved was in the block, and the clause is above the other nodes in it
    intro a ha hbelow
    rw [mem_append, mem_singleton] at ha
    obtain ha | rfl := ha
    · obtain rfl := hf.eq_of_under_of_parent (hgiven a ha).under hbelow.under hparent hparent'
      have hnodup := hf.nodup_children c
      rw [hb] at hnodup
      exact (nodup_cons.1 hnodup).1 ho
    · exact hf.not_under_of_child hparent' hbelow.under

/-! ## The whole tree -/

lemma renews_assigned_declaration (hblock : block.tag = .ddlDeclareBlock)
    (h : ProperDeclaration block rest) :
    Renews (blockVisit assignBlock) (fun _ _ => True)
      (.node .clause text attributes (block :: rest))
      (assigned (.node .clause text attributes (block :: rest))) := by
  refine .of_walkFrom fun limit p c before after w hlimit hw _ hchildren htree => ?_
  refine walkFrom_declaration hw htree hblock h.rest_avoids hlimit fun b others hb hview => ?_
  refine (assignBlock_exchanged hw hchildren hb (hview ▸ h.holdsEntries)).imp ?_
  rintro - w' ⟨⟨ids, h'⟩, hothers⟩
  rw [hview, htree] at h'
  rw [assigned_declaration hblock]
  exact ⟨⟨ids, h'⟩, h'.turned.grafted.wellFormed, hothers⟩

lemma renews_assigned {parent : Tag} (h : Placed parent tree) :
    Renews (blockVisit assignBlock) (fun _ _ => True) tree tree.assigned := by
  induction h using Placed.induction with
  | declaration parent text attributes block rest hblock hproper =>
    exact renews_assigned_declaration hblock hproper
  | node parent kind words values trees htag hnot h hchildren ih =>
    rw [assigned_node hnot]
    exact (Sweeps.flatMap stable_true ih le_rfl).node (by rw [SyntaxTree.size]; omega)
      (fun id w hid _ => blockVisit_descend (hid ▸ htag)) fun _ _ _ _ _ _ => trivial

/-- The pass that assigns initial values does so at every declaration block of the tree. -/
lemma assignInitialValues_turned (hw : Whole w) (htree : w.forest.tree = tree)
    (h : Placed .root tree) :
    Succeeds assignInitialValues w fun _ w' => ∃ tree', tree.assigned = [tree'] ∧
      Turned w root tree' w' := by
  obtain ⟨kind, words, values, trees⟩ := tree
  have hdeclaration := h.isDeclaration_eq_false (by decide)
  obtain ⟨htag, hchildren⟩ := (placed_node_iff hdeclaration).1 h
  have hroot := (hw.wellFormed.of_subtree_eq htree).1
  exact ((Sweeps.flatMap stable_true (fun tree hmem =>
    renews_assigned (placedAll_iff.1 hchildren tree hmem))
    (sizeAll_le_size hw htree)).walk hw htree trivial (blockVisit_descend (hroot ▸ htag))).imp
      fun _ _ h' => ⟨_, assigned_node hdeclaration, h'⟩

end DeclareSection

end SqlDialect
