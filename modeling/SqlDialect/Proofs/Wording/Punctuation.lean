import Mathlib.Data.List.DropRight
import SqlDialect.Proofs.Conversion.Reorder
import SqlDialect.Proofs.Pass.Wording
import SqlDialect.Proofs.SyntaxTree.Parts

/-!
# Punctuation in front of comments

A list is read from the left, and each mark in it goes in front of the comments at the end of what
has been read. Marks keep their order, all other nodes keep theirs, and no mark is left behind a
comment. The passes for commas and semicolons do this with the children of every node.
-/

namespace SqlDialect

open Conversion Forest List

namespace Wording

/-! ## Lists -/

section

variable {f : Forest} {mark : Nat → Bool} {a : Nat} {list done : List Nat}

/-- The noise at the end of the list from its first comment on. -/
def comments (f : Forest) (list : List Nat) : List Nat :=
  (list.rtakeWhile f.isNoise).dropWhile (!f.isComment ·)

/-- What is before the comments at the end of the list. -/
def lead (f : Forest) (list : List Nat) : List Nat :=
  list.rdropWhile f.isNoise ++ (list.rtakeWhile f.isNoise).takeWhile (!f.isComment ·)

/-- A mark goes in front of the comments at the end of the list, any other node to the end. -/
def put (f : Forest) (mark : Nat → Bool) (done : List Nat) (id : Nat) : List Nat :=
  if mark id then lead f done ++ id :: comments f done else done ++ [id]

/-- There are no comments directly before a mark. -/
def Settled (f : Forest) (mark : Nat → Bool) (list : List Nat) : Prop :=
  ∀ before id after, list = before ++ id :: after → mark id → comments f before = []

lemma lead_append_comments (f : Forest) (list : List Nat) :
    lead f list ++ comments f list = list := by
  rw [lead, comments, append_assoc, takeWhile_append_dropWhile,
    rdropWhile_append_rtakeWhile]

lemma isNoise_of_mem_comments {x : Nat} (h : x ∈ comments f list) : f.isNoise x :=
  mem_rtakeWhile_imp ((dropWhile_sublist _).subset h)

lemma rtakeWhile_append {p : Nat → Bool} {more : List Nat} (h : ∀ x ∈ more, p x) :
    (list ++ more).rtakeWhile p = list.rtakeWhile p ++ more := by
  have hmore : ∀ x ∈ more.reverse, p x := by simpa using h
  rw [List.rtakeWhile, reverse_append, takeWhile_append_of_pos hmore, reverse_append,
    reverse_reverse, List.rtakeWhile]

lemma comments_lead (f : Forest) (list : List Nat) : comments f (lead f list) = [] := by
  rw [comments, lead, rtakeWhile_append fun x hx =>
      mem_rtakeWhile_imp ((takeWhile_sublist _).subset hx),
    rtakeWhile_eq_nil_iff.2 (rdropWhile_last_not _ _), nil_append,
    dropWhile_eq_nil_iff]
  intro x hx
  exact mem_takeWhile_imp (p := (!f.isComment ·)) hx

lemma put_of_comments (h : mark a → comments f done = []) : put f mark done a = done ++ [a] := by
  rw [put]
  split_ifs with ha
  · have hdone := lead_append_comments f done
    rw [h ha, append_nil] at hdone
    rw [h ha, hdone]
  · rfl

lemma mem_foldl_put {x : Nat} : x ∈ list.foldl (put f mark) done ↔ x ∈ done ∨ x ∈ list := by
  induction list generalizing done with
  | nil => simp
  | cons a list ih =>
    have hdone : x ∈ lead f done ++ comments f done ↔ x ∈ done := by rw [lead_append_comments]
    have hput : x ∈ put f mark done a ↔ x ∈ done ∨ x = a := by
      rw [put]
      grind
    rw [foldl_cons, ih, hput, mem_cons, or_assoc]

lemma foldl_put_of_not_mark (h : ∀ x ∈ list, mark x = false) :
    list.foldl (put f mark) done = done ++ list := by
  induction list generalizing done with
  | nil => simp
  | cons a list ih =>
    rw [foldl_cons, ih fun x hx => h x (.tail _ hx), put_of_comments (by simp [h a (.head _)])]
    simp

lemma foldl_put_congr {mark' : Nat → Bool} (h : ∀ x ∈ list, mark x = mark' x) :
    list.foldl (put f mark) done = list.foldl (put f mark') done :=
  foldl_ext _ _ _ fun done x hx => by rw [put, put, h x hx]

lemma settled_concat : Settled f mark (list ++ [a]) ↔
    Settled f mark list ∧ (mark a → comments f list = []) := by
  constructor
  · refine fun h => ⟨fun before id after hlist => h before id (after ++ [a]) (by simp [hlist]), ?_⟩
    exact h list a [] rfl
  · rintro ⟨hlist, ha⟩ before id after hsplit
    obtain rfl | ⟨after, b, rfl⟩ := eq_nil_or_concat after
    · obtain ⟨rfl, heq⟩ := append_inj' hsplit rfl
      rw [← singleton_inj.1 heq]
      exact ha
    · rw [concat_eq_append, ← cons_append, ← append_assoc] at hsplit
      exact hlist before id after (append_inj' hsplit rfl).1

/-- A list that is settled stays as it is. -/
lemma foldl_put_of_settled (h : Settled f mark list) : list.foldl (put f mark) [] = list := by
  induction list using List.reverseRecOn with
  | nil => rfl
  | append_singleton list a ih =>
    obtain ⟨hlist, ha⟩ := settled_concat.1 h
    rw [foldl_concat, ih hlist, put_of_comments ha]

section

variable (hmark : ∀ x, f.isNoise x → mark x = false)
include hmark

lemma settled_append {more : List Nat} (hmore : ∀ x ∈ more, f.isNoise x) :
    Settled f mark (list ++ more) ↔ Settled f mark list := by
  induction more using List.reverseRecOn with
  | nil => rw [append_nil]
  | append_singleton more b ih =>
    rw [← append_assoc, settled_concat, ih fun x hx => hmore x (by simp [hx])]
    simp [hmark b (hmore b (by simp))]

lemma settled_put (h : Settled f mark done) : Settled f mark (put f mark done a) := by
  rw [put]
  split_ifs with ha
  · rw [← lead_append_comments f done, settled_append hmark fun _ => isNoise_of_mem_comments] at h
    rw [append_cons, settled_append hmark fun _ => isNoise_of_mem_comments, settled_concat]
    exact ⟨h, fun _ => comments_lead f done⟩
  · exact settled_concat.2 ⟨h, fun hmark => absurd hmark ha⟩

lemma settled_foldl_put (h : Settled f mark done) :
    Settled f mark (list.foldl (put f mark) done) := by
  induction list generalizing done with
  | nil => exact h
  | cons a list ih => exact ih (settled_put hmark h)

end

/-- Marks pass over noise alone, so nodes keep their order where none is noise, or none a mark. -/
lemma filter_foldl_put {p : Nat → Bool}
    (hp : (∀ x, f.isNoise x → p x = false) ∨ ∀ x, mark x → p x = false) :
    (list.foldl (put f mark) done).filter p = done.filter p ++ list.filter p := by
  induction list generalizing done with
  | nil => simp
  | cons a list ih =>
    have hput : (put f mark done a).filter p = done.filter p ++ [a].filter p := by
      rw [put]
      split_ifs with ha
      · have hswap : (a :: comments f done).filter p = (comments f done).filter p ++
            [a].filter p := by
          obtain hp | hp := hp
          · have hnil : (comments f done).filter p = [] := filter_eq_nil_iff.2
              fun x hx => by simp [hp x (isNoise_of_mem_comments hx)]
            rw [hnil, nil_append, filter_cons, filter_cons, hnil, filter_nil]
          · simp [hp a ha]
        rw [filter_append, hswap, ← append_assoc, ← filter_append,
          lead_append_comments]
      · rw [filter_append]
    rw [foldl_cons, ih, hput, append_assoc, ← filter_append, singleton_append]

end

/-! ## The pass -/

section

variable {w w' : Workspace} {f g : Forest} {kind : Tag} {a n p : Nat} {c : Nat → Node}
  {list after visited : List Nat}

lemma comments_congr (htag : g.tag = f.tag) : lead g = lead f ∧ comments g = comments f := by
  constructor <;> funext list
  · rw [lead, lead, isComment_congr htag, isNoise_congr htag]
  · rw [comments, comments, isComment_congr htag, isNoise_congr htag]

/-- A node goes in front of the comments at the end of what is before it. -/
lemma moveBeforeComments_shows (h : Shows w.forest n c)
    (hlist : (c p).children = list ++ a :: after) :
    Does (moveBeforeComments a) w fun _ w' => Shows w'.forest n
      (relist c p (lead w.forest list ++ a :: comments w.forest list ++ after)) := by
  have hfirst : firstCommentBefore w.forest a = (comments w.forest list).head? := by
    rw [firstCommentBefore, h.wellFormed.siblingsBefore_eq ((h.children p).trans hlist), comments,
      ← find?_eq_head?_dropWhile_not]
    rfl
  have hsplit := lead_append_comments w.forest list
  refine ends_forest ?_
  rw [hfirst]
  cases hcomments : comments w.forest list with
  | nil =>
    rw [hcomments, append_nil] at hsplit
    rw [relist_self (by simp [hlist, hsplit])]
    exact ends_pure h
  | cons comment rest =>
    rw [hcomments] at hsplit
    refine ends_need_some (h.parent_of hlist) (ends_bind (ends_edit ?_))
    have hinsert := insertBefore_shows (a := a) (w := { w with forest := w.forest.detach a })
      (h.detach hlist) (lead w.forest list) (rest ++ after)
      (by rw [children_relist, ← cons_append, ← append_assoc, hsplit])
      (h.lt_size (p := p) (by simp [hlist]))
    simpa using hinsert

/-- What the nodes hold once those in `visited` have been visited. -/
def contentAfter (f : Forest) (kind : Tag) (visited : List Nat) (x : Nat) : Node :=
  { f.content x with
    children := (f.children x).foldl (put f fun id => id ∈ visited && f.is id kind) [] }

lemma foldl_put_visited (hlist : ∀ x ∈ list, x ∈ visited) (hafter : ∀ x ∈ after, x ∉ visited) :
    (list ++ after).foldl (put f fun id => id ∈ visited && f.is id kind) [] =
      list.foldl (put f (f.is · kind)) [] ++ after := by
  rw [foldl_append, foldl_put_of_not_mark fun x hx => by simp [hafter x hx],
    foldl_put_congr fun x hx => by rw [decide_eq_true (hlist x hx), Bool.true_and]]

lemma contentAfter_of_notMem {x : Nat} (h : ∀ y ∈ f.children x, y ∉ visited) :
    contentAfter f kind visited x = f.content x := by
  rw [contentAfter, ← nil_append (f.children x), foldl_put_visited (by simp) h]
  rfl

/-- A visit of a node that is not of the kind, or has no place, is of no effect. -/
lemma contentAfter_skip (h : ∀ x, a ∈ f.children x → f.is a kind = false) :
    contentAfter f kind (visited ++ [a]) = contentAfter f kind visited := by
  funext x
  rw [contentAfter, contentAfter, foldl_put_congr]
  intro y hy
  grind

lemma contentAfter_visit (hf : f.WellFormed) (hchildren : f.children p = list ++ a :: after)
    (hlist : ∀ x ∈ list, x ∈ visited) (ha : a ∉ visited) (hafter : ∀ x ∈ after, x ∉ visited) :
    (contentAfter f kind visited p).children = list.foldl (put f (f.is · kind)) [] ++ a :: after ∧
    contentAfter f kind (visited ++ [a]) = relist (contentAfter f kind visited) p
      (put f (f.is · kind) (list.foldl (put f (f.is · kind)) []) a ++ after) := by
  have hnodup := hf.nodup_children p
  rw [hchildren] at hnodup
  refine ⟨?_, funext fun x => ?_⟩
  · rw [contentAfter, hchildren, foldl_put_visited hlist (by grind)]
  by_cases hx : x = p
  · rw [relist, if_pos hx, hx, contentAfter, hchildren, append_cons list,
      foldl_put_visited (by grind) (by grind), foldl_concat]
    rfl
  · have hnot (b : Nat) (hb : b ∈ f.children x) : b ≠ a := by
      rintro rfl
      have hp := hf.parent_of_mem (c := b) (p := p) (by simp [hchildren])
      rw [hf.parent_of_mem hb] at hp
      exact hx (Option.some.inj hp)
    rw [relist, if_neg hx, contentAfter, contentAfter, foldl_put_congr]
    intro b hb
    simp [hnot b hb]

/-- The pass for one kind of punctuation. -/
lemma forEach_contentAfter (hw : Whole w) (kind : Tag) :
    ∃ w' visited, forEach kind moveBeforeComments w = .ok () w' ∧ Whole w' ∧
      (∀ x, x ∈ visited ↔ w.forest.Under x root) ∧
      Shows w'.forest w.forest.size (contentAfter w.forest kind visited) ∧
      ∀ x, w'.forest.parent x = w.forest.parent x := by
  have hf := hw.wellFormed
  have hmem (visited : List Nat) (p x : Nat) :
      x ∈ (contentAfter w.forest kind visited p).children ↔ x ∈ w.forest.children p := by
    simp [contentAfter, mem_foldl_put]
  refine forEach_shows hw (forEachMatch_safe hw fun id _ _ hw' _ => moveBeforeComments_safe hw' id)
    (fun _ _ => .refl _) (contentAfter w.forest kind) ?_ (fun _ _ => rfl) (fun _ _ =>
      hmem _) ?_ ?_ ?_
  · exact funext fun x => contentAfter_of_notMem (by simp)
  · intro visited id hturn
    rw [contentAfter_of_notMem]
    · rfl
    intro x hx hmem
    have hbelow := below_of_parent (hf.parent_of_mem hx)
    obtain hmem | hmem := mem_append.1 hmem
    · exact hturn.free x hbelow.under hmem
    · exact hf.acyclic id (mem_singleton.1 hmem ▸ hbelow)
  · exact fun visited id hkind => contentAfter_skip fun _ _ => hkind
  · intro visited id v hturn hkind h
    cases hp : w.forest.parent id with
    | none =>
      -- the root has no siblings, so there is nothing before it
      have hfirst : firstCommentBefore v.forest id = none := by
        simp [firstCommentBefore, siblingsBefore, siblings, h.parent_eq hf (hmem visited) id, hp]
      rw [contentAfter_skip fun x hx => by simp [hf.parent_of_mem hx] at hp]
      refine ends_forest ?_
      rw [hfirst]
      exact ends_pure h
    | some p =>
      obtain ⟨list, after, hchildren⟩ := append_of_mem (hf.mem_children_iff.2 hp)
      obtain ⟨hlist, hafter⟩ := hturn.siblings hp hchildren
      obtain ⟨hplace, hvisit⟩ := contentAfter_visit hf hchildren hlist
        (hturn.free id (.refl ..)) hafter
      obtain ⟨hlead, hcomments⟩ := comments_congr (funext h.tag)
      have hmove := moveBeforeComments_shows h hplace
      rw [hlead, hcomments] at hmove
      rw [hvisit, put, if_pos hkind]
      exact hmove

/-- The children of the nodes in the tree have been visited, and no others. -/
lemma mem_visited_iff (hw : Whole w) (hvisited : ∀ x, x ∈ visited ↔ w.forest.Under x root)
    {x y : Nat} (hy : y ∈ w.forest.children x) : y ∈ visited ↔ w.forest.Under x root := by
  have hparent := under_of_parent (hw.wellFormed.parent_of_mem hy)
  rw [hvisited]
  exact ⟨fun h => under_root_of_under hw.root_parent h hparent, fun h => hparent.trans h⟩

/-- Nothing is different but the order of children. Nodes of the kind keep their order, and so do
all others; and where a node of the kind follows on white space, there is no comment before that. -/
structure Tidied (kind : Tag) (f g : Forest) : Prop where
  size_eq : g.size = f.size
  node_eq : ∀ x, g.node x = { f.node x with children := g.children x }
  kind_eq : ∀ x, (g.children x).filter (f.is · kind) = (f.children x).filter (f.is · kind)
  others_eq : ∀ x, (g.children x).filter (!f.is · kind) = (f.children x).filter (!f.is · kind)
  not_comment : ∀ mark, g.Under mark root → g.is mark kind →
    ∀ before comment blanks, g.siblingsBefore mark = before ++ comment :: blanks →
      (∀ x ∈ blanks, g.isWhiteSpace x) → g.isComment comment = false

lemma isComment_eq_false_of_comments {before blanks : List Nat} {comment : Nat}
    (h : comments f (before ++ comment :: blanks) = [])
    (hblanks : ∀ x ∈ blanks, f.isWhiteSpace x) : f.isComment comment = false := by
  by_contra hcomment
  rw [Bool.not_eq_false] at hcomment
  rw [comments, rtakeWhile_append, dropWhile_eq_nil_iff] at h
  · simpa [hcomment] using h comment (by simp)
  · intro x hx
    obtain rfl | hx := mem_cons.1 hx
    · simp [isNoise, hcomment]
    · simp [isNoise, hblanks x hx]

section

variable (hw : Whole w) (hvisited : ∀ x, x ∈ visited ↔ w.forest.Under x root)
  (h : Shows w'.forest w.forest.size (contentAfter w.forest kind visited))
  (hparent : ∀ x, w'.forest.parent x = w.forest.parent x)
  (hkind : ∀ x, w.forest.isNoise x → w.forest.is x kind = false)
include hw hvisited h hparent hkind

lemma settled_children {x : Nat} (hx : w'.forest.Under x root) :
    Settled w'.forest (w'.forest.is · kind) (w'.forest.children x) := by
  have htag : w'.forest.tag = w.forest.tag := funext h.tag
  have hx : w.forest.Under x root := by simpa only [Under, hparent] using hx
  have hall : ∀ y ∈ w.forest.children x, y ∈ visited :=
    fun y hy => (mem_visited_iff hw hvisited hy).2 hx
  simp only [Settled, is, htag, (comments_congr htag).2]
  rw [h.children, contentAfter, ← append_nil (w.forest.children x),
    foldl_put_visited hall (by simp), append_nil]
  exact settled_foldl_put hkind (by simp [Settled])

lemma tidied_of_shows : Tidied kind w.forest w'.forest where
  size_eq := h.size_eq
  node_eq x := by
    rw [h.node_eq, hparent, Forest.children, h.node_eq]
    rfl
  kind_eq x := by
    rw [h.children, contentAfter, filter_foldl_put (.inl hkind), filter_nil, nil_append]
  others_eq x := by
    rw [h.children, contentAfter, filter_foldl_put, filter_nil, nil_append]
    simp +contextual
  not_comment mark hunder hmark before comment blanks hbefore hblanks := by
    cases hp : w'.forest.parent mark with
    | none => simp [siblingsBefore, siblings, hp] at hbefore
    | some p =>
      obtain ⟨list, after, hlist⟩ := append_of_mem (h.wellFormed.mem_children_iff.2 hp)
      rw [h.wellFormed.siblingsBefore_eq hlist] at hbefore
      have hp : w'.forest.Under p root :=
        under_root_of_under ((hparent root).trans hw.root_parent) hunder (under_of_parent hp)
      have hnil := settled_children hw hvisited h hparent hkind hp list mark after hlist hmark
      exact isComment_eq_false_of_comments (hbefore ▸ hnil) hblanks

end

/-- A second run leaves the forest as it is. -/
lemma forEach_again (hw : Whole w) (hsettled : ∀ x, w.forest.Under x root →
      Settled w.forest (w.forest.is · kind) (w.forest.children x)) :
    ∃ w', forEach kind moveBeforeComments w = .ok () w' ∧ w'.forest = w.forest := by
  obtain ⟨w', visited, hrun, -, hvisited, h, -⟩ := forEach_contentAfter hw kind
  refine ⟨w', hrun, ?_⟩
  have hsame : contentAfter w.forest kind visited = w.forest.content := by
    funext x
    by_cases hx : w.forest.Under x root
    · rw [contentAfter, foldl_put_of_settled]
      · rfl
      intro before id after hchildren hmark
      exact hsettled x hx before id after hchildren (Bool.and_eq_true_iff.1 hmark).2
    · exact contentAfter_of_notMem fun y hy hmem => hx ((mem_visited_iff hw hvisited hy).1 hmem)
  exact Shows.unique (.refl hw.wellFormed) (hsame ▸ h)

/-- Nodes of the kind come in front of comments, and then stay where they are. -/
lemma forEach_tidied (hkind : ∀ x, w.forest.isNoise x → w.forest.is x kind = false) (hw : Whole w) :
    ∃ w', forEach kind moveBeforeComments w = .ok () w' ∧ Tidied kind w.forest w'.forest ∧
      ∃ w'', forEach kind moveBeforeComments w' = .ok () w'' ∧ w''.forest = w'.forest := by
  obtain ⟨w', visited, hrun, hw', hvisited, h, hparent⟩ := forEach_contentAfter hw kind
  refine ⟨w', hrun, tidied_of_shows hw hvisited h hparent hkind, ?_⟩
  exact forEach_again hw' fun x => settled_children hw hvisited h hparent hkind

end

/-- The passes that move commas and semicolons in front of comments. -/
theorem punctuation_tidied {w : Workspace} (hw : Whole w) :
    (∃ w', moveCommas w = .ok () w' ∧ Tidied .comma w.forest w'.forest ∧
      ∃ w'', moveCommas w' = .ok () w'' ∧ w''.forest = w'.forest) ∧
    ∃ w', moveSemicolons w = .ok () w' ∧ Tidied .semicolon w.forest w'.forest ∧
      ∃ w'', moveSemicolons w' = .ok () w'' ∧ w''.forest = w'.forest := by
  have hnoise {kind : Tag} (hblank : kind ≠ .whiteSpace) (hcomment : kind.isComment = false)
      (x : Nat) (hx : w.forest.isNoise x) : w.forest.is x kind = false := by
    by_contra h
    obtain rfl : w.forest.tag x = kind := by simpa [is] using h
    simp [isNoise, isWhiteSpace, isComment, is, hblank, hcomment] at hx
  exact ⟨forEach_tidied (hnoise (by decide) (by decide)) hw,
    forEach_tidied (hnoise (by decide) (by decide)) hw⟩

open SyntaxTree

/-- A column, a comment, and a comma behind the comment. -/
def commentedColumns : SyntaxTree :=
  group .root [leaf .otherNode "a", leaf .whiteSpace " ", leaf .commentMultiLine "/* first */",
    leaf .whiteSpace " ", leaf .comma ",", leaf .otherNode "b"]

theorem punctuation_tidied_commentedColumns :
    let w : Workspace := { forest := ofTree commentedColumns }
    Whole w ∧ w.forest.siblingsBefore 5 = [1, 2, 3, 4] ∧ w.forest.isComment 3 ∧
      ∃ w', moveCommas w = .ok () w' ∧ Tidied .comma w.forest w'.forest := by
  intro w
  have hw : Whole w := whole_ofTree _
  obtain ⟨⟨w', hrun, htidied, -⟩, -⟩ := punctuation_tidied hw
  exact ⟨hw, by decide +kernel, by decide +kernel, w', hrun, htidied⟩

end Wording

end SqlDialect
