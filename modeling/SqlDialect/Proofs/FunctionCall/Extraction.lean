import SqlDialect.Proofs.Conversion.Content
import SqlDialect.Proofs.Conversion.Renew
import SqlDialect.Proofs.Forest.Keys
import SqlDialect.Proofs.Pass.FunctionCall
import SqlDialect.Proofs.SyntaxTree.Parts

/-!
# Nested date functions

A call of `datepart` or `datediff` may stand in a date of another one, to any depth.  `Translates`
says what such expressions become.  The conversion of a call leaves its dates, with all calls in
them, between the same brackets; so the walk, which comes to the brackets after the name, finds
these calls at their new places.
-/

namespace SqlDialect.DateFunction

open Conversion FunctionCall Forest List

open SyntaxTree (leaf group sizeAll sizeAll_append piecesAll piecesAll_append tokensAll
  tokensAll_append)

/-! ## Expressions -/

/-- The name of a function with brackets. -/
def call (name : String) (inner : List SyntaxTree) : List SyntaxTree :=
  [leaf .functionKeyword name, group .functionParens inner]

abbrev comma : SyntaxTree := leaf .comma ","

abbrev fromWord : SyntaxTree := leaf .otherKeyword "from"

abbrev minus : SyntaxTree := leaf .otherOperator "-"

def blanks (texts : List String) : List SyntaxTree := texts.map (leaf .whiteSpace)

/-- The inside of the brackets of a difference, with white space around the dates. -/
def differenceInner (unit start finish : List SyntaxTree) (l₁ r₁ l₂ r₂ : List String) :
    List SyntaxTree :=
  unit ++ comma :: ((blanks l₁ ++ (start ++ blanks r₁)) ++ comma ::
    (blanks l₂ ++ (finish ++ blanks r₂)))

/-- The inside after the conversion: the dates have changed places, and all white space stays. -/
def extractInner (unit start finish : List SyntaxTree) (l₁ r₁ l₂ r₂ : List String) :
    List SyntaxTree :=
  unit ++ fromWord ::
    (blanks l₁ ++ (blanks r₁ ++ (finish ++ minus :: (start ++ (blanks l₂ ++ blanks r₂)))))

/-- Neither the first nor the last of the nodes is white space. -/
def isTrimmed (tags : List Tag) : Bool :=
  tags.head? != some .whiteSpace && tags.getLast? != some .whiteSpace

def isDateFunction (tag : Tag) (text : String) : Bool :=
  tag == .functionKeyword && (Text.sameWord text "datepart" || Text.sameWord text "datediff")

/-- The translation of expressions, at every level. A part is extracted from the date, or from the
later date less the earlier one. -/
inductive Translates : List SyntaxTree → List SyntaxTree → Prop
  | nil : Translates [] []
  | node {tag : Tag} {text : String} {attributes : Dict String}
    {trees trees' rest rest' : List SyntaxTree} :
    isDateFunction tag text = false → Translates trees trees' → Translates rest rest' →
      Translates (.node tag text attributes trees :: rest)
        (.node tag text attributes trees' :: rest')
  | part {name : String} {unit unit' date date' rest rest' : List SyntaxTree} :
    Text.sameWord name "datepart" → .comma ∉ unit.map SyntaxTree.tag →
      Translates unit unit' → Translates date date' → Translates rest rest' →
      Translates (call name (unit ++ comma :: date) ++ rest)
        (call "extract" (unit' ++ fromWord :: date') ++ rest')
  | difference {name : String} {unit unit' start start' finish finish' rest rest' : List SyntaxTree}
    {l₁ r₁ l₂ r₂ : List String} : Text.sameWord name "datediff" →
      .comma ∉ unit.map SyntaxTree.tag → .comma ∉ start.map SyntaxTree.tag →
      isTrimmed (start.map SyntaxTree.tag) → isTrimmed (finish.map SyntaxTree.tag) →
      Translates unit unit' → Translates start start' → Translates finish finish' →
      Translates rest rest' →
      Translates (call name (differenceInner unit start finish l₁ r₁ l₂ r₂) ++ rest)
        (call "extract" (unit' ++ fromWord :: (finish' ++ minus :: start')) ++ rest')

/-! ## Calls -/

section

variable {w : Workspace} {f : Forest} {function id n parens : Nat} {name word : String}
  {before after ids : List Nat}
  {unit start finish inner inner' inner'' rest trees : List SyntaxTree}
  {l r l₁ r₁ l₂ r₂ : List String} {v : Nat → SyntaxTree}

lemma filter_is_eq_nil {tag : Tag} (hv : ∀ x ∈ ids, f.tag x = (v x).tag)
    (h : tag ∉ (ids.map v).map SyntaxTree.tag) : ids.filter (f.is · tag) = [] :=
  List.filter_eq_nil_iff.2 fun x hx his => h (List.mem_map.2
    ⟨v x, mem_map_of_mem hx, (hv x hx).symm.trans (tag_of_is his)⟩)

/-- The white space around other nodes is what is trimmed. -/
lemma exists_trimmed (hv : ∀ x ∈ ids, f.tag x = (v x).tag)
    (hids : ids.map v = blanks l ++ (trees ++ blanks r))
    (htrees : isTrimmed (trees.map SyntaxTree.tag) = true) :
    ∃ left middle right, ids = left ++ (middle ++ right) ∧ f.trimWhiteSpace ids = middle ∧
      left.map v = blanks l ∧ middle.map v = trees ∧ right.map v = blanks r := by
  obtain ⟨left, rest, rfl, hleft, hrest⟩ := List.map_eq_append_iff.1 hids
  obtain ⟨middle, right, rfl, rfl, hright⟩ := List.map_eq_append_iff.1 hrest
  have hblank {side : List Nat} {texts : List String} (hside : side.map v = blanks texts)
      (hmem : ∀ x ∈ side, x ∈ left ++ (middle ++ right)) : ∀ x ∈ side, f.isWhiteSpace x = true := by
    intro x hx
    obtain ⟨text, -, htext⟩ := List.mem_map.1 (hside ▸ mem_map_of_mem hx)
    rw [isWhiteSpace, is, hv x (hmem x hx), ← htext]
    rfl
  have hkeep (nodes : List Nat) (hnodes : ∀ x ∈ nodes.head?, f.isWhiteSpace x = false) :
      nodes.dropWhile f.isWhiteSpace = nodes := by
    cases nodes with
    | nil => rfl
    | cons x nodes => exact dropWhile_cons_of_neg (by simp [hnodes x rfl])
  have hend (x : Nat) (hx : middle.head? = some x ∨ middle.getLast? = some x) :
      f.isWhiteSpace x = false := by
    have hmem : x ∈ middle := hx.elim List.mem_of_head? List.mem_of_getLast?
    simp only [isTrimmed, map_map, List.head?_map, List.getLast?_map, Bool.and_eq_true,
      bne_iff_ne] at htrees
    rw [isWhiteSpace, is, hv x (by simp [hmem])]
    obtain hx | hx := hx
    · simpa [hx] using htrees.1
    · simpa [hx] using htrees.2
  have htrim : f.trimWhiteSpace (left ++ (middle ++ right)) = middle := by
    rw [trimWhiteSpace, dropWhile_append_of_pos (hblank hleft (by grind))]
    cases middle with
    | nil =>
      rw [nil_append, ← append_nil right, dropWhile_append_of_pos (hblank hright (by grind))]
      rfl
    | cons x middle =>
      rw [hkeep (x :: middle ++ right) (by simpa using hend x (.inl rfl)), reverse_append,
        dropWhile_append_of_pos (by simpa using hblank hright (by grind)),
        hkeep (x :: middle).reverse (by
          rw [List.head?_reverse]
          exact fun y hy => hend y (.inr hy)), reverse_reverse]
  exact ⟨left, middle, right, rfl, htrim, hleft, rfl, hright⟩

/-- The place of a call. -/
structure CallAt (w : Workspace) (id : Nat) (before : List Nat) (function parens : Nat)
    (after : List Nat) (name : String) (inner : List SyntaxTree) : Prop where
  children_eq : w.forest.children id = before ++ function :: parens :: after
  function_eq : w.forest.subtree function = leaf .functionKeyword name
  parens_eq : w.forest.subtree parens = group .functionParens inner

lemma CallAt.argumentsOf_eq (h : CallAt w id before function parens after name inner)
    (hw : Whole w) : argumentsOf w.forest function = some parens := by
  have htag := (hw.wellFormed.of_subtree_eq h.parens_eq).1
  rw [argumentsOf, hw.wellFormed.nextSibling_eq before (parens :: after) h.children_eq,
    List.find?_cons_of_pos (by simp [isNoise, isWhiteSpace, isComment, is, htag, Tag.isComment])]
  simp [htag, Tag.isParens]

/-- The workspace in which the function has its new name, and a keyword stands after the unit. -/
abbrev opened (w : Workspace) (function first : Nat) : Workspace :=
  { w with forest :=
    ((w.forest.setText function "extract").setTag first .otherKeyword).setText first "from" }

/-- Both conversions start alike. Then what is inside the brackets may be changed. -/
lemma CallAt.exists_opened (h : CallAt w id before function parens after name
    (unit ++ comma :: rest))
    (hw : Whole w) (hunit : .comma ∉ unit.map SyntaxTree.tag) : ∃ (U D : List Nat) (first : Nat),
      w.forest.children parens = U ++ first :: D ∧
      w.forest.childrenOf parens .comma = first :: D.filter (w.forest.is · .comma) ∧
      Whole (opened w function first) ∧ (opened w function first).forest.children parens =
      U ++ first :: D ∧ U.map (opened w function first).forest.subtree = unit ∧
      (opened w function first).forest.subtree first = fromWord ∧
      D.map (opened w function first).forest.subtree = rest ∧
      (∀ x ∈ D, w.forest.tag x = ((opened w function first).forest.subtree x).tag) ∧
      ∀ inner' w', Turned (opened w function first) parens
          (withChildren (opened w function first).forest parens inner') w' →
        Exchanged w id before [function, parens] after (call "extract" inner') w' := by
  have hlt : function < w.forest.size :=
    lt_size_of_parent
      (hw.wellFormed.parent_of_mem (by simp [h.children_eq] : function ∈ w.forest.children id))
  obtain ⟨w1, hw1eq⟩ : ∃ w1 : Workspace,
    w1 = { w with forest := w.forest.setText function "extract" } := ⟨_, rfl⟩
  have hname : Turned w function (leaf .functionKeyword "extract") w1 := by
    rw [hw1eq]
    exact ⟨grafted_setText hw.wellFormed hlt h.function_eq "extract", rfl⟩
  have hw1 := hname.whole hw
  have h1 := Exchanged.of_turned hname hw h.children_eq
  obtain ⟨hbefore, hfunction, hafter⟩ := h1.map_subtree
  obtain ⟨hparens, hafter⟩ := List.cons.inj hafter
  obtain ⟨htag, htext, hattributes, hviews⟩ :=
    hw1.wellFormed.of_subtree_eq (hparens.trans h.parens_eq)
  obtain ⟨U, _, hlist, rfl, hrest⟩ := List.map_eq_append_iff.1 hviews
  obtain ⟨first, D, rfl, hfirst, rfl⟩ := List.map_eq_cons_iff.1 hrest
  have hchildren : w.forest.children parens = U ++ first :: D := by
    rw [← hlist, hw1eq, (sameLinks_setText w.forest function "extract").children_eq]
  have htags (x : Nat) : w.forest.tag x = (w1.forest.subtree x).tag := by
    rw [tag_subtree, hw1eq, tag_setText]
  have hplace : w1.forest.parent first = some parens :=
    hw1.wellFormed.parent_of_mem (by simp [hlist])
  have hword : Turned w1 first fromWord (opened w function first) := by
    rw [hw1eq] at hw1 hplace hfirst ⊢
    exact ⟨grafted_relabel hw1.wellFormed (lt_size_of_parent hplace) hfirst .otherKeyword "from",
      rfl⟩
  have h2 := Exchanged.of_turned hword hw1 hlist
  obtain ⟨hU, hself, hD⟩ := h2.map_subtree
  refine ⟨U, D, first, hchildren, ?_, hword.whole hw1, by simp [h2.children_eq], hU,
    singleton_injective hself, hD, fun x hx => ?_, fun inner' w' h' => ?_⟩
  · have hcomma : w.forest.is first .comma = true := by
      rw [is, htags, hfirst]
      rfl
    rw [childrenOf, hchildren, filter_append, filter_is_eq_nil (fun x _ => htags x) hunit,
      nil_append, filter_cons_of_pos (p := (w.forest.is · .comma)) hcomma]
  · rw [htags, h2.subtree_eq (by simp [hx])]
  · rw [h2.withChildren_eq] at h'
    have hinside := h2.turned.trans hw1 h'
    rw [withChildren, htag, htext, hattributes] at hinside
    have hplace1 : w1.forest.children id = (before ++ [function]) ++ parens ::
      after := by simp [h1.children_eq]
    have h3 := Exchanged.of_turned hinside hw1 hplace1
    have hturned := h3.turned
    rw [h1.withChildren_eq, map_append, hbefore, hfunction, hafter] at hturned
    exact ⟨by simp [h3.children_eq], by simpa [call, group] using h1.turned.trans hw hturned⟩

lemma convertPart_exchanged (h : CallAt w id before function parens after name
    (unit ++ comma :: rest)) (hw : Whole w) (hunit : .comma ∉ unit.map SyntaxTree.tag) :
    Succeeds (convertPart function) w fun _ => Exchanged w id before [function, parens] after
      (call "extract" (unit ++ fromWord :: rest)) := by
  obtain ⟨U, D, first, -, hcommas, hw1, hlist, rfl, hfirst, rfl, -, hdone⟩ :=
    h.exists_opened hw hunit
  have hchild : w.forest.child parens .comma = some first := by
    have hfits : w.forest.fits .comma none = (w.forest.is · .comma) :=
      funext fun x => by simp [fits]
    rw [child, findChild, hfits, ← List.head?_filter, ← childrenOf, hcommas, List.head?_cons]
  refine ends_forest (ends_need_some (h.argumentsOf_eq hw) (ends_need_some hchild ?_))
  refine ends_bind (ends_edit (ends_bind (ends_edit (ends_edit (hdone _ _ ?_)))))
  have hview := hw1.wellFormed.subtree_eq parens
  rw [hlist, map_append, map_cons, hfirst] at hview
  rw [withChildren, ← hview]
  exact .refl hw1 parens

section Difference

variable {second : Nat} {P L₁ S R₁ L₂ F R₂ : List Nat}

/-- The second comma becomes a minus sign, around which the dates change places. -/
lemma swap_turned (hw : Whole w) (hsecond : w.forest.subtree second = comma)
    (hlist : w.forest.children parens = P ++ (S ++ (R₁ ++ second :: (L₂ ++ (F ++ R₂))))) :
    Succeeds (do
      setTag second .otherOperator
      setText second "-"
      moveAllBefore parens second F
      discard <| moveAllAfter parens second S) w fun _ =>
        Turned w parens (withChildren w.forest parens
        ((P ++ (R₁ ++ F)).map w.forest.subtree ++ minus ::
          (S ++ (L₂ ++ R₂)).map w.forest.subtree)) := by
  have hplace : w.forest.children parens = (P ++ (S ++ R₁)) ++ second :: (L₂ ++ (F ++ R₂)) := by
    simp [hlist]
  have hparent : w.forest.parent second = some parens :=
    hw.wellFormed.parent_of_mem (by simp [hlist])
  obtain ⟨w1, hw1eq⟩ : ∃ w1 : Workspace,
    w1 = { w with forest := (w.forest.setTag second .otherOperator).setText second "-" } := ⟨_, rfl⟩
  have hminus : Turned w second minus w1 := by
    rw [hw1eq]
    exact ⟨grafted_relabel hw.wellFormed (lt_size_of_parent hparent) hsecond .otherOperator "-",
      rfl⟩
  have h1 := Exchanged.of_turned hminus hw hplace
  have hw1 := h1.turned.whole hw
  have hplaceF := h1.children_eq
  rw [append_assoc, singleton_append] at hplaceF
  refine ends_bind (ends_edit (ends_bind (ends_edit (ends_bind ?_))))
  rw [← hw1eq]
  refine (forM_moveBefore_rearranged hw1.wellFormed hplaceF).imp ?_
  rintro - w2 ⟨hnotes, h2, hlist2⟩
  have hplaceS :
    w2.forest.children parens = P ++ (S ++ ((R₁ ++ F) ++ second :: (L₂ ++ R₂))) := by simp [hlist2]
  refine ends_discard ((moveAllAfter_rearranged h2.wellFormed hplaceS).imp ?_)
  rintro - w3 ⟨hnotes', h3, hlist3⟩
  have hmem : ∀ x ∈ P ++ (S ++ (R₁ ++ second :: (L₂ ++ (F ++ R₂)))),
    w1.forest.parent x = some parens :=
    fun x hx => hw1.wellFormed.parent_of_mem (by rw [hplaceF]; grind)
  have hturned :=
    turned_of_rearranged (h2.trans h3 (.inl rfl)) hw1
      (hw1.wellFormed.parent_lt (hmem second (by simp)))
    (hnotes'.trans hnotes) (fun a ha => hmem a (by grind)) (fun x hx =>
      hmem x (by rw [hlist3] at hx; grind))
  have hP := map_congr_left fun x (hx : x ∈ P ++ (R₁ ++ F)) => h1.subtree_eq (x := x) (by grind)
  have hS := map_congr_left fun x (hx : x ∈ S ++ (L₂ ++ R₂)) => h1.subtree_eq (x := x) (by grind)
  rw [← hP, ← hS]
  rw [h1.withChildren_eq, hlist3] at hturned
  simpa [singleton_injective h1.map_subtree.2.1] using h1.turned.trans hw hturned

lemma convertDifference_exchanged
    (h : CallAt w id before function parens after name
      (differenceInner unit start finish l₁ r₁ l₂ r₂)) (hw : Whole w)
    (hunit : .comma ∉ unit.map SyntaxTree.tag) (hcomma : .comma ∉ start.map SyntaxTree.tag)
    (hstart : isTrimmed (start.map SyntaxTree.tag))
    (hfinish : isTrimmed (finish.map SyntaxTree.tag)) :
    Succeeds (convertDifference function) w fun _ => Exchanged w id before [function, parens] after
      (call "extract" (extractInner unit start finish l₁ r₁ l₂ r₂)) := by
  obtain ⟨U, D, first, hlist, hcommas, hw1, hlist1, rfl, hfirst, hviews, htags, hdone⟩ :=
    h.exists_opened hw hunit
  obtain ⟨B, _, rfl, hB, hrest⟩ := List.map_eq_append_iff.1 hviews
  obtain ⟨second, A, rfl, hsecond, hA⟩ := List.map_eq_cons_iff.1 hrest
  have hnone : B.filter (w.forest.is · .comma) = [] := by
    refine filter_is_eq_nil (fun x hx => htags x (by simp [hx])) ?_
    simpa [hB, blanks, leaf, SyntaxTree.tag] using hcomma
  have hlast : w.forest.is second .comma = true := by
    rw [is, htags second (by simp), hsecond]
    rfl
  rw [filter_append, hnone, nil_append,
    filter_cons_of_pos (p := (w.forest.is · .comma)) hlast] at hcommas
  have hearlier := partBetween_eq hw.wellFormed hlist
  have hlater : partAfter w.forest parens second = w.forest.trimWhiteSpace A :=
    partAfter_eq hw.wellFormed (hlist.trans (append_assoc U (first :: B) (second :: A)).symm)
  obtain ⟨L₁, S, R₁, rfl, hmiddle, hL₁, hS, hR₁⟩ :=
    exists_trimmed (fun x hx => htags x (by simp [hx])) hB hstart
  obtain ⟨L₂, F, R₂, rfl, hend, hL₂, hF, hR₂⟩ :=
    exists_trimmed (fun x hx => htags x (by simp [hx])) hA hfinish
  refine ends_forest (ends_need_some (h.argumentsOf_eq hw) ?_)
  rw [hcommas]
  refine ends_bind (ends_edit (ends_bind (ends_bind (ends_edit (ends_edit ?_)))))
  rw [hearlier, hlater, hmiddle, hend]
  have hplace : _ = (U ++ first :: L₁) ++ (S ++ (R₁ ++ second :: (L₂ ++ (F ++ R₂)))) :=
    hlist1.trans (by simp)
  refine (swap_turned hw1 hsecond hplace).imp fun _ w' h' => ?_
  simpa [extractInner, hfirst, hL₁, hS, hR₁, hL₂, hF, hR₂] using hdone _ _ h'

end Difference

/-! ## Walks -/

variable {late : Bool}

/-- The function that a pass converts; that for differences is the later one. -/
def wordOf (late : Bool) : String := if late then "datediff" else "datepart"

def convertCall (late : Bool) : NodeId → Conversion Unit :=
  if late then convertDifference else convertPart

/-- What a pass makes of nodes side by side. -/
abbrev Converts (late : Bool) : Nat → List SyntaxTree → List SyntaxTree → Prop :=
  Sweeps (matchVisit .functionKeyword (some (wordOf late)) (convertCall late)) fun _ _ => True

/-- A node that is no such call. -/
lemma converts_node {tag : Tag} {text : String} {attributes : Dict String}
    {trees trees' : List SyntaxTree}
    (h : (tag == .functionKeyword && Text.sameWord text (wordOf late)) = false)
    (htrees : Converts late n trees trees') :
    Converts late (n + 1) [.node tag text attributes trees] [.node tag text attributes trees'] :=
  htrees.node n.lt_succ_self (matchVisit_idle h) fun _ _ _ _ _ _ => trivial

/-- A call of another function. -/
lemma converts_other (hname : Text.sameWord name (wordOf late) = false)
    (hinner : Converts late n inner inner') :
    Converts late (n + 1) (call name inner) (call name inner') :=
  .concat stable_true (converts_node (by simp [hname]) .nil) (converts_node rfl hinner)

/-- A call that is converted. The walk comes to the brackets as the conversion has left them. -/
lemma converts_call (hname : Text.sameWord name (wordOf late) = true)
    (hconvert : ∀ {w : Workspace} {id function parens : Nat} {before after : List Nat},
      CallAt w id before function parens after name inner → Whole w →
        Succeeds (convertCall late function) w fun _ =>
          Exchanged w id before [function, parens] after (call "extract" inner''))
    (hinner : Converts late n inner'' inner') :
    Converts late (n + 1) (call name inner) (call "extract" inner') := by
  have hparens :
    Converts late (n + 1) [group .functionParens inner''] [group .functionParens inner'] :=
    converts_node rfl hinner
  change Converts late (n + 1) ([leaf .functionKeyword name] ++ [group .functionParens inner])
    ([leaf .functionKeyword "extract"] ++ [group .functionParens inner'])
  refine .append stable_true (by rfl) ?_ hparens
  intro limit id before first last after w hlimit hw _ hchildren hfirst hlast
  obtain ⟨function, rfl, hfunction⟩ := List.map_eq_singleton_iff.1 hfirst
  obtain ⟨parens, rfl, hparens⟩ := List.map_eq_singleton_iff.1 hlast
  have hcall : CallAt w id before function parens after name inner :=
    ⟨by simp [hchildren], hfunction, hparens⟩
  obtain ⟨htag, htext, -, -⟩ := hw.wellFormed.of_subtree_eq hfunction
  obtain ⟨limit, rfl⟩ : ∃ n, limit = n + 1 := ⟨limit - 1, by omega⟩
  have hparent : w.forest.parent function = some id :=
    hw.wellFormed.parent_of_mem (by simp [hchildren])
  have hfits : w.forest.fits .functionKeyword (some (wordOf late)) function = true := by
    simp [fits, is, hasText, htag, htext, hname]
  refine walkAlong_cons hparent (walkFrom_match hfits ((hconvert hcall hw).imp fun _ w1 h1 => ?_))
  have hname1 := (List.cons.inj h1.map_subtree.2.1).1
  have hleaf := (h1.turned.grafted.wellFormed.of_subtree_eq hname1).2.2.2
  exact ⟨List.map_eq_nil_iff.1 hleaf, ends_pure ⟨[function], h1⟩⟩

/-- What the two passes make of nodes side by side, one after the other. In the end there are the
pieces of `trees'`, and no date function. -/
structure Stages (n : Nat) (trees mid final trees' : List SyntaxTree) : Prop where
  first : Converts false n trees mid
  second : Converts true n mid final
  tag_eq : mid.map SyntaxTree.tag = trees.map SyntaxTree.tag
  pieces_eq : piecesAll final = piecesAll trees'
  none_left : ∀ token ∈ tokensAll final, isDateFunction token.1 token.2 = false

namespace Stages

variable {mid final trees' mid' final' rest' : List SyntaxTree} {tag : Tag} {text : String}

lemma nil : Stages n [] [] [] [] := ⟨.nil, .nil, rfl, rfl, by simp [tokensAll]⟩

lemma append (h : Stages n trees mid final trees') (hrest : Stages n rest mid' final' rest') :
    Stages n (trees ++ rest) (mid ++ mid') (final ++ final') (trees' ++ rest') where
  first := h.first.concat stable_true hrest.first
  second := h.second.concat stable_true hrest.second
  tag_eq := by rw [map_append, h.tag_eq, hrest.tag_eq, map_append]
  pieces_eq := by rw [piecesAll_append, h.pieces_eq, hrest.pieces_eq, piecesAll_append]
  none_left := by
    rw [tokensAll_append]
    exact List.forall_mem_append.2 ⟨h.none_left, hrest.none_left⟩

lemma node {attributes : Dict String} (htag : isDateFunction tag text = false)
    (h : Stages n trees mid final trees') : Stages (n + 1) [.node tag text attributes trees]
      [.node tag text attributes mid] [.node tag text attributes final]
        [.node tag text attributes trees'] := by
  have hword (late : Bool) :
      (tag == .functionKeyword && Text.sameWord text (wordOf late)) = false := by
    cases late <;> simp_all [isDateFunction, wordOf]
  refine ⟨converts_node (hword false) h.first, converts_node (hword true) h.second, rfl, ?_, ?_⟩
  · simp only [piecesAll, SyntaxTree.pieces, h.pieces_eq]
  · have hself := h.none_left
    simp only [tokensAll, SyntaxTree.tokens]
    grind

lemma leaf (htag : isDateFunction tag text = false) :
    Stages (n + 1) [.leaf tag text] [.leaf tag text] [.leaf tag text] [.leaf tag text] :=
  nil.node htag

lemma blanks (texts : List String) :
    Stages (n + 1) (blanks texts) (DateFunction.blanks texts) (DateFunction.blanks texts) [] := by
  induction texts with
  | nil => exact nil
  | cons text texts ih => exact { (leaf rfl).append ih with pieces_eq := ih.pieces_eq }

lemma extracted (h : Stages n trees mid final trees') : Stages (n + 1) (call "extract" trees)
    (call "extract" mid) (call "extract" final) (call "extract" trees') :=
  (nil.node (by decide +kernel)).append (h.node rfl)

/-- The first pass converts the call. -/
lemma part (hname : Text.sameWord name "datepart") (hunit : .comma ∉ unit.map SyntaxTree.tag)
    (h : Stages n (unit ++ fromWord :: rest) mid final trees') : Stages (n + 1)
      (call name (unit ++ comma :: rest)) (call "extract" mid) (call "extract" final)
        (call "extract" trees') :=
  { h.extracted with
    first := converts_call hname (fun hcall hw => convertPart_exchanged hcall hw hunit) h.first
    tag_eq := rfl }

/-- The second pass converts the call, in which the first one has been at work. -/
lemma difference (hname : Text.sameWord name "datediff") (hunit : .comma ∉ unit.map SyntaxTree.tag)
    (hcomma : .comma ∉ start.map SyntaxTree.tag) (hstart : isTrimmed (start.map SyntaxTree.tag))
    (hfinish : isTrimmed (finish.map SyntaxTree.tag))
    (h : Stages n trees (differenceInner unit start finish l₁ r₁ l₂ r₂) mid rest)
    (h' : Stages n rest' (extractInner unit start finish l₁ r₁ l₂ r₂) final trees') : Stages (n + 1)
      (call name trees) (call name (differenceInner unit start finish l₁ r₁ l₂ r₂))
      (call "extract" final) (call "extract" trees') := by
  have hother : Text.sameWord name "datepart" = false := by
    rw [Text.sameWord, beq_iff_eq] at hname
    rw [Text.sameWord, hname]
    decide +kernel
  exact { h'.extracted with
    first := converts_other hother h.first
    second := converts_call hname (fun hcall hw =>
      convertDifference_exchanged hcall hw hunit hcomma hstart hfinish) h'.second
    tag_eq := rfl }

end Stages

/-- Both passes convert expressions at every level. -/
lemma Translates.exists_stages {trees' : List SyntaxTree} (h : Translates trees trees') :
    ∀ {n : Nat}, sizeAll trees ≤ n → ∃ mid final, Stages n trees mid final trees' := by
  induction h with
  | nil => exact fun _ => ⟨[], [], .nil⟩
  | node htag _ _ ih ihrest =>
    intro n hn
    rw [sizeAll, SyntaxTree.size] at hn
    obtain ⟨n, rfl⟩ : ∃ m, n = m + 1 := ⟨n - 1, by omega⟩
    obtain ⟨_, _, h⟩ := ih (by omega : _ ≤ n)
    obtain ⟨_, _, hrest⟩ := ihrest (by omega : _ ≤ n + 1)
    exact ⟨_, _, (h.node htag).append hrest⟩
  | part hname hcomma _ _ _ ihunit ihdate ihrest =>
    intro n hn
    simp only [call, group, leaf, sizeAll, SyntaxTree.size, sizeAll_append] at hn
    obtain ⟨n, rfl⟩ : ∃ m, n = m + 2 := ⟨n - 2, by omega⟩
    obtain ⟨_, _, hunit⟩ := ihunit (by omega : _ ≤ n + 1)
    obtain ⟨_, _, hdate⟩ := ihdate (by omega : _ ≤ n + 1)
    obtain ⟨_, _, hrest⟩ := ihrest (by omega : _ ≤ n + 2)
    exact ⟨_, _, (Stages.part hname hcomma (hunit.append ((Stages.leaf rfl).append hdate))).append
      hrest⟩
  | @difference name unit unit' start start' finish finish' rest rest' l₁ r₁ l₂ r₂ hname
      hunit hcomma hstart hfinish _ _ _ _ ihunit ihstart ihfinish ihrest =>
    intro n hn
    simp only [call, group, leaf, differenceInner, sizeAll, SyntaxTree.size, sizeAll_append] at hn
    obtain ⟨n, rfl⟩ : ∃ m, n = m + 2 := ⟨n - 2, by omega⟩
    obtain ⟨mu, _, hu⟩ := ihunit (by omega : _ ≤ n + 1)
    obtain ⟨ms, _, hs⟩ := ihstart (by omega : _ ≤ n + 1)
    obtain ⟨mf, _, hf⟩ := ihfinish (by omega : _ ≤ n + 1)
    obtain ⟨_, _, hrest⟩ := ihrest (by omega : _ ≤ n + 2)
    rw [← hu.tag_eq] at hunit
    rw [← hs.tag_eq] at hcomma hstart
    rw [← hf.tag_eq] at hfinish
    have hblanks (texts : List String) := Stages.blanks (n := n) texts
    have hbefore : Stages (n + 1) (differenceInner unit start finish l₁ r₁ l₂ r₂)
        (differenceInner mu ms mf l₁ r₁ l₂ r₂) _ _ := hu.append (.append (.leaf rfl) (.append
      ((hblanks l₁).append (hs.append (hblanks r₁)))
      (.append (.leaf rfl) ((hblanks l₂).append (hf.append (hblanks r₂))))))
    have hlast := hs.append ((hblanks l₂).append (hblanks r₂))
    rw [append_nil, append_nil] at hlast
    have hafter : Stages (n + 1) (extractInner unit start finish l₁ r₁ l₂ r₂)
        (extractInner mu ms mf l₁ r₁ l₂ r₂) _ _ :=
      hu.append (.append (.leaf rfl) ((hblanks l₁).append
        ((hblanks r₁).append (hf.append (.append (.leaf rfl) hlast)))))
    exact ⟨_, _, (Stages.difference hname hunit hcomma hstart hfinish hbefore hafter).append hrest⟩

/-- The passes for the two functions, one after the other. -/
def extractionPasses : List Pass := [⟨"datepart", convertParts⟩, ⟨"datediff", convertDifferences⟩]

/-- Every call of `datepart` and `datediff` is translated, however deep it is in the dates of
others. The script that comes out is that of the translation, and no such call is in it. -/
theorem runPasses_extraction {trees' : List SyntaxTree} (hw : Whole w)
    (htree : w.forest.tree = group .root trees)
    (h : Translates trees trees') : ∃ w', runPasses extractionPasses w = .ok w' ∧
      w'.forest.tree.pieces = (group .root trees').pieces ∧
      ∀ token ∈ w'.forest.tree.tokens, isDateFunction token.1 token.2 = false := by
  have hidle {late : Bool} {trees : List SyntaxTree} {w : Workspace} (hw : Whole w)
      (htree : w.forest.tree = group .root trees) :
      Succeeds (matchVisit .functionKeyword (some (wordOf late)) (convertCall late) root) w
        fun decision w' => decision = .descend ∧ w' = w :=
    matchVisit_idle rfl root w (hw.wellFormed.of_subtree_eq htree).1
      (hw.wellFormed.of_subtree_eq htree).2.1
  obtain ⟨mid, final, hstages⟩ := h.exists_stages (sizeAll_le_size hw htree)
  obtain ⟨_, w1, hrun1, h1⟩ := (hstages.first.walk hw htree trivial (hidle hw htree)).exists_ok
  have hw1 := h1.whole hw
  obtain ⟨_, w2, hrun2, h2⟩ := ((hstages.second.mono (fun _ _ h => h) h1.grafted.size_le).walk hw1
    h1.grafted.subtree_eq trivial (hidle hw1 h1.grafted.subtree_eq)).exists_ok
  refine ⟨w2, (runPasses_of_ok hrun1).trans (runPasses_of_ok hrun2), ?_⟩
  have hroot : Stages _ [group .root trees] [group .root mid] [group .root final]
      [group .root trees'] := hstages.node rfl
  rw [show w2.forest.tree = _ from h2.grafted.subtree_eq]
  simpa [group, piecesAll, tokensAll] using And.intro hroot.pieces_eq hroot.none_left

end

/-- Calls in both dates of a call. -/
def nestedDates : List SyntaxTree :=
  call "datediff" (differenceInner [leaf .otherNode "day"]
    (call "datepart" ([leaf .otherNode "year"] ++ comma :: [leaf .otherNode "a"]) ++ [])
    (call "datediff" (differenceInner [leaf .otherNode "month"] [leaf .otherNode "b"]
      [leaf .otherNode "c"] [" "] [] [" "] []) ++ []) [" "] [] [" "] []) ++ []

theorem runPasses_extraction_nestedDates :
    let w : Workspace := { forest := ofTree (group .root nestedDates) }
    Whole w ∧ ∃ trees, Translates nestedDates trees ∧ ∃ w', runPasses extractionPasses w = .ok w' ∧
      w'.forest.tree.render =
        "extract(day from extract(month from c - b) - extract(year from a))" := by
  intro w
  have hw : Whole w := whole_ofTree _
  have hname (text : String) : Translates [leaf .otherNode text] [leaf .otherNode text] :=
    .node rfl .nil .nil
  have hsame (word : String) : Text.sameWord word word = true := beq_self_eq_true _
  have htranslates : Translates nestedDates _ :=
    .difference (hsame _) (by decide) (by decide) (by decide)
    (by decide) (hname "day") (.part (hsame _) (by decide) (hname "year") (hname "a") .nil)
    (.difference (hsame _) (by decide) (by decide) (by decide) (by decide) (hname "month")
      (hname "b") (hname "c") .nil) .nil
  obtain ⟨w', hrun, hpieces, -⟩ := runPasses_extraction hw (tree_ofTree _) htranslates
  refine ⟨hw, _, htranslates, w', hrun, ?_⟩
  rw [SyntaxTree.render, hpieces]
  decide +kernel

end SqlDialect.DateFunction
