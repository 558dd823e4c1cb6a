import SqlDialect.Proofs.Conversion.Content
import SqlDialect.Proofs.Pass.StringAggregate
import SqlDialect.Proofs.SyntaxTree.Parts

/-!
# The ordering of an aggregation

The ordering is in the clause after the one with the call, and that clause goes as a whole.  What is
in it beside the ordering goes with it.  The ordering comes to the call that is visited, wherever in
the clause the word `within` is.
-/

namespace SqlDialect.StringAggregate

open Conversion Forest FunctionCall SyntaxTree

variable {w : Workspace} {f : Forest} {c : Nat → Node} {arguments n ordering part : Nat}
    {done rest : List Nat}

/-- A call, and the parts of the clauses of which its conversion is made. -/
structure OrderedCall (f : Forest)
    (function clause statement within group ordering arguments : Nat) : Prop where
  clause_eq : f.parent function = some clause
  statement_eq : f.parent clause = some statement
  within_eq : f.childWithText clause .otherNode "within" = some within
  group_eq : f.nextSibling clause = some group
  ordering_eq : f.child group .expressionParens = some ordering
  arguments_eq : argumentsOf f function = some arguments

/-- What a part of an ordering comes to: itself, or its children if it has some. -/
def given (c : Nat → Node) (part : Nat) : List Nat :=
  if (c part).children = [] then [part] else (c part).children

/-- What the nodes hold once some parts of the ordering are among the arguments. -/
def merged (c : Nat → Node) (arguments ordering : Nat) (done rest : List Nat) (x : Nat) : Node :=
  { c x with children :=
      if x = arguments then (c x).children ++ done.flatMap (given c)
      else if x = ordering then done.filter (fun p => (c p).children ≠ []) ++ rest
      else if x ∈ done then [] else (c x).children }

lemma moveOrdering_shows (h : Shows w.forest n (merged c arguments ordering done (part :: rest)))
    (hn : arguments < n) (hordering : arguments ≠ ordering) (hpart : part ∉ [arguments, ordering])
    (hnodup : part ∉ done) :
    Does (moveOrdering arguments part) w fun _ w' =>
      Shows w'.forest n (merged c arguments ordering (done ++ [part]) rest) := by
  simp only [List.mem_cons, List.not_mem_nil, or_false, not_or] at hpart
  have hchildren : w.forest.children part = (c part).children := by
    rw [h.children, merged]
    simp [hpart, hnodup]
  refine ends_forest ?_
  rw [hchildren]
  split
  · rename_i hleaf
    have hlist : (merged c arguments ordering done (part :: rest) ordering).children =
        done.filter (fun p => (c p).children ≠ []) ++ part ::
          rest := by simp [merged, hordering.symm]
    refine (moveTo_shows h hlist hn hordering).imp fun _ w1 h1 =>
      ⟨h1.wellFormed, h1.size_eq, fun x => ?_⟩
    rw [h1.content_eq]
    by_cases ha : x = arguments
    · simp [ha, relist, merged, given, hleaf, hordering]
    by_cases ho : x = ordering
    · simp [ho, relist, merged, hleaf, hordering.symm]
    by_cases hp : x = part
    · simp [hp, relist, merged, hpart, hnodup, hleaf]
    · simp [ha, ho, hp, relist, merged]
  · rename_i hnodes
    have hnodes : (c part).children ≠ [] := hnodes
    have hlist : (merged c arguments ordering done (part :: rest) part).children =
        (c part).children := by
      simp [merged, hpart, hnodup]
    have hmem : ∀ a ∈ (c part).children,
        a ∈ (merged c arguments ordering done (part :: rest) part).children := by
      simp [hlist]
    refine (moveAllTo_shows h hn (hchildren ▸ h.wellFormed.nodup_children part)
      fun a ha => h.lt_size (hmem a ha)).imp fun _ w1 h1 => ⟨h1.wellFormed, h1.size_eq, fun x => ?_⟩
    rw [h1.content_eq, h.without_eq hmem]
    by_cases ha : x = arguments
    · simp [ha, relist, merged, given, hnodes, Ne.symm hpart.1]
    by_cases ho : x = ordering
    · simp [ho, relist, merged, hnodes, hordering.symm, Ne.symm hpart.2]
    by_cases hp : x = part
    · simp [hp, relist, merged, hpart, hnodup]
    · simp [ha, ho, hp, relist, merged]

section

variable {clause function group statement within : Nat}
  (h : OrderedCall f function clause statement within group ordering arguments) (hf : f.WellFormed)
include h hf

lemma OrderedCall.parent_arguments : f.parent arguments = some clause :=
  (siblings_of_argumentsOf hf h.arguments_eq).parent h.clause_eq

lemma OrderedCall.parent_ordering : f.parent ordering = some group :=
  hf.parent_of_child h.ordering_eq

lemma OrderedCall.parent_group : f.parent group = some statement :=
  (hf.siblings_of_nextSibling h.group_eq).parent h.statement_eq

/-- The arguments and the ordering are two levels below the statement, in two of its clauses. -/
lemma OrderedCall.depths : f.depth clause = f.depth statement + 1 ∧
    f.depth group = f.depth statement + 1 ∧
    f.depth arguments = f.depth statement + 2 ∧ f.depth ordering = f.depth statement + 2 ∧
    clause ≠ group ∧ arguments ≠ ordering := by
  have harguments := h.parent_arguments hf
  have hordering := h.parent_ordering hf
  have hne : clause ≠ group := (hf.siblings_of_nextSibling h.group_eq).1
  have hclause := hf.depth_of_parent h.statement_eq
  have hgroup := hf.depth_of_parent (h.parent_group hf)
  refine ⟨hclause, hgroup, by rw [hf.depth_of_parent harguments, hclause],
    by rw [hf.depth_of_parent hordering, hgroup], hne, ?_⟩
  rintro rfl
  exact hne (Option.mem_unique harguments hordering)

lemma convertOrdering_shows {notes : Notes} :
    Does (convertOrdering function) { forest := f, notes } fun _ w' => Shows w'.forest f.size
      (merged (relist (relist f.content clause ((f.children clause).erase within)) statement
        ((f.children statement).erase group)) arguments ordering (f.children ordering) []) := by
  have hshows := Shows.refl hf
  have hdepths := h.depths hf
  have hmem {a p : Nat} (ha : f.parent a = some p) :
      ∃ before after, (f.content p).children = before ++ a :: after :=
    List.append_of_mem (hf.mem_children_iff.2 ha)
  obtain ⟨before1, after1, hlist1⟩ := hmem (hf.parent_of_childWithText h.within_eq)
  obtain ⟨before2, after2, hlist2⟩ := hmem (h.parent_group hf)
  refine ends_forest (ends_need_some h.clause_eq ?_)
  simp only [h.within_eq]
  refine ends_need_some h.group_eq (ends_need_some h.ordering_eq (ends_need_some h.arguments_eq ?_))
  refine (removeChild_shows hshows _ _ hlist1).bind fun _ w1 _ h1 => ?_
  have hlist : (relist f.content clause (before1 ++ after1) statement).children =
      before2 ++ group :: after2 := by
    rw [relist, if_neg (by grind), hlist2]
  refine ends_bind (ends_edit (ends_forest ?_))
  have h2 := h1.detach hlist
  rw [← hshows.erase_eq hlist1, ← hshows.erase_eq hlist2] at h2
  generalize hc : relist (relist f.content clause _) statement _ = c at h2
  have hparts : (c ordering).children = f.children ordering := by
    rw [← hc, relist, if_neg (by grind), relist, if_neg (by grind)]
    rfl
  rw [h2.children, hparts]
  refine ends_forM (fun rest w' => ∃ done, f.children ordering = done ++ rest ∧
    Shows w'.forest f.size (merged c arguments ordering done rest))
    ⟨[], rfl, h2.wellFormed, h2.size_eq, fun x => ?_⟩ ?_ ?_
  · rw [h2.content_eq]
    by_cases hx : x = ordering <;> simp [merged, hx, ← hparts]
  · rintro part rest w3 ⟨done, hdone, h3⟩
    have hpart :=
      hf.depth_of_parent (hf.parent_of_mem (show part ∈ f.children ordering by simp [hdone]))
    have hnodup := hf.nodup_children ordering
    rw [hdone] at hnodup
    exact (moveOrdering_shows h3 (lt_size_of_parent (h.parent_arguments hf))
      hdepths.2.2.2.2.2 (by grind)
      (by grind)).imp fun _ w4 h4 => ⟨done ++ [part], by simp [hdone], h4⟩
  · rintro w3 ⟨done, hdone, h3⟩
    rw [hdone, List.append_nil]
    subst hc
    exact h3

end

/-- The tokens of some nodes. -/
def spoken (f : Forest) (ids : List Nat) : List (Tag × String) :=
  tokensAll (ids.map f.subtree)

@[simp] lemma spoken_append (ids ids' : List Nat) :
    spoken f (ids ++ ids') = spoken f ids ++ spoken f ids' := by
  rw [spoken, List.map_append, tokensAll_append, spoken, spoken]

lemma spoken_cons (id : Nat) (ids : List Nat) :
    spoken f (id :: ids) = (f.subtree id).tokens ++ spoken f ids := rfl

/-- The token that a node is, if it is one. -/
def ownToken (f : Forest) (id : Nat) : List (Tag × String) :=
  if (f.tag id).isToken && f.tag id != .whiteSpace && !(f.tag id).isComment then
    [(f.tag id, f.text id)] else []

lemma tokens_subtree (hf : f.WellFormed) (id : Nat) :
    (f.subtree id).tokens = ownToken f id ++ spoken f (f.children id) := by
  rw [hf.subtree_eq, tokens, spoken, ownToken]

lemma tokens_subtree_of_not_isToken (hf : f.WellFormed) {id : Nat}
    (h : (f.tag id).isToken = false) : (f.subtree id).tokens = spoken f (f.children id) := by
  rw [tokens_subtree hf, ownToken, h, Bool.false_and, Bool.false_and, if_neg Bool.false_ne_true,
    List.nil_append]

/-- Between the arguments and the ordering there are no tokens but the words `within` and `group`,
and none after the two in their clauses. -/
structure IsBare (f : Forest) (clause statement within group keyword ordering arguments : Nat) :
    Prop where
  clause_eq : ∃ before gap after, f.children clause = before ++ arguments ::
    (gap ++ within :: after) ∧ spoken f (gap ++ after) = []
  statement_eq : ∃ before gap after, f.children statement = before ++ clause ::
    (gap ++ group :: after) ∧ spoken f gap = []
  group_eq : ∃ before gap after, f.children group = before ++ keyword ::
    (gap ++ ordering :: after) ∧ spoken f (before ++ gap ++ after) = []
  group_isToken : (f.tag group).isToken = false
  part_isToken : ∀ part ∈ f.children ordering, f.children part ≠ [] → (f.tag part).isToken = false

section

variable {g : Forest} {clause function group keyword statement within : Nat}
  (h : OrderedCall f function clause statement within group ordering arguments) (hf : f.WellFormed)
  (hshows : Shows g f.size
    (merged (relist (relist f.content clause ((f.children clause).erase within))
    statement ((f.children statement).erase group)) arguments ordering (f.children ordering) []))
include hshows

lemma ownToken_eq (id : Nat) : ownToken g id = ownToken f id := by
  have hnode := hshows.content_eq id
  have htag : g.tag id = f.tag id := (congrArg Node.tag hnode :)
  have htext : g.text id = f.text id := (congrArg Node.text hnode :)
  rw [ownToken, ownToken, htag, htext]

include h hf

/-- Only the statement, the two clauses, the arguments and the ordering with its parts are
different. -/
lemma spoken_eq {ids : List Nat} {p : Nat} (hids : ids ⊆ f.children p) (hp : f.Under p statement)
    (hordering : p ≠ ordering) (hnot : ∀ x ∈ ids, x ∉ [clause, group, arguments, ordering]) :
    spoken g ids = spoken f ids := by
  have hcrown : IsCrown f (· ∈ statement :: clause :: group :: arguments :: ordering ::
      f.children ordering) statement := by
    refine List.forall_mem_cons.2 ⟨.inl rfl, fun y hy => .inr ?_⟩
    simp only [List.mem_cons] at hy
    obtain rfl | rfl | rfl | rfl | hy := hy
    · exact ⟨_, h.statement_eq, by simp⟩
    · exact ⟨_, h.parent_group hf, by simp⟩
    · exact ⟨_, h.parent_arguments hf, by simp⟩
    · exact ⟨_, h.parent_ordering hf, by simp⟩
    · exact ⟨_, hf.parent_of_mem hy, by simp⟩
  refine congrArg tokensAll (List.map_congr_left fun x hx => ?_)
  have hparent := hf.parent_of_mem (hids hx)
  have hbelow : f.Below x statement := .of_parent_under hparent hp
  refine hshows.subtree_of_isCrown hf hcrown (fun y _ hy => ?_) hbelow ?_
  · simp only [List.mem_cons, not_or] at hy
    simp [merged, relist, hy]
  · have hself : x ≠ statement := fun heq => hf.acyclic _ (heq ▸ hbelow)
    have hpart : x ∉ f.children ordering := fun hmem =>
      hordering (Option.mem_unique hparent (hf.parent_of_mem hmem))
    have hnot := hnot x hx
    grind

/-- A part of the ordering, or what has been taken out of it, has the tokens of the part. -/
lemma spoken_given (hpart : part ∈ f.children ordering)
    (htoken : f.children part ≠ [] → (f.tag part).isToken = false) :
    spoken g (given f.content part) = (f.subtree part).tokens := by
  have hparent := hf.parent_of_mem hpart
  have hdepths := h.depths hf
  have hdepth := hf.depth_of_parent hparent
  rw [given]
  split
  · rename_i hleaf
    have hne : part ≠ arguments ∧ part ≠ ordering := by grind
    have hsame : g.subtree part = f.subtree part := by
      rw [hshows.subtree, hf.subtree_eq, show f.children part = [] from hleaf]
      simp only [merged, hne, hpart, if_true, if_false]
      rfl
    rw [spoken_cons, hsame]
    exact List.append_nil _
  · rename_i hnodes
    have hunder : f.Under part statement := ((under_of_parent hparent).trans
      (under_of_parent (h.parent_ordering hf))).trans (under_of_parent (h.parent_group hf))
    rw [tokens_subtree_of_not_isToken hf (htoken hnodes)]
    refine spoken_eq h hf hshows (List.Subset.refl _) hunder (by grind) fun x hx => ?_
    have hx := hf.depth_of_parent (hf.parent_of_mem hx)
    grind

lemma spoken_ordering (hparts : ∀ part ∈ f.children ordering, f.children part ≠ [] →
    (f.tag part).isToken = false) :
    spoken g ((f.children ordering).flatMap (given f.content)) =
      spoken f (f.children ordering) := by
  have hall (ids : List Nat) (hids : ids ⊆ f.children ordering) :
      spoken g (ids.flatMap (given f.content)) = spoken f ids := by
    induction ids with
    | nil => rfl
    | cons part ids ih =>
      rw [List.cons_subset] at hids
      rw [List.flatMap_cons, spoken_append, spoken_given h hf hshows hids.1 (hparts part hids.1),
        ih hids.2, spoken_cons]
  exact hall _ (List.Subset.refl _)

/-- The lists of the statement, the clause and the arguments. -/
lemma children_eq_erase : g.children statement = (f.children statement).erase group ∧
    g.children clause = (f.children clause).erase within ∧
    g.children arguments = f.children arguments ++ (f.children ordering).flatMap
      (given f.content) := by
  have hdepths := h.depths hf
  have hpart (x : Nat) (hx : x ∈ f.children ordering) := hf.depth_of_parent (hf.parent_of_mem hx)
  have hclause : clause ≠ arguments ∧ clause ≠ ordering ∧ clause ∉ f.children ordering ∧
    clause ≠ statement := by grind
  have hstatement : statement ≠ arguments ∧ statement ≠ ordering ∧
    statement ∉ f.children ordering := by grind
  have harguments : arguments ≠ clause ∧ arguments ≠ statement := by grind
  have hgiven : (f.children ordering).flatMap (given (relist (relist f.content clause
      ((f.children clause).erase within)) statement ((f.children statement).erase group))) =
      (f.children ordering).flatMap (given f.content) := by
    refine List.flatMap_congr fun x hx => ?_
    have hx : x ≠ clause ∧ x ≠ statement := by grind
    simp [given, relist, hx]
  refine ⟨?_, ?_, ?_⟩ <;> rw [hshows.children, merged]
  · simp [hstatement]
  · simp [hclause, relist]
  · rw [hgiven]
    simp [harguments, relist]
    rfl

/-- If the call is the one before the word and nothing is beside the ordering, all tokens but the
two words are kept, in their order. -/
lemma tokens_of_isBare (hbare : IsBare f clause statement within group keyword ordering arguments) :
    ∃ front back, (f.subtree statement).tokens =
        front ++ ((f.subtree within).tokens ++ (f.subtree keyword).tokens) ++ back ∧
      (g.subtree statement).tokens = front ++ back := by
  obtain ⟨before, gap, after, hclause, hsilent⟩ := hbare.clause_eq
  obtain ⟨before', gap', after', hstatement, hsilent'⟩ := hbare.statement_eq
  obtain ⟨lead, space, trail, hgroup, hsilent''⟩ := hbare.group_eq
  obtain ⟨herase', herase, hchildren⟩ := children_eq_erase h hf hshows
  have hlist' : g.children statement = before' ++ clause :: gap' ++ after' :=
    herase'.trans ((Shows.refl hf).erase_eq (hstatement.trans (by simp)))
  have hlist : g.children clause = before ++ arguments :: gap ++ after :=
    herase.trans ((Shows.refl hf).erase_eq (hclause.trans (by simp)))
  have hdepths := h.depths hf
  -- what is beside the clauses or the arguments has the tokens that it had
  have hkept' {ids : List Nat} (hids : ids ⊆ before' ++ gap' ++ after') :
    spoken g ids = spoken f ids := by
    have hnodup := hf.nodup_children statement
    have hsub : ids ⊆ f.children statement := by grind
    refine spoken_eq h hf hshows hsub (.refl f _) (by grind) fun x hx => ?_
    have hdepth := hf.depth_of_parent (hf.parent_of_mem (hsub hx))
    grind
  have hkept {ids : List Nat} (hids : ids ⊆ before ++ gap ++ after) :
    spoken g ids = spoken f ids := by
    have hnodup := hf.nodup_children clause
    have hsub : ids ⊆ f.children clause := by grind
    refine spoken_eq h hf hshows hsub (under_of_parent h.statement_eq) (by grind) fun x hx => ?_
    have hparent := hf.parent_of_mem (hsub hx)
    have hdepth := hf.depth_of_parent hparent
    have hordering := h.parent_ordering hf
    grind
  have harguments : spoken g (f.children arguments) = spoken f (f.children arguments) := by
    have hunder := (under_of_parent (h.parent_arguments hf)).trans (under_of_parent h.statement_eq)
    refine spoken_eq h hf hshows (List.Subset.refl _) hunder hdepths.2.2.2.2.2 fun x hx => ?_
    have hdepth := hf.depth_of_parent (hf.parent_of_mem hx)
    grind
  have hordering : (f.tag ordering).isToken = false := by rw [tag_of_child h.ordering_eq]; rfl
  have hg := hshows.wellFormed
  rw [spoken_append, List.append_eq_nil_iff] at hsilent
  rw [spoken_append, spoken_append, List.append_eq_nil_iff, List.append_eq_nil_iff] at hsilent''
  refine ⟨ownToken f statement ++ spoken f before' ++ ownToken f clause ++ spoken f before ++
    ownToken f arguments ++ spoken f (f.children arguments),
    spoken f (f.children ordering) ++ spoken f after', ?_, ?_⟩
  · rw [tokens_subtree hf statement, hstatement]
    simp only [spoken_append, spoken_cons, tokens_subtree hf clause, hclause,
      tokens_subtree hf arguments, tokens_subtree_of_not_isToken hf hbare.group_isToken, hgroup,
      tokens_subtree_of_not_isToken hf hordering, hsilent, hsilent', hsilent'', List.append_nil,
      List.nil_append, List.append_assoc]
  · rw [tokens_subtree hg statement, hlist']
    simp only [spoken_append, spoken_cons, tokens_subtree hg clause, hlist,
      tokens_subtree hg arguments,
      hchildren, harguments, spoken_ordering h hf hshows hbare.part_isToken, ownToken_eq hshows,
      hkept' (show before' ⊆ _ by simp), hkept' (show gap' ⊆ _ by simp),
      hkept' (show after' ⊆ _ by simp),
      hkept (show before ⊆ _ by simp), hkept (show gap ⊆ _ by simp), hkept (show after ⊆ _ by simp),
      hsilent, hsilent', List.append_nil, List.append_assoc]

end

/-- At every call of `string_agg` that the pass comes to and whose clause has the word `within`, the
word goes, the next clause is detached, and what is in its ordering comes to the end of the
arguments of the call; nothing else changes. So the rest of that clause is lost, and the call need
not be the one before the word. If it is, and there is no such rest, all tokens but the words
`within` and `group` stay in order. -/
theorem convertOrdering_detaches_clause {w₀ : Workspace}
    {clause function group statement within : Nat} (hw₀ : Whole w₀)
    (hmeets : MeetsMatch .otherNode (some "string_agg") convertOrdering w₀ function w)
    (h : OrderedCall w.forest function clause statement within group ordering arguments) :
    ∃ w', convertOrdering function w = .ok () w' ∧ Shows w'.forest w.forest.size
      (merged (relist (relist w.forest.content clause ((w.forest.children clause).erase within))
        statement
        ((w.forest.children statement).erase group)) arguments ordering (w.forest.children ordering)
          []) ∧
      ∀ keyword, IsBare w.forest clause statement within group keyword ordering arguments →
        ∃ front back, (w.forest.subtree statement).tokens =
            front ++ ((w.forest.subtree within).tokens ++ (w.forest.subtree keyword).tokens) ++
              back ∧
          (w'.forest.subtree statement).tokens = front ++ back := by
  have hw : Whole w := (hmeets.sound (P := True) hw₀ fun id w₁ hw₁ => convertOrdering_safe hw₁ id).1
  obtain ⟨_, w', hrun, hshows⟩ := ((convertOrdering_shows h hw.wellFormed).succeeds
    (convertOrdering_safe hw function)).exists_ok
  exact ⟨w', hrun, hshows, fun _ => tokens_of_isBare h hw.wellFormed hshows⟩

/-- An aggregation with an ordering and an alias. -/
def orderedAggregation : SyntaxTree :=
  group .root [group .statement
    [group .clause [leaf .otherNode "string_agg", group .functionParens [leaf .otherNode "x"],
      leaf .otherNode "within"],
    group .clause [keyword "group", group .expressionParens
      [group .clause [leaf .compoundKeyword "order by", leaf .otherNode "x"]], keyword "as",
      leaf .otherNode "names"]]]

theorem convertOrdering_detaches_clause_orderedAggregation :
    let w : Workspace := { forest := ofTree orderedAggregation }
    Whole w ∧ MeetsMatch .otherNode (some "string_agg") convertOrdering w 3 w ∧
      OrderedCall w.forest 3 2 1 6 7 9 4 ∧ ∃ w', convertOrdering 3 w = .ok () w' ∧
        w'.forest.children 1 = [2] ∧ w'.forest.children 4 = [5, 11, 12] := by
  intro w
  have hw : Whole w := whole_ofTree _
  have hmeets : MeetsMatch .otherNode (some "string_agg") convertOrdering w 3 w :=
    meetsMatch_of_leadsTo (show leadsTo w.forest _ _ 3 root [1, 2, 3] = true by decide +kernel)
      (by decide +kernel) (by decide +kernel)
  have hcall : OrderedCall w.forest 3 2 1 6 7 9 4 := by constructor <;> decide +kernel
  obtain ⟨w', hrun, hshows, -⟩ := convertOrdering_detaches_clause hw hmeets hcall
  refine ⟨hw, hmeets, hcall, w', hrun, ?_, ?_⟩ <;> rw [hshows.children] <;> decide +kernel

/-- The same without the alias. -/
example : IsBare (ofTree (group .root [group .statement
    [group .clause [leaf .otherNode "string_agg", group .functionParens [leaf .otherNode "x"],
      leaf .otherNode "within"],
    group .clause [keyword "group", group .expressionParens
      [group .clause [leaf .compoundKeyword "order by", leaf .otherNode "x"]]]]])) 2 1 6 7 8 9 4 :=
  ⟨⟨[3], [], [], by decide +kernel⟩, ⟨[], [], [], by decide +kernel⟩,
    ⟨[], [], [], by decide +kernel⟩, by decide +kernel, by decide +kernel⟩

/-- The alias is lost. -/
theorem runPasses_orderedAggregation :
    ∃ w, runPasses [⟨"string_agg", convertOrderings⟩] { forest := ofTree orderedAggregation } =
      .ok w ∧ orderedAggregation.render = "string_agg(x) within group (order by x) as names" ∧
      w.forest.tree.render = "string_agg(x order by x)" := by
  decide +kernel

end SqlDialect.StringAggregate
