import SqlDialect.Pass.OutputClause
import SqlDialect.Proofs.Conversion.Walk

/-!
# Output clauses keep the workspace sound

An output clause without a target moves to the end of its statement.  One with a target is taken
apart: the statement, from its main clause on, moves into a common table expression, the output
columns follow it there, and the target goes to a new insert clause.  This relies on the clauses
being different nodes in the usual places; `StoreFault` says when they are not, and the links
refuse.
-/

namespace SqlDialect.OutputClause

open Conversion Forest List

variable {parent statement main output keyword into : Nat} {Q : PUnit → Workspace → Prop}
  {K : String → Prop} {P : Prop} {w : Workspace} {S : Nat → Prop} {f : Forest}
  {E : ConversionError → Workspace → Prop} {change : Change}

/-! ## Output columns -/

lemma findChange_ends {Q : NodeId × Change → Workspace → Prop} (hw : w.Sound K)
    (hQ : ∀ main change, w.forest.parent main = some statement → Q (main, change) w) :
    Ends (findChange w.forest statement) w Q (Halts K P) := by
  have hf := hw.wellFormed
  refine ends_need hw fun main hmain => ends_pure (hQ main _ ?_)
  have hchoice {x y : Option NodeId} (h : (x <|> y) = some main) : x = some main ∨
      y = some main := by
    cases x with
    | none => exact .inr h
    | some _ => exact .inl h
  rcases hchoice hmain with hmain | hmain
  · exact hf.parent_of_find? hmain
  rcases hchoice hmain with hmain | hmain
  · exact hf.parent_of_childContaining hmain
  rcases hchoice hmain with hmain | hmain
  · exact hf.parent_of_childContaining hmain
  · exact hf.parent_of_childContaining hmain

lemma convertAction_at (hw : w.Sound K) (hQ : ∀ w', Next K w w' →
      (∀ x p : Nat, w.forest.parent x = some p → w'.forest.parent x = some p) → Q () w') :
    Ends (convertAction output) w Q E := by
  refine ends_forest ?_
  split <;> [rename_i action haction; exact ends_pure (hQ w (.refl hw) fun _ _ h => h)]
  have haction := hw.wellFormed.parent_of_childWithText haction
  refine ends_bind (setTag_at (.unmoved hw) fun w1 h1 htag => ?_)
  refine ends_bind (setText_at h1 fun w2 h2 htext => ?_)
  have hkeep (x p : Nat) (hx : w.forest.parent x = some p) : w2.forest.parent x = some p :=
    htext.extends.parent_of (htag.parent_of hx)
  exact ends_discard (insertNewAfter_at h2 (hkeep _ _ haction) fun _ w3 h3 hparens =>
    hQ w3 (h3.next rfl) fun x p hx => hparens.extends.parent_of (hkeep x p hx))

/-- At most the qualifier and its period are detached. -/
lemma convertQualifier_ends (hw : w.Sound K) {period : Nat}
    (hperiod : ∀ p, w.forest.parent period = some p → p = output) :
    Ends (convertQualifier output change period) w
      (fun _ w' => Next K w w' ∧
        (∀ x p : Nat, w'.forest.parent x = some p → w.forest.parent x = some p) ∧
        ∀ x p : Nat, w.forest.parent x = some p → p ≠ output → w'.forest.parent x = some p) E := by
  have hf := hw.wellFormed
  refine ends_forest ?_
  split <;> [rename_i table htable; exact ends_pure ⟨.refl hw, fun _ _ h => h, fun _ _ h _ => h⟩]
  have hsiblings := (hf.precedes_of_previousSibling htable).siblings
  refine ends_ite (fun _ => ends_pure ⟨.refl hw, fun _ _ h => h, fun _ _ h _ => h⟩) fun _ => ?_
  refine ends_ite (fun _ => ?_) fun _ => ?_
  · exact setText_at (.unmoved hw) fun w1 h1 htext => ⟨h1.next rfl,
      fun x p hx => (htext.parent_eq x).symm.trans hx, fun x p hx _ => (htext.parent_eq x).trans hx⟩
  obtain ⟨hne, p, hp, htable⟩ := hsiblings
  obtain rfl := hperiod p hp
  refine ends_bind (removeChild_sound hw htable fun w1 h1 hoff1 => ?_)
  have hp1 : w1.forest.parent period = some p :=
    (hoff1.parent_of_notMem (by simpa using hne)).trans hp
  refine removeChild_at h1 (.inl (hf.loose_of_parent hp)) hp1 fun w2 h2 hoff2 =>
    ⟨h2.next rfl, fun x q hx => hoff1.parent_of_some (hoff2.parent_of_some hx), fun x q hx hq => ?_⟩
  have hnot {c : Nat} (hc : w.forest.parent c = some p) : x ∉ [c] := fun hmem => by
    cases mem_singleton.1 hmem
    exact hq (Option.mem_unique hx hc)
  rw [hoff2.parent_of_notMem (hnot hp), hoff1.parent_of_notMem (hnot htable), hx]

/-- The clause of the output and the main clause keep their places in the statement. -/
lemma convertOutputColumns_ends (hw : w.Sound K)
    (houtput : w.forest.parent output = some statement) :
    Ends (convertOutputColumns statement output) w
      (fun parts w' => Next K w w' ∧ w'.forest.parent output = some statement ∧
        w'.forest.parent parts.1 = some statement) (Halts K P) := by
  refine ends_forest (ends_bind (findChange_ends hw fun main change hmain => ?_))
  refine ends_bind (convertAction_at hw fun w1 hnext1 hkeep1 => ?_)
  have hne : statement ≠ output := fun heq => hw.wellFormed.parent_ne_self houtput heq.symm
  refine ends_forest (ends_bind (ends_forM (fun rest w' => Next K w1 w' ∧
    (∀ x p : Nat, w'.forest.parent x = some p → w1.forest.parent x = some p) ∧
    (∀ x p : Nat, w1.forest.parent x = some p → p ≠ output → w'.forest.parent x = some p) ∧
    ∀ period ∈ rest, w1.forest.parent period = some output)
    ⟨.refl hnext1.1, fun _ _ h => h, fun _ _ h _ => h,
      fun period hperiod => hnext1.1.wellFormed.parent_of_mem_childrenOf hperiod⟩ ?_ ?_))
  · rintro period rest w2 ⟨hnext2, hback, hkeep, hrest⟩
    have hperiod (p : Nat) (hp : w2.forest.parent period = some p) : p = output :=
      Option.mem_unique (hback _ _ hp) (hrest period (.head _))
    refine (convertQualifier_ends hnext2.1 hperiod).imp ?_
    rintro - w3 ⟨hnext3, hback3, hkeep3⟩
    exact ⟨hnext2.trans hnext3, fun x p hx => hback x p (hback3 x p hx),
      fun x p hx hp => hkeep3 x p (hkeep x p hx hp) hp,
      fun p hp => hrest p (.tail _ hp)⟩
  · rintro w2 ⟨hnext2, -, hkeep, -⟩
    exact ends_pure ⟨hnext1.trans hnext2, hkeep _ _ (hkeep1 _ _ houtput) hne,
      hkeep _ _ (hkeep1 _ _ hmain) hne⟩

/-! ## Returned rows -/

lemma returnRows_safe (hw : w.Sound K) (houtput : w.forest.parent output = some statement) :
    Safe K P (returnRows statement output keyword) w := by
  refine ends_bind (setText_at (.unmoved hw) fun w1 h1 htext => ?_)
  have houtput := htext.extends.parent_of houtput
  have hf := h1.wellFormed
  refine ends_forest (ends_need h1.sound fun last hlast => ?_)
  have hlast := hf.parent_of_lastChild hlast
  have hclear := hf.clear_below (Under.refl _ statement) (hf.parent_lt houtput)
  have hlastBelow : ∀ s : Nat, w1.forest.terminator last = some s → w1.forest.Below s last :=
    fun s hs => (hf.below_of_terminator hs).1
  have hsemicolon : ∀ s : Nat, w1.forest.terminator last = some s → w1.forest.Below s statement :=
    fun s hs => (hlastBelow s hs).tail hlast
  -- The semicolon is inside the last clause, so it is not the clause of the output itself.
  have hne : ∀ s : Nat, w1.forest.terminator last = some s → s ≠ output := by
    rintro s hs rfl
    obtain ⟨p, hp, hunder⟩ := below_iff.1 (hlastBelow s hs)
    cases houtput.symm.trans hp
    exact hf.not_under_of_child hlast hunder
  refine ends_bind (takeTerminator_at (.of_below h1.sound statement) hsemicolon
    fun w2 h2 hoff => ?_)
  refine ends_bind (moveTo_at h2 (h2.clear hclear) (below_of_parent houtput) fun w3 h3 hmoved => ?_)
  have hdone {w' : Workspace} (h' : At K (w1.forest.Below · statement) w1.forest w') :
    Next K w w' :=
    (h1.next rfl).trans (h'.next rfl)
  cases hs : w1.forest.terminator last with
  | none => exact ends_pure (hdone h3)
  | some s =>
    have hs3 : w3.forest.parent s = none := by
      rw [hmoved.parent_of_notMem (by simpa using hne s hs), hoff.parent_of_mem (by simp [hs])]
    have houtput3 : w3.forest.parent output = some statement := hmoved.parent_of_mem (by simp)
    refine addChild_off_at h3 (lt_size_of_parent houtput3) (.inl (hsemicolon s hs))
      (h3.lt_size_of (hsemicolon s hs)) hs3 ?_ fun w4 h4 _ => hdone h4
    exact not_under_of_parent houtput3 (hne s hs).symm fun hunder =>
      (h3.clear hclear).not_mem_above s hunder (hsemicolon s hs)

/-! ## Stored rows -/

section Store

variable {table : Nat} {tableColumns : Option NodeId} {columns : List NodeId}
  {semicolon : Option NodeId}

/-- The parts of an output clause with a target, as they stand in the statement. -/
structure Parts (f : Forest) (statement main output into table : Nat)
    (tableColumns : Option NodeId) (columns : List NodeId) : Prop where
  main_parent : f.parent main = some statement
  output_parent : f.parent output = some statement
  into_parent : f.parent into = some statement
  into_ne : into ≠ output
  table_parent : f.parent table = some into
  tableColumns_parent : ∀ x : Nat, tableColumns = some x →
    f.parent x = some into ∧ f.tag x ≠ .semicolon
  columns_parent : ∀ x ∈ columns, f.parent x = some output ∧ f.tag x ≠ .semicolon

/-- The output clause or its target is the semicolon that ends the statement. -/
def EndsInOutput (f : Forest) (statement output into : Nat) : Prop :=
  f.terminator statement = some output ∨ f.terminator statement = some into

/-- What is taken out of the statement is detached, unless it was taken already as its end. -/
lemma takeOutput_ends (hw : w.Sound K)
    (hparts : Parts w.forest statement main output into table tableColumns columns) :
    Ends (takeOutput statement output into) w
      (fun semicolon w' => semicolon = w.forest.terminator statement ∧
        At K (w.forest.Below · statement) w.forest w' ∧
        Relinked w.forest w'.forest (semicolon.toList ++ [output, into]) none ∧
        ¬ EndsInOutput w.forest statement output into)
      fun e w' => w'.Sound K ∧ EndsInOutput w.forest statement output into ∧
        ∃ cause, e = .link cause := by
  have hf := hw.wellFormed
  have hsemicolon : ∀ s : Nat, w.forest.terminator statement = some s →
    w.forest.Below s statement :=
    fun s hs => (hf.below_of_terminator hs).1
  refine ends_bind (takeTerminator_at (.of_below hw statement) hsemicolon fun w1 h1 hoff1 => ?_)
  have hrefused {x : Nat} {w' : Workspace} (h' : At K (w.forest.Below · statement) w.forest w')
      (hx : w'.forest.parent x = none) :
      w'.forest.removeChild statement x = .error (.notAChild x statement) :=
    h'.wellFormed.removeChild_eq_error (by simp [hx])
  by_cases houtput : w.forest.terminator statement = some output
  · have hnone : w1.forest.parent output = none := hoff1.parent_of_mem (by simp [houtput])
    exact ends_bind (ends_relink_error (hrefused h1 hnone) ⟨h1.sound, .inl houtput, _, rfl⟩)
  have houtput1 : w1.forest.parent output = some statement := by
    rw [hoff1.parent_of_notMem (by simpa using houtput), hparts.output_parent]
  refine ends_bind (removeChild_at h1 (.inl (below_of_parent hparts.output_parent)) houtput1
    fun w2 h2 hoff2 => ?_)
  have hintoSame : w2.forest.parent into = w1.forest.parent into :=
    hoff2.parent_of_notMem (by simpa using hparts.into_ne)
  by_cases hinto : w.forest.terminator statement = some into
  · have hnone : w2.forest.parent into = none := by
      rw [hintoSame, hoff1.parent_of_mem (by simp [hinto])]
    exact ends_bind (ends_relink_error (hrefused h2 hnone) ⟨h2.sound, .inr hinto, _, rfl⟩)
  have hinto2 : w2.forest.parent into = some statement := by
    rw [hintoSame, hoff1.parent_of_notMem (by simpa using hinto), hparts.into_parent]
  refine ends_bind (removeChild_at h2 (.inl (below_of_parent hparts.into_parent)) hinto2
    fun w3 h3 hoff3 => ends_pure ⟨rfl, h3, ?_, by simp [EndsInOutput, houtput, hinto]⟩)
  simpa using (hoff1.trans hoff2).trans hoff3

/-! ### The common table expression -/

/-- There are no common table expressions yet, and the main clause is not in the statement any more,
so that there is no place for them. -/
def Unplaced (f : Forest) (statement main : Nat) : Prop :=
  expressions? f statement = none ∧ f.parent main ≠ some statement

lemma openExpression_ends (h : At K S f w) (hstatement : statement < w.forest.size) :
    Ends (openExpression statement main) w
      (fun (expressions : Nat) w' => At K S f w' ∧ Extends w.forest w'.forest ∧
        w'.forest.Below expressions statement ∧ ¬ Unplaced w.forest statement main)
      fun e w' => w'.Sound K ∧ Unplaced w.forest statement main ∧ ∃ cause, e = .link cause := by
  refine ends_forest ?_
  split
  · rename_i expressions hexpressions
    obtain ⟨clause, hclause, hexpressions'⟩ := exists_of_findSome?_eq_some hexpressions
    have hbelow : w.forest.Below expressions statement :=
      (below_of_parent (h.wellFormed.parent_of_child hexpressions')).tail
        (h.wellFormed.parent_of_mem hclause)
    have hlt := hbelow.lt_size
    refine appendWithLeaf_at h hlt fun separator w1 h1 hext _ => ends_pure ?_
    refine ⟨h1, hext, Below.mono (fun hx => hext.parent_of hx) hbelow, ?_⟩
    simp [Unplaced, hexpressions]
  · rename_i hexpressions
    by_cases hmain : w.forest.parent main = some statement
    · refine ends_bind (insertNewBefore_at h hmain fun clause w1 h1 hclause => ?_)
      refine ends_bind (append_at h1 hclause.lt_size fun expressions w2 h2 hnew => ?_)
      refine appendWithLeaf_at h2 hnew.lt_size fun opener w3 h3 hext2 _ => ends_pure ?_
      refine ⟨h3, (hclause.extends.trans hnew.extends).trans hext2, ?_, by simp [Unplaced, hmain]⟩
      exact (below_of_parent (hext2.parent_of hnew.parent_new)).tail
        (hext2.parent_of (hnew.extends.parent_of hclause.parent_new))
    · refine Fails.bind (insertNewBefore_fails h hstatement hmain) |>.mono
        (fun _ _ hfalse => hfalse.elim) fun _ _ he => ⟨he.1, ⟨hexpressions, hmain⟩, he.2⟩

lemma nameChange_ends (h : At K S f w) (hstatement : statement < w.forest.size) :
    Ends (nameChange statement main change) w
      (fun (parens : Nat) w' => At K S f w' ∧ Extends w.forest w'.forest ∧
        w'.forest.Below parens statement ∧ ¬ Unplaced w.forest statement main)
      fun e w' => w'.Sound K ∧ Unplaced w.forest statement main ∧ ∃ cause, e = .link cause := by
  refine Ends.bind (openExpression_ends h hstatement)
    fun expressions w1 _ ⟨h1, hext1, hbelow, hplaced⟩ => ?_
  have hlt1 := hbelow.lt_size
  refine appendWithLeaf_at h1 hlt1 fun holder w3 h3 hext3 _ => ?_
  refine ends_bind (append_at h3 (hext3.lt_size hlt1) fun asBlock w4 h4 hasBlock => ?_)
  refine appendWithLeaf_at h4 hasBlock.lt_size fun opener w6 h6 hext6 _ => ?_
  refine ends_bind (append_at h6 (hext6.lt_size hasBlock.lt_size) fun body w7 h7 hbody => ?_)
  refine append_at h7 hbody.lt_size fun parens w8 h8 hparens => ?_
  have hext8 := hbody.extends.trans hparens.extends
  have hext := (hext3.trans hasBlock.extends).trans (hext6.trans hext8)
  refine ⟨h8, hext1.trans hext, ?_, hplaced⟩
  have hup : w8.forest.Below parens expressions :=
    ((below_of_parent hparens.parent_new).tail (hparens.extends.parent_of hbody.parent_new)).tail
      ((hext6.trans hext8).parent_of hasBlock.parent_new)
  exact hup.trans (Below.mono (fun hx => hext.parent_of hx) hbelow)

/-- The main clause, or one after it, holds the brackets that it is to be moved to. -/
def Nested (f : Forest) (statement main parens : Nat) : Prop :=
  ∃ before after, f.around statement main = some (before, after) ∧
    ∃ clause ∈ main :: after, f.Under parens clause

/-- The clauses to be moved are children of the statement, each listed once. -/
lemma around_spec {before after : List NodeId} (hf : f.WellFormed)
    (h : f.around statement main = some (before, after)) :
    (∀ x ∈ main :: after, f.parent x = some statement) ∧ (main :: after).Nodup := by
  have hchildren : f.children statement = before ++ main :: after := splitAround_eq_some h
  refine ⟨fun x hx => hf.parent_of_mem (hchildren ▸ mem_append_right _ hx), ?_⟩
  have hnodup := hf.nodup_children statement
  rw [hchildren] at hnodup
  exact hnodup.of_append_right

/-- The clauses are moved into the new brackets, and the columns after them. -/
lemma fillChange_ends {parens : Nat} (h : At K (f.Below · statement) f w)
    (hparens : w.forest.Below parens statement) (houtput : f.parent output = some statement)
    (hdetached : w.forest.parent output = none)
    (hcolumns : ∀ x ∈ columns, w.forest.parent x = some output ∧ f.Below x statement) :
    Ends (do
      let (_, after) ← need "main clause" (w.forest.around statement main)
      moveAllTo parens (main :: after)
      let returning ← append parens .clause ""
      appendLeaf returning .otherKeyword "returning"
      moveAllTo returning columns) w
      (fun _ w' => At K (f.Below · statement) f w' ∧
        (∀ s : Nat, s < w.forest.size → w.forest.parent s = none → s ∉ columns →
          w'.forest.parent s = none) ∧ ¬ Nested w.forest statement main parens)
      fun e w' => w'.Sound K ∧
        ((∃ cause, e = .link cause) ↔ Nested w.forest statement main parens) := by
  have hclear := h.start.clear_below (Under.refl _ statement) (h.start.parent_lt houtput)
  have hlt := hparens.lt_size
  cases haround : w.forest.around statement main with
  | none =>
    refine ends_bind (ends_throw ⟨h.sound, by simp, ?_⟩)
    rintro ⟨before, after, hsome, -⟩
    cases haround.symm.trans hsome
  | some parts =>
    obtain ⟨before, after⟩ := parts
    obtain ⟨hchildren, hnodup⟩ := around_spec h.wellFormed haround
    have hchildrenLt : ∀ x ∈ main :: after, x < w.forest.size := fun x hx =>
      lt_size_of_parent (hchildren x hx)
    have hmovable : ∀ x ∈ main :: after, f.Below x statement ∨ f.size ≤ x := fun x hx => by
      by_contra hnot
      rw [not_or, Nat.not_le] at hnot
      exact hnot.1 (below_of_parent ((h.parent_eq hnot.1 hnot.2).symm.trans (hchildren x hx)))
    refine ends_need_some rfl ?_
    by_cases hnested : ∃ clause ∈ main :: after, w.forest.Under parens clause
    · have hfault : Nested w.forest statement main parens := ⟨before, after, haround, hnested⟩
      refine (moveAllTo_fails h hlt hmovable hchildrenLt hnodup (fun i hi j hj hpi hpj => ?_)
        hnested).bind.mono (fun _ _ hfalse => hfalse.elim)
        fun _ _ he => ⟨he.1, fun _ => hfault, fun _ => he.2⟩
      exact h.wellFormed.eq_of_under_of_parent hpi hpj (hchildren i hi) (hchildren j hj)
    have hoff : ∀ i ∈ main :: after, ¬ w.forest.Under parens i := fun i hi hup =>
      hnested ⟨i, hi, hup⟩
    refine ends_bind (moveAllTo_off_at h hlt hmovable hchildrenLt hoff fun w1 h1 hmoved => ?_)
    refine appendWithLeaf_at h1 (hmoved.size_eq ▸ hlt) fun returning w3 h3 hext hreturning => ?_
    have hkeep {x : Nat} (hx : x < w.forest.size) (hparent : w.forest.parent x ≠ some statement) :
        w3.forest.parent x = w.forest.parent x := by
      rw [hext.parent_eq x (hmoved.size_eq ▸ hx), hmoved.parent_of_notMem fun hmem =>
        hparent (hchildren x hmem)]
    have houtputNe : output ≠ statement := h.start.parent_ne_self houtput
    have hcolumnsKeep : ∀ x ∈ columns, w3.forest.parent x = some output := fun x hx => by
      have hxParent := (hcolumns x hx).1
      rw [hkeep (lt_size_of_parent hxParent) (by simpa [hxParent] using houtputNe), hxParent]
    have hnone : w3.forest.parent output = none := by
      rw [hkeep (h.lt_size (lt_size_of_parent houtput)) (by simp [hdetached]), hdetached]
    -- The new clause is below the statement, and the output is in another tree by now.
    have hup : w3.forest.Under returning statement := by
      have hparens1 : w1.forest.Under parens statement := (hmoved.under_iff hoff).2 hparens.under
      exact (under_of_parent hreturning).trans (hparens1.congr fun z q _ hq => hext.parent_of hq)
    have hapart : ¬ w3.forest.Under returning output := fun hunder => by
      obtain hso | hos := hup.total hunder
      · rw [h3.since.under_iff h.start hclear] at hso
        exact h.start.not_under_of_child houtput hso
      · exact houtputNe ((under_iff_eq_of_parent_eq_none hnone).1 hos)
    refine moveAllTo_off_at h3 (lt_size_of_parent hreturning)
      (fun x hx => .inl (hcolumns x hx).2) (fun x hx => lt_size_of_parent (hcolumnsKeep x hx))
      (fun x hx hunder => hapart (hunder.trans (under_of_parent (hcolumnsKeep x hx))))
      fun w4 h4 hmoved4 => ⟨h4, fun s hlt hs hnot => ?_, ?_⟩
    · rw [hmoved4.parent_of_notMem hnot, hkeep hlt (by simp [hs]), hs]
    · rintro ⟨before', after', haround', hfound⟩
      cases haround.symm.trans haround'
      exact hnested hfound

/-- The statement has no place for the common table expression, or this place is inside what is to
be moved there. -/
def ExpressFault (w : Workspace) (statement main : Nat) (change : Change) : Prop :=
  Unplaced w.forest statement main ∨ ∃ parens w',
    nameChange statement main change w = .ok parens w' ∧ Nested w'.forest statement main parens

lemma expressChange_ends (h : At K (f.Below · statement) f w)
    (houtput : f.parent output = some statement) (hdetached : w.forest.parent output = none)
    (hcolumns : ∀ x ∈ columns, w.forest.parent x = some output ∧ f.Below x statement) :
    Ends (expressChange statement main change columns) w
      (fun _ w' => At K (f.Below · statement) f w' ∧
        (∀ s : Nat, s < w.forest.size → w.forest.parent s = none → s ∉ columns →
          w'.forest.parent s = none) ∧ ¬ ExpressFault w statement main change)
      fun e w' => w'.Sound K ∧
        ((∃ cause, e = .link cause) ↔ ExpressFault w statement main change) := by
  have hlt : statement < w.forest.size := h.lt_size (h.start.parent_lt houtput)
  refine Ends.bind ((nameChange_ends h hlt).mono (fun _ _ hQ => hQ) fun e w' he =>
    ⟨he.1, fun _ => .inl he.2.1, fun _ => he.2.2⟩) fun parens w1 hrun ⟨h1, hext, hbelow, hplaced⟩ =>
      ?_
  have hfault : ExpressFault w statement main change ↔ Nested w1.forest statement main parens := by
    refine ⟨fun hfault => ?_, fun hnested => .inr ⟨parens, w1, hrun, hnested⟩⟩
    obtain hunplaced | ⟨parens', w', hrun', hnested⟩ := hfault
    · exact absurd hunplaced hplaced
    · cases hrun.symm.trans hrun'
      exact hnested
  rw [hfault]
  refine ends_forest ((fillChange_ends h1 hbelow houtput ?_ fun x hx => ?_).imp ?_)
  · exact hext.parent_eq_none (h.lt_size (lt_size_of_parent houtput)) hdetached
  · exact ⟨hext.parent_of (hcolumns x hx).1, (hcolumns x hx).2⟩
  · rintro - w2 ⟨h2, hfree, hnested⟩
    exact ⟨h2, fun s hlt hs hnot => hfree s (hext.lt_size hlt) (hext.parent_eq_none hlt hs) hnot,
      hnested⟩

/-! ### The insert clause -/

lemma appendColumn_at {column : List NodeId} (h : At K S f w) (hparent : parent < w.forest.size)
    (hQ : ∀ w', At K S f w' → Extends w.forest w'.forest → Q () w') :
    Ends (column.forM (appendCopy parent)) w Q E := by
  refine ends_forM (fun _ w' => At K S f w' ∧ Extends w.forest w'.forest) ⟨h, .refl _⟩ ?_
    fun w' h' => hQ w' h'.1 h'.2
  rintro id rest w1 ⟨h1, hext⟩
  exact appendCopy_at h1 (hext.lt_size hparent) fun w2 h2 hcopy => ⟨h2, hext.trans hcopy⟩

lemma appendColumns_at :
    ∀ {columns : List (List NodeId)} {w : Workspace}, At K S f w → parent < w.forest.size →
      (∀ w', At K S f w' → Extends w.forest w'.forest → Q () w') →
      Ends (appendColumns parent columns) w Q E
  | [], w, h, _, hQ => ends_pure (hQ w h (.refl _))
  | [_], _, h, hparent, hQ => appendColumn_at h hparent hQ
  | _ :: _ :: _, _, h, hparent, hQ =>
    ends_bind (appendColumn_at h hparent fun _ h1 hcopies =>
      ends_bind (appendLeaf_at h1 (hcopies.lt_size hparent) fun _ h2 hcomma =>
        appendColumns_at h2 ((hcopies.trans hcomma).lt_size hparent) fun w3 h3 hrest =>
          hQ w3 h3 ((hcopies.trans hcomma).trans hrest)))

/-- The semicolon is put at the end, unless it has been used as the table. -/
lemma insertRows_ends (hkey : K simpleTextKey) (h : At K S f w) (hclear : Clear S f statement)
    (htable : S table) (htableColumns : ∀ x : Nat, tableColumns = some x → S x)
    (hsemicolon : ∀ s : Nat, semicolon = some s → S s ∧ w.forest.parent s = none ∧
      tableColumns ≠ some s) :
    Ends (insertRows statement table tableColumns change columns semicolon) w
      (fun _ w' => At K S f w' ∧ semicolon ≠ some table)
      fun e w' => w'.Sound K ∧ semicolon = some table ∧ ∃ cause, e = .link cause := by
  refine ends_bind (append_clear h (h.clear hclear) fun insert w1 h1 hinsert1 hinsert => ?_)
  refine ends_bind (append_at h1 hinsert1.lt_size fun keywords w2 h2 hkeywords => ?_)
  refine ends_bind (appendLeaves_at h2 hkeywords.lt_size fun w3 h3 hleaves => ?_)
  refine ends_bind (setAttribute_at h3 hkey fun w4 h4 hattribute => ?_)
  have hext1 := (hkeywords.extends.trans hleaves).trans hattribute.extends
  have hext4 := hinsert.extends.trans hext1
  have hinsert4 := hinsert1.extend hext1 h1.wellFormed
  refine ends_bind (moveTo_at h4 hinsert4 htable fun w5 h5 hmoved5 => ?_)
  have hinsert5 := hinsert4.relinked hmoved5 (by simpa using htable)
  refine ends_bind (forM_moveTo_at h5 hinsert5 htableColumns fun w6 h6 hmoved6 => ?_)
  refine ends_bind (append_at h6 (h6.clear hclear).lt_size fun select w7 h7 hselect => ?_)
  refine ends_bind (appendLeaf_at h7 hselect.lt_size fun w8 h8 hword => ends_forest ?_)
  refine ends_bind (appendColumns_at h8 (hword.lt_size hselect.lt_size) fun w9 h9 hcopies => ?_)
  refine appendWithLeaf_clear h9 (h9.clear hclear) fun source w11 h11 hfrom hsource11 => ?_
  refine ends_bind (append_at h11 hsource11.lt_size fun target w12 h12 htarget => ?_)
  have hsource12 := hsource11.extend htarget.extends h11.wellFormed
  refine ends_bind (appendLeaf_at h12 htarget.lt_size fun w13 h13 hname => ?_)
  have hsource13 := hsource12.extend hname h12.wellFormed
  have hext : Extends w6.forest w13.forest :=
    (((hselect.extends.trans hword).trans hcopies).trans hfrom).trans (htarget.extends.trans hname)
  by_cases heq : semicolon = some table
  · subst heq
    have hattached : w13.forest.parent table = some insert := by
      refine hext.parent_of ?_
      rw [hmoved6.parent_eq]
      split <;> [rfl; exact hmoved5.parent_of_mem (by simp)]
    exact ends_relink_error (addChild_eq_error (checkAttachable_eq_attached hattached))
      ⟨h13.sound, rfl, _, rfl⟩
  · refine putTerminator_at h13 hsource13 (fun s hs => (hsemicolon s hs).1) (fun s hs => ?_)
      fun w14 h14 _ => ⟨h14, heq⟩
    obtain ⟨hS, hnone, hother⟩ := hsemicolon s hs
    refine hext.parent_eq_none (h6.lt_size_of hS) ?_
    rw [hmoved6.parent_of_notMem (by simpa using hother), hmoved5.parent_of_notMem]
    · exact hext4.parent_eq_none (h.lt_size_of hS) hnone
    · rintro hmem
      exact heq (mem_singleton.1 hmem ▸ hs)

/-! ### Taking the clause apart -/

/-- What the parts of an output clause with a target must not look like. -/
inductive StoreFault (w : Workspace) (statement main output into table : Nat) (change : Change)
    (columns : List NodeId) : Prop
  /-- The output clause or its target is the semicolon that ends the statement. -/
  | ended : EndsInOutput w.forest statement output into →
    StoreFault w statement main output into table change columns
  /-- Without the output clause, the statement has no place for the common table expression. -/
  | unexpressed {semicolon : Option NodeId} {w₁ : Workspace} :
    takeOutput statement output into w = .ok semicolon w₁ →
    ExpressFault w₁ statement main change →
    StoreFault w statement main output into table change columns
  /-- The table is the semicolon that ends the statement. -/
  | reused {w₁ w₂ : Workspace} :
    takeOutput statement output into w = .ok (some table) w₁ →
    expressChange statement main change columns w₁ = .ok () w₂ →
    StoreFault w statement main output into table change columns

/-- The columns stay in the output clause when that is taken out. -/
lemma columns_after_takeOutput {g : Forest} (hf : f.WellFormed)
    (hparts : Parts f statement main output into table tableColumns columns)
    (hoff : Relinked f g ((f.terminator statement).toList ++ [output, into]) none) :
    ∀ x ∈ columns, g.parent x = some output ∧ f.Below x statement := by
  intro x hx
  obtain ⟨hparent, htag⟩ := hparts.columns_parent x hx
  have hne := hf.parent_ne_self hparts.output_parent
  refine ⟨?_, (below_of_parent hparent).tail hparts.output_parent⟩
  rw [hoff.parent_of_notMem, hparent]
  simp only [mem_append, Option.mem_toList, mem_cons, not_mem_nil, or_false]
  rintro (hmem | rfl | rfl)
  · exact htag (hf.below_of_terminator hmem).2
  · exact hne (Option.mem_unique hparent hparts.output_parent)
  · exact hne (Option.mem_unique hparent hparts.into_parent)

/-- The last part, after the statement has been moved into the common table expression. -/
lemma insertParts_ends {w1 w2 : Workspace} (hkey : K simpleTextKey) (hf : f.WellFormed)
    (hparts : Parts f statement main output into table tableColumns columns)
    (hoff : Relinked f w1.forest ((f.terminator statement).toList ++ [output, into]) none)
    (h2 : At K (f.Below · statement) f w2)
    (hfree : ∀ s : Nat, s < w1.forest.size → w1.forest.parent s = none → s ∉ columns →
      w2.forest.parent s = none) :
    Ends (insertRows statement table tableColumns change columns (f.terminator statement)) w2
      (fun _ w' => At K (f.Below · statement) f w' ∧ f.terminator statement ≠ some table)
      fun e w' => w'.Sound K ∧ f.terminator statement = some table ∧ ∃ cause, e = .link cause := by
  have hbelow {x : Nat} (hx : f.parent x = some into) : f.Below x statement :=
    (below_of_parent hx).tail hparts.into_parent
  refine insertRows_ends hkey h2
    (hf.clear_below (Under.refl _ statement) (hf.parent_lt hparts.output_parent))
    (hbelow hparts.table_parent) (fun x hx => hbelow (hparts.tableColumns_parent x hx).1)
    fun s hs => ?_
  obtain ⟨hsBelow, hsTag⟩ := hf.below_of_terminator hs
  refine ⟨hsBelow, hfree s ?_ (hoff.parent_of_mem (by simp [hs])) fun hmem => ?_,
    fun hcolumns => ?_⟩
  · exact hoff.size_eq ▸ hsBelow.lt_size
  · exact (hparts.columns_parent s hmem).2 hsTag
  · exact (hparts.tableColumns_parent s hcolumns).2 hsTag

section

variable (hkey : K simpleTextKey) (hw : w.Sound K)
  (hparts : Parts w.forest statement main output into table tableColumns columns)
include hkey hw hparts

lemma storeParts_safe (hfault : StoreFault w statement main output into table change columns → P) :
    Safe K P (do
      let semicolon ← takeOutput statement output into
      expressChange statement main change columns
      insertRows statement table tableColumns change columns semicolon) w := by
  have hf := hw.wellFormed
  refine Ends.bind ((takeOutput_ends hw hparts).mono (fun _ _ hQ => hQ) fun e w' he =>
    ⟨he.1, fun _ => hfault (.ended he.2.1)⟩) ?_
  rintro semicolon w1 hrun ⟨rfl, h1, hoff, -⟩
  refine Ends.bind ((expressChange_ends h1 hparts.output_parent (hoff.parent_of_mem (by simp))
    (columns_after_takeOutput hf hparts hoff)).mono (fun _ _ hQ => hQ) fun e w' he =>
    ⟨he.1, fun hlink => hfault (.unexpressed hrun (he.2.1 hlink))⟩) ?_
  rintro ⟨⟩ w2 hrun2 ⟨h2, hfree, -⟩
  refine (insertParts_ends hkey hf hparts hoff h2 hfree).mono (fun _ _ hQ => hQ.1.next rfl)
    fun e w' he => ⟨he.1, fun _ => hfault (.reused (he.2.1 ▸ hrun) hrun2)⟩

lemma storeParts_fails (hfault : StoreFault w statement main output into table change columns) :
    Fails K (do
      let semicolon ← takeOutput statement output into
      expressChange statement main change columns
      insertRows statement table tableColumns change columns semicolon) w := by
  have hf := hw.wellFormed
  have htake := takeOutput_ends hw hparts
  have hexpress {semicolon : Option NodeId} {w1 : Workspace}
      (hrun : takeOutput statement output into w = .ok semicolon w1) :=
    (ends_iff.1 htake).1 semicolon w1 hrun
  cases hfault with
  | ended h =>
    exact Fails.bind (htake.mono (fun _ _ hQ => hQ.2.2.2 h) fun _ _ he => ⟨he.1, he.2.2⟩)
  | unexpressed hrun h =>
    obtain ⟨rfl, h1, hoff, -⟩ := hexpress hrun
    refine ends_bind (ends_of_ok hrun (Fails.bind ?_))
    exact (expressChange_ends h1 hparts.output_parent (hoff.parent_of_mem (by simp))
      (columns_after_takeOutput hf hparts hoff)).mono (fun _ _ hQ => hQ.2.2 h)
      fun _ _ he => ⟨he.1, he.2.2 h⟩
  | @reused w1 w2 hrun hrun2 =>
    obtain ⟨htable, h1, hoff, -⟩ := hexpress hrun
    rw [htable] at hrun hoff
    obtain ⟨h2, hfree, -⟩ := (ends_iff.1 (expressChange_ends h1
      hparts.output_parent (hoff.parent_of_mem (by simp))
      (columns_after_takeOutput hf hparts hoff))).1 () w2 hrun2
    refine ends_bind (ends_of_ok hrun (ends_bind (ends_of_ok hrun2 ?_)))
    exact (insertParts_ends hkey hf hparts hoff h2 hfree).mono (fun _ _ hQ => hQ.2 htable.symm)
      fun _ _ he => ⟨he.1, he.2.2⟩

end

end Store

/-! ## Output clauses -/

/-- The nodes that the parts of an output clause are read from. -/
lemma parts_of_next {intoKeyword table : Nat} (hf : f.WellFormed)
    (hmain : f.parent main = some statement) (houtput : f.parent output = some statement)
    (hinto : f.nextSibling output = some into)
    (hintoKeyword : f.childWithText into .otherKeyword "into" = some intoKeyword)
    (htable : f.nextSibling intoKeyword = some table) :
    Parts f statement main output into table
      ((f.nextSibling table).filter fun id => (f.tag id).isParens)
      (outputTokens f output keyword) where
  main_parent := hmain
  output_parent := houtput
  into_parent := (hf.siblings_of_nextSibling hinto).parent houtput
  into_ne := (hf.siblings_of_nextSibling hinto).1.symm
  table_parent :=
    (hf.siblings_of_nextSibling htable).parent (hf.parent_of_childWithText hintoKeyword)
  tableColumns_parent x hx := by
    obtain ⟨hnext, hparens⟩ := Option.filter_eq_some_iff.1 hx
    refine ⟨(hf.siblings_of_nextSibling hnext).parent
      ((hf.siblings_of_nextSibling htable).parent (hf.parent_of_childWithText hintoKeyword)), ?_⟩
    intro htag
    rw [htag] at hparens
    cases hparens
  columns_parent x hx := by
    obtain ⟨hmem, htest⟩ := mem_filter.1 hx
    refine ⟨hf.parent_of_mem hmem, fun htag => ?_⟩
    simp [is, htag] at htest

/-- What an output clause must not look like: its columns have been converted, it has a target, and
its parts are at fault. -/
def OutputFault (w : Workspace) (keyword : Nat) : Prop :=
  ∃ output statement main change w₁ into intoKeyword table,
    w.forest.parent keyword = some output ∧ w.forest.parent output = some statement ∧
    w.forest.tag statement = .statement ∧
    convertOutputColumns statement output w = .ok (main, change) w₁ ∧
    w₁.forest.nextSibling output = some into ∧
    w₁.forest.childWithText into .otherKeyword "into" = some intoKeyword ∧
    w₁.forest.nextSibling intoKeyword = some table ∧
    StoreFault w₁ statement main output into table change (outputTokens w₁.forest output keyword)

section

variable (hkey : K simpleTextKey) (hw : w.Sound K)
include hkey hw

lemma convertOutputOf_safe
    (hfault : OutputFault w keyword → P) : Safe K P (convertOutputOf keyword) w := by
  refine ends_forest ?_
  split <;> [rename_i output houtput; exact safe_pure hw]
  split <;> [rename_i statement hstatement; exact safe_pure hw]
  obtain ⟨hstatement, htag⟩ := Option.filter_eq_some_iff.1 hstatement
  refine Ends.bind (convertOutputColumns_ends hw hstatement) ?_
  rintro ⟨main, change⟩ w1 hrun ⟨hnext, houtput1, hmain⟩
  have hw1 := hnext.1
  refine Ends.imp ?_ (fun _ _ h => hnext.trans h)
  refine ends_forest ?_
  split <;> [rename_i into hinto; exact returnRows_safe hw1 houtput1]
  obtain ⟨hinto, -⟩ := Option.filter_eq_some_iff.1 hinto
  refine ends_forest (ends_need hw1 fun intoKeyword hintoKeyword => ?_)
  refine ends_need hw1 fun table htable => ?_
  exact storeParts_safe hkey hw1
    (parts_of_next hw1.wellFormed hmain houtput1 hinto hintoKeyword htable)
    fun h => hfault ⟨output, statement, main, change, w1, into, intoKeyword, table, houtput,
      hstatement, tag_of_is htag, hrun, hinto, hintoKeyword, htable, h⟩

lemma convertOutputOf_fails
    (hfault : OutputFault w keyword) : Fails K (convertOutputOf keyword) w := by
  obtain ⟨output, statement, main, change, w1, into, intoKeyword, table, houtput, hstatement, htag,
    hrun, hinto, hintoKeyword, htable, hstore⟩ := hfault
  obtain ⟨hnext, houtput1, hmain⟩ :=
    (ends_iff.1 (convertOutputColumns_ends (P := False) hw hstatement)).1 _ w1 hrun
  have hw1 := hnext.1
  refine ends_forest ?_
  rw [houtput]
  dsimp only
  have hfilter : (w.forest.parent output).filter (w.forest.is · .statement) = some statement :=
    Option.filter_eq_some_iff.2 ⟨hstatement, by simp [is, htag]⟩
  rw [hfilter]
  refine ends_bind (ends_of_ok hrun (ends_forest ?_))
  have hintoFilter : (w1.forest.nextSibling output).filter
      (fun c => (w1.forest.childWithText c .otherKeyword "into").isSome) = some into :=
    Option.filter_eq_some_iff.2 ⟨hinto, by simp [hintoKeyword]⟩
  rw [hintoFilter]
  refine ends_forest (ends_need_some hintoKeyword (ends_need_some htable ?_))
  exact storeParts_fails hkey hw1
    (parts_of_next hw1.wellFormed hmain houtput1 hinto hintoKeyword htable) hstore

/-- Output clauses can be converted unless the walk comes to one that is at fault. -/
lemma convertOutputs_safe
    (hfault : ∀ keyword w', MeetsMatch .otherKeyword (some "output") convertOutputOf w keyword w' →
      OutputFault w' keyword → P) : Safe K P convertOutputs w :=
  forEachMatch_safe hw fun keyword w' hmeets hw' _ =>
    convertOutputOf_safe hkey hw' (hfault keyword w' hmeets)

lemma convertOutputs_eq_error {w' : Workspace}
    (hmeets : MeetsMatch .otherKeyword (some "output") convertOutputOf w keyword w')
    (hfault : OutputFault w' keyword) : ∃ cause w'', convertOutputs w = .error (.link cause) w'' :=
  forEachMatch_eq_error hw (fun _ _ hw => convertOutputOf_safe hkey hw fun _ => trivial) hmeets
    fun hw' => convertOutputOf_fails hkey hw' hfault

end

end SqlDialect.OutputClause
