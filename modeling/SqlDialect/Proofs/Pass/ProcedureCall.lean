import SqlDialect.Pass.ProcedureCall
import SqlDialect.Proofs.Conversion.Walk

/-!
# Procedure calls keep the workspace sound

The arguments of a call move into brackets that are made beside them.  An insert of the result of
a call moves into a new statement after that of the call.
-/

namespace SqlDialect.ProcedureCall

open Conversion Forest

variable {K : String → Prop} {P : Prop} {w : Workspace} {S : Nat → Prop} {f : Forest}
  {E : ConversionError → Workspace → Prop}

/-! ## Calls -/

/-- The last part of a name is the name itself or one of the siblings after it. -/
lemma lastPart_ends {T : Nat → Prop} {Q : NodeId → Workspace → Prop} (hw : w.Sound K)
    (hQ : ∀ part : Nat, T part → Q part w) :
    ∀ {rest : List NodeId} {name : Nat}, T name → (∀ x ∈ rest, T x) →
      Ends (lastPart f name rest) w Q (Halts K P)
  | [], name, hname, _ => ends_pure (hQ name hname)
  | [mark], name, hname, _ => by
    rw [lastPart]
    exact ends_ite (fun _ => ends_throw (halts_shape hw))
      fun _ => ends_pure (hQ name hname)
  | mark :: part :: rest, name, hname, hrest => by
    rw [lastPart]
    refine ends_ite (fun _ => ?_) fun _ => ends_pure (hQ name hname)
    exact lastPart_ends hw hQ (hrest part (by simp)) fun x hx => hrest x (by simp [hx])

lemma bracketArgument_at {parens argument : Nat} {Q : PUnit → Workspace → Prop} (h : At K S f w)
    (hclear : Clear S w.forest parens) (hargument : S argument)
    (hQ : ∀ w', At K S f w' → Clear S w'.forest parens → Q () w') :
    Ends (bracketArgument parens argument) w Q E := by
  refine ends_forest (ends_ite (fun _ => ?_) fun _ => ?_)
  · exact detach_at h (.inl hargument) fun w1 h1 hoff =>
      hQ w1 h1 (hclear.relinked hoff (by simpa using hargument))
  · refine ends_optional (R := fun w' => At K S f w' ∧ Clear S w'.forest parens)
      (fun _ => setText_at h fun w1 h1 htext => ⟨h1, hclear.extend htext.extends h.wellFormed⟩)
      (fun _ => ⟨h, hclear⟩) fun w1 ⟨h1, hclear1⟩ => ?_
    exact moveTo_at h1 hclear1 hargument fun w2 h2 hmoved =>
      hQ w2 h2 (hclear1.relinked hmoved (by simpa using hargument))

lemma bracketCall_safe (hw : w.Sound K) (keyword : Nat) : Safe K P (bracketCall keyword) w := by
  have hf := hw.wellFormed
  refine ends_forest (ends_need hw fun clause hclause => ends_need hw fun first hfirst => ?_)
  have hfirst := (hf.siblings_of_nextSibling hfirst).parent hclause
  refine ends_bind (lastPart_ends hw ?_ hfirst
    fun x hx => (hf.siblings_of_mem_siblingsAfter hx).parent hfirst)
  intro name hname
  refine ends_bind (setText_at (.of_loose hw clause) fun w1 h1 htext => ?_)
  generalize harguments : w.forest.trimWhiteSpace _ = arguments
  have hloose : ∀ x ∈ arguments, w.forest.Loose clause x := fun x hx => by
    have hmem := (trimWhiteSpace_sublist _ _).subset (harguments ▸ hx)
    exact hf.loose_of_parent
      ((hf.siblings_of_mem_siblingsAfter (List.mem_of_mem_filter hmem)).parent hname)
  refine ends_bind (insertNewAfter_at h1 ((htext.parent_eq name).trans hname)
    fun parens w2 h2 hparens => ?_)
  have hclear1 := h1.clear (clear_loose (hf.parent_lt hclause))
  refine ends_bind (ends_forM (fun rest w' => At K (w.forest.Loose clause) w.forest w' ∧
    Clear (w.forest.Loose clause) w'.forest parens ∧ ∀ x ∈ rest, w.forest.Loose clause x)
    ⟨h2, h1.clear_sprouted hclear1 hparens, hloose⟩ ?_ fun w3 h3 => ends_pure (h3.1.next rfl))
  rintro argument rest w3 ⟨h3, hclear3, hrest⟩
  exact bracketArgument_at h3 hclear3 (hrest argument (.head _)) fun w4 h4 hclear4 =>
    ⟨h4, hclear4, fun x hx => hrest x (.tail _ hx)⟩

/-! ## Inserting the result of a call -/

section Result

variable {target : Nat} {cursor : String} {Q : PUnit → Workspace → Prop}

lemma fetchAll_at (h : At K S f w) (htarget : target < w.forest.size)
    (hQ : ∀ w', At K S f w' → Extends w.forest w'.forest → Q () w') :
    Ends (fetchAll target cursor) w Q E := by
  refine ends_bind (appendLeaf_at h htarget fun w1 h1 hleaf => ?_)
  refine appendWithLeaf_at h1 (hleaf.lt_size htarget) fun parens w2 h2 hparens _ => ?_
  have hext := hleaf.trans hparens
  exact appendLeaf_at h2 (hext.lt_size htarget) fun w3 h3 has => hQ w3 h3 (hext.trans has)

lemma fetchRows_at {shape : Option RowShape} (h : At K S f w) (htarget : target < w.forest.size)
    (hQ : ∀ w', At K S f w' → Q () w') : Ends (fetchRows target cursor shape) w Q E := by
  cases shape with
  | none =>
    refine ends_bind (fetchAll_at h htarget fun w1 h1 hext => ?_)
    refine appendWithLeaf_at h1 (hext.lt_size htarget) fun stub w2 h2 _ _ => ?_
    exact warn_at h2 fun w3 h3 _ => hQ w3 h3
  | some shape =>
    cases shape with
    | columns definition =>
      refine ends_bind (fetchAll_at h htarget fun w1 h1 hext => ?_)
      have htarget := hext.lt_size htarget
      refine ends_bind (copy_at h1 fun columns w2 h2 hcopy hn hlt hnone => ?_)
      refine ends_bind (setTag_at h2 fun w3 h3 htag => ?_)
      have hoff : ¬ w3.forest.Under target columns := by
        rw [htag.under_iff]
        exact hcopy.not_under_new h1.wellFormed htarget hn.ge
      exact addChild_off_at h3 (htag.size_eq ▸ hcopy.lt_size htarget) (.inr (hn ▸ h1.since.size_le))
        (htag.size_eq ▸ hlt) ((htag.parent_eq columns).trans hnone) hoff fun w4 h4 _ => hQ w4 h4
    | type name =>
      refine ends_bind (appendLeaf_at h htarget fun w1 h1 hleaf => ?_)
      refine ends_bind (append_at h1 (hleaf.lt_size htarget) fun parens w2 h2 hparens => ?_)
      exact appendLeaves_at h2 hparens.lt_size fun w3 h3 _ => hQ w3 h3

lemma insertResult_safe {statement insert : Nat} (hw : w.Sound K)
    (hinsert : w.forest.parent insert = some statement) (name : Nat) :
    Safe K P (insertResult statement insert name) w := by
  have hf := hw.wellFormed
  refine ends_forest (ends_need hw fun container hcontainer => ?_)
  have hstart : At K (w.forest.Loose container) w.forest w := .of_loose hw container
  refine ends_bind (insertNewAfter_at hstart hcontainer fun insertion w1 h1 hinsertion => ?_)
  have hclear1 := hstart.clear_sprouted (clear_loose (hf.parent_lt hcontainer)) hinsertion
  have hloose := hf.loose_of_below ((below_of_parent hinsert).tail hcontainer)
  refine ends_bind (moveTo_at h1 hclear1 hloose fun w2 h2 hmoved => ?_)
  have hlt2 := (hclear1.relinked hmoved (by simpa using hloose)).lt_size
  refine ends_forest (ends_need h2.sound fun table _ => ?_)
  refine ends_bind (append_at h2 hlt2 fun select w3 h3 hselect => ?_)
  refine ends_bind (appendLeaves_at h3 hselect.lt_size fun w4 h4 hleaves => ?_)
  have hlt4 := (hselect.extends.trans hleaves).lt_size hlt2
  refine appendWithLeaf_at h4 hlt4 fun source w5 h5 _ hsource => ?_
  refine ends_bind (append_at h5 (lt_size_of_parent hsource) fun target w6 h6 htarget => ?_)
  exact ends_forest (ends_notes (fetchRows_at h6 htarget.lt_size fun w7 h7 => h7.next rfl))

end Result

lemma convertCall_safe (hw : w.Sound K) (keyword : Nat) : Safe K P (convertCall keyword) w := by
  refine (bracketCall_safe hw keyword).bind fun ⟨clause, name⟩ w1 hnext => ?_
  have hw1 := hnext.1
  refine ends_forest (ends_need hw1 fun statement _ => ?_)
  split <;> [rename_i insert hinsert; exact safe_pure hw1]
  exact insertResult_safe hw1 (hw1.wellFormed.parent_of_find? hinsert) name

lemma callVisit_safe (hw : w.Sound K) (id : Nat) : Safe K P (callVisit id) w :=
  ends_forest (ends_optional (fun _ => convertCall_safe hw id) (fun _ => .refl hw)
    fun _ hnext => ends_pure hnext)

lemma convertCalls_safe (hw : w.Sound K) : Safe K P convertCalls w :=
  walk_safe hw fun id _ _ hw' _ => callVisit_safe hw' id

/-! ## Output parameters -/

lemma moveOutputMark_safe (hw : w.Sound K) (parens mark : Nat) :
    Safe K P (moveOutputMark parens mark) w := by
  have hf := hw.wellFormed
  refine ends_forest (ends_need hw fun parts hparts => ?_)
  obtain ⟨before, after⟩ := parts
  have hmark : w.forest.parent mark = some parens :=
    hf.parent_of_mem (by rw [splitAround_eq_some hparts]; simp)
  have hclear := clear_loose (hf.parent_lt hmark)
  have hloose := hf.loose_of_parent hmark
  refine ends_bind (detach_at (.of_loose hw parens) (.inl hloose) fun w1 h1 hoff => ?_)
  refine ends_bind (setText_at h1 fun w2 h2 htext => ?_)
  have hnone : w2.forest.parent mark = none :=
    (htext.parent_eq mark).trans (hoff.parent_of_mem (by simp))
  split
  · rename_i comma hcomma
    have hcomma := (hf.precedes_of_around hparts).1
      (List.mem_reverse.1 (List.mem_of_find?_eq_some hcomma))
    have hparent : w2.forest.parent comma = some parens := by
      rw [htext.parent_eq, hoff.parent_of_notMem (by simpa using hcomma.ne), hcomma.parent hmark]
    exact insertAfter_at h2 (h2.clear hclear) hloose hnone hparent fun w3 h3 _ => h3.next rfl
  · refine ends_forest (ends_need h2.sound fun first hfirst => ?_)
    exact insertBefore_at h2 (h2.clear hclear) hloose hnone
      (h2.wellFormed.parent_of_firstSignificantChild hfirst) fun w3 h3 _ => h3.next rfl

lemma convertOutputParameters_safe (hw : w.Sound K) : Safe K P convertOutputParameters w :=
  forEachMatch_safe hw fun parens _ _ hw' _ => ends_forest (ends_forM_next hw'
    (fun mark _ _ hnext => moveOutputMark_safe hnext.1 parens mark) fun _ hnext => hnext)

end SqlDialect.ProcedureCall
