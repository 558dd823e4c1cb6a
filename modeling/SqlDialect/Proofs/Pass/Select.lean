import SqlDialect.Pass.Select
import SqlDialect.Proofs.Conversion.Walk

/-!
# Select statements keep the workspace sound

The alias of a column `name = value` is looked for in the whole column.  If its first name is the
equals sign or stands after it, that name is taken for the alias: it is part of the value, or
the mark before which the value is put, and the links refuse what comes next.  `ColumnFault` says
exactly when this happens.
-/

namespace SqlDialect.Select

open Conversion Forest List

variable {keyword : Nat} {w' w : Workspace} {K : String → Prop} {P : Prop} {S : Nat → Prop}
  {f : Forest} {E : ConversionError → Workspace → Prop}

/-! ## Tables and variables -/

lemma intoTable_safe (hw : w.Sound K) (clause : Nat) : Safe K P (intoTable clause) w := by
  have hf := hw.wellFormed
  refine ends_forest (ends_need hw fun statement hstatement => ?_)
  split <;> [rename_i into hinto; exact safe_pure hw]
  have hsiblings := hf.siblings_of_nextSibling (Option.filter_eq_some_iff.1 hinto).1
  have hinto := hsiblings.parent hstatement
  refine ends_need hw fun name _ => ?_
  refine ends_bind (removeChild_sound hw hinto fun w1 h1 hoff => ?_)
  have hstatement1 : w1.forest.parent clause = some statement :=
    (hoff.parent_of_notMem (by simpa using hsiblings.1)).trans hstatement
  refine ends_bind (insertNewBefore_at h1 hstatement1 fun creation w2 h2 hcreation => ?_)
  exact appendLeaves_at h2 hcreation.lt_size fun w3 h3 _ => h3.next rfl

lemma appendNames_at {parent : Nat} {Q : PUnit → Workspace → Prop} :
    ∀ {names : List String} {w : Workspace}, At K S f w → parent < w.forest.size →
      (∀ w', At K S f w' → Q () w') → Ends (appendNames parent names) w Q E
  | [], w, h, _, hQ => ends_pure (hQ w h)
  | [_], _, h, hparent, hQ => appendLeaf_at h hparent fun w' h' _ => hQ w' h'
  | _ :: _ :: _, _, h, hparent, hQ =>
    ends_bind (appendLeaves_at h hparent fun _ h1 hext =>
      appendNames_at h1 (hext.lt_size hparent) hQ)

lemma intoVariables_safe (hw : w.Sound K) (clause : Nat) : Safe K P (intoVariables clause) w := by
  refine ends_forest (Safe.bind ?_ fun _ w1 hnext => ?_)
  · cases hsemicolon : w.forest.child clause .semicolon with
    | none => exact safe_pure hw
    | some semicolon =>
      have hsemicolon := hw.wellFormed.parent_of_child hsemicolon
      exact removeChild_sound hw hsemicolon fun w1 h1 _ => h1.next rfl
  · have hw1 := hnext.1
    refine ends_forest (ends_ite (fun _ => safe_pure hw1) fun _ => ?_)
    refine ends_need hw1 fun statement hstatement => ?_
    refine ends_bind (insertNewAfter_at (.unmoved hw1) hstatement fun into w2 h2 hinto => ?_)
    refine ends_bind (appendLeaf_at h2 hinto.lt_size fun w3 h3 hleaf => ?_)
    exact appendNames_at h3 (hleaf.lt_size hinto.lt_size) fun w4 h4 => h4.next rfl

/-! ## Aliases -/

/-- The column has an equals sign, and its first name, which is no comment, does not stand before
it. -/
def ColumnFault (f : Forest) (column : List NodeId) : Prop :=
  ∃ equals rest name, column.dropWhile (!f.is · .equalsSign) = equals :: rest ∧
    column.find? f.isName = some name ∧ name ∈ equals :: rest ∧ f.isComment name = false

/-- A column is converted without a change of parents, unless it is at fault or has no name. -/
lemma aliasColumn_ends {clause : Nat} {column : List NodeId} (hw : w.Sound K)
    (hparent : ∀ x ∈ column, w.forest.parent x = some clause) (hnodup : column.Nodup) :
    Ends (aliasColumn clause column) w
      (fun _ w' => Next K w w' ∧ (∀ x : Nat, w'.forest.parent x = w.forest.parent x) ∧
        ¬ ColumnFault w.forest column)
      fun e w' => w'.Sound K ∧ ((∃ cause, e = .link cause) ↔ ColumnFault w.forest column) := by
  have hf := hw.wellFormed
  refine ends_forest ?_
  split
  · rename_i hnil
    refine ends_pure ⟨.refl hw, fun _ => rfl, ?_⟩
    rintro ⟨equals, rest, name, hsplit, -⟩
    cases hnil.symm.trans hsplit
  rename_i equals rest hsplit
  have hsublist : (equals :: rest).Sublist column := hsplit ▸ dropWhile_sublist _
  have hnotMem : equals ∉ rest := (nodup_cons.1 (hsublist.nodup hnodup)).1
  cases hname : column.find? w.forest.isName with
  | none =>
    refine ends_bind (ends_throw ⟨hw, by simp, ?_⟩)
    rintro ⟨equals', rest', name, -, hsome, -⟩
    cases hname.symm.trans hsome
  | some name =>
    refine ends_need_some rfl ?_
    have hfault (hmem : name ∈ equals :: rest) (hcomment : w.forest.isComment name = false) :
        ColumnFault w.forest column := ⟨equals, rest, name, hsplit, hname, hmem, hcomment⟩
    have hnameParent := hparent name (mem_of_find?_eq_some hname)
    have hequals := hparent equals (hsublist.subset (.head _))
    have hclear := hf.clear_children (hf.parent_lt hequals)
    generalize hvalue : rest.filter (!w.forest.isComment ·) = value
    have hvalueParent : ∀ i ∈ value, w.forest.parent i = some clause := fun i hi =>
      hparent i (hsublist.subset (.tail _ (mem_of_mem_filter (hvalue ▸ hi))))
    have hequalsNot : equals ∉ value := fun hmem =>
      hnotMem (mem_of_mem_filter (hvalue ▸ hmem))
    refine ends_bind (removeChild_at (.of_children hw clause) (.inl hnameParent) hnameParent
      fun w1 h1 hoff => ?_)
    have hclear1 := h1.clear hclear
    by_cases heq : name = equals
    · -- The mark has been taken away.
      subst heq
      have hcomment : w.forest.isComment name = false := by
        have htag : w.forest.tag name = .equalsSign := by
          have hhead := head?_dropWhile_not (!w.forest.is · .equalsSign) column
          rw [hsplit] at hhead
          exact tag_of_is (by simpa using hhead)
        rw [isComment, htag]
        decide
      have hfault := hfault (.head _) hcomment
      have hmark : w1.forest.parent name = none := hoff.parent_of_mem (by simp)
      have hrefused {w' : Workspace} {c : Nat} {arrange : List NodeId → List NodeId → List NodeId}
          (h' : At K (w.forest.parent · = some clause) w.forest w')
          (hc : w.forest.parent c = some clause) (hnone : w'.forest.parent c = none)
          (hmark' : w'.forest.parent name = none) :
          w'.forest.insertAt clause c name arrange = .error (.notAChild name clause) :=
        h'.wellFormed.insertAt_eq_error hnone
          (fun hunder => (h'.clear hclear).not_mem_above c hunder hc) (by simp [hmark'])
      cases value with
      | nil =>
        refine ends_bind (ends_pure (ends_bind (ends_relink_error
          (hrefused h1 hnameParent hmark hmark) ⟨h1.sound, fun _ => hfault, fun _ => ⟨_, rfl⟩⟩)))
      | cons first others =>
        have hfirst := hvalueParent first (.head _)
        refine ends_bind (ends_bind (ends_bind (detach_at h1 (.inl hfirst) fun w2 h2 hoff2 => ?_)))
        refine ends_relink_error (hrefused h2 hfirst (hoff2.parent_of_mem (by simp)) ?_)
          ⟨h2.sound, fun _ => hfault, fun _ => ⟨_, rfl⟩⟩
        rw [hoff2.parent_eq]
        split <;> [rfl; exact hmark]
    have hmark : w1.forest.parent equals = some clause := by
      rw [hoff.parent_of_notMem (by simpa using Ne.symm heq), hequals]
    refine ends_bind (moveAllBefore_at h1 hclear1 hvalueParent hmark hequalsNot
      fun w2 h2 hmoved => ?_)
    by_cases hmem : name ∈ value
    · -- The name came back with the value.
      have hmemRest := mem_filter.1 (hvalue ▸ hmem)
      have hattached : w2.forest.parent name = some clause := hmoved.parent_of_mem hmem
      refine ends_bind
        (ends_relink_error (insertAt_eq_error (checkAttachable_eq_attached hattached))
        ⟨h2.sound, fun _ => hfault (.tail _ hmemRest.1) ?_, fun _ => ⟨_, rfl⟩⟩)
      simpa using hmemRest.2
    have hnone : w2.forest.parent name = none := by
      rw [hmoved.parent_of_notMem hmem, hoff.parent_of_mem (by simp)]
    have hmark2 : w2.forest.parent equals = some clause :=
      (hmoved.parent_of_notMem hequalsNot).trans hmark
    refine ends_bind (insertAfter_at h2 (h2.clear hclear) hnameParent hnone hmark2
      fun w3 h3 hon => ?_)
    refine ends_bind (setTag_at h3 fun w4 h4 htag => setText_at h4 fun w5 h5 htext => ?_)
    refine ⟨h5.next rfl, fun x => ?_, ?_⟩
    · rw [htext.parent_eq, htag.parent_eq, hon.parent_eq, hmoved.parent_eq, hoff.parent_eq]
      split_ifs with hx hx'
      · rw [mem_singleton.1 hx, hnameParent]
      · exact (hvalueParent x hx').symm
      · rfl
    · rintro ⟨equals', rest', name', hsplit', hname', hmem', hcomment'⟩
      cases hsplit.symm.trans hsplit'
      cases hname.symm.trans hname'
      refine hmem (hvalue ▸ mem_filter.2 ⟨?_, by simpa using hcomment'⟩)
      exact (mem_cons.1 hmem').resolve_left heq

/-- A column of the clause is at fault when the columns before it have been converted. -/
def ColumnsFault (w : Workspace) (clause : Nat) : Prop :=
  ∃ before column after w', w.forest.selectColumns clause = before ++ column :: after ∧
    before.forM (aliasColumn clause) w = .ok () w' ∧ ColumnFault w'.forest column

section Columns

variable {clause : Nat} {before after : List (List NodeId)}

lemma parent_of_columns_eq (hw : w.Sound K)
    (hcolumns : w.forest.selectColumns clause = before ++ after)
    (hsame : ∀ x : Nat, w'.forest.parent x = w.forest.parent x) :
    ∀ column ∈ after, (∀ x ∈ column, w'.forest.parent x = some clause) ∧ column.Nodup := by
  intro column hcolumn
  have hmem : column ∈ w.forest.selectColumns clause := hcolumns ▸ mem_append_right _ hcolumn
  refine ⟨fun x hx => (hsame x).trans (hw.wellFormed.parent_of_mem_column hmem hx), ?_⟩
  exact (nodup_flatten.1 (hw.wellFormed.nodup_flatten_selectColumns clause)).1 column hmem

lemma aliasFirstColumns_ends (hw : w.Sound K)
    (hcolumns : w.forest.selectColumns clause = before ++ after) :
    Ends (before.forM (aliasColumn clause)) w
      (fun _ w' => Next K w w' ∧ ∀ x : Nat, w'.forest.parent x = w.forest.parent x)
      (Halts K (ColumnsFault w clause)) := by
  refine ends_forM (fun rest w' => ∃ done, before = done ++ rest ∧
    done.forM (aliasColumn clause) w = .ok () w' ∧ Next K w w' ∧
    ∀ x : Nat, w'.forest.parent x = w.forest.parent x)
    ⟨[], rfl, rfl, .refl hw, fun _ => rfl⟩ ?_ fun w' ⟨_, _, _, h⟩ => h
  rintro column rest w1 ⟨done, rfl, hrun, hnext, hsame⟩
  rw [append_assoc] at hcolumns
  obtain ⟨hparent, hnodup⟩ := parent_of_columns_eq hw hcolumns hsame column (by simp)
  refine (aliasColumn_ends hnext.1 hparent hnodup).run.mono ?_ ?_
  · rintro ⟨⟩ w2 ⟨hrun2, hnext2, hsame2, -⟩
    refine ⟨done ++ [column], by simp, ?_, hnext.trans hnext2, fun x => (hsame2 x).trans (hsame x)⟩
    rw [forM_append, bind_of_ok hrun]
    exact bind_of_ok hrun2
  · rintro e w2 ⟨hw2, hfault⟩
    exact ⟨hw2, fun hlink => ⟨done, column, rest ++ after, w1, by simpa using hcolumns, hrun,
      hfault.1 hlink⟩⟩

lemma aliasColumns_safe (hw : w.Sound K) (hfault : ColumnsFault w clause → P) :
    Safe K P (aliasColumns clause) w :=
  ends_forest ((aliasFirstColumns_ends hw (append_nil _).symm).mono (fun _ _ h => h.1)
    fun _ _ he => ⟨he.1, fun hlink => hfault (he.2 hlink)⟩)

lemma aliasColumns_fails (hw : w.Sound K) (hfault : ColumnsFault w clause) :
    Fails K (aliasColumns clause) w := by
  obtain ⟨before, column, after, w1, hcolumns, hrun, hcolumn⟩ := hfault
  obtain ⟨hnext, hsame⟩ := (ends_iff.1 (aliasFirstColumns_ends hw hcolumns)).1 () w1 hrun
  obtain ⟨hparent, hnodup⟩ := parent_of_columns_eq hw hcolumns hsame column (by simp)
  refine ends_forest ?_
  rw [hcolumns, forM_append]
  refine ends_bind (ends_of_ok hrun (Fails.bind ?_))
  exact (aliasColumn_ends hnext.1 hparent hnodup).mono (fun _ _ h => h.2.2 hcolumn)
    fun _ _ he => ⟨he.1, he.2.2 hcolumn⟩

end Columns

/-! ## Limits -/

/-- The row count and the semicolon move to a new clause of the statement. -/
lemma topToLimit_safe (hw : w.Sound K) (clause : Nat) : Safe K P (topToLimit clause) w := by
  have hf := hw.wellFormed
  refine ends_forest ?_
  split <;> [rename_i top htop; exact safe_pure hw]
  have htop := hf.parent_of_childWithText htop
  refine ends_need hw fun count hcount => ?_
  have hsiblings := hf.siblings_of_nextSibling hcount
  have hcount := hsiblings.parent htop
  -- The statement is asked for later, but it is the parent of the clause from the start.
  obtain ⟨above, hunder, habove, hunique⟩ : ∃ above, w.forest.Under clause above ∧
      above < w.forest.size ∧ ∀ p : Nat, w.forest.parent clause = some p → p = above := by
    cases hclause : w.forest.parent clause with
    | none => exact ⟨clause, Under.refl _ _, hf.parent_lt htop, by simp⟩
    | some p => exact ⟨p, under_of_parent hclause, hf.parent_lt hclause, by simp⟩
  have hloose {x : Nat} (hx : w.forest.parent x = some clause) : w.forest.Loose above x :=
    hf.loose_of_below (below_iff.2 ⟨clause, hx, hunder⟩)
  refine ends_bind (removeChild_at (.of_loose hw above) (.inl (hloose htop)) htop
    fun w1 h1 hoff1 => ?_)
  refine ends_bind (removeChild_at h1 (.inl (hloose hcount))
    ((hoff1.parent_of_notMem (by simpa using hsiblings.1.symm)).trans hcount) fun w2 h2 hoff2 => ?_)
  have hback (x p : Nat) (hx : w2.forest.parent x = some p) : w.forest.parent x = some p :=
    hoff1.parent_of_some (hoff2.parent_of_some hx)
  have hcount2 : w2.forest.parent count = none := hoff2.parent_of_mem (by simp)
  refine ends_forest (ends_need h2.sound fun statement hstatement => ?_)
  obtain rfl := hunique statement (hback _ _ hstatement)
  refine ends_need h2.sound fun last hlast => ?_
  have hlast := h2.wellFormed.parent_of_lastChild hlast
  have hbelow : ∀ s : Nat, w2.forest.terminator last = some s → w2.forest.Below s last :=
    fun s hs => (h2.wellFormed.below_of_terminator hs).1
  have hsemicolon : ∀ s : Nat, w2.forest.terminator last = some s → w.forest.Loose statement s :=
    fun s hs => hf.loose_of_below (Below.mono (fun h => hback _ _ h) ((hbelow s hs).tail hlast))
  have hne : ∀ s : Nat, w2.forest.terminator last = some s → s ≠ count := fun s hs heq => by
    obtain ⟨p, hp, -⟩ := below_iff.1 (hbelow s hs)
    cases hp.symm.trans (heq ▸ hcount2)
  refine ends_bind (takeTerminator_at h2 hsemicolon fun w3 h3 hoff3 => ?_)
  refine appendWithLeaf_clear h3 (h3.clear (clear_loose habove)) fun limit w5 h5 hext hlimit5 => ?_
  have hcount5 : w5.forest.parent count = none := by
    refine hext.parent_eq_none (h3.lt_size_of (hloose hcount)) ?_
    rw [hoff3.parent_of_notMem, hcount2]
    exact fun hmem => hne count (Option.mem_toList.1 hmem) rfl
  refine ends_bind (addChild_at h5 hlimit5 (hloose hcount) hcount5 fun w6 h6 hon => ?_)
  refine putTerminator_at h6 (hlimit5.relinked hon (by simpa using hloose hcount)) hsemicolon
    (fun s hs => ?_) fun w7 h7 _ => h7.next rfl
  rw [hon.parent_of_notMem (by simpa using hne s hs)]
  exact hext.parent_eq_none (h3.lt_size_of (hsemicolon s hs)) (hoff3.parent_of_mem (by simp [hs]))

/-! ## Select clauses -/

/-- What the clause of a `select` must not look like: after the tables and the variables it is
selected into have been treated, a column is at fault. -/
def SelectFault (w : Workspace) (keyword : Nat) : Prop :=
  ∃ clause w', w.forest.parent keyword = some clause ∧ w.forest.parent clause ≠ none ∧
    selectInto clause w = .ok () w' ∧ ColumnsFault w' clause

lemma selectInto_safe (hw : w.Sound K) (clause : Nat) : Safe K P (selectInto clause) w :=
  (intoTable_safe hw clause).bind fun _ _ hnext => intoVariables_safe hnext.1 clause

lemma convertSelect_safe (hw : w.Sound K) (hfault : SelectFault w keyword → P) :
    Safe K P (convertSelect keyword) w := by
  refine ends_forest ?_
  split <;> [rename_i clause hclause; exact safe_pure hw]
  refine ends_ite (fun _ => safe_pure hw) fun hstatement => ?_
  refine Ends.bind (selectInto_safe hw clause) fun _ w1 hrun hnext1 => ?_
  have hcolumns : ColumnsFault w1 clause → P := fun h =>
    hfault ⟨clause, w1, hclause, by simpa using hstatement, hrun, h⟩
  refine ((aliasColumns_safe hnext1.1 hcolumns).bind fun _ w2 hnext2 =>
    topToLimit_safe hnext2.1 clause).imp (fun _ _ h => hnext1.trans h)

lemma convertSelect_fails (hw : w.Sound K) (hfault : SelectFault w keyword) :
    Fails K (convertSelect keyword) w := by
  obtain ⟨clause, w1, hclause, hstatement, hrun, hcolumns⟩ := hfault
  refine ends_forest ?_
  rw [hclause]
  refine ends_ite (fun hnone => absurd (Option.isNone_iff_eq_none.1 hnone) hstatement) fun _ => ?_
  have hw1 : w1.Sound K :=
    ((ends_iff.1 (selectInto_safe (P := False) hw clause)).1 () w1 hrun).1
  exact ends_bind (ends_of_ok hrun (aliasColumns_fails hw1 hcolumns).bind)

/-- Select clauses can be converted unless the walk comes to one that is at fault. -/
lemma convertSelects_safe (hw : w.Sound K)
    (hfault : ∀ keyword w', MeetsMatch .otherKeyword (some "select") convertSelect w keyword w' →
      SelectFault w' keyword → P) :
    Safe K P convertSelects w :=
  forEachMatch_safe hw fun keyword w' hmeets hw' _ =>
    convertSelect_safe hw' (hfault keyword w' hmeets)

lemma convertSelects_eq_error (hw : w.Sound K)
    (hmeets : MeetsMatch .otherKeyword (some "select") convertSelect w keyword w')
    (hfault : SelectFault w' keyword) : ∃ cause w'', convertSelects w = .error (.link cause) w'' :=
  forEachMatch_eq_error hw (fun _ _ hw => convertSelect_safe hw fun _ => trivial) hmeets
    fun hw' => convertSelect_fails hw' hfault

end SqlDialect.Select
