import SqlDialect.Pass.ResultSet
import SqlDialect.Proofs.Conversion.Walk

/-!
# Conversions of routine definitions

The passes on routine definitions keep the workspace sound.  They move nodes out of the header and
out of the return statement only, so none of them can fail because of the links, with one
exception.  The name of the table variable that a function returns is taken to be what follows
`returns`; where that is the block with the body (`ReturnsBody`), the body is moved into a statement
that then has to go into the body.
-/

namespace SqlDialect.Routine

open Conversion Forest

variable {asBlock block body clause keyword : Nat} {e : ConversionError}
  {E : ConversionError → Workspace → Prop} {f : Forest} {K : String → Prop} {P : Prop}
  {w w' : Workspace}

/-! ## Visits of routines -/

section Visits

variable {convertRoutine : NodeId → NodeId → Conversion Unit}

/-- A walk that converts routine definitions comes to one, which has its body in `asBlock`. -/
def MeetsRoutine (convertRoutine : NodeId → NodeId → Conversion Unit) (w : Workspace)
    (block asBlock : Nat) (w' : Workspace) : Prop :=
  Meets (routineVisit convertRoutine) w block w' ∧ w'.forest.routineAsBlock block = some asBlock

lemma forEachRoutine_safe (hw : w.Sound K)
    (hconvert : ∀ (block asBlock : Nat) (w' : Workspace),
      MeetsRoutine convertRoutine w block asBlock w' → w'.Sound K →
      w'.forest.parent asBlock = some block → Safe K P (convertRoutine block asBlock) w') :
    Safe K P (forEachRoutine convertRoutine) w := by
  refine walk_safe hw fun block w' hmeets hw' _ => ?_
  refine ends_forest ?_
  split <;> [rename_i asBlock hblock; exact safe_pure hw']
  exact (hconvert block asBlock w' ⟨hmeets, hblock⟩ hw'
    (hw'.wellFormed.parent_of_routineAsBlock hblock)).bind fun _ _ hnext => safe_pure hnext.1

/-- If the conversion of a routine always leaves a sound workspace, the walk comes to sound ones. -/
lemma MeetsRoutine.sound (h : MeetsRoutine convertRoutine w block asBlock w')
    (hw : w.Sound K) (hconvert : ∀ (block asBlock : Nat) (w : Workspace), w.Sound K →
      w.forest.parent asBlock = some block → Safe K True (convertRoutine block asBlock) w) :
    w'.Sound K := by
  refine (h.1.sound (P := True) hw fun id w1 hw1 _ => ends_forest ?_).1
  split <;> [rename_i asBlock hblock; exact safe_pure hw1]
  exact (hconvert id asBlock w1 hw1 (hw1.wellFormed.parent_of_routineAsBlock hblock)).bind
    fun _ _ hnext => safe_pure hnext.1

end Visits

/-! ## Headers -/

/-- The header gets at most new words. -/
lemma createOrReplace_ends (hw : w.Sound K) (block : Nat) :
    Ends (createOrReplace block) w (fun _ w' => Next K w w' ∧ Extends w.forest w'.forest) E := by
  refine ends_forest ?_
  split <;> [rename_i alter halter; exact ends_pure ⟨.refl hw, .refl _⟩]
  have halter := hw.wellFormed.parent_of_childWithText halter
  refine ends_ite (fun _ => ?_) fun _ => ?_
  · exact setText_at (.unmoved hw) fun w1 h1 htext => ⟨h1.next rfl, htext.extends⟩
  · refine ends_bind (setText_at (.unmoved hw) fun w1 h1 htext => ?_)
    exact ends_discard (insertLeavesAfter_at h1 (htext.extends.parent_of halter)
      fun _ w2 h2 hleaves _ => ⟨h2.next rfl, htext.extends.trans hleaves⟩)

/-! ## Table results -/

/-- The function returns the rows of a table variable. -/
def ReturnsTable (f : Forest) (block : Nat) (result : TableResult) : Prop :=
  ∃ returns keyword, f.child block .ddlReturns = some returns ∧
    f.nextSibling returns = some result.tableName ∧ f.nextSibling result.tableName = some keyword ∧
    f.isText keyword .otherKeyword "table" ∧ f.nextSibling keyword = some result.columns

/-- What stands in the place of the returned variable is the block with the body. -/
def ReturnsBody (f : Forest) (block asBlock : Nat) : Prop :=
  ∃ columns, ReturnsTable f block { tableName := asBlock, columns } ∧
    (blockStatements f asBlock).isSome

lemma tableResult_ends {Q : Option TableResult → Workspace → Prop} (hw : w.Sound K)
    (hnone : Q none w) (hsome : ∀ result, ReturnsTable w.forest block result → Q (some result) w) :
    Ends (tableResult w.forest block) w Q (Halts K P) := by
  unfold tableResult
  split <;> [rename_i returns hreturns; exact ends_pure hnone]
  split <;> [rename_i tableName hname; exact ends_pure hnone]
  split <;> [rename_i keyword hkeyword; exact ends_pure hnone]
  refine ends_ite (fun _ => ends_pure hnone) fun htable => ?_
  refine ends_need hw fun columns hcolumns => ends_pure (hsome _ ?_)
  exact ⟨returns, keyword, hreturns, hname, hkeyword, by simpa using htable, hcolumns⟩

lemma tableResult_eq_ok {result : TableResult}
    (h : ReturnsTable f block result) : tableResult f block w = .ok (some result) w := by
  obtain ⟨returns, keyword, hreturns, hname, hkeyword, htable, hcolumns⟩ := h
  simp only [tableResult, hreturns, hname, hkeyword, htable, hcolumns]
  rfl

lemma ReturnsTable.parent_tableName {result : TableResult}
    (h : ReturnsTable f block result) (hf : f.WellFormed) :
    f.parent result.tableName = some block := by
  obtain ⟨returns, keyword, hreturns, hname, -⟩ := h
  exact (hf.siblings_of_nextSibling hname).parent (hf.parent_of_child hreturns)

lemma below_of_blockStatements (hf : f.WellFormed)
    (h : blockStatements f asBlock = some body) : f.Below body asBlock := by
  obtain ⟨content, hcontent, hpath⟩ := Option.bind_eq_some_iff.1 h
  exact (hf.below_of_path hpath).trans (below_of_parent (hf.parent_of_routineBody hcontent))

/-- The new statement holds the table name, so it can be put into the body unless that is below the
name. -/
lemma createResultTable_ends (hw : w.Sound K) {result : TableResult}
    (hparent : w.forest.parent result.tableName = some block) (hbody : body < w.forest.size) :
    Ends (createResultTable result body) w
      (fun _ w' => Next K w w' ∧ ¬ w.forest.Under body result.tableName)
      fun e w' => w'.Sound K ∧ w.forest.Under body result.tableName ∧ ∃ cause, e = .link cause := by
  have h : At K (fun c => c = result.tableName) w.forest w :=
    .of_sound hw fun c hc => ⟨block, hc ▸ hparent⟩
  refine ends_bind (create_at h fun statement w1 h1 hstatement => ?_)
  refine ends_bind (append_clear h1 (h.clear_created hstatement) fun clause w2 h2 hclear2 hclause =>
    ?_)
  refine ends_bind (appendLeaves_at h2 hclause.lt_size fun w3 h3 hleaves => ?_)
  have hclear3 := hclear2.extend hleaves h2.wellFormed
  refine ends_bind (moveTo_at h3 hclear3 rfl fun w4 h4 hmoved => ?_)
  have hclear4 := hclear3.relinked hmoved (by simp)
  refine ends_bind (appendCopy_at h4 hclear4.lt_size fun w5 h5 hcopy => ?_)
  refine ends_bind (appendLeaf_at h5 (hcopy.lt_size hclear4.lt_size) fun w6 h6 hleaf => ?_)
  have hnew : w.forest.size ≤ statement := hstatement.id_eq.ge
  have hext3 := hclause.extends.trans hleaves
  have hext6 := hcopy.trans hleaf
  have hlt4 : statement < w4.forest.size := hmoved.size_eq ▸ hext3.lt_size hstatement.lt_size
  have hkeep {n : Nat} (hn : w.forest.size ≤ n) : w4.forest.parent n = w3.forest.parent n :=
    hmoved.parent_of_notMem fun hmem => h.not_mem_new hn (List.mem_singleton.1 hmem)
  have hnone : w6.forest.parent statement = none := by
    refine hext6.parent_eq_none hlt4 ?_
    rw [hkeep hnew, hext3.parent_eq_none hstatement.lt_size hstatement.parent_new]
  refine ends_forest ?_
  by_cases hbelow : w.forest.Under body result.tableName
  · -- From the body the way up leads through the table name and the new clause to the statement.
    have hunder : w6.forest.Under body statement := by
      have hclauseParent : w6.forest.parent clause = some statement := by
        refine hext6.parent_of ?_
        rw [hkeep (hstatement.extends.size_le.trans hclause.id_eq.ge),
          hleaves.parent_of hclause.parent_new]
      have htable : w6.forest.parent result.tableName = some clause :=
        hext6.parent_of (hmoved.parent_of_mem (by simp))
      refine ((hbelow.congr fun z q hz hq => ?_).tail htable).tail hclauseParent
      rw [h6.parent_eq hz (lt_size_of_parent hq), hq]
    have hcheck := h6.wellFormed.checkAttachable_eq_cycle hnone hunder
    split
    · exact ends_relink_error (insertAt_eq_error hcheck) ⟨h6.sound, hbelow, _, rfl⟩
    · exact ends_relink_error (addChild_eq_error hcheck) ⟨h6.sound, hbelow, _, rfl⟩
  · have hoff := h6.not_under_new ⟨hbody, fun c hunder hc => hbelow (hc ▸ hunder)⟩ hnew
    split
    · rename_i first hfirst
      exact link_at h6 (.inr hnew) (h6.wellFormed.insertBefore_ok (hext6.lt_size hlt4) hnone hoff
        (h6.wellFormed.parent_of_head? hfirst)) fun w' h' _ => ⟨h'.next rfl, hbelow⟩
    · exact addChild_off_at h6 (h6.lt_size hbody) (.inr hnew) (hext6.lt_size hlt4) hnone hoff
        fun w' h' _ => ⟨h'.next rfl, hbelow⟩

lemma dropReturned_at {S : Nat → Prop} {Q : PUnit → Workspace → Prop} (h : At K S f w)
    (hkeyword : w.forest.parent keyword = some clause)
    (hS : ∀ c, w.forest.parent c = some clause → S c)
    (hQ : ∀ w' ids, At K S f w' → Relinked w.forest w'.forest ids none → keyword ∉ ids →
      (∀ i ∈ ids, S i) → Q () w') : Ends (dropReturned clause keyword) w Q E := by
  have hskip : Q () w := hQ w [] h (.nil _ _) (by simp) (by simp)
  refine ends_forest ?_
  split <;> [rename_i returned hreturned; exact ends_pure hskip]
  have hsiblings := h.wellFormed.siblings_of_nextSibling hreturned
  have hparent := hsiblings.parent hkeyword
  refine ends_ite (fun _ => ?_) fun _ => ends_pure hskip
  exact removeChild_at h (.inl (hS _ hparent)) hparent fun w' h' hoff =>
    hQ w' [returned] h' hoff (by simpa using hsiblings.1) (by simpa using hS _ hparent)

lemma returnQuery_safe (hw : w.Sound K) (result : TableResult) (body : Nat) :
    Safe K P (returnQuery result body) w := by
  have hf := hw.wellFormed
  refine ends_forest (ends_need hw fun statement hstatement => ?_)
  refine ends_need hw fun clause hclause => ends_need hw fun keyword hkeyword => ?_
  have htag := tag_of_childWithText hkeyword
  have hclause := hf.parent_of_firstSignificantChild hclause
  have hkeyword := hf.parent_of_childWithText hkeyword
  have hclear := clear_loose (hf.parent_lt hclause)
  have hloose {c : Nat} (hc : w.forest.parent c = some clause) : w.forest.Loose statement c :=
    hf.loose_of_below ((below_of_parent hc).tail hclause)
  refine ends_bind (dropReturned_at (.of_loose hw statement) hkeyword (fun _ => hloose)
    fun w1 ids h1 hdropped hnot _ => ?_)
  refine ends_forest ?_
  have hsemicolon : ∀ s, w1.forest.child clause .semicolon = some s → w.forest.Loose statement s :=
    fun s hs => hloose (hdropped.parent_of_some (h1.wellFormed.parent_of_child hs))
  refine ends_bind (forM_detach_at h1 hsemicolon fun w2 h2 hoff => ?_)
  have hkeyword2 : w2.forest.parent keyword = some clause := by
    rw [hoff.parent_of_notMem, hdropped.parent_of_notMem hnot, hkeyword]
    intro hmem
    have hs := tag_of_child (Option.mem_toList.1 hmem)
    rw [hdropped.tag_eq, htag] at hs
    cases hs
  refine ends_bind (ends_discard (insertNewAfter_at h2 hkeyword2 fun _ w3 h3 hquery => ?_))
  refine ends_bind (append_at h3 (h3.clear hclear).lt_size fun select w4 h4 hselect => ?_)
  refine ends_bind (appendLeaves_at h4 hselect.lt_size fun w5 h5 hleaves => ?_)
  refine appendWithLeaf_clear h5 (h5.clear hclear) fun source w7 h7 hsource hclear7 => ?_
  refine ends_bind (append_at h7 hclear7.lt_size fun target w8 h8 htarget => ?_)
  refine ends_bind (appendCopy_at h8 htarget.lt_size fun w9 h9 hcopy => ?_)
  have hext7 : Extends w7.forest w9.forest := htarget.extends.trans hcopy
  have hext : Extends w2.forest w9.forest :=
    (((hquery.extends.trans hselect.extends).trans hleaves).trans hsource).trans hext7
  refine putTerminator_at h9 (hclear7.extend hext7 h7.wellFormed) hsemicolon (fun s hs => ?_)
    fun w' h' _ => h'.next rfl
  exact hext.parent_eq_none (h2.lt_size_of (hsemicolon s hs)) (hoff.parent_of_mem (by simp [hs]))

/-- A function that returns a table can be converted unless its body stands where the name of the
table should. -/
lemma returnTable_safe (hw : w.Sound K) (hblock : w.forest.parent asBlock = some block)
    (hfault : ReturnsBody w.forest block asBlock → P) : Safe K P (returnTable block asBlock) w := by
  have hf := hw.wellFormed
  refine ends_forest (ends_bind (tableResult_ends hw (safe_pure hw) fun result hresult => ?_))
  refine ends_need hw fun body hbody => ?_
  have hbelow := below_of_blockStatements hf hbody
  have htable := hresult.parent_tableName hf
  refine ends_bind ((createResultTable_ends hw htable hbelow.lt_size).mono ?_ ?_)
  · rintro - w1 ⟨hnext, -⟩
    exact (returnQuery_safe hnext.1 result body).imp fun _ _ hnext2 => hnext.trans hnext2
  · rintro e w1 ⟨hw1, hunder, -⟩
    have hname := hf.eq_of_under_of_parent hunder hbelow.under htable hblock
    exact ⟨hw1, fun _ => hfault ⟨result.columns, by simpa [← hname] using hresult, by simp [hbody]⟩⟩

lemma returnTable_fails (hw : w.Sound K)
    (h : ReturnsBody w.forest block asBlock) : Fails K (returnTable block asBlock) w := by
  have hf := hw.wellFormed
  obtain ⟨columns, hresult, hsome⟩ := h
  obtain ⟨body, hbody⟩ := Option.isSome_iff_exists.1 hsome
  have htable := hresult.parent_tableName hf
  have hbelow := below_of_blockStatements hf hbody
  refine ends_forest (ends_bind (ends_of_ok (tableResult_eq_ok hresult) (ends_need_some hbody ?_)))
  exact Fails.bind ((createResultTable_ends hw htable hbelow.lt_size).mono
    (fun _ _ h => h.2 hbelow.under) fun _ _ he => ⟨he.1, he.2.2⟩)

/-- What a routine definition must not look like when its header is converted: after `alter` has
been replaced, its body stands where the name of the returned table should. -/
def HeaderFault (w : Workspace) (block asBlock : Nat) : Prop :=
  ∃ w', createOrReplace block w = .ok () w' ∧ ReturnsBody w'.forest block asBlock

lemma convertHeader_safe (hw : w.Sound K)
    (hblock : w.forest.parent asBlock = some block) (hfault : HeaderFault w block asBlock → P) :
    Safe K P (convertHeader block asBlock) w := by
  refine Ends.bind (createOrReplace_ends hw block) fun _ w1 hrun ⟨hnext, hext⟩ => ?_
  refine (returnTable_safe hnext.1 (hext.parent_of hblock) fun h => hfault ⟨w1, hrun, h⟩).imp
    (fun _ _ hnext2 => hnext.trans hnext2)

lemma convertHeader_fails (hw : w.Sound K) (hfault : HeaderFault w block asBlock) :
    Fails K (convertHeader block asBlock) w := by
  obtain ⟨w1, hrun, hreturns⟩ := hfault
  have hw1 : w1.Sound K :=
    ((ends_iff.1 (createOrReplace_ends (E := fun _ _ => True) hw block)).1 () w1 hrun).1.1
  exact ends_bind (ends_of_ok hrun (returnTable_fails hw1 hreturns))

/-- The headers can be converted unless the walk comes to one that is at fault. -/
lemma convertHeaders_safe (hw : w.Sound K)
    (hfault : ∀ block asBlock w',
      MeetsRoutine convertHeader w block asBlock w' → HeaderFault w' block asBlock → P) :
    Safe K P convertHeaders w :=
  forEachRoutine_safe hw fun block asBlock w' hmeets hw' hblock =>
    convertHeader_safe hw' hblock (hfault block asBlock w' hmeets)

lemma convertHeaders_eq_error {w' : Workspace} (hw : w.Sound K)
    (hmeets : MeetsRoutine convertHeader w block asBlock w')
    (hfault : HeaderFault w' block asBlock) :
    ∃ cause w'', convertHeaders w = .error (.link cause) w'' := by
  have hw' : w'.Sound K := hmeets.sound hw fun block asBlock w hw hblock =>
    convertHeader_safe hw hblock fun _ => trivial
  obtain ⟨cause, w'', herror⟩ := (convertHeader_fails hw' hfault).exists_error
  refine ⟨cause, w'', hmeets.1.walk_eq_error ?_⟩
  have hforest : forest w' = .ok w'.forest w' := rfl
  rw [routineVisit, bind_of_ok hforest, hmeets.2]
  exact bind_of_error herror

/-! ## Parameters, language and body -/

lemma nameNode_ends {Q : NodeId → Workspace → Prop} (hw : w.Sound K)
    (hkeyword : w.forest.parent keyword = some block)
    (hQ : ∀ name : Nat, w.forest.parent name = some block → Q name w) :
    Ends (nameNode w.forest keyword) w Q (Halts K P) := by
  have hf := hw.wellFormed
  refine ends_need hw fun first hfirst => ?_
  have hfirst := (hf.siblings_of_nextSibling hfirst).parent hkeyword
  split <;> [rename_i period hperiod; exact ends_pure (hQ first hfirst)]
  have hperiod := (hf.siblings_of_nextSibling hperiod).parent hfirst
  refine ends_ite (fun _ => need_ends hw fun name hname => ?_) fun _ => ends_pure (hQ first hfirst)
  exact hQ name ((hf.siblings_of_nextSibling hname).parent hperiod)

lemma bracket_safe {asBlock block name : Nat} (hw : w.Sound K)
    (hname : w.forest.parent name = some block) :
    Safe K P (do
      let parens ← insertNewAfter block .ddlParens "" name
      moveAllTo parens (w.forest.trimWhiteSpace
        ((w.forest.siblingsAfter name).takeWhile (· != asBlock)))) w := by
  have hf := hw.wellFormed
  have h := At.of_loose hw block
  refine ends_bind (insertNewAfter_at h hname fun parens w1 h1 hparens => ?_)
  refine moveAllTo_at h1 (h.clear_sprouted (clear_loose (hf.parent_lt hname)) hparens)
    (fun i hi => ?_) fun w2 h2 _ => h2.next rfl
  have hafter := (List.takeWhile_sublist _).subset ((trimWhiteSpace_sublist _ _).subset hi)
  exact hf.loose_of_parent ((hf.siblings_of_mem_siblingsAfter hafter).parent hname)

lemma bracketParameters_safe (hw : w.Sound K) : Safe K P bracketParameters w := by
  refine forEachRoutine_safe hw fun block asBlock w hmeets hw hblock => ends_forest ?_
  split <;> [rename_i keyword hkeyword; exact safe_pure hw]
  refine ends_ite (fun _ => safe_pure hw) fun _ => ?_
  refine ends_bind (nameNode_ends hw (hw.wellFormed.parent_of_routineKeyword hkeyword)
    fun name hname => ?_)
  dsimp only
  split
  · exact ends_ite (fun _ => safe_pure hw) fun _ => bracket_safe hw hname
  · exact bracket_safe hw hname

lemma addLanguage_safe (hw : w.Sound K) : Safe K P addLanguage w := by
  refine forEachRoutine_safe hw fun block asBlock w _ hw hblock => ?_
  refine ends_bind (insertNewBefore_at (.unmoved hw) hblock fun language w1 h1 hlanguage => ?_)
  exact ends_discard (insertNewAfter_at h1 hlanguage.parent_new fun _ w2 h2 _ => h2.next rfl)

lemma blockBodies_safe (hw : w.Sound K) : Safe K P blockBodies w := by
  refine forEachRoutine_safe hw fun block asBlock w _ hw hblock => ?_
  have hf := hw.wellFormed
  refine ends_forest (ends_need hw fun body hbody => ?_)
  refine wrapInBeginEnd_at (.of_loose hw body)
    (clear_loose (lt_size_of_parent (hf.parent_of_routineBody hbody))) (fun i hi => ?_)
    fun w' h' => h'.next rfl
  exact hf.loose_of_parent (hf.parent_of_mem hi)

lemma quoteBodies_safe (hw : w.Sound K) : Safe K P quoteBodies w := by
  refine forEachRoutine_safe hw fun block asBlock w _ hw hblock => ?_
  refine ends_forest (ends_need hw fun opener hopener => ?_)
  have hopener := hw.wellFormed.parent_of_child hopener
  refine ends_bind (appendLeaf_at (.unmoved hw) (lt_size_of_parent hopener) fun w1 h1 hleaf => ?_)
  refine ends_bind (append_at h1 (hleaf.lt_size (lt_size_of_parent hblock))
    fun closer w2 h2 hcloser => ?_)
  exact appendLeaves_at h2 hcloser.lt_size fun w3 h3 _ => h3.next rfl

end SqlDialect.Routine

namespace SqlDialect.ResultSet

open Conversion Forest

variable {K : String → Prop} {P : Prop} {w : Workspace}

lemma parent_of_plainSelect? {keyword clause statement : NodeId}
    (h : plainSelect? f keyword = some (clause, statement)) : f.parent clause = some statement := by
  simp only [plainSelect?, Option.bind_eq_bind, Option.bind_eq_some_iff] at h
  obtain ⟨clause', -, statement', hparent, h⟩ := h
  split at h
  · cases h
    exact hparent
  · cases h

lemma routineName_safe (hw : w.Sound K) (block : Nat) : Safe K P (routineName block) w :=
  ends_forest (ends_need hw fun _ _ => ends_need hw fun _ _ => safe_pure hw)

lemma openOnCursor_safe (hw : w.Sound K) {statement : Nat} (routine : String) (n : Nat)
    (hclause : w.forest.parent clause = some statement) :
    Safe K P (openOnCursor routine n clause statement) w := by
  refine ends_forest (ends_need hw fun container hcontainer => ?_)
  refine ends_bind (insertNewBefore_at (.unmoved hw) hclause fun opening w1 h1 hopening => ?_)
  refine ends_bind (appendLeaves_at h1 hopening.lt_size fun w2 h2 hleaves => ?_)
  refine ends_bind
    (insertNewBefore_at h2 (hleaves.parent_of (hopening.extends.parent_of hcontainer))
    fun declaration w3 h3 hdeclaration => ?_)
  refine ends_bind (append_at h3 hdeclaration.lt_size fun declareClause w4 h4 hclause4 => ?_)
  refine ends_bind (append_at h4 hclause4.lt_size fun block w5 h5 hblock => ?_)
  exact appendLeaves_at h5 hblock.lt_size fun w6 h6 _ => h6.next rfl

lemma capture_safe (hw : w.Sound K) (routine : String) (keyword count : Nat) :
    Safe K P (capture routine keyword count) w := by
  refine ends_forest ?_
  split <;> [rename_i clause statement hselect; exact safe_pure hw]
  exact (openOnCursor_safe hw routine _ (parent_of_plainSelect? hselect)).bind
    fun _ _ hnext => safe_pure hnext.1

lemma captureResultSets_safe (hw : w.Sound K) : Safe K P captureResultSets w := by
  refine Routine.forEachRoutine_safe hw fun block asBlock w _ hw hblock => ?_
  refine Safe.bind (routineName_safe hw block) fun routine w1 hnext1 => ?_
  refine ends_discard (ends_forest (walkFrom_safe hnext1.1
    ((lt_size_of_parent hblock).trans_le hnext1.2) fun moment _ hw' _ => ?_))
  refine ends_forest (ends_ite (fun _ => ?_) fun _ => safe_pure hw')
  exact (capture_safe hw' _ _ _).bind fun _ _ hnext => safe_pure hnext.1

end SqlDialect.ResultSet
