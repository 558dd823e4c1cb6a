import SqlDialect.Proofs.Warning.Quiet
import SqlDialect.Proofs.Text.Lowercase

/-!
# Counting approximations

Two passes report approximations: the one that converts procedure calls, where the columns of a
table are not known, and the one that converts queries for JSON, where such a query asks for `auto`.
From the first of them on every pass leaves the warnings that are there, and each report comes with
a comment.
-/

namespace SqlDialect

open Forest Conversion List

variable {block clause function id insert keyword main output parens select statement table target
  token : NodeId} {columns message : List NodeId} {hasPath isAuto isFirst : Bool} {f : Forest}
  {cursor text : String} {w : Workspace}

set_option synthInstance.maxSize 20000

/-! ## Reports -/

/-- The start of a text makes it a warning. -/
lemma isWarningLabel_append (h : isWarningLabel .commentMultiLine text = true)
    (rest : String) : isWarningLabel .commentMultiLine (text ++ rest) = true := by
  simp only [isWarningLabel, beq_self_eq_true, Bool.true_and, isPrefixOf_iff_prefix] at h ⊢
  rw [String.toList_append, map_append]
  exact h.trans (prefix_append _ _)

/-- A report and the comment that goes with it. -/
lemma report_tidy (parent : NodeId) (htext : isWarningLabel .commentMultiLine text = true) :
    Tidy True (do appendLeaf parent .commentMultiLine text; warn) := by
  refine ⟨fun w => ends_bind (ends_discard (ends_grow (ends_note ?_)))⟩
  have hwarning (id : Nat) : (w.forest.append parent .commentMultiLine text).2.isWarning id =
      if id = w.forest.size then true else w.forest.isWarning id := by
    rw [isWarning_append, htext]
  have hkept (id : Nat) (hid : w.forest.isWarning id = true) :
      (w.forest.append parent .commentMultiLine text).2.isWarning id = true := by
    rw [hwarning, hid, ite_self]
  exact {
    size_le := by simp [Forest.append, Forest.create, placeLast]
    reported_le := Nat.le_succ _
    silent := fun hnot => absurd trivial hnot
    old := fun id hid hwarned => by rwa [hwarning, if_neg hid.ne] at hwarned
    unmarked := fun heq => absurd heq (Nat.succ_ne_self _)
    kept := fun _ => hkept
    counted := fun _ => by
      have hlength := length_warningComments_le [w.forest.size] (nodup_singleton _) hkept
        fun id hid => by
          rw [mem_singleton.1 hid]
          exact ⟨isWarning_of_size_le le_rfl, by rw [hwarning, if_pos rfl]⟩
      rw [length_singleton] at hlength
      change w.notes.warnings + 1 + w.forest.warningComments.length ≤ w.notes.warnings +
        (w.forest.append parent .commentMultiLine text).2.warningComments.length
      omega }

/-! ## Procedure calls -/

namespace ProcedureCall

instance {rest : List NodeId} {name : NodeId} : Tidy True (lastPart f name rest) := by
  fun_induction lastPart f name rest <;> infer_instance

instance {argument : NodeId} : Tidy True (bracketArgument parens argument) := by
  refine ⟨fun w => ends_forest (ends_ite (fun _ => Keeps.ends w) fun _ =>
    ends_ite (fun hequals => ?_) fun _ => Keeps.ends w)⟩
  exact Keeps.after ((isPlain_of_tag (tag_of_is hequals) rfl).setText rfl)

lemma bracketCall_accounts (hkeyword : IsPlain w keyword) :
    TidyAt True w (bracketCall keyword) := by
  refine ends_forest (ends_part fun clause _ => ends_part fun first _ => ?_)
  refine ends_then (Keeps.ends w) fun name w1 h1 => ?_
  exact Keeps.after ((hkeyword.of_accounts h1).setText rfl)

instance : Tidy True (fetchAll target cursor) := .bind

/-- The top of a copy gets another kind; no node that was there before does. -/
lemma copyAs_tidy {tag : Tag} {next : NodeId → Conversion Unit} (htag : tag ≠ .commentMultiLine)
    [hnext : ∀ duplicate, Tidy True (next duplicate)] :
    Tidy True (do let duplicate ← copy id; setTag duplicate tag; next duplicate) := by
  refine ⟨fun w => ?_⟩
  have hspec := sow_spec (w.forest.subtree id) w.forest
  have hcopy : Tidy True (copy id) := inferInstance
  have hcopied : Accounts True w { w with forest := (w.forest.copy id).2 } :=
    (ends_iff.1 (hcopy.ends w)).1 _ _ rfl
  refine ends_bind
    (ends_grow (ends_bind (ends_edit (((hnext _).ends _).imp fun _ _ h => .trans ?_ h))))
  have hwarning (x : Nat) : ((w.forest.copy id).2.setTag (w.forest.copy id).1 tag).isWarning x =
      if x = w.forest.size then false else (w.forest.copy id).2.isWarning x := by
    have hsize : (w.forest.copy id).2.size = _ := hspec.size_eq
    have hone := one_le_size (w.forest.subtree id)
    rw [isWarning_setTag, isWarningLabel_of_tag htag, copy_fst]
    refine if_congr ⟨And.left, fun hx => ⟨hx, ?_⟩⟩ rfl rfl
    omega
  refine .of_same (hcopied.size_le.trans_eq (size_update _ _ _).symm) rfl (fun x hx => ?_)
    fun hunmarked x _ => ?_
  · rw [hwarning, if_neg hx.ne]
    exact Bool.eq_iff_iff.2 ⟨hcopied.old x hx, hcopied.kept trivial x⟩
  · rw [hwarning, hcopied.unmarked rfl hunmarked, ite_self]

instance : ∀ {shape : Option RowShape}, Tidy True (fetchRows target cursor shape)
  | some (.columns _) => .next fun _ => copyAs_tidy (by decide)
  | some (.type _) => .bind
  | none => .next fun _ => .next fun _ => report_tidy _ (by decide)

instance {name : NodeId} : Tidy True (insertResult statement insert name) := .bind

lemma convertCall_accounts (hkeyword : IsPlain w keyword) :
    TidyAt True w (convertCall keyword) := by
  refine ends_then (bracketCall_accounts hkeyword) fun call w1 _ =>
    ends_forest (ends_part fun _ _ => ?_)
  split <;> exact Keeps.ends w1

instance : Tidy True convertCalls := .walk fun _ =>
  ⟨fun w => ends_forest (ends_ite (fun hkeyword =>
    Keeps.after (convertCall_accounts (isPlain_of_isKeyword hkeyword))) fun _ => Keeps.ends w)⟩

lemma moveOutputMark_accounts {mark : NodeId} (hmark : IsPlain w mark) :
    TidyAt True w (moveOutputMark parens mark) := by
  refine ends_forest (ends_part fun parts _ => ends_then (Keeps.ends w) fun _ w1 h1 => ?_)
  refine ends_then ((hmark.of_accounts h1).setText rfl) fun _ w2 _ => ?_
  split <;> exact Keeps.ends w2

instance : Tidy True convertOutputParameters :=
  .forEachMatch fun _ _ _ => ends_forest (ends_forM_accounts fun _ hmark _ h1 =>
    moveOutputMark_accounts ((isPlain_of_isKeyword (mem_filter.1 hmark).2).of_accounts h1))

end ProcedureCall

/-! ## Inserts into arrays -/

namespace TableVariable

instance {values : NodeId} : Tidy True (deriveFromValues values) := .bind

instance {query : List NodeId} : Tidy True (deriveFromQuery statement insert query) := .bind

instance : Tidy True (deriveRows statement insert) := .next fun _ => by
  dsimp only
  split <;> infer_instance

instance {container : NodeId} : Tidy True (appendRows container statement insert table) := .bind

instance : Tidy True (insertIntoArray keyword) := .next fun _ => by
  split <;> [split; skip] <;> infer_instance

instance : Tidy True insertIntoArrays := .bind

end TableVariable

/-! ## Errors -/

namespace ErrorHandling

instance : Tidy True (convertTry keyword) := .bind

instance : Tidy True (convertCatch keyword) := .bind

lemma raiseException_accounts (htoken : IsPlain w token) :
    TidyAt True w (raiseException token message) := by
  refine ends_forest (ends_part fun clause _ => ends_then (htoken.setTag rfl) fun _ w1 h1 => ?_)
  exact Keeps.after ((htoken.of_accounts h1).setText rfl)

lemma convertThrow_accounts (htoken : IsPlain w token) : TidyAt True w (convertThrow token) := by
  refine ends_forest (ends_part fun clause _ => ends_ite (fun _ => ?_) fun _ => ?_)
  · exact ends_then (htoken.setTag rfl) fun _ _ h1 => (htoken.of_accounts h1).setText rfl
  · refine ends_part fun part _ => ends_then (Keeps.ends w) fun _ w1 h1 => ?_
    exact raiseException_accounts (htoken.of_accounts h1)

lemma convertRaiserror_accounts (hkeyword : IsPlain w keyword) :
    TidyAt True w (convertRaiserror keyword) := by
  refine ends_forest (ends_part fun clause _ => ends_part fun parens _ => ?_)
  refine ends_then (Keeps.ends w) fun _ w1 h1 => ends_then (Keeps.ends w1) fun _ w2 h2 => ?_
  exact raiseException_accounts ((hkeyword.of_accounts h1).of_accounts h2)

instance : Tidy True convertErrorHandling := by
  refine .walk fun id => ⟨fun w => Keeps.after (ends_forest ?_)⟩
  refine ends_ite (fun _ => Keeps.ends w) fun _ => ends_ite (fun _ => Keeps.ends w)
    fun _ => ends_ite (fun hid => ?_) fun _ => ends_ite (fun hid => ?_) fun _ => Keeps.ends w
  · exact convertRaiserror_accounts (isPlain_of_isText hid rfl)
  · exact convertThrow_accounts (isPlain_of_isText hid rfl)

end ErrorHandling

/-! ## JSON -/

namespace JsonFunction

open FunctionCall

/-- The arguments of a call are brackets. -/
lemma isPlain_of_argumentsOf (h : argumentsOf w.forest function = some parens) :
    IsPlain w parens := by
  have hparens := (Option.filter_eq_some_iff.1 h).2
  refine isPlain_of_tag rfl ?_
  cases htag : w.forest.tag parens <;> first | rfl | (rw [htag] at hparens; cases hparens)

lemma convertQuery_accounts (hfunction : IsPlain w function) :
    TidyAt True w (convertQuery function) := by
  refine ends_forest (ends_part fun parens _ => ends_ite (fun _ => Keeps.ends w) fun _ => ?_)
  exact ends_then (hfunction.setTag rfl) fun _ w1 h1 =>
    Keeps.after ((hfunction.of_accounts h1).setText rfl)

lemma convertTest_accounts : TidyAt True w (convertTest function) := by
  refine ends_forest (ends_part fun holder _ => ends_part fun parens hparens => ?_)
  exact ends_then (Keeps.ends w) fun _ w1 h1 =>
    Keeps.after (((isPlain_of_argumentsOf hparens).of_accounts h1).setTag rfl)

instance : Tidy True (convertColumns id) := by
  refine .next fun _ => .next fun _ =>
    ⟨fun w => ends_forest (ends_forM_accounts fun keyword hkeyword w1 h1 =>
    ends_forest (ends_ite (fun _ => ?_) fun _ => Keeps.ends w1))⟩
  have hplain := (isPlain_of_tag (tag_of_is (mem_filter.1 hkeyword).2) rfl).of_accounts h1
  split <;> [rename_i json hjson; exact Keeps.ends w1]
  have hjson := isPlain_of_isText (Option.filter_eq_some_iff.1 hjson).2 rfl
  exact ends_then (hplain.setText rfl) fun _ _ h2 => (hjson.of_accounts h2).setText rfl

lemma convertOpen_accounts (hfunction : IsPlain w function) :
    TidyAt True w (convertOpen function) := by
  refine ends_forest (ends_part fun target _ => ends_part fun parens _ => ?_)
  split
  · exact ends_forest (ends_part fun _ _ => Keeps.after (hfunction.setText rfl))
  · exact Keeps.after (hfunction.setText rfl)

instance : Tidy True convertFunctions := by
  refine .forEachMatch fun function w hfits => ends_forest ?_
  have hplain := isPlain_of_fits hfits rfl
  exact ends_ite (fun _ => convertQuery_accounts hplain) fun _ => ends_ite
    (fun _ => convertTest_accounts) fun _ => ends_ite (fun _ => convertOpen_accounts hplain)
    fun _ => Keeps.ends w

end JsonFunction

namespace JsonQuery

variable {members nested : List (String × Member)} {columns plain : List (List NodeId)}
    {member : Member}

instance : Tidy True (nestColumns f columns plain nested) := by
  fun_induction nestColumns f columns plain nested <;> infer_instance

instance : Tidy True (attachColumns select columns) := by
  fun_induction attachColumns select columns <;> infer_instance

mutual

instance appendMember_tidy : ∀ (parent : NodeId) (member : Member),
    Tidy True (appendMember parent member)
  | _, .value _ => by
    rw [appendMember]
    infer_instance
  | _, .object members => by
    have hmembers (parens : NodeId) := appendMembers_tidy parens true members
    rw [appendMember]
    infer_instance

instance appendMembers_tidy :
    ∀ (parens : NodeId) (isFirst : Bool) (members : List (String × Member)),
    Tidy True (appendMembers parens isFirst members)
  | _, _, [] => by
    rw [appendMembers]
    infer_instance
  | parens, _, (_, member) :: rest => by
    have hmember := appendMember_tidy parens member
    have hrest := appendMembers_tidy parens false rest
    rw [appendMembers]
    infer_instance

end

instance : Tidy True (appendObjects select isFirst members) := by
  fun_induction appendObjects select isFirst members <;> infer_instance

instance : Tidy True (regroupColumns select) := .bind

instance : Tidy True (warnOfAuto select) := report_tidy select (isWarningLabel_append (by decide) _)

instance {shape : Shape} {clauses : List NodeId} {semicolon : Option NodeId} :
    Tidy True (aggregateQuery statement shape isAuto clauses semicolon) := .bind

instance : Tidy True (convertQuery keyword) := .next fun _ => by split <;> infer_instance

end JsonQuery

/-! ## Output clauses -/

namespace OutputClause

variable {change : Change} {into : NodeId} {tableColumns semicolon : Option NodeId}

instance : Tidy True (convertAction output) := ⟨fun w => ends_forest <| by
  split <;> [rename_i action haction; exact Keeps.ends w]
  have hplain := isPlain_of_tag (tag_of_childWithText haction) rfl
  exact ends_then (hplain.setTag rfl) fun _ _ h1 =>
    Keeps.after ((hplain.of_accounts h1).setText rfl)⟩

instance {period : NodeId} : Tidy True (convertQualifier output change period) :=
    ⟨fun w => ends_forest <| by
  split <;> [rename_i table htable; exact Keeps.ends w]
  have hne := tag_ne_of_previousSibling htable
  exact ends_ite (fun _ => Keeps.ends w) fun _ => ends_ite
    (fun _ => setText_accounts (isWarning_of_tag hne) (isWarningLabel_of_tag hne _)) fun _ =>
      Keeps.ends w⟩

instance : Tidy True (findChange f statement) := .bind

instance : Tidy True (convertOutputColumns statement output) := .bind

lemma returnRows_accounts (hkeyword : IsPlain w keyword) :
    TidyAt True w (returnRows statement output keyword) :=
  Keeps.after (hkeyword.setText rfl)

instance : Tidy True (openExpression statement main) := .next fun _ => by split <;> infer_instance

instance : Tidy True (nameChange statement main change) := .bind

instance : Tidy True (expressChange statement main change columns) := .bind

instance {columns : List (List NodeId)} : Tidy True (appendColumns id columns) := by
  fun_induction appendColumns id columns <;> infer_instance

instance : Tidy True (insertRows statement table tableColumns change columns semicolon) := .bind

instance : Tidy True (takeOutput statement output into) := .bind

instance : Tidy True (storeRows statement main output keyword into change) := .bind

instance : Tidy True convertOutputs := by
  refine .forEachMatch fun keyword w hfits => ends_forest ?_
  split <;> [skip; exact Keeps.ends w]
  split <;> [skip; exact Keeps.ends w]
  refine ends_then (Keeps.ends w) fun main w1 h1 => ends_forest ?_
  split <;> [exact Keeps.ends w1; exact returnRows_accounts
    ((isPlain_of_fits hfits rfl).of_accounts h1)]

end OutputClause

/-! ## Terminators, types and wording -/

namespace Terminator

instance : Tidy True liftTerminators :=
  .forEachMatch fun _ w _ => ends_forest (by split <;> exact Keeps.ends w)

instance : Tidy True (terminate clause) := .next fun _ => by split <;> infer_instance

instance : Tidy True addTerminators := .walk fun _ => .next fun _ => by split <;> infer_instance

end Terminator

namespace DataType

open FunctionCall

section

variable {R : Workspace → Workspace → Prop} {kind : Tag} [Lax R kind]

lemma placeValue_keeps (h : Unmade kind) (holder mark : NodeId) (value : List NodeId) :
    Keeps R (placeValue holder mark value) := by
  rcases h with rfl | rfl | rfl <;> exact .bind

lemma convertCast_keeps (h : Unmade kind) (function : NodeId) : Keeps R (convertCast function) := by
  have hplace := placeValue_keeps (R := R) h
  rcases h with rfl | rfl | rfl <;> exact .bind

end

instance : Tidy True convertCasts :=
  have := convertCast_keeps (R := Accounts True) (.inl rfl)
  inferInstanceAs (Tidy True (forEachMatch _ _ _))

instance : Tidy True (convertTryCast function) := .bind

lemma isWarningLabel_of_renamedTypes {old new : String} (h : lookup renamedTypes old = some new) :
    isWarningLabel .commentMultiLine new = false := by
  have hall : ∀ entry ∈ renamedTypes, isWarningLabel .commentMultiLine entry.2 = false := by decide
  obtain ⟨entry, hentry, rfl⟩ := Option.map_eq_some_iff.1 h
  exact hall entry (mem_of_find?_eq_some hentry)

instance : Tidy True convertTypes := by
  refine .forEachMatch fun dataType w hfits => ends_forest ?_
  have hplain := isPlain_of_fits hfits rfl
  have hrename (w1 : Workspace) (h1 : Accounts True w w1) : TidyAt True w1
      ((lookup renamedTypes (Text.lowercase (w.forest.text dataType))).forM
        (setText dataType)) := by
    cases hname : lookup renamedTypes (Text.lowercase (w.forest.text dataType)) with
    | none => exact ends_pure (Lax.refl w1)
    | some name => exact (hplain.of_accounts h1).setText (isWarningLabel_of_renamedTypes hname)
  exact ends_ite (fun _ => ends_then (Keeps.ends w) fun _ => hrename) fun _ =>
    hrename w (Lax.refl w)

instance : Tidy True convertIdentities := by
  refine .forEachMatch fun identity w _ => ends_forest ?_
  refine ends_part fun holder _ => ends_part fun parts _ => ends_part fun dataType hdataType => ?_
  have htag := find?_some hdataType
  have hplain := isPlain_of_tag (tag_of_is htag) rfl
  refine ends_then (Keeps.ends w) fun _ w1 h1 => ends_then (Keeps.ends w1) fun _ w2 h2 => ?_
  have hplain := (hplain.of_accounts h1).of_accounts h2
  rw [serialType?]
  split <;> [exact hplain.setText rfl; skip]
  split <;> [exact hplain.setText rfl; exact ends_pure (Lax.refl w2)]

end DataType

namespace Wording

/-- A keyword that serves as a name makes no warning of a comment, however it is written. -/
lemma isWarningLabel_of_namingKeyword {word : String} (hword : word ∈ namingKeywords)
    (hsame : Text.sameWord text word) (tag : Tag) :
    isWarningLabel tag text = false ∧ isWarningLabel tag (Text.lowercase text) = false := by
  have hall : ∀ word ∈ namingKeywords, isWarningLabel .commentMultiLine word = false := by decide
  rw [Text.lowercase_of_namingKeyword hword hsame]
  refine ⟨isWarningLabel_of_text ?_ tag, isWarningLabel_of_text (hall word hword) tag⟩
  rw [isWarningLabel, Text.sameWord_iff.1 hsame]
  exact hall word hword

instance : Tidy True renameIdentifiers := by
  have hrename (id : NodeId) : Tidy True (do
      let f ← forest
      if f.isName id then setText id (nameText f id)) := by
    refine ⟨fun w => ends_forest (ends_ite (fun hname => ?_) fun _ => Keeps.ends w)⟩
    by_cases hne : w.forest.tag id = .commentMultiLine
    · obtain ⟨word, hword, hsame⟩ : ∃ word ∈ namingKeywords,
      Text.sameWord (w.forest.text id) word := by
        simpa [isName, is, hne, hasText] using hname
      have hlabel := isWarningLabel_of_namingKeyword hword hsame
      have hnew : nameText w.forest id = Text.lowercase (w.forest.text id) := by rw [nameText, hne]
      exact setText_accounts (hlabel _).1 (hnew ▸ (hlabel _).2)
    · exact setText_accounts (isWarning_of_tag hne) (isWarningLabel_of_tag hne _)
  exact .bind

instance : Tidy True convertNationalStrings :=
  .forEachMatch fun _ _ hfits => (isPlain_of_fits hfits rfl).setTag rfl

instance : Tidy True (moveBeforeComments id) := .next fun _ => by split <;> infer_instance

end Wording

end SqlDialect
