import SqlDialect.Proofs.ControlFlow.Translation
import SqlDialect.Proofs.Terminator.Ending
import SqlDialect.Proofs.Terminator.Parts

/-!
# Terminators of translated control flow

When control flow has been translated, statements that lack a terminator get one.  Constructs of the
target dialect bring their own, so what changes is little: plain statements are terminated, and a
block gets a semicolon if it stands among other statements.  A block that is a branch or a loop body
keeps what it has.

`Command.closed` is the command with these changes, and `settlesTo` says that to settle the
trees of a command is to convert the closed command.  So the passes over control flow and the one
that terminates statements make of a script the translation of the closed script
(`runPasses_closed`).
-/

namespace SqlDialect.ControlFlow

open SyntaxTree Terminator Conversion Forest Command List

/-! ## Closed commands -/

/-- The fragment with its clauses terminated. -/
def Fragment.settled (part : Fragment) : Fragment where
  trees := settleAll [] true part.trees
  avoids := avoidsAll_settleAll (by decide) part.avoids

namespace Command

mutual

/-- The statement with its terminators. A block gets one unless it is a branch or a loop body. -/
def closed (isBody : Bool) : Command → Command
  | .plain clauses => .plain clauses.settled
  | .block body ended => .block (closedAll body) (ended || !isBody)
  | .branch condition body => .branch condition.settled (closed true body)
  | .branchElse condition body otherwise =>
    .branchElse condition.settled (closed true body) (closed true otherwise)
  | .loop condition body => .loop condition.settled (closed true body)

/-- The statements with their terminators. -/
def closedAll : List Command → List Command
  | [] => []
  | s :: rest => closed false s :: closedAll rest

end

end Command

/-! ## Settling the parts of constructs -/

section

variable {owners : List Bool} {last : Bool} {opening closing : List SyntaxTree}
  {forms forms' : Forms (List SyntaxTree)}

lemma settleAll_fragment (part : Fragment) :
    settleAll owners true part.trees = part.settled.trees :=
  settleAll_owners (by decide) part.avoids owners

lemma settle_test (condition : Fragment) :
    settle owners last (test condition) = test condition.settled := by
  rw [test, settle_group (by decide) (by decide), settleAll_fragment, test]

lemma settle_held (tree : SyntaxTree) :
    settle owners last (held tree) = held (settle (false :: owners) true tree) := by
  rw [held, settle_group (by decide) (by decide)]
  rfl

lemma still_terminated (text : String) : Still (terminated text) :=
  still_group (by decide) (by decide)
    (forall_mem_cons.2 ⟨still_keyword text, forall_mem_singleton.2 still_semicolon⟩)

lemma still_ending (ended : Bool) : ∀ tree ∈ ending ended, Still tree := by
  cases ended
  · exact fun _ h => absurd h not_mem_nil
  · exact forall_mem_singleton.2 still_semicolon

section

variable (hopening : ∀ tree ∈ opening, Still tree) (hclosing : ∀ tree ∈ closing, Still tree)
include hopening hclosing

lemma settle_enclosed (body : List SyntaxTree) :
    settle owners last (enclosed opening body closing) =
      enclosed opening (settleAll (false :: false :: owners) true body) closing := by
  have hmulti (last : Bool) : settle (false :: owners) last (group .containerMultiStatement body) =
      group .containerMultiStatement (settleAll (false :: false :: owners) true body) :=
    settle_group (by decide) (by decide) body
  rw [enclosed, settle_group (by decide) (by decide), settleAll_append, settleAll,
    settleAll_of_still hopening, settleAll_of_still hclosing]
  exact congrArg (fun tree => group .beginEndBlock (opening ++ tree :: closing)) (hmulti _)

/-- A branch or a loop body keeps what comes after its block. -/
lemma settle_branchBlock {ended : Bool} (hafter : forms.after = ending ended)
    (hlacks : lacks (false :: owners) (enclosed opening forms.body closing :: forms.after) = false)
    (hbody : settleAll (false :: false :: false :: false :: owners) true forms.body = forms'.body)
    (hafter' : forms'.after = forms.after) :
    settle owners last (branchBlock opening forms closing) =
      branchBlock opening forms' closing := by
  have hstill : settleAll (false :: false :: owners) true forms.after = forms.after := by
    rw [hafter]
    exact settleAll_of_still (still_ending ended)
  rw [branchBlock, settle_asStatement_of_lacks hlacks, settleAll, settle_enclosed hopening hclosing,
    hstill, hbody, ← hafter', branchBlock]

end

/-- A block that closes with a terminator needs no other. -/
lemma lacks_terminated (text : String) (body : List SyntaxTree) (ended : Bool) :
    lacks owners (enclosed opening body [terminated text] :: ending ended) = false := by
  cases ended with
  | true =>
    have hsemicolon :
        has .semicolon (enclosed opening body [terminated text] :: ending true) = true :=
      rfl
    exact lacks_of_has (by simp) hsemicolon
  | false =>
    have hends : isTerminated (enclosed opening body [terminated text]) = true := by
      have hconcat := isTerminated_group_concat .beginEndBlock
        (opening ++ [group .containerMultiStatement body])
        (by simp [terminated] : (terminated text).tag ≠ .whiteSpace)
      rw [append_assoc] at hconcat
      exact hconcat.trans (Bool.or_eq_true_iff.2 (.inr rfl))
    refine lacks_of_lastTerminated ?_
    rw [← hends]
    exact lastTerminated_concat [] (by simp [enclosed])

/-- A block before an else branch is not terminated. -/
lemma lacks_before_else (body after : List SyntaxTree) :
    lacks (false :: false :: true :: owners) (enclosed opening body closing :: after) = false :=
  lacks_of_owner rfl rfl

/-- Among other statements a block needs a terminator. -/
lemma lacks_block (howner : owners[1]?.getD false = false) (body : List SyntaxTree) (ended : Bool) :
    lacks (false :: owners) (enclosed [opener "begin"] body [closer "end"] :: ending ended) =
      !ended := by
  cases ended with
  | true =>
    have hsemicolon : has .semicolon
        (enclosed [opener "begin"] body [closer "end"] :: ending true) = true := rfl
    exact lacks_of_has (by simp) hsemicolon
  | false =>
    have hlast : lastTerminated (enclosed [opener "begin"] body [closer "end"] :: ending false) =
        some false := rfl
    rw [lacks, hlast]
    simp [has, ending, enclosed, howner]

lemma settle_block (howner : owners[1]?.getD false = false) (body : List SyntaxTree)
    (ended : Bool) : settle owners last
        (asStatement (enclosed [opener "begin"] body [closer "end"] :: ending ended)) =
      asStatement (enclosed [opener "begin"]
        (settleAll (false :: false :: false :: false :: owners) true body) [closer "end"] ::
          ending true) := by
  have hparts (block : SyntaxTree) (hblock : block.tag = .beginEndBlock) :
      (if !ended then putSemicolon (block :: ending ended) else block :: ending ended) =
        block :: ending true := by
    cases ended
    · simp [putSemicolon, endsBlank, ending, hblock]
    · rfl
  rw [settle_asStatement, lacks_block howner, hparts _ rfl, settleAll,
    settle_enclosed (forall_mem_singleton.2 (still_opener "begin"))
      (forall_mem_singleton.2 (still_closer "end")), settleAll_of_still (still_ending true)]

lemma settle_elseBranch {ended : Bool} (hafter : forms.after = ending ended)
    (hbody : ∀ owners, owners[1]?.getD false = false →
      settleAll owners true forms.body = forms'.body) (hafter' : forms'.after = forms.after) :
    settle owners last (elseBranch forms) = elseBranch forms' := by
  have hend := forall_mem_singleton.2 (still_terminated "end if")
  have hlacks : lacks (false :: false :: false :: owners)
      (enclosed [] forms.body [terminated "end if"] :: forms.after) = false := by
    rw [hafter]
    exact lacks_terminated "end if" forms.body ended
  rw [elseBranch, settle_group (by decide) (by decide), settleAll, settleAll, settleAll,
    still_opener "else", settle_held]
  exact congrArg (fun tree => group .elseClause [opener "else", held tree])
    (settle_branchBlock (fun _ h => absurd h not_mem_nil) hend hafter hlacks
      (hbody _ rfl) hafter')

end

/-! ## Settling commands -/

/-- To settle the trees of a statement is to convert the closed statement. -/
structure SettlesTo (s : Command) : Prop where
  alone : ∀ (owners : List Bool) (last : Bool), owners[1]?.getD false = false →
    settleAll owners last (s.converted true).alone = ((s.closed false).converted true).alone
  body : ∀ owners : List Bool, owners[1]?.getD false = false →
    settleAll owners true (s.converted true).body = ((s.closed true).converted true).body
  after : ((s.closed true).converted true).after = (s.converted true).after
  other : ∀ (owners : List Bool) (last : Bool),
    settleAll owners last (s.converted true).other = ((s.closed true).converted true).other

section

variable {s : Command}

lemma settlesTo_plainForms {tree tree' : SyntaxTree} (hforms : s.converted true = plainForms tree)
    (hforms' : ∀ isBody, (s.closed isBody).converted true = plainForms tree')
    (h : ∀ owners last, settle owners last tree = tree') : SettlesTo s where
  alone owners last _ := by
    rw [hforms, hforms']
    exact congrArg ([·]) (h _ _)
  body owners _ := by
    rw [hforms, hforms']
    exact congrArg ([·]) (h _ _)
  after := by
    rw [hforms, hforms']
    rfl
  other owners last := by
    rw [hforms, hforms']
    refine congrArg ([·]) (settle_elseBranch (rfl : _ = ending false) (fun owners _ => ?_) rfl)
    exact congrArg ([·]) (h _ _)

lemma settlesTo_chainForms {chain chain' : List SyntaxTree → SyntaxTree}
    (hforms : s.converted true = chainForms chain)
    (hforms' : ∀ isBody, (s.closed isBody).converted true = chainForms chain')
    (h : ∀ opening ⊆ [opener "if"], ∀ owners last,
      settle owners last (chain opening) = chain' opening) : SettlesTo s where
  alone owners last _ := by
    rw [hforms, hforms']
    exact congrArg ([·]) (h _ (List.Subset.refl _) _ _)
  body owners _ := by
    rw [hforms, hforms']
    exact congrArg ([·]) (h _ (List.Subset.refl _) _ _)
  after := by
    rw [hforms, hforms']
    rfl
  other owners last := by
    have hchain := h [] (nil_subset _) (false :: false :: owners) true
    rw [hforms, hforms']
    change [settle _ _ (group .elseClause [opener "elsif", held (chain [])])] = _
    rw [settle_group (by decide) (by decide), settleAll, settleAll, settleAll,
      still_opener "elsif", settle_held]
    exact congrArg (fun tree => [group .elseClause [opener "elsif", held tree]]) hchain

/-- The chain of a condition is settled branch by branch. -/
lemma SettlesTo.chainTree (h : SettlesTo s) (condition : Fragment)
    {opening closing rest rest' : List SyntaxTree} (hopening : opening ⊆ [opener "if"])
    (hclosing : ∀ tree ∈ closing, Still tree)
    (hrest : ∀ owners last, settleAll owners last rest = rest')
    (hlacks : ∀ owners, lacks (false :: false :: has .elseClause rest :: owners)
      (enclosed [opener "then"] (s.converted true).body closing :: (s.converted true).after) =
        false)
    (owners : List Bool) (last : Bool) :
    settle owners last (chainTree opening condition (s.converted true) closing rest) =
      ControlFlow.chainTree opening condition.settled ((s.closed true).converted true) closing
        rest' := by
  have hstill : ∀ tree ∈ opening, Still tree := fun tree htree =>
    mem_singleton.1 (hopening htree) ▸ still_opener "if"
  have helse : has .elseClause (opening ++ test condition ::
      held (branchBlock [opener "then"] (s.converted true) closing) :: rest) =
        has .elseClause rest := by
    have hnone : has .elseClause opening = false := by
      rw [has, any_eq_false]
      intro tree htree
      rw [mem_singleton.1 (hopening htree)]
      simp [opener]
    rw [has, any_append, ← has, hnone]
    rfl
  have hheld : settle (false :: has .elseClause rest :: false :: false :: owners) true
      (branchBlock [opener "then"] (s.converted true) closing) =
        branchBlock [opener "then"] ((s.closed true).converted true) closing :=
    settle_branchBlock (forall_mem_singleton.2 (still_opener "then")) hclosing
      (after_converted true s) (hlacks (false :: false :: owners)) (h.body _ rfl) h.after
  rw [ControlFlow.chainTree, settle_asStatement_of_lacks (lacks_of_ifStatement rfl), settleAll,
    settleAll, settle_group (by decide) (by decide), isElseOwner, helse, settleAll_append,
    settleAll_of_still hstill, settleAll, settleAll, settle_test, settle_held, hrest]
  exact congrArg (fun tree => asStatement [group .ifStatement
    (opening ++ test condition.settled :: held tree :: rest')]) hheld

lemma has_elseClause_other (s : Command) : has .elseClause (s.converted true).other = true := by
  cases s <;> rfl

lemma SettlesTo.loopTree (h : SettlesTo s) (condition : Fragment) (owners : List Bool)
    (last : Bool) : settle owners last (loopTree true condition (s.converted true)) =
      ControlFlow.loopTree true condition.settled ((s.closed true).converted true) := by
  have hlacks : lacks (false :: false :: false :: false :: false :: owners)
      (enclosed [opener "loop"] (s.converted true).body [terminated "end loop"] ::
        (s.converted true).after) = false := by
    rw [after_converted]
    exact lacks_terminated "end loop" _ s.isEnded
  have hheld : settle (false :: false :: false :: false :: owners) true
      (branchBlock [opener "loop"] (s.converted true) [terminated "end loop"]) =
        branchBlock [opener "loop"] ((s.closed true).converted true) [terminated "end loop"] :=
    settle_branchBlock (forall_mem_singleton.2 (still_opener "loop"))
      (forall_mem_singleton.2 (still_terminated "end loop")) (after_converted true s) hlacks
      (h.body _ rfl) h.after
  have hloop (children : List SyntaxTree) : has .whileLoop [group .whileLoop children] = true := rfl
  change settle owners last (asStatement [group .whileLoop [opener "while", test condition,
    held (branchBlock [opener "loop"] (s.converted true) [terminated "end loop"])]]) = _
  rw [settle_asStatement_of_lacks (lacks_of_has (by simp) (hloop _)), settleAll, settleAll,
    settle_group (by decide) (by decide), settleAll, settleAll, settleAll, settleAll,
    still_opener "while", settle_test, settle_held]
  exact congrArg (fun tree => asStatement [group .whileLoop
    [opener "while", test condition.settled, held tree]]) hheld

/-- To settle the trees of a statement is to convert the closed statement. -/
lemma settlesTo (s : Command) : SettlesTo s := by
  induction s with
  | plain clauses =>
    refine settlesTo_plainForms rfl (fun _ => rfl) fun owners last => ?_
    rw [settle_group (by decide) (by decide), settleAll_fragment]
  | block body ended ih =>
    have hall (owners : List Bool) (howner : owners[1]?.getD false = false) :
        settleAll owners true (convertedAll true body) =
          convertedAll true (closedAll body) := by
      induction body with
      | nil => rfl
      | cons s rest ihrest =>
        rw [convertedAll, settleAll_append, (ih s mem_cons_self).alone _ _ howner,
          ihrest fun t ht => ih t (.tail _ ht), closedAll,
          convertedAll]
    have hafter : ending (ended || !true) = ending ended := by rw [Bool.not_true, Bool.or_false]
    refine ⟨fun owners last howner => ?_, hall, hafter, fun owners last => ?_⟩
    · have hended : ending (ended || !false) = ending true := by rw [Bool.not_false, Bool.or_true]
      refine (congrArg ([·]) (settle_block howner _ ended)).trans ?_
      rw [hall _ rfl, ← hended]
      rfl
    · exact congrArg ([·]) (settle_elseBranch (rfl : _ = ending ended) hall hafter)
  | branch condition body ih =>
    refine settlesTo_chainForms rfl (fun _ => rfl) fun opening hopening => ?_
    have hend := forall_mem_singleton.2 (still_terminated "end if")
    refine ih.chainTree condition hopening hend (fun _ _ => rfl) fun owners => ?_
    rw [after_converted]
    exact lacks_terminated "end if" _ body.isEnded
  | branchElse condition body otherwise ih ihOther =>
    refine settlesTo_chainForms rfl (fun _ => rfl) fun opening hopening => ?_
    refine ih.chainTree condition hopening (fun _ h => absurd h not_mem_nil) ihOther.other
      fun owners => ?_
    rw [has_elseClause_other]
    exact lacks_before_else _ _
  | loop condition body ih =>
    exact settlesTo_plainForms rfl (fun _ => rfl) (ih.loopTree condition)

end

/-! ## The passes in their order -/

/-- The passes that translate control flow and terminate what they leave. -/
def closingPasses : List Pass :=
  ["if_begin_end", "conditions", "loops", "missing_semicolons"].filterMap standardPass?

lemma closingPasses_eq :
    closingPasses = controlFlowPasses ++ [⟨"missing_semicolons", addTerminators⟩] := by
  rfl

/-- The passes make of a script the pieces of the translation of the closed script. -/
lemma runPasses_closed (commands : List Command) :
    ∃ w, runPasses closingPasses { forest := ofTree (script commands) } = .ok w ∧
      w.forest.tree.pieces = translateAll (closedAll commands) := by
  obtain ⟨w, hrun, hturned⟩ := runPasses_controlFlow commands
  have hw : Whole w := hturned.whole (whole_ofTree _)
  have htree : w.forest.tree = group .root (convertedAll true commands) :=
    hturned.grafted.subtree_eq
  obtain ⟨_, w', hrun', hturned'⟩ := (addTerminators_turns hw).exists_ok
  refine ⟨w', ?_, ?_⟩
  · rw [closingPasses_eq, runPasses_append hrun]
    exact runPasses_of_ok hrun'
  · have hsettled : settleAll [false] true (convertedAll true commands) =
        convertedAll true (closedAll commands) :=
      (settlesTo (.block commands false)).body [false] rfl
    have hpieces := congrArg Forms.body (pieces_converted (.block (closedAll commands) false))
    rw [tree, hturned'.grafted.subtree_eq, htree, settle_group (by decide) (by decide),
      pieces_group rfl rfl]
    exact (congrArg piecesAll hsettled).trans hpieces

end SqlDialect.ControlFlow
