import SqlDialect.Proofs.ControlFlow.Visits

/-!
# The translation of control flow

Three passes translate conditions and loops: the first gives every branch a block
(`walks_normal`), the second gives conditions their words (`converts`) and the third gives loops
theirs (`convertsLoops`).  Together they make of the syntax tree of any script a tree with
the pieces of its translation (`runPasses_script`).
-/

namespace SqlDialect.ControlFlow

open Conversion Forest SyntaxTree Command List

variable {closing opening rest rest' : List SyntaxTree} {tree tree' : SyntaxTree} {ended : Bool}
  {tag : Tag}

/-! ## Walks through what a pass leaves alone -/

/-- The kinds of nodes at which a pass edits something. -/
def visitedTags : List Tag := [.ifStatement, .elseClause, .whileLoop]

/-- The visit edits nothing at nodes of other kinds. -/
class Idle (visit : NodeId → Conversion Visit) : Prop where
  acts (tree : SyntaxTree) : tree.tag ∉ visitedTags → Acts visit tree tree

section Idle

variable {visit : NodeId → Conversion Visit} [hidle : Idle visit] {trees trees' : List SyntaxTree}

lemma walks_group (htag : tag ∉ visitedTags) (h : WalksAll visit trees trees') :
    Walks visit (group tag trees) (group tag trees') :=
  (hidle.acts (group tag trees) htag).walks h

variable (visit)

lemma walks_fragment (fragment : Fragment) :
    WalksAll visit fragment.trees fragment.trees := by
  refine forall₂_walks_self (fun tree htree => hidle.acts tree fun hmem => htree ?_) fragment.avoids
  simp only [visitedTags, constructTags, mem_cons] at hmem ⊢
  tauto

lemma walks_keyword (text : String) : Walks visit (keyword text) (keyword text) :=
  (hidle.acts (keyword text) (by decide : Tag.otherKeyword ∉ visitedTags)).walks .nil

lemma walks_semicolon : Walks visit semicolon semicolon :=
  (hidle.acts semicolon (by decide)).walks .nil

lemma walks_opener (text : String) : Walks visit (opener text) (opener text) :=
  walks_group (by decide) (.cons (walks_keyword visit text) .nil)

lemma walks_closer (text : String) : Walks visit (closer text) (closer text) :=
  walks_group (by decide) (.cons (walks_keyword visit text) .nil)

lemma walks_terminated (text : String) : Walks visit (terminated text) (terminated text) :=
  walks_group (by decide) (.cons (walks_keyword visit text) (.cons (walks_semicolon visit) .nil))

lemma walks_ending (ended : Bool) : WalksAll visit (ending ended) (ending ended) := by
  cases ended with
  | false => exact .nil
  | true => exact .cons (walks_semicolon visit) .nil

lemma walks_test (condition : Fragment) : Walks visit (test condition) (test condition) :=
  walks_group (by decide) (walks_fragment visit condition)

variable {visit}

lemma walks_asStatement (h : WalksAll visit trees trees') :
    Walks visit (asStatement trees) (asStatement trees') :=
  walks_group (by decide) (.cons (walks_group (by decide) h) .nil)

lemma walks_held (h : Walks visit tree tree') : Walks visit (held tree) (held tree') :=
  walks_group (by decide) (.cons h .nil)

section

variable (hopening : WalksAll visit opening opening)
  (hclosing : WalksAll visit closing closing)
include hopening hclosing

lemma walks_enclosed (h : WalksAll visit trees trees') :
    Walks visit (enclosed opening trees closing) (enclosed opening trees' closing) :=
  walks_group (by decide) (rel_append hopening (.cons (walks_group (by decide) h) hclosing))

/-- Once a block has the words of its construct, what it holds is walked. -/
lemma walks_branchBlock {forms : Forms (List SyntaxTree)}
    (hbody : WalksAll visit trees forms.body) (hafter : forms.after = ending ended) :
    Walks visit (held (asStatement (enclosed opening trees closing :: ending ended)))
      (held (branchBlock opening forms closing)) := by
  rw [branchBlock, hafter]
  exact walks_held (walks_asStatement (.cons (walks_enclosed hopening hclosing hbody)
    (walks_ending visit ended)))

end

lemma walks_beginEnd (h : WalksAll visit trees trees') (ended : Bool) : Walks visit
    (asStatement (enclosed [opener "begin"] trees [closer "end"] :: ending ended))
    (asStatement (enclosed [opener "begin"] trees' [closer "end"] :: ending ended)) := by
  have hword := walks_opener visit "begin"
  have hend := walks_closer visit "end"
  exact walks_asStatement (.cons (walks_enclosed (.cons hword .nil) (.cons hend .nil) h)
    (walks_ending visit ended))

end Idle

/-! ## Branches in blocks -/

lemma find?_of_avoidsAll {tags : List Tag} {trees : List SyntaxTree}
    (h : AvoidsAll tags trees) (htag : tag ∈ tags) : trees.find? (·.tag == tag) = none := by
  rw [find?_eq_none]
  intro tree htree heq
  exact (avoidsAll_iff.1 h tree htree).tag_notMem (eq_of_beq heq ▸ htag)

/-- The clauses of a plain statement are no constructs. -/
lemma child?_clause {clauses : Fragment} {clause : SyntaxTree}
    (hclause : clause ∈ clauses.trees) (htag : tag ∈ constructTags) : clause.child? tag = none :=
  find?_of_avoidsAll (avoidsAll_iff.1 clauses.avoids clause hclause).children htag

lemma path?_plain (clauses : Fragment) (htag : tag ∈ constructTags) :
    (group .statement clauses.trees).path? [.clause, tag] = none := by
  rw [path?]
  cases hclause : (group .statement clauses.trees).child? .clause with
  | none => rfl
  | some clause =>
    have hmem : clause ∈ clauses.trees := mem_of_find?_eq_some hclause
    change clause.path? [tag] = none
    rw [path?, child?_clause hmem htag]
    rfl

lemma holdsBlockAll_plain (clauses : Fragment) :
    holdsBlockAll [group .statement clauses.trees] = false := by
  simp only [holdsBlockAll, any_cons, any_nil, Bool.or_false, any_eq_false]
  intro clause hclause
  rw [child?_clause hclause (by decide)]
  exact Bool.false_ne_true

lemma blocks_parsed (s : Command) :
    Blocks [s.parsed] (parsedAll s.inner) (ending s.isEnded) := by
  cases s with
  | plain clauses => exact .wrapped (holdsBlockAll_plain clauses)
  | block body ended => exact .block _ _
  | branch condition body => exact .wrapped rfl
  | branchElse condition body otherwise => exact .wrapped rfl
  | loop condition body => exact .wrapped rfl

section Normal

variable {s : Command}

lemma blockTags_subset : [Tag.ifStatement, .elseClause] ⊆ visitedTags := by decide

instance : Idle blockVisit where
  acts tree htag := blockVisit_idle tree fun h => htag (blockTags_subset h)

/-- What a block holds is walked statement by statement. -/
lemma walks_block {body body' : List Command} (ended : Bool)
    (h : WalksAll blockVisit (parsedAll body) (parsedAll body')) :
    Walks blockVisit (block body ended).parsed (block body' ended).parsed := by
  rw [parsed, parsed]
  exact walks_beginEnd h ended

section

variable (h : Walks blockVisit s.parsed s.normal.parsed)
include h

lemma walks_blocked : Walks blockVisit s.blocked.parsed s.normal.blocked.parsed := by
  cases s with
  | block body ended => exact h
  | _ => exact walks_block false (.cons h .nil)

lemma walks_elseClause : Walks blockVisit (group .elseClause [opener "else", held s.parsed])
      (group .elseClause [opener "else", held s.normal.chained.parsed]) := by
  have hword := walks_opener blockVisit "else"
  have hheld := walks_held h
  have hblock := walks_held (walks_blocked h)
  cases s with
  | plain clauses =>
    exact (blockVisit_else (blocks_parsed (.plain clauses)) (path?_plain clauses (by decide))).walks
      (.cons hword (.cons hblock .nil))
  | block body ended =>
    refine (blockVisit_else (blocks_parsed (.block body ended)) ?_).walks
      (.cons hword (.cons hblock .nil))
    cases ended <;> rfl
  | branch condition body => exact blockVisit_elseIf.walks (.cons hword (.cons hheld .nil))
  | branchElse condition body otherwise =>
    exact blockVisit_elseIf.walks (.cons hword (.cons hheld .nil))
  | loop condition body =>
    exact (blockVisit_else (blocks_parsed (.loop condition body)) rfl).walks
      (.cons hword (.cons hblock .nil))

lemma walks_ifStatement {condition : Fragment}
    (hrest : WalksAll blockVisit rest rest') :
    Walks blockVisit (asStatement [group .ifStatement
        ([opener "if", test condition] ++ held s.parsed :: rest)])
      (asStatement [group .ifStatement
        ([opener "if", test condition] ++ held s.normal.blocked.parsed :: rest')]) := by
  have hword := walks_opener blockVisit "if"
  have htest := walks_test blockVisit condition
  have hheld := walks_held (walks_blocked h)
  refine walks_asStatement (.cons ?_ .nil)
  refine (blockVisit_if ?_ (blocks_parsed s)).walks (.cons hword (.cons htest (.cons hheld hrest)))
  simp [opener, test]

end

/-- The first pass gives every branch a block. -/
lemma walks_normal (s : Command) : Walks blockVisit s.parsed s.normal.parsed := by
  induction s with
  | plain clauses =>
    exact walks_group (by decide)
      (walks_fragment blockVisit clauses)
  | block body ended ih =>
    refine walks_block ended ?_
    rw [parsedAll_eq_map, parsedAll_eq_map, normalAll_eq_map, map_map]
    exact List.forall₂_map_left_iff.2 (List.forall₂_map_right_iff.2 (List.forall₂_same.2 ih))
  | branch condition body ih => exact walks_ifStatement ih .nil
  | branchElse condition body otherwise ih ihOther =>
    exact walks_ifStatement ih (.cons (walks_elseClause ihOther) .nil)
  | loop condition body ih =>
    have hword := walks_opener blockVisit "while"
    have htest := walks_test blockVisit condition
    have hheld := walks_held ih
    have hidle := blockVisit_idle
      (group .whileLoop [opener "while", test condition, held body.parsed]) (by simp)
    exact walks_asStatement (.cons
      (hidle.walks (.cons hword (.cons htest (.cons hheld .nil)))) .nil)

end Normal

/-! ## Conditions -/

/-- The second pass makes of the statement, its branches being blocks, what its conversion says in
each place where it can stand. -/
structure Converts (s : Command) : Prop where
  alone : WalksAll conditionVisit [s.normal.parsed] (s.converted false).alone
  body : WalksAll conditionVisit (parsedAll s.normal.inner)
    (s.converted false).body
  after : (s.converted false).after = ending s.normal.isEnded
  other : WalksAll conditionVisit
    [group .elseClause [opener "else", held s.normal.chained.parsed]] (s.converted false).other

section Conditions

variable {s : Command}

instance : Idle conditionVisit where
  acts tree htag := conditionVisit_idle tree fun h => htag (blockTags_subset h)

lemma Converts.chain (h : Converts s) {before : List SyntaxTree}
    (hbefore : ∀ tree ∈ before, tree.tag ≠ .containerSingleStatement ∧ tree.tag ≠ .elseClause)
    (hclosing : closing = if rest.any (·.tag == .elseClause) then [] else [terminated "end if"])
    (hwalks : WalksAll conditionVisit before before)
    (hrest : WalksAll conditionVisit rest rest') : Walks conditionVisit
      (asStatement [group .ifStatement (before ++ held s.normal.blocked.parsed :: rest)])
      (asStatement [group .ifStatement
        (before ++ held (branchBlock [opener "then"] (s.converted false) closing) ::
          rest')]) := by
  have hword := walks_opener conditionVisit "then"
  have hclosing' : WalksAll conditionVisit closing closing := by
    rw [hclosing]
    split
    · exact .nil
    · exact .cons (walks_terminated conditionVisit _) .nil
  have hacts : Acts conditionVisit (around .ifStatement before
      (enclosed [opener "begin"] (parsedAll s.normal.inner) [closer "end"] ::
        ending s.normal.isEnded) rest) _ :=
    conditionVisit_branch (.inl rfl) fun tree htree => (hbefore tree htree).1
  have hany : before.any (·.tag == .elseClause) = false := by
    simpa using fun tree htree => (hbefore tree htree).2
  rw [any_append, hany, Bool.false_or, ← hclosing] at hacts
  refine walks_asStatement (.cons ?_ .nil)
  exact hacts.walks (rel_append hwalks
    (.cons (walks_branchBlock (.cons hword .nil) hclosing'
      h.body h.after) hrest))

/-- An if statement is converted as the first of a chain, and as a later one. -/
lemma Converts.chainForms (h : Converts s) (condition : Fragment)
    (hclosing : closing = if rest.any (·.tag == .elseClause) then [] else [terminated "end if"])
    (hrest : WalksAll conditionVisit rest rest') : Walks conditionVisit
        (asStatement [group .ifStatement
          (opener "if" :: test condition :: held s.normal.blocked.parsed :: rest)])
        (chainTree [opener "if"] condition (s.converted false) closing rest') ∧
      Walks conditionVisit
        (group .elseClause [opener "else", held (asStatement [group .ifStatement
          (opener "if" :: test condition :: held s.normal.blocked.parsed :: rest)])])
        (group .elseClause [opener "elsif",
          held (chainTree [] condition (s.converted false) closing rest')]) := by
  have hword := walks_opener conditionVisit "if"
  have helsif := walks_opener conditionVisit "elsif"
  have htest := walks_test conditionVisit condition
  have hfirst := h.chain (by simp [opener, test]) hclosing (.cons hword (.cons htest .nil)) hrest
  have hnested := h.chain (by simp [test]) hclosing (.cons htest .nil) hrest
  exact ⟨hfirst, conditionVisit_elseIf.walks (.cons helsif (.cons
    (walks_held hnested) .nil))⟩

/-- A block that is an else branch ends the chain. -/
lemma walks_elseBranch {forms : Forms (List SyntaxTree)} {trees : List SyntaxTree}
    (hbody : WalksAll conditionVisit trees forms.body)
    (hafter : forms.after = ending ended) : Walks conditionVisit
      (group .elseClause [opener "else", held (asStatement
        (enclosed [opener "begin"] trees [closer "end"] :: ending ended))])
      (elseBranch forms) := by
  have hword := walks_opener conditionVisit "else"
  have hend := walks_terminated conditionVisit "end if"
  have hacts : Acts conditionVisit (around .elseClause [opener "else"]
      (enclosed [opener "begin"] trees [closer "end"] :: ending ended) []) _ :=
    conditionVisit_branch (.inr rfl) (by simp [opener])
  exact hacts.walks (.cons hword (.cons (walks_branchBlock
    .nil (.cons hend .nil) hbody hafter) .nil))

/-- A statement that is neither a block nor an if statement. -/
lemma converts_of_walks (hnormal : s.normal.inner = [s.normal])
    (hended : s.normal.isEnded = false) (hchained : s.normal.chained = s.normal.blocked)
    (hforms : s.converted false = plainForms tree)
    (h : Walks conditionVisit s.normal.parsed tree) : Converts s where
  alone := by
    rw [hforms]
    exact .cons h .nil
  body := by
    rw [hforms, hnormal]
    exact .cons h .nil
  after := by
    rw [hforms, hended]
    rfl
  other := by
    rw [hforms, hchained, blocked, hnormal, hended]
    exact .cons (walks_elseBranch (.cons h .nil) rfl) .nil

/-- The second pass gives conditions the words of the target dialect. -/
lemma converts (s : Command) : Converts s := by
  induction s with
  | plain clauses =>
    exact converts_of_walks rfl rfl rfl rfl (walks_group
      (by decide) (walks_fragment conditionVisit clauses))
  | block body ended ih =>
    have hall : WalksAll conditionVisit
        (parsedAll (normalAll body)) (convertedAll false body) := by
      induction body with
      | nil => exact .nil
      | cons s rest ihrest =>
        exact rel_append (ih s (.head _)).alone
          (ihrest fun t ht => ih t (.tail _ ht))
    exact ⟨.cons (walks_beginEnd hall ended) .nil, hall, rfl,
      .cons (walks_elseBranch hall rfl) .nil⟩
  | branch condition body ih =>
    obtain ⟨hfirst, hlater⟩ := ih.chainForms condition rfl .nil
    exact ⟨.cons hfirst .nil, .cons hfirst .nil, rfl, .cons hlater .nil⟩
  | branchElse condition body otherwise ih ihOther =>
    obtain ⟨hfirst, hlater⟩ := ih.chainForms condition rfl ihOther.other
    exact ⟨.cons hfirst .nil, .cons hfirst .nil, rfl, .cons hlater .nil⟩
  | loop condition body ih =>
    have hword := walks_opener conditionVisit "while"
    have htest := walks_test conditionVisit condition
    have hheld := walks_group
      (by decide : Tag.containerSingleStatement ∉ visitedTags) ih.alone
    have hidle := conditionVisit_idle (group .whileLoop [opener "while", test condition,
      group .containerSingleStatement [body.normal.parsed]]) (by simp)
    exact converts_of_walks rfl rfl rfl rfl (walks_asStatement
      (.cons (hidle.walks (.cons hword (.cons htest (.cons hheld .nil)))) .nil))

end Conditions

/-! ## Loops -/

/-- The visit of the pass over loops. -/
abbrev loopVisit : NodeId → Conversion Visit :=
  matchVisit .whileLoop none convertLoop

/-- The third pass makes of the statement, its conditions being converted, what its conversion says
in each place where it can stand. -/
structure ConvertsLoops (s : Command) : Prop where
  alone : WalksAll loopVisit (s.converted false).alone (s.converted true).alone
  body : WalksAll loopVisit (s.converted false).body (s.converted true).body
  other : WalksAll loopVisit (s.converted false).other (s.converted true).other

section Loops

variable {s : Command}

instance : Idle loopVisit where
  acts tree htag := loopVisit_idle tree fun h => htag ((by decide : [.whileLoop] ⊆ visitedTags) h)

lemma after_converted (loops : Bool) (s : Command) :
    (s.converted loops).after = ending s.isEnded := by
  cases s <;> rfl

/-- A loop body is a block, or comes into one. -/
lemma blocks_converted (s : Command) :
    Blocks (s.converted false).alone (s.converted false).body (s.converted false).after := by
  cases s with
  | plain clauses => exact .wrapped (holdsBlockAll_plain clauses)
  | block body ended => exact .block _ _
  | branch condition body => exact .wrapped rfl
  | branchElse condition body otherwise => exact .wrapped rfl
  | loop condition body => exact .wrapped rfl

lemma loops_group {trees trees' : List SyntaxTree} (htag : tag ≠ .whileLoop)
    (h : WalksAll loopVisit trees trees') :
    Walks loopVisit (group tag trees) (group tag trees') :=
  (loopVisit_idle (group tag trees) (by simpa using htag)).walks h

lemma loops_branchBlock {forms forms' : Forms (List SyntaxTree)}
    (hopening : WalksAll loopVisit opening opening)
    (hclosing : WalksAll loopVisit closing closing)
    (hbody : WalksAll loopVisit forms.body forms'.body)
    (hafter : forms.after = ending ended) (hafter' : forms'.after = ending ended) :
    Walks loopVisit (held (branchBlock opening forms closing))
      (held (branchBlock opening forms' closing)) := by
  rw [branchBlock, hafter]
  exact walks_branchBlock hopening hclosing hbody hafter'

lemma loops_elseBranch {forms forms' : Forms (List SyntaxTree)}
    (hbody : WalksAll loopVisit forms.body forms'.body)
    (hafter : forms.after = ending ended) (hafter' : forms'.after = ending ended) :
    Walks loopVisit (elseBranch forms) (elseBranch forms') := by
  have hword := walks_opener loopVisit "else"
  have hend := walks_terminated loopVisit "end if"
  exact loops_group (by decide) (.cons hword
    (.cons (loops_branchBlock .nil (.cons hend .nil) hbody hafter hafter') .nil))

lemma loops_plainForms (hforms : s.converted false = plainForms tree)
    (hforms' : s.converted true = plainForms tree') (h : Walks loopVisit tree tree') :
    ConvertsLoops s where
  alone := by
    rw [hforms, hforms']
    exact .cons h .nil
  body := by
    rw [hforms, hforms']
    exact .cons h .nil
  other := by
    rw [hforms, hforms']
    exact .cons (loops_elseBranch (.cons h .nil) (rfl : _ = ending false) rfl) .nil

lemma ConvertsLoops.chainTree (h : ConvertsLoops s) (condition : Fragment)
    (hopening : WalksAll loopVisit opening opening)
    (hclosing : WalksAll loopVisit closing closing)
    (hrest : WalksAll loopVisit rest rest') :
    Walks loopVisit (chainTree opening condition (s.converted false) closing rest)
      (ControlFlow.chainTree opening condition (s.converted true) closing rest') := by
  have htest := walks_test loopVisit condition
  have hthen := walks_opener loopVisit "then"
  have hheld := loops_branchBlock (.cons hthen .nil) hclosing h.body (after_converted false s)
    (after_converted true s)
  refine walks_asStatement (.cons ?_ .nil)
  exact loops_group (by decide) (rel_append hopening (.cons htest (.cons hheld hrest)))

lemma ConvertsLoops.chainForms (h : ConvertsLoops s) (condition : Fragment)
    (hclosing : WalksAll loopVisit closing closing)
    (hrest : WalksAll loopVisit rest rest') :
    Walks loopVisit (ControlFlow.chainTree [opener "if"] condition (s.converted false) closing rest)
        (ControlFlow.chainTree [opener "if"] condition (s.converted true) closing rest') ∧
      Walks loopVisit
        (group .elseClause [opener "elsif",
          held (ControlFlow.chainTree [] condition (s.converted false) closing rest)])
        (group .elseClause [opener "elsif",
          held (ControlFlow.chainTree [] condition (s.converted true) closing rest')]) := by
  have hword := walks_opener loopVisit "if"
  have helsif := walks_opener loopVisit "elsif"
  have hheld := walks_held (h.chainTree condition .nil hclosing hrest)
  exact ⟨h.chainTree condition (.cons hword .nil) hclosing hrest,
    loops_group (by decide) (.cons helsif (.cons hheld .nil))⟩

/-- The third pass gives loops the words of the target dialect. -/
lemma convertsLoops (s : Command) : ConvertsLoops s := by
  induction s with
  | plain clauses =>
    exact loops_plainForms rfl rfl (loops_group (by decide)
      (walks_fragment loopVisit clauses))
  | block body ended ih =>
    have hall : WalksAll loopVisit (convertedAll false body)
        (convertedAll true body) := by
      induction body with
      | nil => exact .nil
      | cons s rest ihrest =>
        exact rel_append (ih s (.head _)).alone
          (ihrest fun t ht => ih t (.tail _ ht))
    exact ⟨.cons (walks_beginEnd hall ended) .nil, hall,
      .cons (loops_elseBranch hall (rfl : _ = ending ended) rfl) .nil⟩
  | branch condition body ih =>
    have hend := walks_terminated loopVisit "end if"
    obtain ⟨hfirst, hlater⟩ := ih.chainForms condition (.cons hend .nil) .nil
    exact ⟨.cons hfirst .nil, .cons hfirst .nil, .cons hlater .nil⟩
  | branchElse condition body otherwise ih ihOther =>
    obtain ⟨hfirst, hlater⟩ := ih.chainForms condition .nil ihOther.other
    exact ⟨.cons hfirst .nil, .cons hfirst .nil, .cons hlater .nil⟩
  | loop condition body ih =>
    have hword := walks_opener loopVisit "while"
    have htest := walks_test loopVisit condition
    have hloop := walks_opener loopVisit "loop"
    have hend := walks_terminated loopVisit "end loop"
    have hheld := loops_branchBlock (.cons hloop .nil) (.cons hend .nil) ih.body
      (after_converted false body) (after_converted true body)
    have hacts : Acts loopVisit (group .whileLoop ([opener "while", test condition] ++
        group .containerSingleStatement (body.converted false).alone :: [])) _ :=
      loopVisit_loop (by simp [opener, test]) (blocks_converted body)
    exact loops_plainForms rfl rfl (walks_asStatement
      (.cons (hacts.walks (.cons hword (.cons htest (.cons hheld .nil)))) .nil))

end Loops

/-! ## The passes in their order -/

/-- The passes that translate control flow. -/
def controlFlowPasses : List Pass :=
  ["if_begin_end", "conditions", "loops"].filterMap standardPass?

lemma controlFlowPasses_eq : controlFlowPasses =
    [⟨"if_begin_end", blockBranches⟩, ⟨"conditions", convertConditions⟩,
      ⟨"loops", convertLoops⟩] := by
  rfl

/-- The passes over control flow make the last stage of a script. -/
lemma runPasses_controlFlow (commands : List Command) :
    ∃ w, runPasses controlFlowPasses { forest := ofTree (script commands) } = .ok w ∧
      Turned { forest := ofTree (script commands) } root
        (group .root (convertedAll true commands)) w := by
  -- the script is walked like the statements of a block
  have hnormal : Walks blockVisit (script commands)
      (group .root (parsedAll (normalAll commands))) := by
    rw [script, parsedAll_eq_map, normalAll_eq_map, map_map]
    refine walks_group (by decide) ?_
    exact List.forall₂_map_left_iff.2 (List.forall₂_map_right_iff.2
      (List.forall₂_same.2 fun s _ => walks_normal s))
  have hconditions : Walks conditionVisit
      (group .root (parsedAll (normalAll commands)))
      (group .root (convertedAll false commands)) :=
    walks_group (by decide)
      (converts (.block commands false)).body
  have hloops : Walks loopVisit (group .root (convertedAll false commands))
      (group .root (convertedAll true commands)) :=
    loops_group (by decide) (convertsLoops (.block commands false)).body
  have hsize1 := size_normal (.block commands false)
  have hsize2 := (size_converted false (.block commands false)).2.1
  have hsize3 := (size_converted true (.block commands false)).2.1
  simp only [normal, parsed, converted, blockForms, ending, size_asStatement,
    sizeAll, size_enclosed, size_opener, size_closer, Bool.false_eq_true, if_false]
    at hsize1 hsize2 hsize3
  have hw := whole_ofTree (script commands)
  have htree := tree_ofTree (script commands)
  have hsize : (ofTree (script commands)).size = 1 + sizeAll (parsedAll commands) := by
    rw [size_ofTree, script, size_group, parsedAll_eq_map]
  generalize hstart : ({ forest := ofTree (script commands) } : Workspace) = w at hw ⊢
  rw [(by rw [← hstart] : ofTree (script commands) = w.forest)] at htree hsize
  obtain ⟨w1, h1, hrun1⟩ := runPasses_of_walks hnormal hw htree (by rw [size_group]; omega)
  have hw1 := h1.whole hw
  have hle1 := h1.grafted.size_le
  obtain ⟨w2, h2, hrun2⟩ := runPasses_of_walks hconditions hw1 h1.grafted.subtree_eq
    (by rw [size_group]; omega)
  have hw2 := h2.whole hw1
  have hle2 := h2.grafted.size_le
  obtain ⟨w3, h3, hrun3⟩ := runPasses_of_walks hloops hw2 h2.grafted.subtree_eq
    (by rw [size_group]; omega)
  refine ⟨w3, ?_, (h1.trans hw h2).trans hw h3⟩
  rw [controlFlowPasses_eq, blockBranches, hrun1, convertConditions, hrun2]
  exact hrun3

/-- Whatever the nesting, the passes over control flow make of a script the pieces of its
translation. -/
theorem runPasses_script (commands : List Command) :
    ∃ w, runPasses controlFlowPasses { forest := ofTree (script commands) } = .ok w ∧
      w.forest.tree.pieces = Command.translateAll commands := by
  obtain ⟨w, hrun, hturned⟩ := runPasses_controlFlow commands
  refine ⟨w, hrun, ?_⟩
  have hpieces := congrArg Forms.body (pieces_converted (.block commands false))
  rw [tree, hturned.grafted.subtree_eq, pieces_group rfl rfl]
  exact hpieces

end SqlDialect.ControlFlow
