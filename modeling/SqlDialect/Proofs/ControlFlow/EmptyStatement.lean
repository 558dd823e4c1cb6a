import Mathlib.Data.List.Chain
import SqlDialect.Proofs.ControlFlow.Terminators

/-!
# Empty statements

A terminator right after another one ends an empty statement.  In a script of plain statements,
blocks, conditions and loops there is none to begin with.  The translation makes one where a branch
or a loop body is a block with a semicolon of its own: the construct ends in a semicolon, and the
semicolon of the block is left over after it.

`noEmptyStatement_iff` says that there is no other way: after the passes two terminators stand next
to each other exactly if the script has such a block (`Command.spare`).
-/

namespace SqlDialect.ControlFlow

open SyntaxTree Terminator Conversion Forest Command List

/-! ## Terminators among pieces -/

/-- No terminator stands right after another one. -/
def NoEmptyStatement (pieces : List Piece) : Prop :=
  pieces.IsChain fun a b => ¬ (a.text = ";" ∧ b.text = ";")

instance : DecidablePred NoEmptyStatement := fun pieces =>
  inferInstanceAs (Decidable (pieces.IsChain _))

/-- The pieces do not start with a terminator. -/
def StartsWithWord (pieces : List Piece) : Prop :=
  ∀ piece ∈ pieces.head?, piece.text ≠ ";"

/-- The pieces end in a terminator, if there are any. -/
def EndsTerminated (pieces : List Piece) : Prop :=
  ∀ piece ∈ pieces.getLast?, piece.text = ";"

section

variable {xs ys : List Piece} {word : String}

lemma StartsWithWord.append (hxs : StartsWithWord xs) (hys : StartsWithWord ys) :
    StartsWithWord (xs ++ ys) := by
  cases xs with
  | nil => exact hys
  | cons x xs => exact hxs

lemma EndsTerminated.append_left (hys : EndsTerminated ys) (hne : ys ≠ []) (xs : List Piece) :
    EndsTerminated (xs ++ ys) := by
  rwa [EndsTerminated, getLast?_append_of_ne_nil _ hne]

lemma EndsTerminated.append (hxs : EndsTerminated xs) (hys : EndsTerminated ys) :
    EndsTerminated (xs ++ ys) := by
  by_cases hne : ys = []
  · rwa [hne, append_nil]
  · exact hys.append_left hne xs

lemma startsWithWord_word (hword : word ≠ ";") : StartsWithWord (pieceOf word) := by
  simpa [StartsWithWord, pieceOf, Piece.plain] using hword

lemma startsWithWord_of_forall (h : ∀ piece ∈ xs, piece.text ≠ ";") : StartsWithWord xs :=
  fun piece hpiece => h piece (mem_of_mem_head? hpiece)

lemma noEmptyStatement_piece (text : String) : NoEmptyStatement (pieceOf text) :=
  isChain_singleton _

lemma noEmptyStatement_of_forall (h : ∀ piece ∈ xs, piece.text ≠ ";") : NoEmptyStatement xs := by
  induction xs with
  | nil => exact .nil
  | cons x xs ih =>
    refine isChain_cons.2 ⟨fun y _ hboth => ?_, ih fun p hp => h p (.tail _ hp)⟩
    exact h x (.head _) hboth.1

/-- Pieces that start with a word may follow anything. -/
lemma StartsWithWord.noEmptyStatement_append_iff (hys : StartsWithWord ys) :
    NoEmptyStatement (xs ++ ys) ↔ NoEmptyStatement xs ∧ NoEmptyStatement ys := by
  rw [NoEmptyStatement, isChain_append]
  constructor
  · exact fun h => ⟨h.1, h.2.1⟩
  · exact fun h => ⟨h.1, h.2, fun x _ y hy hboth => hys y hy hboth.2⟩

/-- A terminator may follow what does not end in one. -/
lemma noEmptyStatement_append_terminator_iff :
    NoEmptyStatement (xs ++ pieceOf ";") ↔
      NoEmptyStatement xs ∧ ∀ piece ∈ xs.getLast?, piece.text ≠ ";" := by
  rw [NoEmptyStatement, isChain_append]
  simp [pieceOf, Piece.plain, NoEmptyStatement]

/-- Statements, each with its terminator, of which none is empty under the condition `neat`. -/
structure Sentences (pieces : List Piece) (neat : Prop) : Prop where
  starts : StartsWithWord pieces
  ends : EndsTerminated pieces
  noEmpty : NoEmptyStatement pieces ↔ neat

variable {body other front : List Piece} {neat neat' : Prop} {condition : Fragment}

lemma Sentences.append (hxs : Sentences xs neat) (hys : Sentences ys neat') :
    Sentences (xs ++ ys) (neat ∧ neat') where
  starts := hxs.starts.append hys.starts
  ends := hxs.ends.append hys.ends
  noEmpty := by rw [hys.starts.noEmptyStatement_append_iff, hxs.noEmpty, hys.noEmpty]

/-- A construct ends in a terminator; that of a block in it comes after. -/
lemma sentences_end (hword : word ≠ ";") (hstarts : StartsWithWord front)
    (hfront : NoEmptyStatement front ↔ neat) (ended : Bool) :
    Sentences (front ++ (pieceOf word ++ pieceOf ";" ++ endingPieces ended))
      (neat ∧ ended = false) where
  starts := hstarts.append (by simpa [StartsWithWord, pieceOf, Piece.plain] using hword)
  ends := by
    refine EndsTerminated.append_left ?_ (by simp [pieceOf]) front
    cases ended <;> simp [EndsTerminated, endingPieces, pieceOf, Piece.plain]
  noEmpty := by
    have hstart : StartsWithWord (pieceOf word ++ pieceOf ";" ++ endingPieces ended) := by
      simpa [StartsWithWord, pieceOf, Piece.plain] using hword
    have hend : NoEmptyStatement (pieceOf word ++ pieceOf ";" ++ endingPieces ended) ↔
        ended = false := by
      cases ended <;> simp [NoEmptyStatement, endingPieces, pieceOf, Piece.plain, hword]
    rw [hstart.noEmptyStatement_append_iff, hfront, hend]

/-- The first words of a branch or a loop, up to its body. -/
def headPieces (word : String) (condition : Fragment) (word' : String) : List Piece :=
  pieceOf word ++ piecesAll condition.trees ++ pieceOf word'

/-- There is no terminator in the condition. -/
def Fragment.IsWords (part : Fragment) : Prop :=
  ∀ piece ∈ piecesAll part.trees, piece.text ≠ ";"

lemma startsWithWord_head (hword : word ≠ ";") (word' : String) :
    StartsWithWord (headPieces word condition word' ++ body) := by
  rw [headPieces, append_assoc, append_assoc]
  exact startsWithWord_word hword

lemma noEmptyStatement_head {word' : String} (hcondition : condition.IsWords) (hword' : word' ≠ ";")
    (hbody : Sentences body neat) :
    NoEmptyStatement (headPieces word condition word' ++ body) ↔ neat := by
  rw [hbody.starts.noEmptyStatement_append_iff, headPieces,
    (startsWithWord_word hword').noEmptyStatement_append_iff,
    (startsWithWord_of_forall hcondition).noEmptyStatement_append_iff, hbody.noEmpty]
  simp [noEmptyStatement_piece, noEmptyStatement_of_forall hcondition]

lemma sentences_branch (hword : word ≠ ";") (hcondition : condition.IsWords)
    (hbody : Sentences body neat) (ended : Bool) :
    Sentences (branchPieces word condition body (endIfPieces ++ endingPieces ended))
      (neat ∧ ended = false) :=
  sentences_end (by decide) (startsWithWord_head hword "then")
    (noEmptyStatement_head hcondition (by decide) hbody) ended

lemma sentences_loop (hcondition : condition.IsWords) (hbody : Sentences body neat) (ended : Bool) :
    Sentences (loopPieces condition body (endingPieces ended)) (neat ∧ ended = false) := by
  have hend := sentences_end (by decide : "end loop" ≠ ";")
    (startsWithWord_head (by decide : "while" ≠ ";") "loop")
    (noEmptyStatement_head hcondition (by decide) hbody) ended
  simpa [loopPieces, headPieces] using hend

lemma sentences_else (hbody : Sentences body neat) (ended : Bool) :
    Sentences (elsePieces body (endingPieces ended)) (neat ∧ ended = false) := by
  have hstarts := (startsWithWord_word (by decide : "else" ≠ ";")).append hbody.starts
  have hfront : NoEmptyStatement (pieceOf "else" ++ body) ↔ neat := by
    rw [hbody.starts.noEmptyStatement_append_iff, hbody.noEmpty]
    simp [noEmptyStatement_piece]
  have hend := sentences_end (by decide : "end if" ≠ ";") hstarts hfront ended
  simpa [elsePieces, endIfPieces] using hend

/-- Before an else branch the semicolon of a block is left over only if something is in the
block. -/
lemma sentences_branchElse (hword : word ≠ ";") (hcondition : condition.IsWords)
    (hbody : Sentences body neat) (hother : Sentences other neat') (hne : other ≠ [])
    (ended : Bool) :
    Sentences (branchPieces word condition body (endingPieces ended ++ other))
      (neat ∧ (ended = true → body = []) ∧ neat') := by
  have hsplit : branchPieces word condition body (endingPieces ended ++ other) =
      (headPieces word condition "then" ++ body ++ endingPieces ended) ++ other := by
    simp [branchPieces, headPieces]
  have hhead : NoEmptyStatement (headPieces word condition "then" ++ body) ↔ neat :=
    noEmptyStatement_head hcondition (by decide) hbody
  have hended : NoEmptyStatement (headPieces word condition "then" ++ body ++ endingPieces ended) ↔
      neat ∧ (ended = true → body = []) := by
    cases ended with
    | false => simpa [endingPieces] using hhead
    | true =>
      have hlast : (∀ piece ∈ (headPieces word condition "then" ++ body).getLast?,
          piece.text ≠ ";") ↔ body = [] := by
        by_cases hnil : body = []
        · rw [hnil, append_nil, headPieces, pieceOf, pieceOf, getLast?_concat]
          simp [Piece.plain]
        · obtain ⟨piece, hpiece⟩ := Option.ne_none_iff_exists'.1
            (mt getLast?_eq_none_iff.1 hnil)
          rw [getLast?_append_of_ne_nil _ hnil, hpiece]
          simp [hnil, hbody.ends piece hpiece]
      rw [endingPieces, if_pos rfl, noEmptyStatement_append_terminator_iff, hhead, hlast]
      simp
  rw [hsplit]
  refine ⟨?_, hother.ends.append_left hne _, ?_⟩
  · rw [append_assoc, append_assoc]
    exact startsWithWord_head hword "then"
  · rw [hother.starts.noEmptyStatement_append_iff, hended, hother.noEmpty, and_assoc]

end

/-! ## Terminators in scripts -/

/-- Words, and then a terminator. -/
def IsSentence (pieces : List Piece) : Prop :=
  ∃ words, words ≠ [] ∧ (∀ piece ∈ words, piece.text ≠ ";") ∧ pieces = words ++ pieceOf ";"

namespace Command

mutual

/-- Plain statements, with their terminators, have words before it, and conditions have no
terminators in them. -/
def Proper : Command → Prop
  | .plain clauses => IsSentence (piecesAll clauses.settled.trees)
  | .block body _ => ProperAll body
  | .branch condition body => condition.settled.IsWords ∧ Proper body
  | .branchElse condition body otherwise =>
    condition.settled.IsWords ∧ Proper body ∧ Proper otherwise
  | .loop condition body => condition.settled.IsWords ∧ Proper body

def ProperAll : List Command → Prop
  | [] => True
  | s :: rest => Proper s ∧ ProperAll rest

end

mutual

/-- Somewhere a branch or a loop body is a block with a semicolon of its own, which the end of the
branch or loop does not need. -/
def spare : Command → Bool
  | .plain _ => false
  | .block body _ => spareAll body
  | .branch _ body => body.isEnded || spare body
  | .branchElse _ body otherwise =>
    (body.isEnded && !body.inner.isEmpty) || spare body || otherwise.isEnded || spare otherwise
  | .loop _ body => body.isEnded || spare body

def spareAll : List Command → Bool
  | [] => false
  | s :: rest => spare s || spareAll rest

end

lemma properAll_iff {body : List Command} : ProperAll body ↔ ∀ s ∈ body, s.Proper := by
  induction body with
  | nil => simp [ProperAll]
  | cons s rest ih => simp [ProperAll, ih]

lemma after_closed (s : Command) : (s.closed true).translate.after = endingPieces s.isEnded := by
  cases s with
  | block body ended =>
    change endingPieces (ended || !true) = _
    rw [Bool.not_true, Bool.or_false, isEnded]
  | _ => rfl

end Command

/-- How a statement reads in the places where it can stand. -/
structure Reads (s : Command) : Prop where
  alone : Sentences (s.closed false).translate.alone (s.spare = false)
  alone_ne_nil : (s.closed false).translate.alone ≠ []
  body : Sentences (s.closed true).translate.body (s.spare = false)
  body_eq_nil : (s.closed true).translate.body = [] ↔ s.inner = []
  other : Sentences (s.closed true).translate.other (s.spare = false ∧ s.isEnded = false)
  other_ne_nil : (s.closed true).translate.other ≠ []

lemma Reads.all {body : List Command} (h : ∀ s ∈ body, Reads s) :
    Sentences (translateAll (closedAll body)) (spareAll body = false) ∧
      (translateAll (closedAll body) = [] ↔ body = []) := by
  induction body with
  | nil =>
    have hnil : Sentences [] (spareAll [] = false) :=
      ⟨by simp [StartsWithWord], by simp [EndsTerminated],
        by simp [NoEmptyStatement, spareAll]⟩
    exact ⟨hnil, by simp [closedAll, translateAll]⟩
  | cons s rest ih =>
    have hs := h s (.head _)
    have hrest := (ih fun t ht => h t (.tail _ ht)).1
    rw [closedAll, translateAll, spareAll, Bool.or_eq_false_iff]
    exact ⟨hs.alone.append hrest, by simp [hs.alone_ne_nil]⟩

lemma IsSentence.ne_nil {pieces : List Piece} (h : IsSentence pieces) : pieces ≠ [] := by
  obtain ⟨words, -, -, rfl⟩ := h
  simp [pieceOf]

lemma IsSentence.sentences {pieces : List Piece} (h : IsSentence pieces) :
    Sentences pieces True := by
  obtain ⟨words, hne, hwords, rfl⟩ := h
  have hlast : ∀ piece ∈ words.getLast?, piece.text ≠ ";" := fun piece hpiece =>
    hwords piece (mem_of_getLast? hpiece)
  refine ⟨?_, by simp [EndsTerminated, pieceOf, Piece.plain], ?_⟩
  · intro piece hpiece
    rw [head?_append_of_ne_nil _ hne] at hpiece
    exact hwords piece (mem_of_mem_head? hpiece)
  · rw [noEmptyStatement_append_terminator_iff]
    exact iff_of_true ⟨noEmptyStatement_of_forall hwords, hlast⟩ trivial

section

variable {s : Command}

/-- A statement that is the same wherever it stands. -/
lemma reads_same {pieces : List Piece} (hforms : ∀ isBody,
    (s.closed isBody).translate = ⟨pieces, pieces, [], elsePieces pieces []⟩)
    (hinner : s.inner = [s]) (hended : s.isEnded = false) (hne : pieces ≠ [])
    (h : Sentences pieces (s.spare = false)) : Reads s where
  alone := by rwa [hforms]
  alone_ne_nil := by rwa [hforms]
  body := by rwa [hforms]
  body_eq_nil := by simp [hforms, hne, hinner]
  other := by
    rw [hforms, hended]
    exact sentences_else h false
  other_ne_nil := by simp [hforms, elsePieces, pieceOf]

/-- A condition, with its first word as it stands. -/
lemma reads_chain {pieces : String → List Piece} (hforms : ∀ isBody,
    (s.closed isBody).translate = ⟨pieces "if", pieces "if", [], pieces "elsif"⟩)
    (hinner : s.inner = [s]) (hended : s.isEnded = false) (hne : ∀ word, pieces word ≠ [])
    (h : ∀ word, word ≠ ";" → Sentences (pieces word) (s.spare = false)) : Reads s where
  alone := by
    rw [hforms]
    exact h "if" (by decide)
  alone_ne_nil := by
    rw [hforms]
    exact hne "if"
  body := by
    rw [hforms]
    exact h "if" (by decide)
  body_eq_nil := by simp [hforms, hne, hinner]
  other := by
    rw [hforms, hended]
    simpa using h "elsif" (by decide)
  other_ne_nil := by
    rw [hforms]
    exact hne "elsif"

lemma branchPieces_ne_nil (word : String) (condition : Fragment) (body rest : List Piece) :
    branchPieces word condition body rest ≠ [] := by
  simp [branchPieces, pieceOf]

lemma reads_block {body : List Command} (h : ∀ s ∈ body, Reads s) (ended : Bool) :
    Reads (.block body ended) := by
  obtain ⟨hall, hnil⟩ := Reads.all h
  have hbegin := startsWithWord_word (by decide : "begin" ≠ ";")
  have hfront : NoEmptyStatement
      (pieceOf "begin" ++ translateAll (closedAll body)) ↔
        spareAll body = false := by
    rw [hall.starts.noEmptyStatement_append_iff, hall.noEmpty]
    simp [noEmptyStatement_piece]
  have halone : ((block body ended).closed false).translate.alone =
      pieceOf "begin" ++ translateAll (closedAll body) ++
        (pieceOf "end" ++ pieceOf ";" ++ endingPieces false) := by
    simp [closed, Command.translate, endingPieces]
  refine ⟨?_, by simp [halone, pieceOf], hall, hnil, ?_, by simp [closed, Command.translate,
    elsePieces, pieceOf]⟩
  · rw [halone]
    simpa [spare] using
      sentences_end (by decide : "end" ≠ ";") (hbegin.append hall.starts) hfront false
  · simpa [closed, Command.translate, spare, isEnded] using
      sentences_else hall ended

/-- A statement reads well wherever it stands, up to the semicolons that are left over. -/
lemma reads (s : Command) (h : s.Proper) : Reads s := by
  induction s with
  | plain clauses =>
    refine reads_same (fun _ => rfl) rfl rfl h.ne_nil ?_
    simpa [spare] using h.sentences
  | block body ended ih =>
    exact reads_block (fun s hs => ih s hs (properAll_iff.1 h s hs)) ended
  | branch condition body ih =>
    obtain ⟨hcondition, hbody⟩ := h
    have hforms := after_closed body
    refine reads_chain (fun _ => rfl) rfl rfl (fun word => branchPieces_ne_nil word _ _ _)
      fun word hword => ?_
    rw [hforms]
    simpa [spare, and_comm] using
      sentences_branch hword hcondition (ih hbody).body body.isEnded
  | branchElse condition body otherwise ih ihOther =>
    obtain ⟨hcondition, hbody, hotherwise⟩ := h
    have hother := ihOther hotherwise
    refine reads_chain (fun _ => rfl) rfl rfl (fun word => branchPieces_ne_nil word _ _ _)
      fun word hword => ?_
    rw [after_closed]
    have hpieces := sentences_branchElse hword hcondition (ih hbody).body hother.other
      hother.other_ne_nil body.isEnded
    rw [(ih hbody).body_eq_nil] at hpieces
    have hspare : (branchElse condition body otherwise).spare = false ↔
        body.spare = false ∧ (body.isEnded = true → body.inner = []) ∧
          otherwise.spare = false ∧ otherwise.isEnded = false := by
      simp only [spare, Bool.or_eq_false_iff, Bool.and_eq_false_imp, Bool.not_eq_false',
        List.isEmpty_iff]
      tauto
    rw [hspare]
    exact hpieces
  | loop condition body ih =>
    obtain ⟨hcondition, hbody⟩ := h
    refine reads_same (fun _ => rfl) rfl rfl (by simp [loopPieces, pieceOf]) ?_
    rw [after_closed]
    simpa [spare, and_comm] using sentences_loop hcondition (ih hbody).body body.isEnded

end

/-- When control flow has been translated and terminated, two terminators stand next to each other
exactly if a branch or a loop body was a block with a semicolon of its own. -/
theorem noEmptyStatement_iff (commands : List Command) (h : ∀ s ∈ commands, s.Proper) :
    ∃ w, runPasses closingPasses { forest := ofTree (script commands) } = .ok w ∧
      (NoEmptyStatement w.forest.tree.pieces ↔ ∀ s ∈ commands, s.spare = false) := by
  obtain ⟨w, hrun, hpieces⟩ := runPasses_closed commands
  have hspare : Command.spareAll commands = false ↔ ∀ s ∈ commands, s.spare = false := by
    clear h hrun hpieces
    induction commands with
    | nil => simp [Command.spareAll]
    | cons s rest ih => simp [Command.spareAll, ih]
  refine ⟨w, hrun, ?_⟩
  rw [hpieces, (Reads.all fun s hs => reads s (h s hs)).1.noEmpty, hspare]

/-- `while x begin break; end;` -/
def breakLoop : Command :=
  .loop ⟨[.node .otherNode "x" .empty []], by simp [AvoidsAll, Avoids, constructTags]⟩
    (.block [.plain ⟨[group .clause [keyword "break", semicolon]],
      by simp [AvoidsAll, Avoids, constructTags, group, keyword, semicolon]⟩] true)

theorem emptyStatement_breakLoop :
    (∀ s ∈ [breakLoop], s.Proper) ∧
      ∃ w, runPasses closingPasses { forest := ofTree (script [breakLoop]) } = .ok w ∧
        (NoEmptyStatement w.forest.tree.pieces ↔ ∀ s ∈ [breakLoop], s.spare = false) := by
  have hproper : ∀ s ∈ [breakLoop], s.Proper := by
    refine List.forall_mem_singleton.2 ⟨?_, ⟨pieceOf "break", ?_, ?_, ?_⟩, trivial⟩
    · change ∀ piece ∈ pieceOf "x", piece.text ≠ ";"
      simp [pieceOf, Piece.plain]
    · simp [pieceOf]
    · simp [pieceOf, Piece.plain]
    · rfl
  exact ⟨hproper, noEmptyStatement_iff [breakLoop] hproper⟩

theorem convert_breakLoop : NoEmptyStatement (script [breakLoop]).pieces ∧
    ∃ w, convert (ofTree (script [breakLoop])) = .ok w ∧
      w.forest.tree.render = "while x loop break; end loop;;" ∧
        ¬ NoEmptyStatement w.forest.tree.pieces := by
  decide +kernel

end SqlDialect.ControlFlow
