import SqlDialect.Proofs.Conversion.Renew
import SqlDialect.Proofs.SyntaxTree.Parts

/-!
# The markers of try and catch blocks

The pass over error handling is driven by single words: when it comes to `try` or `catch`, it edits
the marker around the word, or takes the whole marker away.  So a walk of a marker cannot be told
from what it does at the marker's own node.  Here it is followed word by word (`Marks.walkFrom`), up
to the walks of a whole try block and a whole catch block (`walks_tryTree`, `walks_catchTree`).
-/

namespace SqlDialect.ErrorHandling

open SyntaxTree Conversion Forest List

variable {limit p : Nat} {before after : List Nat}

/-! ## Tokens -/

/-- A token that the pass over error handling converts. -/
def isErrorToken (tag : Tag) (text : String) : Bool :=
  (tag == .otherKeyword && ["try", "catch", "raiserror"].any (Text.sameWord text)) ||
    (tag == .otherNode && Text.sameWord text "throw")

mutual

/-- No token of the tree has to do with errors. -/
def Calm : SyntaxTree → Prop
  | .node kind words _ trees => isErrorToken kind words = false ∧ CalmAll trees

def CalmAll : List SyntaxTree → Prop
  | [] => True
  | tree :: rest => Calm tree ∧ CalmAll rest

end

section

variable {w : Workspace} {id : Nat} {tag : Tag} {text : String} {attributes : Dict String}
  {trees trees' : List SyntaxTree}

lemma errorVisit_idle (h : isErrorToken (w.forest.tag id) (w.forest.text id) = false) :
    Succeeds (errorVisit id) w fun decision w' => decision = .descend ∧ w' = w := by
  have hkeyword : ∀ word ∈ ["try", "catch", "raiserror"],
      ¬ w.forest.isText id .otherKeyword word = true := by
    intro word hword hcontra
    obtain ⟨htag, htext⟩ := Bool.and_eq_true_iff.1 hcontra
    have hany : ["try", "catch", "raiserror"].any (Text.sameWord (w.forest.text id)) = true :=
      any_eq_true.2 ⟨word, hword, htext⟩
    rw [isErrorToken, hany, Bool.and_true, Bool.or_eq_false_iff] at h
    exact Bool.false_ne_true (h.1.symm.trans htag)
  have hthrow : ¬ w.forest.isText id .otherNode "throw" = true := fun hcontra =>
    Bool.false_ne_true ((Bool.or_eq_false_iff.1 h).2.symm.trans hcontra)
  refine ends_bind (ends_forest ?_)
  rw [if_neg (hkeyword "try" (by simp)), if_neg (hkeyword "catch" (by simp)),
    if_neg (hkeyword "raiserror" (by simp)), if_neg hthrow]
  exact ends_pure (ends_pure ⟨rfl, rfl⟩)

/-- A walk leaves a node alone that is not such a token, and goes on to its children. -/
lemma walks_node (h : isErrorToken tag text = false)
    (hwalks : WalksAll errorVisit trees trees') :
    Walks errorVisit (.node tag text attributes trees) (.node tag text attributes trees') := by
  refine Acts.walks (acts_self fun id w hw htree => errorVisit_idle ?_) hwalks
  obtain ⟨htag, htext, -, -⟩ := hw.wellFormed.of_subtree_eq htree
  rwa [htag, htext]

/-! ## Markers of two words -/

/-- `begin try` and the like: a marker of two keywords, of which the second is converted. -/
def marker (tag : Tag) (first second : String) : SyntaxTree :=
  group tag [keyword first, keyword second]

/-- A marker with a text of its own. -/
def spelled (tag : Tag) (words : String) (trees : List SyntaxTree) : SyntaxTree :=
  .node tag "" (Dict.empty.insert simpleTextKey words) trees

variable {first second : String} {b t : Nat}

/-- The nodes of a marker. -/
structure Marks (f : Forest) (id b t : Nat) (tag : Tag) (first second : String) : Prop where
  children_eq : f.children id = [b, t]
  subtree_eq : f.subtree id = marker tag first second
  first_eq : f.subtree b = keyword first
  second_eq : f.subtree t = keyword second

lemma exists_marks (hw : Whole w) (htree : w.forest.subtree id = marker tag first second) :
    ∃ b t, Marks w.forest id b t tag first second := by
  obtain ⟨-, -, -, hviews⟩ := hw.wellFormed.of_subtree_eq htree
  obtain ⟨b, rest, hchildren, hb, hrest⟩ := map_eq_cons_iff.1 hviews
  obtain ⟨t, rest, rfl, ht, hnil⟩ := map_eq_cons_iff.1 hrest
  obtain rfl := map_eq_nil_iff.1 hnil
  exact ⟨b, t, hchildren, htree, hb, ht⟩

lemma Marks.followsBegin_eq (h : Marks w.forest id b t tag first second) (hw : Whole w) :
    followsBegin w.forest t = Text.sameWord first "begin" := by
  have hf := hw.wellFormed
  have hparent : w.forest.parent t = some id := hf.parent_of_mem (by simp [h.children_eq])
  have hnodup := hf.nodup_children id
  rw [h.children_eq] at hnodup
  obtain ⟨htag, htext, -, -⟩ := hf.of_subtree_eq h.first_eq
  have hprevious : w.forest.previousSibling t = some b := by
    rw [previousSibling, hparent]
    change w.forest.precedingSibling id t = some b
    rw [precedingSibling, around, h.children_eq]
    change splitAround t ([b] ++ t :: []) >>= _ = _
    rw [splitAround_eq_of_nodup hnodup]
    simp [isNoise, isWhiteSpace, is, isComment, htag, Tag.isComment]
  rw [followsBegin, hprevious, Option.any_some, hasText, htext]

section

variable (h : Marks w.forest id b t tag first second)
include h

/-- A walk of a marker does what the visit of its second word does. -/
lemma Marks.walkFrom (hw : Whole w)
    (htag : isErrorToken tag "" = false) (hfirst : isErrorToken .otherKeyword first = false)
    (hlimit : 2 ≤ limit) {Q : Workspace → Prop}
    (hconvert : Succeeds (convertToken t) w fun _ w' => w'.forest.children t = [] ∧ Q w') :
    Succeeds (walkFrom (fun id (_ : Unit) => return (← errorVisit id, ())) limit id ()) w
      fun _ => Q := by
  have hf := hw.wellFormed
  have hparent : ∀ x ∈ [b, t], w.forest.parent x = some id := fun x hx =>
    hf.parent_of_mem (h.children_eq ▸ hx)
  obtain ⟨hmarker, hmarkerText, -, -⟩ := hf.of_subtree_eq h.subtree_eq
  obtain ⟨hb, hbText, -, hbChildren⟩ := hf.of_subtree_eq h.first_eq
  obtain ⟨limit, rfl⟩ : ∃ n, limit = n + 2 := ⟨limit - 2, by omega⟩
  refine succeeds_walkFrom (errorVisit_idle (by rwa [hmarker, hmarkerText])) ?_
  rw [h.children_eq]
  refine walkAlong_cons (hparent b (by simp))
    (walkFrom_leaf ((errorVisit_idle (by rwa [hb, hbText])).imp ?_))
  rintro decision w1 ⟨hdecision, rfl⟩
  refine ⟨hdecision, map_eq_nil_iff.1 hbChildren,
    walkAlong_cons (hparent t (by simp)) (walkFrom_leaf ?_)⟩
  exact ends_bind (hconvert.imp fun _ w' h' => ends_pure ⟨rfl, h'.1, ends_pure h'.2⟩)

lemma Marks.children_second (hw : Whole w) : w.forest.children t = [] :=
  map_eq_nil_iff.1 (hw.wellFormed.of_subtree_eq h.second_eq).2.2.2

lemma Marks.parent_second (hw : Whole w) : w.forest.parent t = some id :=
  hw.wellFormed.parent_of_mem (by simp [h.children_eq])

end

/-- `begin try` becomes `begin`. -/
lemma Marks.convert_beginTry (h : Marks w.forest id b t tag "begin" "try") (hw : Whole w)
    (hid : id < w.forest.size) : Succeeds (convertToken t) w fun _ w' =>
      w'.forest.children t = [] ∧ Turned w id (spelled tag "begin" [keyword "begin"]) w' := by
  have hf := hw.wellFormed
  have hplace : w.forest.children id = [b] ++ t :: [] := h.children_eq
  have hg := grafted_detach hf h.subtree_eq hplace
  have hset := grafted_setAttribute hg.wellFormed (hid.trans_le hg.size_le) hg.subtree_eq
    simpleTextKey "begin"
  have hlinks := sameLinks_setAttribute (w.forest.detach t) id simpleTextKey "begin"
  refine ends_forest ?_
  rw [if_pos (by rw [hw.wellFormed.isText_eq h.second_eq]; decide +kernel)]
  refine ends_forest ?_
  rw [if_pos (by rw [h.followsBegin_eq hw]; decide +kernel)]
  have hparent := h.parent_second hw
  refine ends_need_some hparent (ends_bind (ends_relink (hf.removeChild_eq hparent)
    (ends_edit ⟨?_, ?_, rfl⟩)))
  · refine (hlinks.children_eq t).trans ?_
    rw [Forest.children, hf.node_detach, h.children_second hw]
    rfl
  · have htrans := hg.trans hf hset
    rw [append_nil, map_singleton, h.first_eq] at htrans
    exact htrans

/-- The markers of a catch block are given texts of their own. -/
lemma Marks.convert_catch (h : Marks w.forest id b t tag first "catch") (hw : Whole w)
    (hid : id < w.forest.size) : Succeeds (convertToken t) w fun _ w' =>
      w'.forest.children t = [] ∧ Turned w id (spelled tag
        (if Text.sameWord first "begin" then "exception when others then" else "end")
        [keyword first, keyword "catch"]) w' := by
  have hset (words : String) :=
    grafted_setAttribute hw.wellFormed hid h.subtree_eq simpleTextKey words
  have hlinks (words : String) := sameLinks_setAttribute w.forest id simpleTextKey words
  refine ends_forest ?_
  rw [if_neg (by rw [hw.wellFormed.isText_eq h.second_eq]; decide +kernel),
    if_pos (by rw [hw.wellFormed.isText_eq h.second_eq]; decide +kernel)]
  refine ends_forest (ends_need_some (h.parent_second hw) (ends_edit ⟨?_, ?_, rfl⟩))
  · exact ((hlinks _).children_eq t).trans (h.children_second hw)
  · rw [h.followsBegin_eq hw]
    exact hset _

/-- With the closing marker of a try block the marker itself goes. -/
lemma Marks.convert_endTry (h : Marks w.forest id b t .containerClose "end" "try")
    (hw : Whole w) (hchildren : w.forest.children p = before ++ id :: after) :
    Succeeds (convertToken t) w fun _ w' => w'.forest.children t = [] ∧
      Exchanged w p before [] after [] w' := by
  have hf := hw.wellFormed
  have hcloser : w.forest.closestAncestor t .containerClose = some id := by
    have htag := (hf.of_subtree_eq h.subtree_eq).1
    rw [closestAncestor, hf.ancestors_eq_cons (h.parent_second hw),
      find?_cons_of_pos (by rw [is, htag]; rfl)]
  refine ends_forest ?_
  rw [if_pos (by rw [hw.wellFormed.isText_eq h.second_eq]; decide +kernel)]
  refine ends_forest ?_
  rw [if_neg (by rw [h.followsBegin_eq hw]; decide +kernel)]
  refine ends_need_some hcloser (ends_edit ⟨?_, ?_, ?_, rfl⟩)
  · change (w.forest.detach id).children t = []
    rw [Forest.children, hf.node_detach, h.children_second hw]
    rfl
  · simpa using hf.children_detach hchildren
  · simpa [withChildren] using grafted_detach hf (hf.subtree_eq p) hchildren

/-! ## Walks of try and catch blocks -/

lemma isErrorToken_of_tag (hkeyword : tag ≠ .otherKeyword) (hnode : tag ≠ .otherNode)
    (text : String) : isErrorToken tag text = false := by
  rw [isErrorToken, beq_false_of_ne hkeyword, beq_false_of_ne hnode]
  rfl

/-- The kinds of nodes that constructs are made of are no tokens. -/
lemma walks_group (hkeyword : tag ≠ .otherKeyword) (hnode : tag ≠ .otherNode)
    (hwalks : WalksAll errorVisit trees trees') :
    Walks errorVisit (group tag trees) (group tag trees') :=
  walks_node (isErrorToken_of_tag hkeyword hnode "") hwalks

lemma walks_keyword (h : isErrorToken .otherKeyword text = false) :
    Walks errorVisit (keyword text) (keyword text) :=
  walks_node h .nil

lemma walks_beginTry : Walks errorVisit (marker .containerOpen "begin" "try")
    (spelled .containerOpen "begin" [keyword "begin"]) := by
  intro limit id w hlimit hw hid htree
  obtain ⟨b, t, h⟩ := exists_marks hw htree
  exact h.walkFrom hw (by decide +kernel) (by decide +kernel) hlimit (h.convert_beginTry hw hid)

lemma walks_catch (hkeyword : tag ≠ .otherKeyword) (hnode : tag ≠ .otherNode)
    (hfirst : isErrorToken .otherKeyword first = false) :
    Walks errorVisit (marker tag first "catch") (spelled tag
      (if Text.sameWord first "begin" then "exception when others then" else "end")
      [keyword first, keyword "catch"]) := by
  intro limit id w hlimit hw hid htree
  obtain ⟨b, t, h⟩ := exists_marks hw htree
  have htwo : 2 ≤ limit := (by decide : 2 ≤ 3).trans hlimit
  exact h.walkFrom hw (isErrorToken_of_tag hkeyword hnode "") hfirst htwo (h.convert_catch hw hid)

/-- A try block as it is parsed and as it is converted. -/
def tryTree (converted : Bool) (body : List SyntaxTree) : SyntaxTree :=
  group .tryBlock (if converted then
    [spelled .containerOpen "begin" [keyword "begin"], group .containerMultiStatement body]
  else [marker .containerOpen "begin" "try", group .containerMultiStatement body,
    marker .containerClose "end" "try"])

/-- A catch block as it is parsed and as it is converted. -/
def catchTree (converted : Bool) (body : List SyntaxTree) : SyntaxTree :=
  group .catchBlock (if converted then
    [spelled .containerOpen "exception when others then" [keyword "begin", keyword "catch"],
      group .containerMultiStatement body,
      spelled .containerClose "end" [keyword "end", keyword "catch"]]
  else [marker .containerOpen "begin" "catch", group .containerMultiStatement body,
    marker .containerClose "end" "catch"])

section

variable (hbody : Walks errorVisit (group .containerMultiStatement trees)
  (group .containerMultiStatement trees'))
include hbody

lemma walks_catchTree : Walks errorVisit (catchTree false trees) (catchTree true trees') := by
  have hbegin : Walks errorVisit (marker .containerOpen "begin" "catch") _ :=
    walks_catch (by decide) (by decide) (by decide +kernel)
  have hend : Walks errorVisit (marker .containerClose "end" "catch") _ :=
    walks_catch (by decide) (by decide) (by decide +kernel)
  rw [if_pos (by decide +kernel)] at hbegin
  rw [if_neg (by decide +kernel)] at hend
  exact walks_group (by decide) (by decide) (.cons hbegin (.cons hbody (.cons hend .nil)))

omit hbody in
/-- The walk of the closing marker of a try block takes it away. -/
lemma sweeps_endTry {n : Nat} (hn : 2 ≤ n) :
    Sweeps errorVisit (fun _ _ => True) n [marker .containerClose "end" "try"] [] := by
  apply Sweeps.of_walkFrom
  intro limit id c before after w hlimit hw _ hchildren htree
  obtain ⟨b, t, h⟩ := exists_marks hw htree
  exact (h.walkFrom hw (by decide +kernel) (by decide +kernel) (by omega)
    (h.convert_endTry hw hchildren)).imp fun _ _ h' => ⟨[], h'⟩

lemma walks_tryTree : Walks errorVisit (tryTree false trees) (tryTree true trees') := by
  intro limit id w hlimit hw hid htree
  obtain ⟨htag, htext, hattributes, hviews⟩ := hw.wellFormed.of_subtree_eq htree
  have hopen : (spelled .containerOpen "begin" [keyword "begin"]).size = 2 := rfl
  rw [tryTree, if_pos rfl, size_group, sizeAll, sizeAll, hopen, size_group] at hlimit
  obtain ⟨limit, rfl⟩ : ∃ n, limit = n + 1 := ⟨limit - 1, by omega⟩
  have hparts : Sweeps errorVisit _ limit _ _ := .cons_walks walks_beginTry (by rw [hopen]; omega)
    (.cons_walks hbody (by rw [size_group]; omega) (sweeps_endTry (by omega)))
  refine succeeds_walkFrom (errorVisit_idle ?_) ((hparts.children hw trivial hviews le_rfl).imp ?_)
  · rw [htag]
    exact isErrorToken_of_tag (by decide) (by decide) _
  · intro _ w1 h1
    rw [withChildren, htag, htext, hattributes] at h1
    exact h1

end

end

end SqlDialect.ErrorHandling
