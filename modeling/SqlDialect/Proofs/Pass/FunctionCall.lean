import SqlDialect.Pass.DateFunction
import SqlDialect.Proofs.Conversion.Walk

/-!
# Function calls keep the workspace sound

A call is converted inside the node that holds it.  What is moved comes from the brackets of the
call, and these are a sibling of its name, so that the name is a mark that stays.

The arguments of `stuff` change places.  They are taken to be the tokens after the commas, so an
empty argument makes a comma out to be an argument: the comma is taken out, and cannot mark a place
any more.  `OverlayFault` says when this happens.
-/

namespace SqlDialect

open Conversion Forest List

variable {arguments holder length replacement start third : Nat} {rest : List NodeId}
  {Q : PUnit → Workspace → Prop} {word : String} {w' w : Workspace} {K : String → Prop} {P : Prop}
  {S : Nat → Prop} {f : Forest} {E : ConversionError → Workspace → Prop}

namespace FunctionCall

variable {function parens mark first second x : Nat}

/-! ## The parts of a call -/

lemma siblings_of_argumentsOf (hf : f.WellFormed) (h : argumentsOf f function = some parens) :
    f.Siblings function parens :=
  hf.siblings_of_nextSibling (Option.filter_eq_some_iff.1 h).1

lemma partBefore_sublist (f : Forest) (parens mark : NodeId) :
    (partBefore f parens mark).Sublist (f.children parens) :=
  (trimWhiteSpace_sublist f _).trans (takeWhile_sublist _)

lemma partAfter_sublist (f : Forest) (parens mark : NodeId) :
    (partAfter f parens mark).Sublist (f.children parens) :=
  (trimWhiteSpace_sublist f _).trans ((drop_sublist _ _).trans (dropWhile_sublist _))

lemma partBetween_sublist (f : Forest) (parens first second : NodeId) :
    (partBetween f parens first second).Sublist (f.children parens) :=
  (trimWhiteSpace_sublist f _).trans ((takeWhile_sublist _).trans
    ((drop_sublist _ _).trans (dropWhile_sublist _)))

section

variable {before between after : List Nat} (hf : f.WellFormed)
include hf

/-- A list of children is parted where a child stands. -/
lemma takeWhile_dropWhile_ne (h : before ++ mark :: after <:+ f.children parens) :
    (before ++ mark :: after).takeWhile (· != mark) = before ∧
      (before ++ mark :: after).dropWhile (· != mark) = mark :: after := by
  have hnodup := h.sublist.nodup (hf.nodup_children parens)
  have hnot : ∀ x ∈ before, (x != mark) = true := fun x hx => by
    simpa using fun heq => (nodup_append.1 hnodup).2.2 x hx mark (.head _) heq
  exact ⟨by simp [takeWhile_append_of_pos hnot], by simp [dropWhile_append_of_pos hnot]⟩

lemma partAfter_eq (h : f.children parens = before ++ mark :: after) :
    partAfter f parens mark = f.trimWhiteSpace after := by
  rw [partAfter, h, (takeWhile_dropWhile_ne hf (by rw [h])).2, drop_one, tail_cons]

lemma partBetween_eq (h : f.children parens = before ++ first :: (between ++ second :: after)) :
    partBetween f parens first second = f.trimWhiteSpace between := by
  have hsuffix : between ++ second :: after <:+ f.children parens :=
    ⟨before ++ [first], by simp [h]⟩
  rw [partBetween, h, (takeWhile_dropWhile_ne hf (by rw [h])).2, drop_one, tail_cons,
    (takeWhile_dropWhile_ne hf hsuffix).1]

end

lemma notMem_partBetween (f : Forest) (parens first second : NodeId) :
    second ∉ partBetween f parens first second := fun hmem => by
  have htake := all_eq_true.1 all_takeWhile second
    ((trimWhiteSpace_sublist f _).subset hmem)
  simp at htake

lemma notMem_partAfter (hf : f.WellFormed) (parens mark : Nat) :
    mark ∉ partAfter f parens mark := by
  intro hmem
  have hmem := (trimWhiteSpace_sublist f _).subset hmem
  have hnodup : ((f.children parens).dropWhile (· != mark)).Nodup :=
    (dropWhile_sublist _).nodup (hf.nodup_children parens)
  cases hrest : (f.children parens).dropWhile (· != mark) with
  | nil => simp [hrest] at hmem
  | cons head rest =>
    have hhead : head = mark := by
      have hnot := head?_dropWhile_not (· != mark) (f.children parens)
      simpa [hrest] using hnot
    rw [hrest] at hmem hnodup
    exact (nodup_cons.1 hnodup).1 (hhead ▸ hmem)

/-- The children of the brackets are below them, and nothing above the brackets is. -/
lemma below_of_sublist {ids : List NodeId} (hf : f.WellFormed)
    (h : ids.Sublist (f.children parens)) : ∀ i ∈ ids, f.Below i parens :=
  fun _ hi => below_of_parent (hf.parent_of_mem (h.subset hi))

/-- The name of a call is not inside its brackets. -/
lemma clear_function (hf : f.WellFormed) (hcall : f.Siblings function parens)
    (hholder : f.parent function = some holder) : Clear (f.Below · parens) f function :=
  .of_parent (hf.clear_below (under_of_parent (hcall.parent hholder)) (hf.parent_lt hholder))
    hholder fun hbelow => hf.not_under_of_siblings hcall hbelow.under

/-- The name and the brackets of a call go. -/
lemma removeCall_ends (hw : w.Sound K) (hne : function ≠ parens)
    (hfunction : w.forest.parent function = some holder)
    (hparens : w.forest.parent parens = some holder) :
    Ends (do removeChild holder function; removeChild holder parens) w
      (fun _ w' => Next K w w' ∧ Relinked w.forest w'.forest [function, parens] none) E := by
  have hf := hw.wellFormed
  refine ends_bind (removeChild_sound hw hfunction fun w1 h1 hoff => ?_)
  have hparens1 : w1.forest.parent parens = some holder :=
    (hoff.parent_of_notMem (by simpa using hne.symm)).trans hparens
  exact removeChild_at h1 (.inl (hf.loose_of_parent hparens)) hparens1 fun _ h2 hoff2 =>
    ⟨h2.next rfl, hoff.trans hoff2⟩

/-- A call has been taken out: its name and its brackets are detached, and no other node has got
another parent, but new ones and those that were inside the brackets. -/
structure TakenOut (f : Forest) (function parens : Nat) (g : Forest) : Prop where
  arguments_eq : argumentsOf f function = some parens
  parent_eq_none : ∀ x ∈ [function, parens], g.parent x = none
  parent_eq : ∀ x < f.size, x ∉ [function, parens] → ¬ f.Below x parens → g.parent x = f.parent x

/-- What is left to do once the arguments have been moved out of the brackets. -/
lemma At.removeCall (h : At K (f.Below · parens) f w)
    (hparens : argumentsOf f function = some parens) (hholder : f.parent function = some holder)
    (hnext : w'.forest = f) : Ends (do removeChild holder function; removeChild holder parens) w
      (fun _ w'' => Next K w' w'' ∧ ∃ parens, TakenOut w'.forest function parens w''.forest) E := by
  have hcall := siblings_of_argumentsOf h.start hparens
  have hsibling := hcall.parent hholder
  have hclear := h.start.clear_below (Under.refl _ parens) (lt_size_of_parent hsibling)
  refine (removeCall_ends h.sound hcall.1 (h.parent_of_clear (clear_function h.start hcall hholder)
    hholder) (h.parent_of_clear hclear hsibling)).imp fun _ w1 ⟨hlater, hoff⟩ => ?_
  subst hnext
  exact ⟨(h.next rfl).trans hlater, parens, hparens, fun _ => hoff.parent_of_mem,
    fun x hx hnot hbelow =>
    (hoff.parent_of_notMem hnot).trans (h.parent_eq hbelow hx)⟩

/-! ## Names and formats -/

lemma forM_setText_safe (hw : w.Sound K) (id : Nat) (text : Option String) :
    Safe K P (text.forM (setText id)) w := by
  cases text with
  | none => exact safe_pure hw
  | some text => exact setText_at (.unmoved hw) fun _ h' _ => h'.next rfl

lemma renameFunctions_safe (hw : w.Sound K) : Safe K P renameFunctions w :=
  ends_forest (ends_forM_next hw (fun id _ _ hnext => ends_forest (forM_setText_safe hnext.1 id _))
    fun _ hnext => hnext)

lemma convertFormats_safe (hw : w.Sound K) : Safe K P convertFormats w := by
  refine forEachMatch_safe hw fun function w' _ hw' _ => ends_forest ?_
  split <;> [rename_i arguments _; exact safe_pure hw']
  refine ends_need hw' fun picture _ => ?_
  exact ends_bind (setText_at (.unmoved hw') fun w1 h1 _ => setText_at h1 fun _ h2 _ => h2.next rfl)

/-! ## Conditional expressions -/

lemma fillBranch_at {branch : Nat} {nodes : List NodeId} (h : At K S f w)
    (hclear : Clear S w.forest branch)
    (hnodes : ∀ i ∈ nodes, S i)
    (hQ : ∀ w', At K S f w' → (∀ x : Nat, Clear S w.forest x → Clear S w'.forest x) → Q () w') :
    Ends (fillBranch branch word nodes) w Q E := by
  refine appendWithLeaf_at h hclear.lt_size fun opener w1 h1 hext _ => ?_
  have hclear1 := hclear.extend hext h.wellFormed
  refine ends_bind (append_clear h1 hclear1 fun body w2 h2 hclear2 hbody => ?_)
  refine moveAllTo_at h2 hclear2 hnodes fun w3 h3 hmoved => ?_
  exact hQ w3 h3 fun x hx =>
    (hx.extend (hext.trans hbody.extends) h.wellFormed).relinked hmoved hnodes

lemma convertConditional_takesOut (hw : w.Sound K) (function : Nat) :
    Ends (convertConditional function) w
      (fun _ w' => Next K w w' ∧ ∃ parens, TakenOut w.forest function parens w'.forest)
        (Halts K P) := by
  have hf := hw.wellFormed
  refine ends_forest (ends_need hw fun holder hholder => ends_need hw fun arguments harguments =>
    ?_)
  have hcall := siblings_of_argumentsOf hf harguments
  split <;> [rename_i first second rest hcommas; exact ends_throw (halts_shape hw)]
  have hfunction := clear_function hf hcall hholder
  have hstart : At K (w.forest.Below · arguments) w.forest w := .of_below hw arguments
  refine ends_bind (insertNewBefore_at hstart hholder fun case w1 h1 hcase => ?_)
  have hcase := hstart.clear_sprouted (hfunction.up hf hholder) hcase
  refine appendWithLeaf_at h1 hcase.lt_size fun opener w3 h3 hopener _ => ?_
  have hcase := hcase.extend hopener h1.wellFormed
  refine ends_bind (appendLeaf_at h3 hcase.lt_size fun w4 h4 hinput => ?_)
  have hcase := hcase.extend hinput h3.wellFormed
  refine ends_bind (append_clear h4 hcase fun when w5 h5 hwhen hnew => ?_)
  have hcase5 := hcase.extend hnew.extends h4.wellFormed
  refine ends_bind (fillBranch_at h5 hwhen
    (below_of_sublist hf (partBefore_sublist _ _ _)) fun w6 h6 hkeep6 => ?_)
  refine ends_bind (append_clear h6 (hkeep6 _ hwhen) fun thenBranch w7 h7 hclear7 hthen => ?_)
  refine ends_bind (fillBranch_at h7 hclear7
    (below_of_sublist hf (partBetween_sublist _ _ _ _)) fun w8 h8 hkeep8 => ?_)
  have hcase8 := hkeep8 _ ((hkeep6 _ hcase5).extend hthen.extends h6.wellFormed)
  refine ends_bind (append_clear h8 hcase8 fun elseBranch w9 h9 hclear9 helse => ?_)
  have hcase9 := hcase8.extend helse.extends h8.wellFormed
  refine ends_bind (fillBranch_at h9 hclear9
    (below_of_sublist hf (partAfter_sublist _ _ _)) fun w10 h10 hkeep10 => ?_)
  refine appendWithLeaf_at h10 (hkeep10 _ hcase9).lt_size fun closer w11 h11 _ _ => ?_
  exact At.removeCall h11 harguments hholder rfl

lemma convertConditionals_safe (hw : w.Sound K) : Safe K P convertConditionals w :=
  forEachMatch_safe hw fun function _ _ hw' _ =>
    (convertConditional_takesOut hw' function).imp fun _ _ h => h.1

/-! ## Overlays -/

lemma toKeyword_at {id : Nat} (h : At K S f w)
    (hQ : ∀ w', At K S f w' → (∀ x : Nat, w'.forest.parent x = w.forest.parent x) → Q () w') :
    Ends (toKeyword id word) w Q E :=
  ends_bind (setTag_at h fun _ h1 htag => setText_at h1 fun w2 h2 htext =>
    hQ w2 h2 fun x => (htext.parent_eq x).trans (htag.parent_eq x))

/-- The call has its commas with a token after each, and the token after one of the first two is
the next comma: the second or the third argument is empty. -/
def OverlayFault (f : Forest) (function : Nat) : Prop :=
  ∃ arguments first second third rest start length replacement,
    argumentsOf f function = some arguments ∧
    f.childrenOf arguments .comma = first :: second :: third :: rest ∧
    f.nextSibling first = some start ∧ f.nextSibling second = some length ∧
    f.nextSibling third = some replacement ∧ (start = second ∨ length = third)

/-- Six children of the brackets, in the order in which they stand; a comma may be taken for the
argument before it. -/
structure OverlayOrder (first start second length third replacement : Nat) : Prop where
  nodup : [start, length, replacement].Nodup
  first : first ∉ [start, length, replacement]
  second : second ∉ [length, replacement]
  third : third ∉ [start, replacement]

lemma overlayOrder {second : Nat} (hf : f.WellFormed)
    (hcommas : f.childrenOf arguments .comma = first :: second :: third :: rest)
    (hstart : f.nextSibling first = some start) (hlength : f.nextSibling second = some length)
    (hreplacement : f.nextSibling third = some replacement) :
    OverlayOrder first start second length third replacement := by
  have hnoise {c : Nat} (hc : c ∈ f.childrenOf arguments .comma) : f.isNoise c = false := by
    rw [isNoise, isWhiteSpace, is, isComment, tag_of_mem_childrenOf hc]
    decide
  have hsublist : (first :: second :: third :: rest).Sublist (f.children arguments) :=
    hcommas ▸ filter_sublist
  have hfirst : f.Precedes first second := hf.precedes_of_sublist
    (.trans (by simp) hsublist)
  have hsecond : f.Precedes second third := hf.precedes_of_sublist
    (.trans (by simp) hsublist)
  have hstart' := hf.eq_or_precedes_of_nextSibling hstart hfirst (hnoise (by simp [hcommas]))
  have hlength' := hf.eq_or_precedes_of_nextSibling hlength hsecond (hnoise (by simp [hcommas]))
  have hstart := hf.precedes_of_nextSibling hstart
  have hlength := hf.precedes_of_nextSibling hlength
  have hreplacement := hf.precedes_of_nextSibling hreplacement
  have hstartLength : f.Precedes start length := by
    obtain rfl | hlt := hstart'
    · exact hlength
    · exact hlt.trans hlength
  have hlengthReplacement : f.Precedes length replacement := by
    obtain rfl | hlt := hlength'
    · exact hreplacement
    · exact hlt.trans hreplacement
  have hstartThird : f.Precedes start third := by
    obtain rfl | hlt := hstart'
    · exact hsecond
    · exact hlt.trans hsecond
  refine ⟨?_, ?_, ?_, ?_⟩
  · simp [hstartLength.ne, hlengthReplacement.ne, (hstartLength.trans hlengthReplacement).ne]
  · simp [hstart.ne, (hfirst.trans hlength).ne, (hfirst.trans (hsecond.trans hreplacement)).ne]
  · simp [hlength.ne, (hsecond.trans hreplacement).ne]
  · simp [hstartThird.ne.symm, hreplacement.ne]

section

variable (hw : w.Sound K)
include hw

/-- The new places are found exactly if no separator was taken out as an argument. -/
lemma reorderOverlay_ends {second : Nat}
    (horder : OverlayOrder first start second length third replacement)
    (hparent : ∀ x ∈ [first, start, second, length, third, replacement],
      w.forest.parent x = some arguments) :
    Ends (reorderOverlay arguments first second third start length replacement) w
      (fun _ w' => Next K w w' ∧ ¬ (start = second ∨ length = third))
      fun e w' => w'.Sound K ∧ (start = second ∨ length = third) ∧ ∃ cause, e = .link cause := by
  obtain ⟨hnodup, hfirst, hsecond, hthird⟩ := horder
  simp only [mem_cons, not_mem_nil, or_false, forall_eq_or_imp, forall_eq, not_or,
    nodup_cons, nodup_nil, not_false_eq_true, and_true] at *
  obtain ⟨hparent1, hparentStart, hparent2, hparentLength, hparent3, hparentReplacement⟩ := hparent
  have hf := hw.wellFormed
  have hclear := hf.clear_below (Under.refl _ arguments) (hf.parent_lt hparent1)
  refine ends_bind (removeAll_at (.of_below hw arguments) ?_ ?_ ?_
    fun w1 h1 hoff => ?_)
  · simp [below_of_parent hparentStart, below_of_parent hparentLength,
      below_of_parent hparentReplacement]
  · simp [hparentStart, hparentLength, hparentReplacement]
  · simpa using hnodup
  have hmark1 : w1.forest.parent first = some arguments := by
    rw [hoff.parent_of_notMem (by simpa using hfirst), hparent1]
  refine ends_bind (insertAfter_at h1 (h1.clear hclear) (below_of_parent hparentReplacement)
    (hoff.parent_of_mem (by simp)) hmark1 fun w2 h2 hon2 => ?_)
  have hnone2 {x : Nat} (hx : x = start ∨ x = length) : w2.forest.parent x = none := by
    have hne : x ∉ [replacement] := by rcases hx with rfl | rfl <;> simp [hnodup]
    rw [hon2.parent_of_notMem hne, hoff.parent_of_mem (by rcases hx with rfl | rfl <;> simp)]
  have hoff2 {w' : Workspace} {x : Nat} (h' : At K (w.forest.Below · arguments) w.forest w')
      (hx : w.forest.parent x = some arguments) : ¬ w'.forest.Under arguments x := fun hunder =>
    (h'.clear hclear).not_mem_above x hunder (below_of_parent hx)
  by_cases hstart : start = second
  · subst hstart
    refine ends_bind (ends_relink_error (h2.wellFormed.insertAt_eq_error (hnone2 (.inl rfl))
      (hoff2 h2 hparentStart) ?_) ⟨h2.sound, .inl rfl, _, rfl⟩)
    rw [hnone2 (.inl rfl)]
    simp
  have hmark2 : w2.forest.parent second = some arguments := by
    rw [hon2.parent_of_notMem (by simp [hsecond]), hoff.parent_of_notMem, hparent2]
    simp [hsecond, Ne.symm hstart]
  refine ends_bind (insertAfter_at h2 (h2.clear hclear) (below_of_parent hparentStart)
    (hnone2 (.inl rfl)) hmark2 fun w3 h3 hon3 => ?_)
  have hnone3 : w3.forest.parent length = none := by
    rw [hon3.parent_of_notMem (by simpa using Ne.symm hnodup.1.1), hnone2 (.inr rfl)]
  by_cases hlength : length = third
  · subst hlength
    refine ends_relink_error (h3.wellFormed.insertAt_eq_error hnone3 (hoff2 h3 hparentLength) ?_)
      ⟨h3.sound, .inr rfl, _, rfl⟩
    rw [hnone3]
    simp
  have hmark3 : w3.forest.parent third = some arguments := by
    rw [hon3.parent_of_notMem (by simp [hthird]), hon2.parent_of_notMem (by simp [hthird]),
      hoff.parent_of_notMem, hparent3]
    simp [hthird, Ne.symm hlength]
  exact insertAfter_at h3 (h3.clear hclear) (below_of_parent hparentLength) hnone3 hmark3
    fun w4 h4 _ => ⟨h4.next rfl, by simp [hstart, hlength]⟩

/-- The parts of a call of `stuff` that has four arguments. -/
lemma convertOverlay_ends {second : Nat}
    (hcommas : w.forest.childrenOf arguments .comma = first :: second :: third :: rest)
    (hstart : w.forest.nextSibling first = some start)
    (hlength : w.forest.nextSibling second = some length)
    (hreplacement : w.forest.nextSibling third = some replacement) : Ends (do
      setText function "overlay"
      toKeyword first "placing"
      toKeyword second "from"
      toKeyword third "for"
      reorderOverlay arguments first second third start length replacement) w
      (fun _ w' => Next K w w' ∧ ¬ (start = second ∨ length = third))
      fun e w' => w'.Sound K ∧ (start = second ∨ length = third) ∧ ∃ cause, e = .link cause := by
  have hf := hw.wellFormed
  have hparent {c : Nat} (hc : c ∈ first :: second :: third :: rest) :
      w.forest.parent c = some arguments := hf.parent_of_mem_childrenOf (hcommas ▸ hc)
  refine ends_bind (setText_at (.unmoved hw) fun w1 h1 htext => ?_)
  refine ends_bind (toKeyword_at h1 fun w2 h2 hsame2 => ?_)
  refine ends_bind (toKeyword_at h2 fun w3 h3 hsame3 => ?_)
  refine ends_bind (toKeyword_at h3 fun w4 h4 hsame4 => ?_)
  have hsame : ∀ x : Nat, w4.forest.parent x = w.forest.parent x := fun x => by
    rw [hsame4, hsame3, hsame2, htext.parent_eq]
  refine (reorderOverlay_ends h4.sound (overlayOrder hf hcommas hstart hlength hreplacement)
    ?_).imp (fun _ w' h' => ⟨(h4.next rfl).trans h'.1, h'.2⟩)
  have hparent1 := hparent (c := first) (by simp)
  have hparent2 := hparent (c := second) (by simp)
  have hparent3 := hparent (c := third) (by simp)
  simp [hsame, hparent1, hparent2, hparent3, (hf.siblings_of_nextSibling hstart).parent hparent1,
    (hf.siblings_of_nextSibling hlength).parent hparent2,
    (hf.siblings_of_nextSibling hreplacement).parent hparent3]

lemma convertOverlay_safe (hfault : OverlayFault w.forest function → P) :
    Safe K P (convertOverlay function) w := by
  refine ends_forest (ends_need hw fun arguments harguments => ?_)
  split <;> [rename_i first second third rest hcommas; exact ends_throw (halts_shape hw)]
  refine ends_need hw fun start hstart => ends_need hw fun length hlength => ?_
  refine ends_need hw fun replacement hreplacement => ?_
  refine (convertOverlay_ends hw hcommas hstart hlength hreplacement).mono (fun _ _ h => h.1) ?_
  rintro e w' ⟨hw', hbad, -⟩
  exact ⟨hw', fun _ => hfault ⟨arguments, first, second, third, rest, start, length, replacement,
    harguments, hcommas, hstart, hlength, hreplacement, hbad⟩⟩

lemma convertOverlay_fails (hfault : OverlayFault w.forest function) :
    Fails K (convertOverlay function) w := by
  obtain ⟨arguments, first, second, third, rest, start, length, replacement, harguments, hcommas,
    hstart, hlength, hreplacement, hbad⟩ := hfault
  refine ends_forest (ends_need_some harguments ?_)
  rw [hcommas]
  refine ends_need_some hstart (ends_need_some hlength (ends_need_some hreplacement ?_))
  exact (convertOverlay_ends hw hcommas hstart hlength hreplacement).mono (fun _ _ h => h.2 hbad)
    fun _ _ he => ⟨he.1, he.2.2⟩

/-- Calls of `stuff` can be converted unless the walk comes to one that is at fault. -/
lemma convertOverlays_safe
    (hfault : ∀ function w', MeetsMatch .functionKeyword (some "stuff")
      convertOverlay w function w' →
      OverlayFault w'.forest function → P) : Safe K P convertOverlays w :=
  forEachMatch_safe hw fun function w' hmeets hw' _ =>
    convertOverlay_safe hw' (hfault function w' hmeets)

lemma convertOverlays_eq_error
    (hmeets : MeetsMatch .functionKeyword (some "stuff") convertOverlay w function w')
    (hfault : OverlayFault w'.forest function) :
    ∃ cause w'', convertOverlays w = .error (.link cause) w'' :=
  forEachMatch_eq_error hw (fun _ _ hw => convertOverlay_safe hw fun _ => trivial) hmeets
    fun hw' => convertOverlay_fails hw' hfault

end

end FunctionCall

namespace DateFunction

open FunctionCall

lemma convertParts_safe (hw : w.Sound K) : Safe K P convertParts w := by
  refine forEachMatch_safe hw fun function w' _ hw' _ => ?_
  refine ends_forest (ends_need hw' fun arguments _ => ends_need hw' fun comma _ => ?_)
  exact ends_bind (setText_at (.unmoved hw') fun w1 h1 _ => toKeyword_at h1 fun _ h2 _ =>
    h2.next rfl)

lemma appendInterval_at {sum : Nat} {amount : List NodeId} {unit : String} (h : At K S f w)
    (hclear : Clear S w.forest sum)
    (hamount : ∀ i ∈ amount, S i) (hQ : ∀ w', At K S f w' → Q () w') :
    Ends (appendInterval sum amount unit) w Q E := by
  refine ends_forest ?_
  split
  · exact appendLeaves_at h hclear.lt_size fun w1 h1 _ => hQ w1 h1
  · refine ends_bind (moveAllTo_at h hclear hamount fun w1 h1 hmoved => ?_)
    exact appendLeaves_at h1 (hclear.relinked hmoved hamount).lt_size fun w2 h2 _ => hQ w2 h2

lemma convertSum_takesOut (hw : w.Sound K) (function : Nat) :
    Ends (convertSum function) w
      (fun _ w' => Next K w w' ∧ ∃ parens, TakenOut w.forest function parens w'.forest)
        (Halts K P) := by
  have hf := hw.wellFormed
  refine ends_forest (ends_need hw fun holder hholder => ends_need hw fun arguments harguments =>
    ?_)
  have hcall := siblings_of_argumentsOf hf harguments
  split <;> [rename_i first second rest hcommas; exact ends_throw (halts_shape hw)]
  refine ends_need hw fun part _ => ?_
  have hstart : At K (w.forest.Below · arguments) w.forest w := .of_below hw arguments
  refine ends_bind (insertNewBefore_at hstart hholder fun sum w1 h1 hsum => ?_)
  have hsum := hstart.clear_sprouted ((clear_function hf hcall hholder).up hf hholder) hsum
  have hlater := below_of_sublist hf (partAfter_sublist w.forest arguments second)
  refine ends_bind (moveAllTo_at h1 hsum hlater fun w2 h2 hmoved => ?_)
  have hsum := hsum.relinked hmoved hlater
  refine ends_bind (appendLeaf_at h2 hsum.lt_size fun w3 h3 hleaf => ?_)
  refine ends_bind (appendInterval_at h3 (hsum.extend hleaf h2.wellFormed)
    (below_of_sublist hf (partBetween_sublist _ _ _ _)) fun w4 h4 => ?_)
  exact At.removeCall h4 harguments hholder rfl

lemma convertSums_safe (hw : w.Sound K) : Safe K P convertSums w :=
  forEachMatch_safe hw fun function _ _ hw' _ =>
    (convertSum_takesOut hw' function).imp fun _ _ h => h.1

/-- The commas stay; the dates on the two sides of the second change places. -/
lemma convertDifference_safe (hw : w.Sound K) (function : Nat) :
    Safe K P (convertDifference function) w := by
  have hf := hw.wellFormed
  refine ends_forest (ends_need hw fun arguments harguments => ?_)
  split <;> [rename_i first second rest hcommas; exact ends_throw (halts_shape hw)]
  have hmem : second ∈ w.forest.childrenOf arguments .comma := by simp [hcommas]
  have hsecond := hf.parent_of_mem_childrenOf hmem
  have hclear := hf.clear_below (Under.refl _ arguments) (hf.parent_lt hsecond)
  refine ends_bind (setText_at (.of_below hw arguments) fun w1 h1 htext => ?_)
  refine ends_bind (toKeyword_at h1 fun w2 h2 hsame2 => ?_)
  refine ends_bind (setTag_at h2 fun w3 h3 htag3 => ?_)
  refine ends_bind (setText_at h3 fun w4 h4 htext4 => ?_)
  have hsecond4 : w4.forest.parent second = some arguments := by
    rw [htext4.parent_eq, htag3.parent_eq, hsame2, htext.parent_eq, hsecond]
  have hlater := notMem_partAfter hf arguments second
  refine ends_bind (moveAllBefore_at h4 (h4.clear hclear)
    (below_of_sublist hf (partAfter_sublist _ _ _)) hsecond4 hlater fun w5 h5 hmoved => ?_)
  refine ends_discard (moveAllAfter_at h5 (h5.clear hclear)
    (below_of_sublist hf (partBetween_sublist _ _ _ _))
    ((hmoved.parent_of_notMem hlater).trans hsecond4) (notMem_partBetween _ _ _ _)
    ((partBetween_sublist _ _ _ _).nodup (hf.nodup_children arguments)) fun _ w6 h6 _ _ => ?_)
  exact h6.next rfl

lemma convertDifferences_safe (hw : w.Sound K) : Safe K P convertDifferences w :=
  forEachMatch_safe hw fun function _ _ hw' _ => convertDifference_safe hw' function

end DateFunction

end SqlDialect
