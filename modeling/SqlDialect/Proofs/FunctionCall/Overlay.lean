import SqlDialect.Proofs.Conversion.Content
import SqlDialect.Proofs.Pass.FunctionCall
import SqlDialect.Proofs.SyntaxTree.Parts

/-!
# The arguments of an overlay

An argument is what stands between two separators.  Of each but the first only one token changes its
place, the first one; the others stay behind the separator that they stood behind.  So the arguments
are in their new order exactly if each of the three is one token.
-/

namespace SqlDialect.FunctionCall

open Conversion Forest SyntaxTree List

variable {w : Workspace} {f : Forest} {c : Nat → Node}
  {a arguments first length n new second start third : Nat} {string : List Nat}

/-- The nodes of a call: its name, its brackets, three separators, and the four arguments between
them with the first tokens of the last three. -/
structure Overlay where
  function : Nat
  arguments : Nat
  first : Nat
  second : Nat
  third : Nat
  start : Nat
  length : Nat
  new : Nat
  string : List Nat
  part₁ : List Nat
  part₂ : List Nat
  part₃ : List Nat

namespace Overlay

/-- The nodes make up a call in the forest. -/
structure In (o : Overlay) (f : Forest) : Prop where
  arguments_eq : argumentsOf f o.function = some o.arguments
  children_eq : f.children o.arguments =
    o.string ++ o.first :: o.part₁ ++ o.second :: o.part₂ ++ o.third :: o.part₃
  commas_eq : f.childrenOf o.arguments .comma = [o.first, o.second, o.third]
  start_eq : o.part₁.find? (!f.isNoise ·) = some o.start
  length_eq : o.part₂.find? (!f.isNoise ·) = some o.length
  new_eq : o.part₃.find? (!f.isNoise ·) = some o.new

/-- What the nodes hold once the words are those of an overlay. -/
def words (o : Overlay) (c : Nat → Node) : Nat → Node :=
  label (label (label (retext c o.function "overlay") o.first .otherKeyword "placing")
    o.second .otherKeyword "from") o.third .otherKeyword "for"

/-- What is in the brackets after the conversion. -/
def tokens (o : Overlay) : List Nat :=
  o.string ++ o.first :: o.new :: o.part₁.erase o.start ++ o.second :: o.start ::
    o.part₂.erase o.length ++ o.third :: o.length :: o.part₃.erase o.new

end Overlay

variable {o : Overlay}

/-- A list is parted by the first token in it, to which nothing before is equal. -/
lemma exists_erase_eq {part : List Nat} (h : part.find? (!f.isNoise ·) = some a) :
    ∃ before after, part = before ++ a :: after ∧ part.erase a = before ++ after ∧
      part.filter (!f.isNoise ·) = a :: (part.erase a).filter (!f.isNoise ·) := by
  obtain ⟨ha, before, after, rfl, hbefore⟩ := find?_eq_some_iff_append.1 h
  have hnot : a ∉ before := fun hmem => by
    have hnoise := hbefore a hmem
    rw [ha] at hnoise
    cases hnoise
  have herase : (before ++ a :: after).erase a = before ++ after := by
    rw [erase_append_right _ hnot, erase_cons_head]
  refine ⟨before, after, rfl, herase, ?_⟩
  have hnone : before.filter (!f.isNoise ·) = [] := by simpa using hbefore
  rw [herase, filter_append, filter_append, hnone, filter_cons_of_pos (by exact ha)]
  rfl

lemma toKeyword_shows {word : String} {E : ConversionError → Workspace → Prop}
    (h : Shows w.forest n c) (ha : a < n) :
    Ends (toKeyword a word) w (fun _ w' => Shows w'.forest n (label c a .otherKeyword word)) E :=
  (setTag_shows h ha _).bind fun _ _ _ h1 => setText_shows h1 ha word

lemma reorderOverlay_shows {before1 before2 before3 after1 after2 after3 : List Nat}
    (h : Shows w.forest n c)
    (hlist : (c arguments).children = string ++ first :: (before1 ++ start :: after1) ++
      second :: (before2 ++ length :: after2) ++ third :: (before3 ++ new :: after3)) :
    Does (reorderOverlay arguments first second third start length new) w fun _ w' =>
      Shows w'.forest n (relist c arguments
        (string ++ first :: new :: (before1 ++ after1) ++ second :: start :: (before2 ++ after2) ++
          third :: length :: (before3 ++ after3))) := by
  have hsize : ∀ b ∈ (c arguments).children, b < n := fun b hb => h.lt_size hb
  simp only [reorderOverlay, forM_eq_forM, forM_cons, forM_nil, bind_assoc, pure_bind]
  -- the three tokens go one by one, and come back behind the separators
  refine (removeChild_shows h (string ++ first :: before1) (after1 ++ second :: (before2 ++
    length :: after2) ++ third :: (before3 ++ new :: after3)) (by simp [hlist])).bind
      fun _ w1 _ h1 => ?_
  refine (removeChild_shows h1 (string ++ first :: (before1 ++ after1) ++ second :: before2)
    (after2 ++ third :: (before3 ++ new :: after3)) (by simp [relist])).bind fun _ w2 _ h2 => ?_
  refine (removeChild_shows h2 (string ++ first :: (before1 ++ after1) ++
    second :: (before2 ++ after2) ++ third :: before3) after3 (by simp [relist])).bind
    fun _ w3 _ h3 => ?_
  refine (insertAfter_shows h3 string (before1 ++ after1 ++ second :: (before2 ++ after2) ++
    third :: (before3 ++ after3)) (by simp [relist]) (hsize new (by simp [hlist]))).bind
    fun _ w4 _ h4 => ?_
  refine (insertAfter_shows h4 (string ++ first :: new :: (before1 ++ after1))
    ((before2 ++ after2) ++
    third :: (before3 ++ after3)) (by simp [relist]) (hsize start (by simp [hlist]))).bind
    fun _ w5 _ h5 => ?_
  refine (insertAfter_shows h5 (string ++ first :: new :: (before1 ++ after1) ++
    second :: start :: (before2 ++ after2)) (before3 ++ after3) (by simp [relist])
    (hsize length (by simp [hlist]))).imp fun _ w6 h6 => ?_
  simpa using h6

namespace Overlay.In

variable (h : o.In f) (hf : f.WellFormed)
include h hf

lemma nextSibling_eq : f.nextSibling o.first = some o.start ∧
    f.nextSibling o.second = some o.length ∧ f.nextSibling o.third = some o.new := by
  have hlist := h.children_eq
  refine ⟨?_, ?_, ?_⟩
  · rw [hf.nextSibling_eq (p := o.arguments) o.string
      (o.part₁ ++ o.second :: o.part₂ ++ o.third :: o.part₃) (by simp [hlist])]
    simp [h.start_eq]
  · rw [hf.nextSibling_eq (p := o.arguments) (o.string ++ o.first :: o.part₁)
      (o.part₂ ++ o.third :: o.part₃) (by simp [hlist])]
    simp [h.length_eq]
  · rw [hf.nextSibling_eq _ _ hlist, h.new_eq]

lemma not_fault : ¬ OverlayFault f o.function := by
  have hnodup := hf.nodup_children o.arguments
  have hstart := mem_of_find?_eq_some h.start_eq
  have hlength := mem_of_find?_eq_some h.length_eq
  obtain ⟨hstart', hlength', -⟩ := h.nextSibling_eq hf
  rintro ⟨_, _, _, _, _, _, _, _, harguments, hcommas, hfirst, hsecond, -, hfault⟩
  obtain rfl := Option.mem_unique h.arguments_eq harguments
  obtain ⟨rfl, rfl, rfl, -⟩ := by simpa using h.commas_eq.symm.trans hcommas
  obtain rfl := Option.mem_unique hstart' hfirst
  obtain rfl := Option.mem_unique hlength' hsecond
  rw [h.children_eq] at hnodup
  grind

lemma convertOverlay_shows {notes : Notes} :
    Does (convertOverlay o.function) { forest := f, notes } fun _ w' =>
      Shows w'.forest f.size (relist (o.words f.content) o.arguments o.tokens) := by
  have hsize {b : Nat} (hb : b ∈ f.children o.arguments) : b < f.size :=
    lt_size_of_parent (hf.parent_of_mem hb)
  obtain ⟨-, holder, hholder, -⟩ := siblings_of_argumentsOf hf h.arguments_eq
  obtain ⟨hstart, hlength, hnew⟩ := h.nextSibling_eq hf
  refine ends_forest (ends_need_some h.arguments_eq ?_)
  simp only [h.commas_eq]
  refine ends_need_some hstart (ends_need_some hlength (ends_need_some hnew ?_))
  refine (setText_shows (.refl hf) (lt_size_of_parent hholder) _).bind fun _ w1 _ h1 => ?_
  refine (toKeyword_shows h1 (hsize (by simp [h.children_eq]))).bind fun _ w2 _ h2 => ?_
  refine (toKeyword_shows h2 (hsize (by simp [h.children_eq]))).bind fun _ w3 _ h3 => ?_
  refine (toKeyword_shows h3 (hsize (by simp [h.children_eq]))).bind fun _ w4 _ h4 => ?_
  obtain ⟨before1, after1, hpart1, herase1, -⟩ := exists_erase_eq h.start_eq
  obtain ⟨before2, after2, hpart2, herase2, -⟩ := exists_erase_eq h.length_eq
  obtain ⟨before3, after3, hpart3, herase3, -⟩ := exists_erase_eq h.new_eq
  have hlist := h.children_eq
  rw [hpart1, hpart2, hpart3] at hlist
  rw [Overlay.tokens, herase1, herase2, herase3]
  exact reorderOverlay_shows h4 hlist

/-- The arguments come whole into their new order exactly if each that moves is one token. -/
lemma inOrder_iff :
    o.tokens.filter (!f.isNoise ·) = (o.string ++ o.first :: o.part₃ ++ o.second :: o.part₁ ++
        o.third :: o.part₂).filter (!f.isNoise ·) ↔
      o.part₁.filter (!f.isNoise ·) = [o.start] ∧ o.part₂.filter (!f.isNoise ·) = [o.length] ∧
        o.part₃.filter (!f.isNoise ·) = [o.new] := by
  have hnodup := hf.nodup_children o.arguments
  rw [h.children_eq] at hnodup
  have hcomma {b : Nat} (hb : b ∈ [o.first, o.second, o.third]) : f.isNoise b = false := by
    rw [← h.commas_eq] at hb
    rw [isNoise, isWhiteSpace, is, isComment, tag_of_mem_childrenOf hb]
    decide
  obtain ⟨-, -, -, -, hpart1⟩ := exists_erase_eq h.start_eq
  obtain ⟨-, -, -, -, hpart2⟩ := exists_erase_eq h.length_eq
  obtain ⟨-, -, -, -, hpart3⟩ := exists_erase_eq h.new_eq
  have hstart := find?_some h.start_eq
  have hlength := find?_some h.length_eq
  have hnew := find?_some h.new_eq
  have htokens := hnodup.filter (!f.isNoise ·)
  simp only [Overlay.tokens, filter_append, filter_cons, hcomma, hstart, hlength, hnew, hpart1,
    hpart2, hpart3, mem_cons, true_or, or_true, Bool.not_false, if_true] at htokens ⊢
  generalize (o.part₁.erase o.start).filter (!f.isNoise ·) = rest1 at htokens ⊢
  generalize (o.part₂.erase o.length).filter (!f.isNoise ·) = rest2 at htokens ⊢
  generalize (o.part₃.erase o.new).filter (!f.isNoise ·) = rest3 at htokens ⊢
  clear * - htokens
  simp only [append_assoc, cons_append, append_cancel_left_eq, List.cons.injEq, true_and]
  have hsecond : o.second ∉ rest1 ∧
      o.second ∉ o.start :: (rest2 ++ o.third :: o.length :: rest3) := by
    grind
  have hthird : o.third ∉ rest2 ∧ o.third ∉ o.length :: rest3 := by grind
  rw [append_cons_inj_of_notMem hsecond.1 hsecond.2, List.cons.injEq,
    append_cons_inj_of_notMem hthird.1 hthird.2]
  constructor
  · -- equal parts have no token in common, so they have none
    rintro ⟨rfl, -, -, rfl, -⟩
    have hnone : ∀ x, x ∉ rest2 := by grind
    simp [eq_nil_iff_forall_not_mem, hnone]
  · rintro ⟨rfl, rfl, rfl⟩
    simp

end Overlay.In

/-- At every call of `stuff` that the pass comes to, and that has four arguments, the words change,
and of each argument after the first one token changes its place; nothing else changes. The
arguments come whole into their new order exactly if each of the three has no other token. -/
theorem convertOverlay_moves_first_tokens {w₀ : Workspace} (hw₀ : Whole w₀)
    (hmeets : MeetsMatch .functionKeyword (some "stuff") convertOverlay w₀ o.function w)
    (h : o.In w.forest) :
    (∃ w', convertOverlay o.function w = .ok () w' ∧
      Shows w'.forest w.forest.size (relist (o.words w.forest.content) o.arguments o.tokens)) ∧
    (o.tokens.filter (!w.forest.isNoise ·) =
        (o.string ++ o.first :: o.part₃ ++ o.second :: o.part₁ ++
        o.third :: o.part₂).filter (!w.forest.isNoise ·) ↔
      o.part₁.filter (!w.forest.isNoise ·) = [o.start] ∧
        o.part₂.filter (!w.forest.isNoise ·) = [o.length] ∧
        o.part₃.filter (!w.forest.isNoise ·) = [o.new]) := by
  have hw : Whole w := (hmeets.sound hw₀ fun id w₁ hw₁ =>
    convertOverlay_safe hw₁ fun _ => trivial).1
  have hsucceeds := (h.convertOverlay_shows hw.wellFormed).succeeds
    (convertOverlay_safe hw (h.not_fault hw.wellFormed))
  obtain ⟨_, w', hrun, hshows⟩ := hsucceeds.exists_ok
  exact ⟨⟨w', hrun, hshows⟩, h.inOrder_iff hw.wellFormed⟩

/-- A call of `stuff` whose second argument is a sum. -/
def stuffCall : SyntaxTree :=
  group .root [asStatement [leaf .functionKeyword "stuff", group .functionParens
    [leaf .otherNode "s", leaf .comma ",", leaf .otherNode "a", leaf .otherOperator "+",
      leaf .numberValue "1", leaf .comma ",", leaf .numberValue "2", leaf .comma ",",
      leaf .otherNode "x"]]]

theorem convertOverlay_moves_first_tokens_stuffCall :
    let w : Workspace := { forest := ofTree stuffCall }
    let o : Overlay := ⟨3, 4, 6, 10, 12, 7, 11, 13, [5], [7, 8, 9], [11], [13]⟩
    Whole w ∧ MeetsMatch .functionKeyword (some "stuff") convertOverlay w 3 w ∧ o.In w.forest ∧
      ∃ w', convertOverlay 3 w = .ok () w' ∧
      w'.forest.children 4 = [5, 6, 13, 8, 9, 10, 7, 12, 11] := by
  intro w o
  have hw : Whole w := whole_ofTree _
  have hmeets : MeetsMatch .functionKeyword (some "stuff") convertOverlay w 3 w :=
    meetsMatch_of_leadsTo (show leadsTo w.forest _ _ 3 root [1, 2, 3] = true by decide +kernel)
      (by decide +kernel) (by decide +kernel)
  have hcall : o.In w.forest := by constructor <;> decide +kernel
  obtain ⟨⟨w', hrun, hshows⟩, -⟩ := convertOverlay_moves_first_tokens hw hmeets hcall
  exact ⟨hw, hmeets, hcall, w', hrun, by rw [hshows.children]; decide +kernel⟩

/-- Only the first token of the sum goes to the new place of the argument. -/
theorem runPasses_stuffCall :
    ∃ w, runPasses [⟨"stuff", convertOverlays⟩] { forest := ofTree stuffCall } = .ok w ∧
      stuffCall.render = "stuff(s, a + 1, 2, x)" ∧
      w.forest.tree.render = "overlay(s placing x + 1 from a for 2)" := by
  decide +kernel

end SqlDialect.FunctionCall
