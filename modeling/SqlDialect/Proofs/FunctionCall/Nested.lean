import SqlDialect.Proofs.Conversion.Preorder
import SqlDialect.Proofs.Pass.DataType
import SqlDialect.Proofs.SyntaxTree.Parts
import SqlDialect.Proofs.Warning.Count

/-!
# Calls in the arguments of calls

Three passes take a call apart and put what is in its arguments into new nodes, or beside them.  The
walk has listed neither, and it passes over the arguments themselves, which are detached.  So a call
is converted unless it is in the arguments of another one that was converted before.

The calls that were never in such arguments keep all that is above them from one visit to the next.
So the walk comes to each of them, and when it has left a node there is none of them under it.
-/

namespace SqlDialect.FunctionCall

open Conversion Forest SyntaxTree

variable {tag : Tag} {text : Option String} {C : Forest → Nat → Prop}
    {w w' w'' : Workspace} {id x : Nat}

/-- No node fits that did not before. -/
def NoneNew (tag : Tag) (text : Option String) (w w' : Workspace) : Prop :=
  ∀ x : Nat, w'.forest.fits tag text x = true → w.forest.fits tag text x = true

lemma fits_congr {f g : Forest} (htag : g.tag x = f.tag x) (htext : g.text x = f.text x) :
    g.fits tag text x = f.fits tag text x := by
  have hword : g.hasText x = f.hasText x := funext fun word => by rw [hasText, hasText, htext]
  rw [fits, fits, is, is, htag, hword]

instance : Lax (NoneNew tag text) tag where
  trans h h' x hx := h x (h' x hx)
  same h x hx := by rwa [fits_congr (h.tag_eq x) (h.text_eq x)] at hx
  grown {w made} word hmade x hx := by
    have hne : x ≠ w.forest.size := by
      rintro rfl
      simp [fits, is, tag_create, hmade] at hx
    refine fits_congr ?_ ?_ ▸ hx
    · rw [tag_create, if_neg hne]
    · rw [Forest.text, Forest.create, node_push, if_neg hne]
      rfl

/-! ## Calls that are left -/

/-- The node is a call and is reached. -/
def Left (C : Forest → Nat → Prop) (w : Workspace) (x : Nat) : Prop :=
  C w.forest x ∧ w.forest.Under x root

/-- The calls that are left were there before, and all above them is as it was. -/
def Leaves (C : Forest → Nat → Prop) (w w' : Workspace) : Prop :=
  ∀ x, Left C w' x → Left C w x ∧ ∀ z, w'.forest.Under x z → w.forest.parent z = w'.forest.parent z

/-- No call is left under the node. -/
def Cleared (C : Forest → Nat → Prop) (w : Workspace) (id : Nat) : Prop :=
  ∀ x, Left C w x → ¬ w.forest.Under x id

lemma Leaves.refl (w : Workspace) : Leaves C w w := fun _ hx => ⟨hx, fun _ _ => rfl⟩

lemma Leaves.trans (h : Leaves C w w') (h' : Leaves C w' w'') : Leaves C w w'' := fun x hx => by
  obtain ⟨hx1, habove1⟩ := h' x hx
  obtain ⟨hx2, habove2⟩ := h x hx1
  exact ⟨hx2, fun z hz => (habove2 z ((under_congr habove1).2 hz)).trans (habove1 z hz)⟩

lemma Leaves.cleared (h : Leaves C w w') (hid : Cleared C w id) : Cleared C w' id :=
    fun x hx hunder =>
  hid x (h x hx).1 ((under_congr (h x hx).2).2 hunder)

lemma cleared_of_parent_eq_none (hw : Whole w) (hid : w.forest.parent id = none) (hne : id ≠ root) :
    Cleared C w id := fun x hx hunder => by
  obtain h | h := hunder.total hx.2
  · exact hne ((under_iff_eq_of_parent_eq_none hid).1 h)
  · exact hne ((under_iff_eq_of_parent_eq_none hw.root_parent).1 h).symm

/-- Where a call is taken out, those that are left were not in its arguments. -/
lemma leaves_of_takenOut {function parens : Nat} (hw : Whole w) (hw' : Whole w')
    (hout : TakenOut w.forest function parens w'.forest)
    (hC : ∀ x, C w'.forest x → x < w.forest.size ∧ C w.forest x ∧ ¬ w.forest.Below x parens) :
    Leaves C w w' ∧ Cleared C w' function := by
  obtain ⟨-, holder, hfunction, hparens⟩ := siblings_of_argumentsOf hw.wellFormed hout.arguments_eq
  have hcleared : ∀ z ∈ [function, parens], Cleared C w' z := fun z hz => by
    refine cleared_of_parent_eq_none hw' (hout.parent_eq_none z hz) fun hroot => ?_
    have hparent : w.forest.parent z = some holder := by
      obtain rfl | rfl : z = function ∨ z = parens := by simpa using hz
      · exact hfunction
      · exact hparens
    rw [hroot, hw.root_parent] at hparent
    cases hparent
  refine ⟨fun x hx => ?_, hcleared function (by simp)⟩
  obtain ⟨hlt, hcall, houtside⟩ := hC x hx.1
  have hstay (z : Nat) (hz : w'.forest.Under x z) (hlt : z < w.forest.size)
      (hbelow : ¬ w.forest.Below z parens) : w'.forest.parent z = w.forest.parent z :=
    hout.parent_eq z hlt (fun hmem => hcleared z hmem x hx hz) hbelow
  -- the way up stays outside of the brackets, as it does not change there
  have habove : ∀ z, w'.forest.Under x z → z < w.forest.size ∧ ¬ w.forest.Below z parens := by
    intro z hz
    induction hz with
    | refl => exact ⟨hlt, houtside⟩
    | @tail y z hy hyz ih =>
      rw [hstay y hy ih.1 ih.2] at hyz
      exact ⟨hw.wellFormed.parent_lt hyz, fun hbelow => ih.2 ((below_of_parent hyz).trans hbelow)⟩
  have hparent (z : Nat) (hz : w'.forest.Under x z) : w.forest.parent z = w'.forest.parent z :=
    (hstay z hz (habove z hz).1 (habove z hz).2).symm
  exact ⟨⟨hcall, (under_congr hparent).2 hx.2⟩, hparent⟩

/-! ## The walk -/

section

variable {convertNode : NodeId → Conversion Unit}

/-- What a conversion of a call, or a walk, comes to: no call is left under the node. -/
def Clears (C : Forest → Nat → Prop) (w : Workspace) (id : Nat) (w' : Workspace) : Prop :=
  Next (fun _ => True) w w' ∧ Leaves C w w' ∧ Cleared C w' id

lemma walkFrom_clears (hC : ∀ f x, C f x → f.fits tag text x = true) :
    ∀ {limit id : Nat} {w : Workspace}, Whole w → id < w.forest.size →
    (∀ (call : Nat) (w1 : Workspace), Comes (visitMatch tag text convertNode) limit id () w
      ⟨call, (), w1⟩ → w1.forest.fits tag text call = true → Whole w1 →
      Ends (convertNode call) w1 (fun _ => Clears C w1 call) fun _ _ => True) →
    Ends (walkFrom (visitMatch tag text convertNode) limit id ()) w (fun _ => Clears C w id)
      fun _ _ => True
  | 0, id, w, _, _, _ => ends_throw trivial
  | limit + 1, id, w, hw, hid, hconvert => by
    have hvisit : Ends (visitMatch tag text convertNode id ()) w (fun result w1 =>
        result = (.descend, ()) ∧ Next (fun _ => True) w w1 ∧ Leaves C w w1 ∧
          ∀ x, Left C w1 x → x ≠ id) fun _ _ => True := by
      refine ends_bind (ends_forest (ends_ite (fun hfits => ?_) fun hfits => ?_))
      · refine ends_bind ((hconvert id w .here hfits hw).imp fun _ w1 ⟨hnext, hleaves, hcleared⟩ =>
          ?_)
        exact ends_pure (ends_pure ⟨rfl, hnext, hleaves, fun x hx heq =>
          hcleared x hx (heq ▸ .refl _ _)⟩)
      · exact ends_pure (ends_pure ⟨rfl, .refl hw, .refl w, fun x hx heq =>
          hfits (heq ▸ hC _ _ hx.1)⟩)
    rw [walkFrom_succ]
    refine hvisit.bind ?_
    rintro ⟨_, _⟩ w1 hrun ⟨heq, hnext, hleaves, hne⟩
    cases heq
    refine ends_forest ((ends_foldlM_run (fun done _ w2 => Next (fun _ => True) w1 w2 ∧
      Leaves C w1 w2 ∧ ∀ c ∈ done, Cleared C w2 c) ⟨.refl hnext.1, .refl w1, by simp⟩ ?_).imp ?_)
    · rintro before child after ⟨⟩ w2 hchildren hbefore ⟨hnext2, hleaves2, hdone⟩
      have hchild := hnext.1.wellFormed.parent_of_split hchildren
      have hwalk : Ends (walkChild (visitMatch tag text convertNode) limit () child) w2
          (fun _ => Clears C w2 child) fun _ _ => True := by
        refine ends_forest (ends_ite (fun hnone => ends_pure ⟨.refl hnext2.1, .refl w2, ?_⟩)
          fun hsome => ?_)
        · refine cleared_of_parent_eq_none hnext2.1 (by simpa using hnone) fun hroot => ?_
          rw [hroot, hnext.1.root_parent] at hchild
          cases hchild
        · exact walkFrom_clears hC hnext2.1 ((lt_size_of_parent hchild).trans_le hnext2.2)
            fun call w3 hcomes =>
              hconvert call w3 (.down hrun hchildren hbefore (by simpa using hsome) hcomes)
      refine hwalk.imp fun _ w3 ⟨hnext3, hleaves3, hcleared⟩ =>
        ⟨hnext2.trans hnext3, hleaves2.trans hleaves3, fun c hc => ?_⟩
      obtain hc | hc := List.mem_append.1 hc
      · exact hleaves3.cleared (hdone c hc)
      · exact List.mem_singleton.1 hc ▸ hcleared
    · rintro ⟨⟩ w2 ⟨hnext2, hleaves2, hdone⟩
      refine ⟨hnext.trans hnext2, hleaves.trans hleaves2, fun x hx hunder => ?_⟩
      obtain ⟨hx1, habove⟩ := hleaves2 x hx
      -- the call is under a child that has been walked
      obtain rfl | hbelow := under_iff_eq_or_below.1 hunder
      · exact hne _ hx1 rfl
      · obtain ⟨c, hc, hparent⟩ := Relation.TransGen.tail'_iff.1 hbelow
        refine hdone c ?_ x hx hc
        rw [hnext.1.wellFormed.mem_children_iff, habove c hc, hparent]

/-- The node was in the arguments of a call when a pass came to that call. -/
def InArguments (tag : Tag) (text : Option String) (convertNode : NodeId → Conversion Unit)
    (w : Workspace) (x : Nat) : Prop :=
  ∃ function w₁ parens, MeetsMatch tag text convertNode w function w₁ ∧
    argumentsOf w₁.forest function = some parens ∧ w₁.forest.Below x parens

lemma inArguments_of_forEachMatch (htag : tag ≠ .root) (hw : Whole w)
    (hconvert : ∀ (w1 : Workspace) (call : Nat), Whole w1 → Ends (convertNode call) w1
      (fun _ w2 => Next (fun _ => True) w1 w2 ∧ ∃ parens, TakenOut w1.forest call parens w2.forest)
      (Halts (fun _ => True) True)) (hkeeps : ∀ call, Keeps (NoneNew tag text) (convertNode call))
    (hrun : forEachMatch tag text convertNode w = .ok () w') (hreached : w'.forest.Under x root)
    (hfits : w'.forest.fits tag text x = true) : InArguments tag text convertNode w x := by
  by_contra houtside
  have hwalk : Ends (forEachMatch tag text convertNode) w (fun _ => Clears (fun f x =>
      f.fits tag text x = true ∧ ¬ InArguments tag text convertNode w x) w root) fun _ _ =>
        True := by
    refine ends_forest
      (walkFrom_clears (fun _ _ h => h.1) hw hw.size_pos fun call w1 hcomes hcall hw1 =>
      ends_iff.2 ⟨fun _ w2 hrun2 => ?_, fun _ _ _ => trivial⟩)
    obtain ⟨hnext, parens, hout⟩ := (ends_iff.1 (hconvert w1 call hw1)).1 _ _ hrun2
    refine ⟨hnext, leaves_of_takenOut hw1 hnext.1 hout fun y ⟨hy, hnot⟩ => ?_⟩
    have hold := (ends_iff.1 ((hkeeps call).ends w1)).1 _ _ hrun2 y hy
    refine ⟨Nat.lt_of_not_le fun hle => ?_, ⟨hold, hnot⟩, fun hbelow => hnot ?_⟩
    · simp [fits, is, tag_of_size_le hle, htag.symm] at hold
    · exact ⟨call, w1, parens, ⟨hcomes, hcall⟩, hout.arguments_eq, hbelow⟩
  exact ((ends_iff.1 hwalk).1 _ _ hrun).2.2 x ⟨⟨hfits, houtside⟩, hreached⟩ hreached

end

/-- Every call of `iif`, `dateadd` or `cast` that is still reached after its pass was in the
arguments of a call that the pass came to. So the calls that are in no such arguments are all
converted. -/
theorem calls_left_were_arguments (hw : Whole w) :
    (∀ w', convertConditionals w = .ok () w' → ∀ x : Nat, w'.forest.Under x root →
      w'.forest.fits .otherNode (some "iif") x = true →
      InArguments .otherNode (some "iif") convertConditional w x) ∧
    (∀ w', DateFunction.convertSums w = .ok () w' → ∀ x : Nat, w'.forest.Under x root →
      w'.forest.fits .functionKeyword (some "dateadd") x = true →
      InArguments .functionKeyword (some "dateadd") DateFunction.convertSum w x) ∧
    ∀ w', DataType.convertCasts w = .ok () w' → ∀ x : Nat, w'.forest.Under x root →
      w'.forest.fits .functionKeyword (some "cast") x = true →
      InArguments .functionKeyword (some "cast") DataType.convertCast w x := by
  refine ⟨fun w' hrun x => ?_, fun w' hrun x => ?_, fun w' hrun x => ?_⟩
  · exact inArguments_of_forEachMatch (by decide) hw (fun _ call h =>
      convertConditional_takesOut h call) (convertConditional_keeps (.inr (.inl rfl))) hrun
  · exact inArguments_of_forEachMatch (by decide) hw
      (fun _ call h => DateFunction.convertSum_takesOut h call)
      (DateFunction.convertSum_keeps (.inr (.inr rfl))) hrun
  · exact inArguments_of_forEachMatch (by decide) hw
      (fun _ call h => DataType.convertCast_takesOut h call)
      (DataType.convertCast_keeps (.inr (.inr rfl))) hrun

/-- A call of `iif` in the arguments of another. -/
def nestedConditional : SyntaxTree :=
  group .root [group .statement [group .clause [leaf .otherNode "iif", group .functionParens
    [leaf .otherNode "c", leaf .comma ",", leaf .otherNode "iif", group .functionParens
      [leaf .otherNode "d", leaf .comma ",", leaf .numberValue "1", leaf .comma ",",
        leaf .numberValue "2"], leaf .comma ",", leaf .numberValue "3"]]]]

theorem calls_left_were_arguments_nestedConditional :
    let w : Workspace := { forest := ofTree nestedConditional }
    Whole w ∧ ∃ w', convertConditionals w = .ok () w' ∧ w'.forest.Under 7 root ∧
      InArguments .otherNode (some "iif") convertConditional w 7 := by
  intro w
  have hw : Whole w := whole_ofTree _
  obtain ⟨w', hpasses, hholds⟩ : ∃ w', runPasses [⟨"iif", convertConditionals⟩] w = .ok w' ∧
      7 ∈ root :: w'.forest.descendants root ∧ w'.forest.fits .otherNode (some "iif") 7 = true := by
    decide +kernel
  have hrun : convertConditionals w = .ok () w' := by
    rw [runPasses] at hpasses
    split at hpasses
    · rename_i hok
      exact Except.ok.inj hpasses ▸ hok
    · cases hpasses
  have hw' : Whole w' := ((ends_iff.1 (convertConditionals_safe (P := True) hw)).1 _ _ hrun).1
  have hreached := hw'.wellFormed.mem_preorder_iff.1 hholds.1
  exact ⟨hw, w', hrun, hreached, (calls_left_were_arguments hw).1 w' hrun 7 hreached hholds.2⟩

/-- The inner call is still there. -/
theorem runPasses_nestedConditional :
    ∃ w, runPasses [⟨"iif", convertConditionals⟩] { forest := ofTree nestedConditional } = .ok w ∧
      nestedConditional.render = "iif(c, iif(d, 1, 2), 3)" ∧
      w.forest.tree.render = "case when c then iif(d, 1, 2) else 3 end" := by
  decide +kernel

end SqlDialect.FunctionCall
