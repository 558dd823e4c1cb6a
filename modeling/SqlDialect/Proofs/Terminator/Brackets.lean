import SqlDialect.Proofs.Terminator.Layout

/-!
# Terminators and brackets

A terminator inside of brackets would end the statement that the brackets belong to.  The pass does
not look into three kinds of brackets, and so puts none there; into the other kinds it does look,
and an unterminated clause in them is given a terminator like any other (`addTerminators_brackets`).
-/

namespace SqlDialect.Terminator

open Conversion Forest SyntaxTree List

/-- What is above a new node is the clause that it ends, or above that clause. -/
lemma Ending.below_new {f g : Forest} {S : Nat → Prop} {a n : Nat} (h : Ending f S g)
    (hf : f.WellFormed) (hn : f.size ≤ n) (hlt : n < g.size) :
    ∃ x, x < f.size ∧ S x ∧ g.parent n = some x ∧ (g.Below n a ↔ f.Under x a) := by
  obtain ⟨-, -, -, x, hx, hS, hparent⟩ := h.new n hn hlt
  refine ⟨x, hx, hS, hparent, ?_⟩
  rw [below_iff, hparent]
  simp only [Option.some.injEq, exists_eq_left']
  exact under_congr fun z hz => h.parent_eq (hf.lt_size_of_under hz hx)

/-- The pass succeeds and adds terminators, each at the end of a clause; what was there stays as it
was. None of them is inside of brackets of the kinds that are not looked into. One of them is in
brackets of some kind exactly if a clause of the tree is, in brackets of the other kinds, that lacks
a terminator. -/
theorem addTerminators_brackets {w : Workspace} (hw : Whole w) :
    ∃ w', addTerminators w = .ok () w' ∧ w'.notes = w.notes ∧
      (∀ x, x < w.forest.size → w'.forest.tag x = w.forest.tag x ∧
        w'.forest.text x = w.forest.text x ∧ w'.forest.attributes x = w.forest.attributes x ∧
        w'.forest.parent x = w.forest.parent x ∧
        (w'.forest.children x).filter (· < w.forest.size) = w.forest.children x) ∧
      (∀ n, w.forest.size ≤ n → n < w'.forest.size → w'.forest.tag n = .semicolon ∧
        w'.forest.text n = ";" ∧
        (∃ clause, w'.forest.parent n = some clause ∧ w.forest.tag clause = .clause) ∧
        ∀ a, w'.forest.Below n a → w'.forest.tag a ∉ brackets) ∧
      ((∃ n a, w.forest.size ≤ n ∧ n < w'.forest.size ∧ w'.forest.Below n a ∧
          (w'.forest.tag a).isParens = true) ↔
        ∃ clause b, w.forest.Under clause root ∧ w.forest.tag clause = .clause ∧
          lacksTerminator w.forest clause = true ∧ IsOpen w.forest clause ∧
          w.forest.Below clause b ∧ (w.forest.tag b).isParens = true) := by
  obtain ⟨_, w', hrun, hnotes, S, hending, hreached, hended⟩ := (addTerminators_ending hw).exists_ok
  have hf := hw.wellFormed
  have hlt {x a : Nat} (hx : x < w.forest.size) (ha : w.forest.Under x a) : a < w.forest.size :=
    hf.lt_size_of_under ha hx
  have hclause {x a : Nat} (hx : x < w.forest.size) (hS : S x) (ha : w.forest.Under x a)
      (hne : w'.forest.tag a ≠ .clause) : w.forest.Below x a := by
    obtain rfl | hbelow := under_iff_eq_or_below.1 ha
    · exact absurd ((hending.tag_eq hx).trans ((hended a (hreached a hS)).1 hS).1) hne
    · exact hbelow
  refine ⟨w', hrun, hnotes, fun x hx => ⟨hending.tag_eq hx, ?_, ?_, hending.parent_eq hx, ?_⟩,
    fun n hn hnew => ?_, ⟨?_, ?_⟩⟩
  · exact hending.field_eq Node.text (fun _ _ => rfl) hx
  · exact hending.field_eq Node.attributes (fun _ _ => rfl) hx
  · exact hending.filter_children hf hx
  · obtain ⟨htag, htext, -, x, hx, hS, hparent⟩ := hending.new n hn hnew
    refine ⟨htag, htext, ⟨x, hparent, ((hended x (hreached x hS)).1 hS).1⟩, fun a ha hbracket => ?_⟩
    obtain ⟨x, hx, hS, -, habove⟩ := hending.below_new hf hn hnew
    have hunder := habove.1 ha
    have hbelow := hclause hx hS hunder fun heq => by
      rw [heq] at hbracket
      exact absurd hbracket (by decide)
    rw [hending.tag_eq (hlt hx hunder)] at hbracket
    exact ((hended x (hreached x hS)).1 hS).2.1 a hbelow hbracket
  · rintro ⟨n, a, hn, hnew, ha, hparens⟩
    obtain ⟨x, hx, hS, -, habove⟩ := hending.below_new (a := a) hf hn hnew
    have hunder := habove.1 ha
    have hbelow := hclause hx hS hunder fun heq => by
      rw [heq] at hparens
      cases hparens
    obtain ⟨htag, hopen, hlacks, -⟩ := (hended x (hreached x hS)).1 hS
    rw [hending.tag_eq (hlt hx hunder)] at hparens
    exact ⟨x, a, hreached x hS, htag, hlacks, hopen, hbelow, hparens⟩
  · rintro ⟨clause, b, hunder, htag, hlacks, hopen, hbelow, hparens⟩
    -- a clause in brackets has been terminated: this one or the one around it
    obtain ⟨x, hS, hx⟩ : ∃ x, S x ∧ w.forest.Below x b := by
      by_cases haround : ∃ p, w.forest.parent clause = some p ∧ S p
      · obtain ⟨p, hp, hS⟩ := haround
        obtain ⟨q, hq, hqb⟩ := below_iff.1 hbelow
        obtain rfl : q = p := Option.some.inj (hq.symm.trans hp)
        have hpclause := ((hended q (hreached q hS)).1 hS).1
        refine ⟨q, hS, ?_⟩
        obtain rfl | hqb := under_iff_eq_or_below.1 hqb
        · rw [hpclause] at hparens
          cases hparens
        · exact hqb
      · refine ⟨clause, (hended clause hunder).2 ⟨htag, hopen, hlacks, ?_⟩, hbelow⟩
        exact fun p hp hS => haround ⟨p, hp, hS⟩
    have hsize := hx.lt_size
    obtain ⟨before, after, n, hn, -, hchildren, -⟩ := hending.children_ended x hsize hS
    have hparent : w'.forest.parent n = some x :=
      hending.wellFormed.parent_of_mem (by simp [hchildren])
    have hnew := lt_size_of_parent hparent
    obtain ⟨x', -, -, hparent', habove⟩ := hending.below_new hf hn hnew
    obtain rfl : x = x' := Option.some.inj (hparent.symm.trans hparent')
    refine ⟨n, b, hn, hnew, habove.2 hx.under, ?_⟩
    rwa [hending.tag_eq (hlt hsize hx.under)]

/-! ## A query in a list -/

/-- `select x in (select y)`, with the query in brackets of the given kind. -/
def bracketedQuery (tag : Tag) : SyntaxTree :=
  group .root [asStatement [keyword "select", .node .otherNode "x" .empty [], keyword "in",
    group tag [group .clause [keyword "select", .node .otherNode "y" .empty []]]]]

theorem addTerminators_brackets_expression :
    Whole { forest := ofTree (bracketedQuery .expressionParens) } ∧
      ∃ w', addTerminators { forest := ofTree (bracketedQuery .expressionParens) } = .ok () w' ∧
        ∀ n, (ofTree (bracketedQuery .expressionParens)).size ≤ n → n < w'.forest.size →
          ∀ a, w'.forest.Below n a → w'.forest.tag a ∉ brackets := by
  have hw : Whole { forest := ofTree (bracketedQuery .expressionParens) } :=
    whole_ofTree _
  obtain ⟨w', hrun, -, -, hnew, -⟩ := addTerminators_brackets hw
  exact ⟨hw, w', hrun, fun n hn hlt => (hnew n hn hlt).2.2.2⟩

/-- The query in an in-list is terminated inside of the brackets. -/
theorem runPasses_bracketedQuery :
    ∃ w, runPasses terminatorPasses { forest := ofTree (bracketedQuery .inParens) } = .ok w ∧
      w.forest.tree.render = "select x in (select y;);" := by
  obtain ⟨w, hrun, htree, -⟩ := runPasses_terminators (bracketedQuery .inParens)
  refine ⟨w, hrun, ?_⟩
  rw [htree]
  decide +kernel

end SqlDialect.Terminator
