import SqlDialect.Proofs.Conversion.Content

/-!
# Significant neighbours

The next significant sibling and the previous one are looked up in opposite directions of one list.
Both say that two children of a node have nothing but noise between them (`Adjoining`), so each
undoes the other, and whoever follows one of them from an end comes to all significant children in
turn (`Follows`).
-/

namespace SqlDialect.Forest

open List

variable {f : Forest} {p x y : Nat} {before after : List Nat}

/-- From the start on, if there is one, `next` leads through the nodes of the list and then
nowhere. -/
inductive Follows (next : NodeId → Option NodeId) : Option NodeId → List NodeId → Prop
  | stop : Follows next none []
  | step {x : NodeId} {rest : List NodeId} : Follows next (next x) rest →
  Follows next (some x) (x :: rest)

/-- The nodes are children of one node, in this order, and what stands between them is noise. -/
def Adjoining (f : Forest) (y x : NodeId) : Prop :=
  ∃ p before between after, f.children p = before ++ y :: (between ++ x :: after) ∧
    ∀ z ∈ between, f.isNoise z = true

section

variable (hf : f.WellFormed)
include hf

lemma WellFormed.previousSibling_eq (hlist : f.children p = before ++ x :: after) :
    f.previousSibling x = before.reverse.find? (!f.isNoise ·) := by
  have hnodup := hf.nodup_children p
  rw [hlist] at hnodup
  simp [previousSibling, precedingSibling, around, hf.parent_of_split hlist, hlist,
    splitAround_eq_of_nodup hnodup]

/-- A lookup among siblings succeeds only for a child, which parts the list of its parent. -/
lemma WellFormed.exists_split (h : f.parent x ≠ none) : ∃ p before after,
    f.children p = before ++ x :: after := by
  obtain ⟨p, hp⟩ := Option.ne_none_iff_exists'.1 h
  exact ⟨p, append_of_mem (hf.mem_children_iff.2 hp)⟩

lemma WellFormed.nextSibling_eq_some_iff (hx : f.isNoise x = false) :
    f.nextSibling y = some x ↔ f.Adjoining y x := by
  constructor
  · intro h
    obtain ⟨p, before, after, hlist⟩ := hf.exists_split (x := y) fun hnone => by
      simp [nextSibling, nextSiblingWith, hnone] at h
    rw [hf.nextSibling_eq _ _ hlist] at h
    obtain ⟨-, between, rest, rfl, hnoise⟩ := find?_eq_some_iff_append.1 h
    exact ⟨p, before, between, rest, hlist, fun z hz => by simpa using hnoise z hz⟩
  · rintro ⟨p, before, between, after, hlist, hnoise⟩
    rw [hf.nextSibling_eq _ _ hlist]
    exact find?_eq_some_iff_append.2 ⟨by simp [hx], between, after, rfl,
      fun z hz => by simp [hnoise z hz]⟩

lemma WellFormed.previousSibling_eq_some_iff (hy : f.isNoise y = false) :
    f.previousSibling x = some y ↔ f.Adjoining y x := by
  constructor
  · intro h
    obtain ⟨p, before, after, hlist⟩ := hf.exists_split (x := x) fun hnone => by
      simp [previousSibling, hnone] at h
    rw [hf.previousSibling_eq hlist] at h
    obtain ⟨-, between, rest, hsplit, hnoise⟩ := find?_eq_some_iff_append.1 h
    obtain rfl :
      before = rest.reverse ++ y :: between.reverse := by simpa using congrArg reverse hsplit
    exact ⟨p, rest.reverse, between.reverse, after, by simpa using hlist, fun z hz =>
      by simpa using hnoise z (mem_reverse.1 hz)⟩
  · rintro ⟨p, before, between, after, hlist, hnoise⟩
    rw [← cons_append, ← append_assoc] at hlist
    rw [hf.previousSibling_eq hlist]
    exact find?_eq_some_iff_append.2 ⟨by simp [hy], between.reverse, before.reverse, by simp,
      fun z hz =>
      by simp [hnoise z (mem_reverse.1 hz)]⟩

lemma WellFormed.follows_nextSibling (hlist : f.children p = before ++ after) :
    Follows f.nextSibling (after.find? (!f.isNoise ·)) (after.filter (!f.isNoise ·)) := by
  induction after generalizing before with
  | nil => exact .stop
  | cons a after ih =>
    have hnext : f.children p = (before ++ [a]) ++ after := by simpa using hlist
    have hrest := ih hnext
    by_cases ha : f.isNoise a = true
    · simpa [ha] using hrest
    · rw [← hf.nextSibling_eq _ _ hlist] at hrest
      simpa [ha] using hrest.step

lemma WellFormed.follows_previousSibling (hlist : f.children p = before ++ after) :
    Follows f.previousSibling (before.reverse.find? (!f.isNoise ·))
      (before.filter (!f.isNoise ·)).reverse := by
  induction before using reverseRecOn generalizing after with
  | nil => exact .stop
  | append_singleton before a ih =>
    have hlist : f.children p = before ++ a :: after := by simpa using hlist
    have hrest := ih hlist
    by_cases ha : f.isNoise a = true
    · simpa [ha] using hrest
    · rw [← hf.previousSibling_eq hlist] at hrest
      simpa [ha] using hrest.step

end

/-- The lookups of significant siblings undo each other, and each of them leads from one end of the
children of a node to the other. -/
theorem siblings_mirrored (hf : f.WellFormed) :
    (∀ x y, f.isNoise x = false → f.isNoise y = false →
      (f.previousSibling x = some y ↔ f.nextSiblingWith y false = some x)) ∧
    ∀ p, Follows (f.nextSiblingWith · false) (f.firstSignificantChild p) (f.significantChildren p) ∧
      Follows f.previousSibling (f.lastSignificantChild p) (f.significantChildren p).reverse := by
  refine ⟨fun x y hx hy => ?_, fun p => ⟨?_, ?_⟩⟩
  · exact (hf.previousSibling_eq_some_iff hy).trans (hf.nextSibling_eq_some_iff hx).symm
  · exact hf.follows_nextSibling (nil_append _).symm
  · exact hf.follows_previousSibling (append_nil _).symm

/-- A comment between two words does not part them. -/
theorem siblings_mirrored_comment :
    let f := ofTree (.node .clause "" .empty
      [.node .otherNode "a" .empty [], .node .commentMultiLine "" .empty [],
      .node .otherNode "b" .empty []])
    f.nextSiblingWith 1 false = some 3 ∧
      Follows f.previousSibling (f.lastSignificantChild 0) [3, 1] := by
  intro f
  obtain ⟨hmirrored, hfollows⟩ := siblings_mirrored (wellFormed_ofTree _ : f.WellFormed)
  exact ⟨(hmirrored 3 1 rfl rfl).1 rfl, (hfollows 0).2⟩

end SqlDialect.Forest
