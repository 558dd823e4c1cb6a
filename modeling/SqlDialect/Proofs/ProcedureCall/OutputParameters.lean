import Mathlib.Data.List.TakeWhile
import SqlDialect.Proofs.Conversion.Keeps
import SqlDialect.Proofs.Conversion.Reorder
import SqlDialect.Proofs.Pass.ProcedureCall
import SqlDialect.Proofs.SyntaxTree.Parts

/-!
# The marks of output parameters

A parameter list is cut at its commas.  In each part the mark goes to the front; only in the first
part, which no comma opens, the noise at its start stays before the mark.  Parts and commas keep
their places, and so do all nodes of a part but its mark.
-/

namespace SqlDialect.ProcedureCall

open Conversion Forest List

/-! ## Lists -/

section

variable {mark comma skip : Nat → Bool} {part list : List Nat} {parts : List (List Nat)}

/-- The marks of a part go to its front, but not past what may stay there. -/
def lead (mark skip : Nat → Bool) (part : List Nat) : List Nat :=
  (part.filter (!mark ·)).takeWhile skip ++ part.filter mark ++
    (part.filter (!mark ·)).dropWhile skip

/-- What may stay in front of a mark is in the first part alone. -/
def leads (mark skip : Nat → Bool) : List (List Nat) → List (List Nat)
  | [] => []
  | first :: more => lead mark skip first :: more.map (lead mark fun _ => false)

/-- Parts with separators between them. -/
def join : List (List Nat) → List Nat → List Nat
  | part :: parts, separator :: separators => part ++ separator :: join parts separators
  | parts, _ => parts.flatten

/-- The list with the marks in front of their parts. -/
def arrange (mark comma skip : Nat → Bool) (list : List Nat) : List Nat :=
  join (leads mark skip (separate comma list)) (list.filter comma)

lemma filter_of_forall (h : ∀ a ∈ part, mark a = false) : part.filter mark = [] := by
  simpa [filter_eq_nil_iff] using h

lemma filter_not_of_forall (h : ∀ a ∈ part, mark a = false) : part.filter (!mark ·) = part := by
  simpa using h

lemma filter_lead : (lead mark skip part).filter mark = part.filter mark ∧
    (lead mark skip part).filter (!mark ·) = part.filter (!mark ·) := by
  have hrest : ∀ a ∈ part.filter (!mark ·), mark a = false := by simp
  have hfront := fun a ha => hrest a ((takeWhile_sublist skip).subset ha)
  have hback := fun a ha => hrest a ((dropWhile_sublist skip).subset ha)
  have hmarks : (part.filter mark).filter (!mark ·) = [] := by simp [filter_filter]
  refine ⟨?_, ?_⟩
  · rw [lead, filter_append, filter_append, filter_of_forall hfront, filter_of_forall hback]
    simp
  · rw [lead, filter_append, filter_append, filter_not_of_forall hfront,
      filter_not_of_forall hback, hmarks, append_nil, takeWhile_append_dropWhile]

lemma lead_lead : lead mark skip (lead mark skip part) = lead mark skip part := by
  rw [lead, filter_lead.1, filter_lead.2, lead]

lemma lead_of_forall (h : ∀ a ∈ part, mark a = false) : lead mark skip part = part := by
  rw [lead, filter_of_forall h, filter_not_of_forall h, append_nil, takeWhile_append_dropWhile]

lemma lead_perm : (lead mark skip part).Perm part := by
  have hswap : ((part.filter (!mark ·)).takeWhile skip ++ part.filter mark).Perm
      (part.filter mark ++ (part.filter (!mark ·)).takeWhile skip) := perm_append_comm
  refine (hswap.append_right _).trans ?_
  rw [append_assoc, takeWhile_append_dropWhile]
  exact filter_append_perm mark part

lemma leads_leads : leads mark skip (leads mark skip parts) = leads mark skip parts := by
  cases parts with
  | nil => rfl
  | cons first more => simp [leads, lead_lead]

lemma mem_leads {part' : List Nat} (h : part' ∈ leads mark skip parts) :
    ∃ part ∈ parts, ∃ skip, part' = lead mark skip part := by
  cases parts with
  | nil => cases h
  | cons first more =>
    obtain rfl | h := mem_cons.1 h
    · exact ⟨first, .head _, skip, rfl⟩
    · obtain ⟨part, hpart, rfl⟩ := mem_map.1 h
      exact ⟨part, .tail _ hpart, _, rfl⟩

section

variable (hpart : ∀ a ∈ part, comma a = false)
include hpart

lemma arrange_last : arrange mark comma skip part = lead mark skip part := by
  rw [arrange, separate_of_forall hpart, filter_of_forall hpart]
  simp [leads, join]

lemma arrange_more {c : Nat} {rest : List Nat} (hc : comma c) :
    arrange mark comma skip (part ++ c :: rest) =
      lead mark skip part ++ c :: arrange mark comma (fun _ => false) rest := by
  have hmap : (separate comma rest).map (lead mark fun _ => false) =
      leads mark (fun _ => false) (separate comma rest) := by
    cases separate comma rest <;> rfl
  rw [arrange, separate_append_cons hpart hc, filter_append, filter_of_forall hpart, nil_append,
    filter_cons_of_pos hc, leads, join, hmap, arrange]

end

/-- The parts of the list are arranged, the commas stay, and nothing is lost. -/
lemma arrange_spec (mark comma skip : Nat → Bool) (list : List Nat) :
    separate comma (arrange mark comma skip list) = leads mark skip (separate comma list) ∧
      (arrange mark comma skip list).filter comma = list.filter comma ∧
      (arrange mark comma skip list).Perm list := by
  induction list using parts_induction comma generalizing skip with
  | last part hpart =>
    have hlead : ∀ a ∈ lead mark skip part, comma a = false := fun a ha =>
      hpart a (lead_perm.mem_iff.1 ha)
    rw [arrange_last hpart, separate_of_forall hlead, separate_of_forall hpart]
    refine ⟨rfl, ?_, lead_perm⟩
    rw [filter_of_forall hlead, filter_of_forall hpart]
  | more part c rest hpart hc ih =>
    have hlead : ∀ a ∈ lead mark skip part, comma a = false := fun a ha =>
      hpart a (lead_perm.mem_iff.1 ha)
    obtain ⟨hparts, hcommas, hperm⟩ := @ih fun _ => false
    rw [arrange_more hpart hc, separate_append_cons hlead hc, separate_append_cons hpart hc, hparts]
    refine ⟨?_, ?_, lead_perm.append (hperm.cons c)⟩
    · cases separate comma rest <;> rfl
    · rw [filter_append, filter_append, filter_of_forall hlead, filter_of_forall hpart,
        filter_cons_of_pos hc, filter_cons_of_pos hc, hcommas]

lemma arrange_arrange :
    arrange mark comma skip (arrange mark comma skip list) = arrange mark comma skip list := by
  obtain ⟨hparts, hcommas, -⟩ := arrange_spec mark comma skip list
  rw [arrange, hparts, hcommas, leads_leads, arrange]

end

/-! ## One list -/

section

variable {w : Workspace} {f : Forest} {c : Nat → Node} {n m p : Nat}
  {list own part front more : List Nat} {skip : Nat → Bool}

/-- The words that mark an output parameter. -/
def isMark (f : Forest) (id : Nat) : Bool :=
  f.isKeyword id outputWords

/-- A parameter has no mark, or one and some other token. -/
def isParameter (f : Forest) (part : List Nat) : Bool :=
  part.countP (isMark f) == 0 ||
    part.countP (isMark f) == 1 && part.any fun a => !isMark f a && !f.isNoise a

/-- The nodes become the word for an output mark. -/
def remark (c : Nat → Node) (marks : List Nat) (x : Nat) : Node :=
  { c x with text := if x ∈ marks then "out" else (c x).text }

/-- What stands before a parameter, and what may stay in front of its mark. -/
inductive Opens (comma noise : Nat → Bool) : List Nat → (Nat → Bool) → Prop
  | first : Opens comma noise [] noise
  | later {front : List Nat} {a : Nat} (ha : comma a) :
    Opens comma noise (front ++ [a]) fun _ => false

/-- A mark comes to the front of its parameter. -/
lemma moveOutputMark_shows {own' : List Nat} (h : Shows w.forest n c)
    (hopens : Opens (w.forest.is · .comma) w.forest.isNoise front skip)
    (hlist : (c p).children = front ++ (own ++ m :: own') ++ more)
    (hown : ∀ a ∈ own ++ own', w.forest.is a .comma = false)
    (hother : ∃ a ∈ own ++ own', w.forest.isNoise a = false) :
    Does (moveOutputMark p m) w fun _ w' => Shows w'.forest n (relist (retext c m "out") p
      (front ++ ((own ++ own').takeWhile skip ++ m :: (own ++ own').dropWhile skip) ++ more)) := by
  have hlist : (c p).children = (front ++ own) ++ m :: (own' ++ more) := by simpa using hlist
  have hnodup := h.wellFormed.nodup_children p
  rw [h.children, hlist] at hnodup
  have haround : w.forest.around p m = some (front ++ own, own' ++ more) := by
    rw [around, h.children, hlist, splitAround_eq_of_nodup hnodup]
  have hm : m < n := h.lt_size (p := p) (by simp [hlist])
  refine ends_forest (ends_need_some haround (ends_bind (ends_edit ?_)))
  refine ends_bind ((setText_shows (h.detach hlist) hm
    "out").imp fun _ w2 h2 => ?_)
  have hchildren : (retext (relist c p (front ++ own ++ (own' ++ more))) m "out" p).children =
      front ++ own ++ (own' ++ more) := children_relist
  have hrelist (ids ids' : List Nat) : relist (retext (relist c p ids) m "out") p ids' =
      relist (retext c m "out") p ids' := by
    funext x
    by_cases hx : x = p <;> simp [relist, retext, hx]
  cases hopens with
  | first =>
    have hnone : ([] ++ own).reverse.find? (w.forest.is · .comma) = none := by
      simpa using fun a ha => hown a (mem_append_left _ ha)
    obtain ⟨a, ha, hnoise⟩ := hother
    obtain ⟨x, back, hback⟩ := exists_cons_of_ne_nil (l := (own ++ own').dropWhile w.forest.isNoise)
      fun hnil => by simpa [hnoise] using dropWhile_eq_nil_iff.1 hnil a ha
    have hsplit := takeWhile_append_dropWhile (p := w.forest.isNoise) (l := own ++ own')
    rw [hback] at hsplit ⊢
    have hplace : [] ++ own ++ (own' ++ more) =
        (own ++ own').takeWhile w.forest.isNoise ++ x :: (back ++ more) := by
      rw [nil_append, ← append_assoc, ← cons_append, ← append_assoc, hsplit]
    have hnoise2 : w2.forest.isNoise = w.forest.isNoise := by
      refine isNoise_congr (funext fun x => ?_)
      rw [h2.tag, h.tag]
      rfl
    have hfirst : w2.forest.firstSignificantChild p = some x := by
      rw [firstSignificantChild, h2.children, hchildren, hnoise2, nil_append, ← append_assoc,
        find?_append, find?_eq_head?_dropWhile_not]
      simp [hback]
    rw [hnone]
    refine ends_forest (ends_need_some hfirst ?_)
    have hinsert := insertBefore_shows h2 _ _ (hchildren.trans hplace) hm
    simpa [hrelist] using hinsert
  | @later front comma hcomma =>
    have hfind : (front ++ [comma] ++ own).reverse.find? (w.forest.is · .comma) = some comma := by
      have hnone : own.reverse.find? (w.forest.is · .comma) = none := by
        simpa using fun a ha => hown a (mem_append_left _ ha)
      rw [reverse_append, find?_append, hnone, reverse_append, reverse_singleton]
      simp [hcomma]
    have hplace : front ++ [comma] ++ own ++ (own' ++ more) =
        front ++ comma :: (own ++ (own' ++ more)) := by simp
    have hfront : (own ++ own').takeWhile (fun _ => false) = [] ∧
        (own ++ own').dropWhile (fun _ => false) = own ++ own' := by
      cases own ++ own' <;> exact ⟨rfl, rfl⟩
    rw [hfind, hfront.1, hfront.2]
    have hinsert := insertAfter_shows h2 _ _ (hchildren.trans hplace) hm
    simpa [hrelist] using hinsert

lemma remark_nil : remark c [] = c := by
  funext x
  simp [remark]

lemma remark_relist {marks marks' ids ids' : List Nat} :
    relist (remark (relist (remark c marks) p ids) marks') p ids' =
      relist (remark c (marks ++ marks')) p ids' := by
  funext x
  simp only [remark, relist, mem_append]
  grind

/-- The mark of one parameter comes to its front, if it has one. -/
lemma moveOutputMark_part (h : Shows w.forest n c) (htag : ∀ x, (c x).tag = f.tag x)
    (hopens : Opens (f.is · .comma) f.isNoise front skip)
    (hlist : (c p).children = front ++ part ++ more)
    (hcomma : ∀ a ∈ part, f.is a .comma = false) (hpart : isParameter f part) :
    Does ((part.filter (isMark f)).forM (moveOutputMark p)) w fun _ w' => Shows w'.forest n
      (relist (remark c (part.filter (isMark f))) p
        (front ++ lead (isMark f) skip part ++ more)) := by
  have htag : w.forest.tag = f.tag := funext fun x => (h.tag x).trans (htag x)
  cases hmarks : part.filter (isMark f) with
  | nil =>
    have hnot : ∀ a ∈ part, isMark f a = false := by simpa [filter_eq_nil_iff] using hmarks
    rw [lead_of_forall hnot, ← hlist, remark_nil, relist_self rfl]
    exact ends_pure h
  | cons m others =>
    rw [isParameter, countP_eq_length_filter, hmarks] at hpart
    obtain ⟨rfl, hother⟩ : others = [] ∧ part.any fun a => !isMark f a && !f.isNoise a := by
      simpa using hpart
    obtain ⟨own, own', rfl, hown, hm, hown'⟩ := filter_eq_cons_iff.1 hmarks
    have hrest : (own ++ m :: own').filter (!isMark f ·) = own ++ own' := by
      rw [filter_append, filter_not_of_forall (by simpa using hown),
        filter_cons_of_neg (by simpa using hm),
        filter_not_of_forall (by simpa [filter_eq_nil_iff] using hown')]
    obtain ⟨a, ha, hnoise⟩ : ∃ a ∈ own ++ own', f.isNoise a = false := by
      obtain ⟨a, ha, hnot⟩ := any_eq_true.1 hother
      rw [Bool.and_eq_true, Bool.not_eq_true', Bool.not_eq_true'] at hnot
      exact ⟨a, hrest ▸ mem_filter.2 ⟨ha, by simp [hnot.1]⟩, hnot.2⟩
    rw [← is_congr htag] at hcomma hopens
    rw [← isNoise_congr htag] at hnoise hopens
    have hmove :=
      moveOutputMark_shows h hopens hlist (fun a ha => hcomma a (by grind)) ⟨a, ha, hnoise⟩
    have hlead : lead (isMark f) skip (own ++ m :: own') =
        (own ++ own').takeWhile skip ++ m :: (own ++ own').dropWhile skip := by
      rw [lead, hrest, hmarks, append_assoc, singleton_append]
    have hremark : remark c [m] = retext c m "out" := by
      funext x
      simp [remark, retext]
    rw [hlead, hremark]
    exact ends_bind (hmove.imp fun _ _ h' => ends_pure h')

/-- All marks of a list come to the front of their parameters. -/
lemma moveOutputMark_list (h : Shows w.forest n c) (htag : ∀ x, (c x).tag = f.tag x)
    (hopens : Opens (f.is · .comma) f.isNoise front skip) (hlist : (c p).children = front ++ list)
    (hparts : ∀ part ∈ separate (f.is · .comma) list, isParameter f part) :
    Does ((list.filter (isMark f)).forM (moveOutputMark p)) w fun _ w' => Shows w'.forest n
      (relist (remark c (list.filter (isMark f))) p
        (front ++ arrange (isMark f) (f.is · .comma) skip list)) := by
  induction list using parts_induction (f.is · .comma) generalizing w c front skip with
  | last part hcomma =>
    rw [separate_of_forall hcomma] at hparts
    rw [arrange_last hcomma]
    have hlist : (c p).children = front ++ part ++ [] := by simpa using hlist
    simpa using moveOutputMark_part h htag hopens hlist hcomma (hparts part (by simp))
  | more part comma rest hcomma hc ih =>
    rw [separate_append_cons hcomma hc] at hparts
    have hmark : isMark f comma = false := by
      simp [isMark, isKeyword, is, tag_of_is hc]
    rw [arrange_more hcomma hc, filter_append, filter_cons_of_neg (by simp [hmark]), forM_append]
    refine ends_bind ((moveOutputMark_part h htag hopens (hlist.trans (append_assoc ..).symm) hcomma
      (hparts part (.head _))).imp fun _ w1 h1 => ?_)
    have hfront : (relist (remark c (part.filter (isMark f))) p
        (front ++ lead (isMark f) skip part ++ comma :: rest) p).children =
          front ++ lead (isMark f) skip part ++ [comma] ++ rest := by simp
    refine (ih h1 htag (.later hc) hfront fun part hpart => hparts part (.tail _ hpart)).imp
      fun _ w2 h2 => ?_
    rw [remark_relist] at h2
    simpa using h2

end

/-! ## All lists -/

section

variable {w w' : Workspace} {f g : Forest} {done : List Nat} {p x : Nat}

/-- The node is a list of parameters in the tree. -/
def IsList (f : Forest) (p : Nat) : Prop :=
  f.Under p root ∧ f.is p .ddlParens

/-- The children of a node after its visit. -/
def arranged (f : Forest) (p : Nat) : List Nat :=
  if f.is p .ddlParens then arrange (isMark f) (f.is · .comma) f.isNoise (f.children p)
    else f.children p

/-- What the nodes hold once those in `done` have been visited. -/
def contentAfter (f : Forest) (done : List Nat) (x : Nat) : Node :=
  { f.content x with
    children := if x ∈ done then arranged f x else f.children x
    text := if isMark f x && (f.parent x).any fun p => p ∈ done && f.is p .ddlParens then "out"
      else f.text x }

lemma arranged_perm (f : Forest) (p : Nat) : (arranged f p).Perm (f.children p) := by
  rw [arranged]
  split_ifs
  · exact (arrange_spec ..).2.2
  · exact .refl _

lemma children_of_shows {n : Nat} (h : Shows g n (contentAfter f done)) (x : Nat) :
    g.children x = if x ∈ done then arranged f x else f.children x :=
  h.children x

lemma text_of_shows {n : Nat} (h : Shows g n (contentAfter f done)) (x : Nat) : g.text x =
    if isMark f x && (f.parent x).any fun p => p ∈ done && f.is p .ddlParens then "out"
      else f.text x := by
  rw [Forest.text, h.node_eq]
  rfl

/-- A mark is one still when it has been visited. -/
lemma isMark_of_shows {n : Nat} (h : Shows g n (contentAfter f done)) : isMark g = isMark f := by
  funext x
  change (g.is x .otherKeyword && outputWords.any (Text.sameWord (g.text x))) = _
  rw [is_congr (funext h.tag), text_of_shows h]
  split_ifs with hx
  · have hmark := (Bool.and_eq_true_iff.1 hx).1
    have hout : outputWords.any (Text.sameWord "out") := by decide +kernel
    exact (congrArg₂ and (Bool.and_eq_true_iff.1 hmark).1 hout).trans hmark.symm
  · rfl

/-- What the visit of a list leaves. -/
lemma contentAfter_visit (hf : f.WellFormed) (hp : f.is p .ddlParens) :
    contentAfter f (done ++ [p]) = relist (remark (contentAfter f done)
      ((f.children p).filter (isMark f))) p (arranged f p) := by
  funext x
  have hmem : x ∈ (f.children p).filter (isMark f) ↔ f.parent x = some p ∧ isMark f x := by
    rw [mem_filter, hf.mem_children_iff]
  rw [relist, remark]
  simp only [contentAfter, hmem, mem_append, mem_singleton]
  congr 1
  · cases f.parent x <;> grind
  · grind

/-- The pass arranges all lists in the tree. -/
lemma convertOutputParameters_shows (hw : Whole w)
    (hparts : ∀ p, IsList w.forest p →
      (separate (w.forest.is · .comma) (w.forest.children p)).all (isParameter w.forest)) :
    ∃ w' done, convertOutputParameters w = .ok () w' ∧ Whole w' ∧
      (∀ x, x ∈ done ↔ w.forest.Under x root) ∧
      Shows w'.forest w.forest.size (contentAfter w.forest done) ∧
      ∀ x, w'.forest.parent x = w.forest.parent x := by
  have hf := hw.wellFormed
  refine forEach_shows hw (convertOutputParameters_safe hw) (fun p _ => arranged_perm w.forest p)
    (contentAfter w.forest) ?_ (fun _ _ => rfl) ?_ ?_ ?_ ?_
  · funext x
    simp [contentAfter]
    rfl
  · intro done _ p x
    change x ∈ (if p ∈ done then arranged w.forest p else w.forest.children p) ↔ _
    split_ifs
    · exact (arranged_perm w.forest p).mem_iff
    · rfl
  · intro done id _
    simp [contentAfter]
  · intro done id hkind
    funext x
    simp only [contentAfter, mem_append, mem_singleton]
    congr 1
    · cases w.forest.parent x <;> grind
    · grind [arranged]
  · intro done id v hturn hkind h
    have hfree : id ∉ done := hturn.free id (.refl ..)
    have hchildren : (contentAfter w.forest done id).children = w.forest.children id := by
      simp [contentAfter, hfree]
    have hmarks : (v.forest.children id).filter (v.forest.isKeyword · outputWords) =
        (w.forest.children id).filter (isMark w.forest) := by
      rw [h.children, hchildren, ← isMark_of_shows h]
      rfl
    rw [contentAfter_visit hf hkind]
    refine ends_forest ?_
    rw [hmarks, arranged, if_pos hkind]
    exact moveOutputMark_list h (fun _ => rfl) .first hchildren
      (all_eq_true.1 (hparts id ⟨hturn.under, hkind⟩))

/-- A second visit of all nodes changes nothing. -/
lemma contentAfter_again {n : Nat} {done' : List Nat} (h : Shows g n (contentAfter f done))
    (hparent : ∀ x, g.parent x = f.parent x) (hdone : ∀ x, x ∈ done' ↔ x ∈ done) :
    contentAfter g done' = g.content := by
  have htag : g.tag = f.tag := funext h.tag
  have harranged {x : Nat} (hx : x ∈ done) : arranged g x = g.children x := by
    have hchildren : g.children x = arranged f x := (children_of_shows h x).trans (if_pos hx)
    rw [arranged, hchildren, isMark_of_shows h, is_congr htag, isNoise_congr htag, arranged]
    split_ifs
    · exact arrange_arrange
    · rfl
  funext x
  simp only [contentAfter, hparent, isMark_of_shows h, is_congr htag, hdone]
  congr 1
  · split_ifs with hx
    · exact ((text_of_shows h x).trans (if_pos hx)).symm
    · rfl
  · split_ifs with hx
    · exact harranged hx
    · rfl

/-- Every list of parameters in the tree has its old parameters and commas, with the marks in front;
nothing else is different. -/
structure Led (f g : Forest) : Prop where
  size_eq : g.size = f.size
  node_eq : ∀ x, g.node x = { f.node x with children := g.children x, text := g.text x }
  parts_eq : ∀ p, IsList f p → separate (f.is · .comma) (g.children p) =
    leads (isMark f) f.isNoise (separate (f.is · .comma) (f.children p))
  commas_eq : ∀ p, (g.children p).filter (f.is · .comma) = (f.children p).filter (f.is · .comma)
  text_eq_out : ∀ p, IsList f p → ∀ x ∈ f.children p, isMark f x → g.text x = "out"
  children_eq : ∀ p, ¬ IsList f p → g.children p = f.children p
  text_eq : ∀ x, (∀ p, IsList f p → x ∈ f.children p → isMark f x = false) → g.text x = f.text x

section

variable (hw : Whole w) (hdone : ∀ x, x ∈ done ↔ w.forest.Under x root)
  (h : Shows g w.forest.size (contentAfter w.forest done))
  (hparent : ∀ x, g.parent x = w.forest.parent x)
include hdone h

lemma children_of_isList (hp : IsList w.forest p) : g.children p =
    arrange (isMark w.forest) (w.forest.is · .comma) w.forest.isNoise (w.forest.children p) := by
  rw [children_of_shows h, if_pos ((hdone p).2 hp.1), arranged, if_pos hp.2]

include hw hparent

lemma led_of_shows : Led w.forest g where
  size_eq := h.size_eq
  node_eq x := by
    rw [h.node_eq, hparent, Forest.children, Forest.text, h.node_eq]
    rfl
  parts_eq p hp := by
    rw [children_of_isList hdone h hp]
    exact (arrange_spec ..).1
  commas_eq p := by
    rw [children_of_shows h, arranged]
    split_ifs
    · exact (arrange_spec ..).2.1
    all_goals rfl
  text_eq_out p hp x hx hmark := by
    rw [text_of_shows h]
    simp [hmark, hw.wellFormed.parent_of_mem hx, (hdone p).2 hp.1, hp.2]
  children_eq p hp := by
    rw [children_of_shows h, arranged]
    split_ifs with hmem hkind
    · exact absurd ⟨(hdone p).1 hmem, hkind⟩ hp
    all_goals rfl
  text_eq x hx := by
    rw [text_of_shows h, if_neg]
    intro hvisited
    obtain ⟨hmark, hvisited⟩ := Bool.and_eq_true_iff.1 hvisited
    cases hp : w.forest.parent x with
    | none => simp [hp] at hvisited
    | some p =>
      rw [hp, Option.any_some, Bool.and_eq_true, decide_eq_true_eq, hdone] at hvisited
      simpa [hmark] using hx p hvisited (hw.wellFormed.mem_children_iff.2 hp)

end

end

/-- Output marks go to the front of their parameters, and then stay where they are. -/
theorem outputParameters_led {w : Workspace} (hw : Whole w)
    (hparts : ∀ p, IsList w.forest p →
      (separate (w.forest.is · .comma) (w.forest.children p)).all (isParameter w.forest)) :
    ∃ w', convertOutputParameters w = .ok () w' ∧ Led w.forest w'.forest ∧
      ∃ w'', convertOutputParameters w' = .ok () w'' ∧ w''.forest = w'.forest := by
  obtain ⟨w', done, hrun, hw', hdone, h, hparent⟩ := convertOutputParameters_shows hw hparts
  have hunder (x : Nat) : w'.forest.Under x root ↔ w.forest.Under x root := by
    simp only [Under, hparent]
  have hparts' : ∀ p, IsList w'.forest p →
      (separate (w'.forest.is · .comma) (w'.forest.children p)).all (isParameter w'.forest) := by
    have htag : w'.forest.tag = w.forest.tag := funext h.tag
    refine fun p hp => all_eq_true.2 fun part hpart => ?_
    have hp : IsList w.forest p := ⟨(hunder p).1 hp.1, is_congr htag ▸ hp.2⟩
    rw [is_congr htag, children_of_isList hdone h hp, (arrange_spec ..).1] at hpart
    obtain ⟨part, hmem, skip, rfl⟩ := mem_leads hpart
    rw [isParameter, isMark_of_shows h, isNoise_congr htag, lead_perm.countP_eq, lead_perm.any_eq]
    exact all_eq_true.1 (hparts p hp) part hmem
  obtain ⟨w'', done', hrun', -, hdone', h', -⟩ := convertOutputParameters_shows hw' hparts'
  rw [contentAfter_again h hparent fun x => by rw [hdone', hunder, hdone]] at h'
  exact ⟨w', hrun, led_of_shows hw hdone h hparent, w'', hrun',
    Shows.unique (.refl hw'.wellFormed) h'⟩

open SyntaxTree

/-- Two parameters with a mark at the end. -/
def markedParameters : SyntaxTree :=
  group .root [group .ddlParens [leaf .whiteSpace " ", leaf .otherNode "@a",
    leaf .dataTypeKeyword "int",
    leaf .otherKeyword "output", leaf .comma ",", leaf .otherNode "@b", leaf .otherKeyword "out"]]

theorem outputParameters_led_markedParameters :
    let w : Workspace := { forest := ofTree markedParameters }
    Whole w ∧ (∀ p, IsList w.forest p →
      (separate (w.forest.is · .comma) (w.forest.children p)).all (isParameter w.forest)) ∧
      ∃ w', convertOutputParameters w = .ok () w' ∧ w'.forest.text 5 = "out" ∧
        separate (w.forest.is · .comma) (w'.forest.children 1) = [[2, 5, 3, 4], [8, 7]] := by
  intro w
  have hw : Whole w := whole_ofTree _
  have hparts : ∀ p, IsList w.forest p →
      (separate (w.forest.is · .comma) (w.forest.children p)).all (isParameter w.forest) := by
    intro p hp
    have hlt : p < w.forest.size := by
      by_contra hle
      rw [IsList, is, tag_of_size_le (Nat.le_of_not_lt hle)] at hp
      exact absurd hp.2 (by decide)
    have hall : ∀ p < w.forest.size, w.forest.is p .ddlParens →
        (separate (w.forest.is · .comma) (w.forest.children p)).all (isParameter w.forest) := by
      decide +kernel
    exact hall p hlt hp.2
  have hlist : IsList w.forest 1 := ⟨under_of_parent (by decide +kernel), by decide +kernel⟩
  obtain ⟨w', hrun, hled, -⟩ := outputParameters_led hw hparts
  refine ⟨hw, hparts, w', hrun, hled.text_eq_out 1 hlist 5 (by decide +kernel) (by decide +kernel),
    ?_⟩
  rw [hled.parts_eq 1 hlist]
  decide +kernel

end SqlDialect.ProcedureCall
