import SqlDialect.Proofs.Conversion.Preorder
import SqlDialect.Proofs.SyntaxTree.Parts
import SqlDialect.Proofs.Text.Lowercase

/-!
# What renaming touches

The pass that writes names in snake case changes texts and nothing else, and of the texts only those
of names.  A node is a name by its kind, or by its text: any node that spells one of the keywords
that may name a column counts as one.  So a literal or a comment keeps its text unless that text is
such a keyword written with a capital letter.

Afterwards the identifiers of the tree hold no marks of variables and no capital letters of ASCII:
`plainName` writes neither.
-/

namespace SqlDialect

open List

variable {c d : Char} {ids : List NodeId} {text : String}

/-! ## The letters of a name -/

namespace Text

lemma isUpper_iff : c.isUpper = true ↔ 65 ≤ c.toNat ∧ c.toNat ≤ 90 := by
  have hbounds : c.isUpper = decide ('A'.val ≤ c.val ∧ c.val ≤ 'Z'.val) := rfl
  rw [hbounds, decide_eq_true_iff, UInt32.le_iff_toNat_le, UInt32.le_iff_toNat_le]
  rfl

lemma isUpper_toLower (c : Char) : c.toLower.isUpper = false := by
  by_cases hupper : c.isUpper = true
  · obtain ⟨hle, hlt⟩ := isUpper_iff.1 hupper
    have hletter := (capital_toLower ⟨c.toNat, Nat.lt_succ_of_le hlt⟩ hle).2.2.2.2
    rwa [Char.ofNat_toNat] at hletter
  · obtain hsame | ⟨n, hn, rfl⟩ := toLower_eq_self_or c
    · rw [hsame]
      exact Bool.eq_false_iff.2 hupper
    · exact (capital_toLower n hn).2.2.2.2

lemma isUpper_ofNat_of_lt {n : Nat} (hn : 90 < n) : (Char.ofNat n).isUpper = false := by
  by_cases hvalid : n.isValidChar
  · have hvalue : Char.ofNat n = Char.ofNatAux n hvalid := dif_pos hvalid
    rw [hvalue, Bool.eq_false_iff]
    intro hupper
    have hbounds : n ≤ 90 := (isUpper_iff.1 hupper).2
    omega
  · have hvalue : Char.ofNat n = '\x00' := dif_neg hvalid
    rw [hvalue]
    decide

lemma isUpper_of_mem_lowerChar (h : d ∈ lowerChar c) : d.isUpper = false := by
  rw [lowerChar] at h
  split at h
  · rw [mem_singleton.1 h]
    exact isUpper_toLower c
  · rename_i hascii
    split at h
    · have hdotted : ['i', Char.ofNat 0x0307].all (fun c => !c.isUpper) = true := by decide
      simpa using all_eq_true.1 hdotted d h
    · split at h
      · rename_i row target hfind
        rw [mem_singleton.1 h]
        have htarget := all_eq_true.1 lowerTable_targets _ (mem_of_find?_eq_some hfind)
        exact isUpper_ofNat_of_lt ((of_decide_eq_true htarget).trans_le (Nat.le_add_right _ _))
      · rw [mem_singleton.1 h, Bool.eq_false_iff]
        intro hupper
        have hbounds := isUpper_iff.1 hupper
        simp only [isAscii, decide_eq_true_eq, not_lt] at hascii
        omega

lemma mem_snakeFrom : ∀ {prev : Option Char} {cs : List Char}, d ∈ snakeFrom prev cs →
    d = '_' ∨ ∃ c ∈ cs, d ∈ lowerChar c
  | _, [], h => by cases h
  | prev, c :: cs, h => by
    unfold snakeFrom at h
    rw [append_assoc, mem_append, mem_append] at h
    rcases h with hmark | hchar | hrest
    · have hunderscore (opens : Bool) : d ∈ (if opens then ['_'] else []) → d = '_' := by
        cases opens <;> simp
      exact .inl (hunderscore _ hmark)
    · exact .inr ⟨c, mem_cons_self, hchar⟩
    · obtain hmark | ⟨c', hc', hd⟩ := mem_snakeFrom hrest
      · exact .inl hmark
      · exact .inr ⟨c', mem_cons_of_mem _ hc', hd⟩

lemma isUpper_of_mem_snakeCase (h : d ∈ (snakeCase text).toList) : d.isUpper = false := by
  rw [snakeCase, String.toList_ofList] at h
  obtain rfl | ⟨c, -, hd⟩ := mem_snakeFrom h
  · decide
  · exact isUpper_of_mem_lowerChar hd

end Text

namespace Wording

open Conversion Forest

/-- Identifiers hold no mark of a variable or a temporary table and no capital letter of ASCII. -/
lemma plain_of_mem_plainName (h : c ∈ (plainName text).toList) :
    c ≠ '@' ∧ c ≠ '#' ∧ c.isUpper = false := by
  rw [plainName, String.toList_ofList] at h
  obtain ⟨d, hd, rfl⟩ := mem_map.1 h
  rw [plainNameChar]
  split
  · decide
  · rename_i hmark
    rw [Bool.or_eq_true, not_or, beq_iff_eq, beq_iff_eq] at hmark
    exact ⟨hmark.1, hmark.2, Text.isUpper_of_mem_snakeCase hd⟩

/-! ## The pass -/

section

variable {f g : Forest} {w : Workspace} {id x : Nat}

/-- A node as it is after its name, if it is one, has been rewritten. -/
def renamed (f : Forest) (id : NodeId) : Node :=
  if f.isName id then { f.node id with text := nameText f id } else f.node id

/-- The names among some nodes have been rewritten. -/
structure Renamed (f : Forest) (ids : List NodeId) (g : Forest) : Prop where
  size_eq : g.size = f.size
  node_eq : ∀ id, g.node id = if id ∈ ids then renamed f id else f.node id

/-- What a node is called depends on the node alone. -/
lemma isName_congr (h : g.node id = f.node id) : g.isName id = f.isName id := by
  have hwords : g.hasText id = f.hasText id := by
    funext word
    rw [hasText, hasText, text, text, h]
  rw [isName, isName, hwords, is, is, is, is, tag, tag, h]

lemma nameText_congr (h : g.node id = f.node id) : nameText g id = nameText f id := by
  rw [nameText, nameText, tag, text, tag, text, h]

/-- The next node is rewritten as it was found at first. -/
lemma Renamed.step {done : List NodeId} (h : Renamed f done g) (hnew : id ∉ done)
    (hid : id < f.size) :
    Renamed f (done ++ [id]) (if g.isName id then g.setText id (nameText g id) else g) := by
  have hnode : g.node id = f.node id := by rw [h.node_eq, if_neg hnew]
  rw [isName_congr hnode, nameText_congr hnode]
  split
  · rename_i hname
    refine ⟨by rw [Forest.setText, size_update, h.size_eq], fun x => ?_⟩
    rw [Forest.setText, node_update, h.size_eq]
    by_cases hx : x = id
    · rw [if_pos ⟨hx, hx ▸ hid⟩, if_pos (by simp [hx]), hx, hnode, renamed, if_pos hname]
    · rw [if_neg fun hboth => hx hboth.1, h.node_eq]
      simp [hx]
  · rename_i hname
    refine ⟨h.size_eq, fun x => ?_⟩
    rw [h.node_eq]
    by_cases hx : x = id
    · rw [hx, if_neg hnew, if_pos (by simp), renamed, if_neg hname]
    · simp [hx]

/-- The pass rewrites the names below the root. -/
lemma renameIdentifiers_renamed (hf : w.forest.WellFormed) :
    Succeeds renameIdentifiers w fun _ w' =>
      w'.notes = w.notes ∧ Renamed w.forest (w.forest.descendants root) w'.forest := by
  refine ends_forest (ends_forM (fun rest w' => w'.notes = w.notes ∧ ∃ done,
    w.forest.descendants root = done ++ rest ∧ Renamed w.forest done w'.forest)
    ⟨rfl, [], rfl, rfl, fun _ => by simp⟩ ?_ ?_)
  · rintro id rest w' ⟨hnotes, done, hsplit, hdone⟩
    have hnodup : (done ++ id :: rest).Nodup := hsplit ▸ (hf.nodup_preorder root).of_cons
    have hnew : id ∉ done := fun hmem =>
      (nodup_append.1 hnodup).2.2 id hmem id (.head _) rfl
    have hid : id < w.forest.size :=
      (hf.mem_descendants_iff.1 (by rw [hsplit]; simp)).lt_size
    have hstep := hdone.step hnew hid
    have hsplit' : w.forest.descendants root = (done ++ [id]) ++ rest := by simp [hsplit]
    refine ends_forest (ends_ite (fun hname => ?_) fun hname => ?_)
    · rw [if_pos hname] at hstep
      exact ends_edit ⟨hnotes, done ++ [id], hsplit', hstep⟩
    · rw [if_neg hname] at hstep
      exact ends_pure ⟨hnotes, done ++ [id], hsplit', hstep⟩
  · rintro w' ⟨hnotes, done, hsplit, hdone⟩
    rw [append_nil] at hsplit
    exact ⟨hnotes, hsplit ▸ hdone⟩

/-- Only the text of a node can be another one. -/
lemma Renamed.sameButText (h : Renamed f ids g) (id : NodeId) :
    g.tag id = f.tag id ∧ g.attributes id = f.attributes id ∧ g.children id = f.children id ∧
      g.parent id = f.parent id := by
  rw [tag, attributes, children, parent, h.node_eq, renamed]
  split
  · split <;> exact ⟨rfl, rfl, rfl, rfl⟩
  · exact ⟨rfl, rfl, rfl, rfl⟩

/-- The text of a node that is among those to be renamed and is a name. -/
lemma Renamed.text_of_name (h : Renamed f ids g) (hid : id ∈ ids)
    (hname : f.isName id = true) : g.text id = nameText f id := by
  rw [text, h.node_eq, if_pos hid, renamed, if_pos hname]

lemma Renamed.node_of_not (h : Renamed f ids g)
    (hnot : ¬ (id ∈ ids ∧ f.isName id = true)) : g.node id = f.node id := by
  rw [h.node_eq]
  split
  · rename_i hid
    rw [renamed, if_neg fun hname => hnot ⟨hid, hname⟩]
  · rfl

/-- Kinds whose text is data or layout: literals, comments and white space. -/
def dataTags : List Tag :=
  [.string, .nString, .quotedString, .numberValue, .commentSingleLine, .commentSingleLineCStyle,
    .commentMultiLine, .whiteSpace]

/-- The text spells a keyword that may name a column, with a capital letter in it. -/
def IsCapitalisedKeyword (text : String) : Prop :=
  ∃ word ∈ namingKeywords, Text.sameWord text word ∧ text ≠ word

lemma ne_of_mem_dataTags {tag : Tag} (htag : tag ∈ dataTags) :
    tag ≠ .otherNode ∧ tag ≠ .bracketQuotedName := by
  constructor <;> rintro rfl <;> simp [dataTags] at htag

lemma isName_of_dataTag (htag : f.tag id ∈ dataTags) :
    f.isName id = true ↔ ∃ word ∈ namingKeywords, Text.sameWord (f.text id) word := by
  obtain ⟨hother, hquoted⟩ := ne_of_mem_dataTags htag
  rw [isName, is, is, beq_false_of_ne hother, beq_false_of_ne hquoted, Bool.or_self, Bool.false_or,
    any_eq_true]
  rfl

lemma nameText_of_dataTag (htag : f.tag id ∈ dataTags) :
    nameText f id = Text.lowercase (f.text id) := by
  obtain ⟨hother, hquoted⟩ := ne_of_mem_dataTags htag
  rw [nameText]
  split
  · rename_i heq
    exact absurd heq hother
  · rename_i heq
    exact absurd heq hquoted
  · rfl

/-- A literal, a comment or white space is rewritten exactly if it spells a naming keyword with a
capital letter; it becomes the keyword. -/
lemma Renamed.text_of_dataTag (h : Renamed f ids g) (htag : f.tag id ∈ dataTags) :
    (g.text id ≠ f.text id ↔ id ∈ ids ∧ IsCapitalisedKeyword (f.text id)) ∧
      (g.text id = f.text id ∨ g.text id = Text.lowercase (f.text id)) := by
  by_cases hnamed : id ∈ ids ∧ f.isName id = true
  · have htext := h.text_of_name hnamed.1 hnamed.2
    rw [nameText_of_dataTag htag] at htext
    obtain ⟨word, hword, hsame⟩ := (isName_of_dataTag htag).1 hnamed.2
    refine ⟨?_, .inr htext⟩
    rw [htext, Text.lowercase_of_namingKeyword hword hsame]
    constructor
    · exact fun hne => ⟨hnamed.1, word, hword, hsame, hne.symm⟩
    · rintro ⟨-, word', hword', hsame', hne⟩ heq
      have hword'' := Text.lowercase_of_namingKeyword hword' hsame'
      rw [Text.lowercase_of_namingKeyword hword hsame] at hword''
      exact hne (heq.symm.trans hword'')
  · have htext : g.text id = f.text id := by rw [text, h.node_of_not hnamed, text]
    refine ⟨⟨fun hne => absurd htext hne, ?_⟩, .inl htext⟩
    rintro ⟨hid, word, hword, hsame, -⟩
    exact absurd ⟨hid, (isName_of_dataTag htag).2 ⟨word, hword, hsame⟩⟩ hnamed

lemma Renamed.plain_of_mem (h : Renamed f ids g) (hid : id ∈ ids)
    (htag : f.tag id = .otherNode ∨ f.tag id = .bracketQuotedName)
    (hc : c ∈ (g.text id).toList) : c ≠ '@' ∧ c ≠ '#' ∧ c.isUpper = false := by
  have hname : f.isName id = true := by
    rcases htag with htag | htag <;> simp [isName, is, htag]
  have htext : g.text id = plainName (f.text id) := by
    rw [h.text_of_name hid hname, nameText]
    rcases htag with htag | htag <;> rw [htag]
  exact plain_of_mem_plainName (htext ▸ hc)

end

/-- The pass succeeds. It leaves alone what is no name below the root, and of names all but their
texts. Literals, comments and white space that spell a naming keyword with a capital letter are put
in lower case, all others stay; and identifiers end up without variable marks and capital
letters. -/
theorem renameIdentifiers_texts {w : Workspace} (hf : w.forest.WellFormed) :
    ∃ w', renameIdentifiers w = .ok () w' ∧ w'.notes = w.notes ∧ w'.forest.size = w.forest.size ∧
      (∀ id, w'.forest.tag id = w.forest.tag id ∧
        w'.forest.attributes id = w.forest.attributes id ∧
        w'.forest.children id = w.forest.children id ∧ w'.forest.parent id = w.forest.parent id) ∧
      (∀ id, ¬ (w.forest.Below id root ∧ w.forest.isName id = true) →
        w'.forest.text id = w.forest.text id) ∧
      (∀ id, w.forest.tag id ∈ dataTags →
        (w'.forest.text id ≠ w.forest.text id ↔
          w.forest.Below id root ∧ IsCapitalisedKeyword (w.forest.text id)) ∧
        (w'.forest.text id = w.forest.text id ∨
          w'.forest.text id = Text.lowercase (w.forest.text id))) ∧
      ∀ id, w.forest.Below id root →
        w.forest.tag id = .otherNode ∨ w.forest.tag id = .bracketQuotedName →
          ∀ c ∈ (w'.forest.text id).toList, c ≠ '@' ∧ c ≠ '#' ∧ c.isUpper = false := by
  obtain ⟨_, w', hrun, hnotes, hrenamed⟩ := (renameIdentifiers_renamed hf).exists_ok
  have hbelow (id : Nat) : id ∈ w.forest.descendants root ↔ w.forest.Below id root :=
    hf.mem_descendants_iff
  refine ⟨w', hrun, hnotes, hrenamed.size_eq, hrenamed.sameButText, ?_, ?_, ?_⟩
  · intro id hnot
    have hnode := hrenamed.node_of_not (mt (And.imp_left (hbelow id).1) hnot)
    rw [text, hnode, text]
  · intro id htag
    rw [← hbelow id]
    exact hrenamed.text_of_dataTag htag
  · intro id hid htag c hc
    exact hrenamed.plain_of_mem ((hbelow id).2 hid) htag hc

/-! ## A literal that is taken for a name -/

open SyntaxTree in
/-- `select 'text', @UserId`, with a literal of the given text. -/
def selectLiteral (text : String) : SyntaxTree :=
  group .root [asStatement [keyword "select", .node .string text .empty [],
    .node .comma "," .empty [], .node .otherNode "@UserId" .empty []]]

theorem renameIdentifiers_texts_selectLiteral :
    (ofTree (selectLiteral "Value")).WellFormed ∧
      ∃ w', renameIdentifiers { forest := ofTree (selectLiteral "Value") } = .ok () w' ∧
        w'.forest.text 4 ≠ "Value" := by
  have hf := wellFormed_ofTree (selectLiteral "Value")
  obtain ⟨w', hrun, -, -, -, -, hdata, -⟩ :=
    renameIdentifiers_texts (w := { forest := ofTree (selectLiteral "Value") }) hf
  refine ⟨hf, w', hrun, ((hdata 4 (by decide)).1).2 ⟨?_, "value", by decide, ?_, by decide⟩⟩
  · exact hf.mem_descendants_iff.1 (by decide)
  · exact Text.sameWord_iff.2 (by decide)

/-- The pass that renames identifiers. -/
def namePasses : List Pass :=
  ["names"].filterMap standardPass?

lemma namePasses_eq : namePasses = [⟨"names", renameIdentifiers⟩] := by
  rfl

/-- The literal `'Value'` is written in lower case, as if it were a name. -/
theorem runPasses_selectLiteral :
    (ofTree (selectLiteral "Value")).tag 4 = .string ∧
      (ofTree (selectLiteral "Value")).text 4 = "Value" ∧
      ∃ w, runPasses namePasses { forest := ofTree (selectLiteral "Value") } = .ok w ∧
        w.forest.text 4 = "value" := by
  have hf := wellFormed_ofTree (selectLiteral "Value")
  have htag : (ofTree (selectLiteral "Value")).tag 4 ∈ dataTags := by decide
  have htext : (ofTree (selectLiteral "Value")).text 4 = "Value" := by decide
  have hkeyword : Text.sameWord ((ofTree (selectLiteral "Value")).text 4) "value" :=
    Text.sameWord_iff.2 (by decide)
  have hname := (isName_of_dataTag htag).2 ⟨"value", by decide, hkeyword⟩
  obtain ⟨_, w, hrun, -, hrenamed⟩ :=
    (renameIdentifiers_renamed (w := { forest := ofTree (selectLiteral "Value") }) hf).exists_ok
  refine ⟨by decide, htext, w, ?_, ?_⟩
  · rw [namePasses_eq]
    exact runPasses_of_ok hrun
  · rw [hrenamed.text_of_name (by decide) hname, nameText_of_dataTag htag]
    exact Text.lowercase_of_namingKeyword (by decide) hkeyword

end Wording

end SqlDialect
