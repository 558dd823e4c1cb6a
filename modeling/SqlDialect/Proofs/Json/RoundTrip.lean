import SqlDialect.Json.Reader
import SqlDialect.Json.Writer
import SqlDialect.Proofs.Sexpr.RoundTrip

/-!
# JSON documents of trees

The reader takes what the writer makes of a tree, unless brackets nest too deep in it
(`read?_write`).  Strings, attributes and the members of a node are undone one by one; the lists
between brackets go through one lemma (`parts_items`), which needs to know only what the reader does
about a single item.

A node takes two levels of brackets, its own and that of its children, and its attributes take one
level inside of its own.  `SyntaxTree.fitsWithin` counts them off; in node levels it says that there
are at most 64 and that the nodes of the last have no attributes (`fitsWithin_maxNesting`).
-/

namespace SqlDialect

open List

variable {children trees : List SyntaxTree} {c : Char} {attributes : Dict String}

/-! ## How deep a document nests -/

namespace SyntaxTree

/-- The brackets of the document of a tree nest at most `room` deep. -/
def fitsWithin : Nat → SyntaxTree → Bool
  | 0, _ => false
  | 1, .node _ _ attributes children => attributes.isEmpty && children.isEmpty
  | room + 2, .node _ _ _ children => children.all (fitsWithin room)

mutual

/-- The nodes so many levels below the top have no attributes. -/
def BareAt : Nat → SyntaxTree → Prop
  | 0, .node _ _ attributes _ => attributes.isEmpty
  | level + 1, .node _ _ _ children => BareAllAt level children

/-- The nodes so many levels below the tops of the trees have no attributes. -/
def BareAllAt (level : Nat) : List SyntaxTree → Prop
  | [] => True
  | tree :: rest => BareAt level tree ∧ BareAllAt level rest

end

end SyntaxTree

namespace Json

open Text (Reader hexDigit?)
open Sexpr (chars)

/-! ## Blanks and strings -/

lemma skipSpaces_append {blanks : List Char} (hblanks : ∀ c ∈ blanks, isSpace c) (cs : List Char) :
    skipSpaces (blanks ++ cs) = skipSpaces cs :=
  dropWhile_append_of_pos hblanks

lemma expect_append {blanks : List Char} (hblanks : ∀ c ∈ blanks, isSpace c) (c : Char)
    (cs : List Char) : expect c (blanks ++ cs) = expect c cs := by
  rw [expect, skipSpaces_append hblanks, expect]

lemma skipSpaces_cons (hc : isSpace c = false) (cs : List Char) :
    skipSpaces (c :: cs) = c :: cs := by
  rw [skipSpaces, dropWhile_cons_of_neg (by simp [hc])]

lemma expect_cons (hc : isSpace c = false) (cs : List Char) : expect c (c :: cs) = some cs := by
  rw [expect, skipSpaces_cons hc]
  simp

lemma isSpace_blank : ∀ c ∈ [' '], isSpace c := by
  simp [isSpace]

lemma isSpace_newLine (level : Nat) : ∀ c ∈ (newLine level).toList, isSpace c := by
  rw [newLine, String.toList_ofList]
  refine forall_mem_cons.2 ⟨rfl, fun c hc => ?_⟩
  rw [eq_of_mem_replicate hc]
  rfl

lemma hexDigit?_hexChar : ∀ n < 16, hexDigit? (hexChar n) = some n := by
  decide

/-- Each character is read back from its escape. -/
lemma stringRest_escapeChar (fuel : Nat) (done : List Char) (c : Char) (cs : List Char) :
    stringRest (fuel + 1) done (escapeChar c ++ cs) = stringRest fuel (c :: done) cs := by
  rw [escapeChar]
  split_ifs with hquote hbackslash hback hform hfeed hreturn htab hcontrol
  · simp [stringRest, escapeLetter?, eq_of_beq hquote]
  · simp [stringRest, escapeLetter?, eq_of_beq hbackslash]
  · obtain rfl : c = Char.ofNat 8 := by rw [← eq_of_beq hback, Char.ofNat_toNat]
    simp [stringRest, escapeLetter?]
  · obtain rfl : c = Char.ofNat 12 := by rw [← eq_of_beq hform, Char.ofNat_toNat]
    simp [stringRest, escapeLetter?]
  · simp [stringRest, escapeLetter?, eq_of_beq hfeed]
  · simp [stringRest, escapeLetter?, eq_of_beq hreturn]
  · simp [stringRest, escapeLetter?, eq_of_beq htab]
  · have hunit : hexUnit ('0' :: '0' :: hexChar (c.toNat / 16) :: hexChar (c.toNat % 16) :: cs) =
        some (c.toNat, cs) := by
      have hzero : hexDigit? '0' = some 0 := rfl
      simp only [hexUnit, hzero, hexDigit?_hexChar _ (show c.toNat / 16 < 16 by omega),
        hexDigit?_hexChar _ (show c.toNat % 16 < 16 by omega), Option.bind_eq_bind,
        Option.bind_some, Option.some.injEq, Prod.mk.injEq, and_true]
      omega
    have hlow : isLowSurrogate c.toNat = false := by simp [isLowSurrogate]; omega
    have hhigh : isHighSurrogate c.toNat = false := by simp [isHighSurrogate]; omega
    simp [stringRest, unicodeEscape, hunit, hlow, hhigh, Char.ofNat_toNat]
  · have hplain : isControl c = false := by simpa [isControl] using hcontrol
    have hnot : c ≠ '\\' := by simpa using hbackslash
    have hquote : c ≠ '"' := by simpa using hquote
    simp [stringRest, hplain, hnot]

lemma stringRest_escape (text cs : List Char) : ∀ (fuel : Nat) (done : List Char),
    text.length < fuel →
      stringRest fuel done (text.flatMap escapeChar ++ '"' :: cs) =
        some (String.ofList (done.reverse ++ text), cs) := by
  induction text with
  | nil =>
    intro fuel done hfuel
    obtain ⟨fuel, rfl⟩ : ∃ n, fuel = n + 1 := ⟨fuel - 1, by omega⟩
    simp [stringRest]
  | cons c text ih =>
    intro fuel done hfuel
    rw [length_cons] at hfuel
    obtain ⟨fuel, rfl⟩ : ∃ n, fuel = n + 1 := ⟨fuel - 1, by omega⟩
    rw [flatMap_cons, append_assoc, stringRest_escapeChar, ih fuel _ (by omega)]
    simp

/-- What is written of items is no shorter than their number, if none is written as nothing. -/
lemma length_le_length_flatMap {γ : Type} {text : γ → List Char} (hne : ∀ item, text item ≠ [])
    (items : List γ) : items.length ≤ (items.flatMap text).length := by
  induction items with
  | nil => simp
  | cons item items ih =>
    have hpos := length_pos_of_ne_nil (hne item)
    rw [flatMap_cons, length_append, length_cons]
    omega

lemma escapeChar_ne_nil (c : Char) : escapeChar c ≠ [] := by
  rw [escapeChar]
  split_ifs <;> simp

lemma toList_quoted (text : String) :
    (quoted text).toList = '"' :: (text.toList.flatMap escapeChar ++ ['"']) := by
  rw [quoted, String.toList_ofList]

/-- A string is read back, with blanks before it. -/
lemma string_quoted {blanks : List Char} (hblanks : ∀ c ∈ blanks, isSpace c) (text : String)
    (cs : List Char) : string (blanks ++ ((quoted text).toList ++ cs)) = some (text, cs) := by
  have hlength := length_le_length_flatMap escapeChar_ne_nil text.toList
  rw [string, expect_append hblanks, toList_quoted, cons_append, expect_cons rfl]
  simp only [append_assoc, singleton_append]
  rw [stringRest_escape _ _ _ _ (by simp only [length_append, length_cons]; omega)]
  simp

lemma string_blank_quoted (text : String) (cs : List Char) :
    string (' ' :: ((quoted text).toList ++ cs)) = some (text, cs) := by
  rw [← singleton_append, string_quoted isSpace_blank]

/-! ## Items between brackets -/

section Items

variable {σ γ : Type} {close : Char} {part : σ → Reader σ} {text : γ → List Char}
  {step : σ → γ → Option σ} {blanks : List Char}

/-- A list of items is read as its items are, if the reader of an item stops at its end. -/
lemma partsRest_items (hclose : isSpace close = false) (hcomma : close ≠ ',')
    (hblanks : ∀ c ∈ blanks, isSpace c) (cs : List Char) :
    ∀ (items : List γ) (fuel : Nat) (state : σ), items.length < fuel →
    (∀ item ∈ items, ∀ state cs, part state (text item ++ cs) = (step state item).map (·, cs)) →
    partsRest close part fuel state
        (items.flatMap (fun item => ',' :: text item) ++ (blanks ++ close :: cs)) =
      (items.foldlM step state).map (·, cs)
  | [], fuel, state, hfuel, _ => by
    obtain ⟨fuel, rfl⟩ : ∃ n, fuel = n + 1 := ⟨fuel - 1, by omega⟩
    simp [partsRest, skipSpaces_append hblanks, skipSpaces_cons hclose]
  | item :: items, fuel, state, hfuel, hpart => by
    rw [length_cons] at hfuel
    obtain ⟨fuel, rfl⟩ : ∃ n, fuel = n + 1 := ⟨fuel - 1, by omega⟩
    have hitem := hpart item (.head _) state
    rw [flatMap_cons, cons_append, cons_append, append_assoc, partsRest,
      skipSpaces_cons rfl]
    simp only [beq_iff_eq, hcomma.symm, if_false, BEq.rfl, if_true, hitem, foldlM_cons]
    cases step state item with
    | none => rfl
    | some state =>
      exact partsRest_items hclose hcomma hblanks cs items fuel state (by omega)
        fun item h => hpart item (.tail _ h)

lemma parts_items {first : γ} {items : List γ} {tail : List Char} (close : Char)
    (text : γ → List Char) (hclose : isSpace close = false) (hcomma : close ≠ ',')
    (hblanks : ∀ c ∈ blanks, isSpace c)
    (hfirst : skipSpaces (text first) = c :: tail) (hc : c ≠ close)
    (hpart : ∀ item ∈ first :: items, ∀ state cs,
      part state (text item ++ cs) = (step state item).map (·, cs)) (state : σ) (cs : List Char) :
    parts close part state (text first ++
        (items.flatMap (fun item => ',' :: text item) ++ (blanks ++ close :: cs))) =
      ((first :: items).foldlM step state).map (·, cs) := by
  have hskip : ∀ more, skipSpaces (text first ++ more) = c :: (tail ++ more) := fun more => by
    rw [skipSpaces] at hfirst ⊢
    rw [dropWhile_append, hfirst]
    rfl
  have hlength : items.length ≤ (items.flatMap fun item => ',' :: text item).length :=
    length_le_length_flatMap (fun _ => cons_ne_nil _ _) items
  rw [parts, hskip]
  simp only [beq_iff_eq, hc, if_false, hpart first mem_cons_self, foldlM_cons]
  cases step state first with
  | none => rfl
  | some state =>
    exact partsRest_items hclose hcomma hblanks cs items _ state
      (by simp only [length_append]; omega)
      fun item h => hpart item (.tail _ h)

end Items

/-! ## Members -/

/-- A member after the comma that ends the member before it. -/
def memberChars (level : Nat) (key : String) (value : List Char) : List Char :=
  (newLine level).toList ++ ((quoted key).toList ++ ':' :: ' ' :: value)

lemma skipSpaces_memberChars (level : Nat) (key : String) (value : List Char) :
    ∃ tail, skipSpaces (memberChars level key value) = '"' :: tail := by
  rw [memberChars, skipSpaces_append (isSpace_newLine level), toList_quoted, cons_append]
  exact ⟨_, skipSpaces_cons rfl _⟩

/-- An object is read as the values of its members are. -/
lemma members_items {σ γ : Type} {member : String → σ → Reader σ} (level outer : Nat)
    {key : γ → String} {value : γ → List Char} {step : σ → γ → Option σ} {first : γ}
    {items : List γ} (hmember : ∀ item ∈ first :: items, ∀ state cs,
      member (key item) state (' ' :: (value item ++ cs)) = (step state item).map (·, cs))
    (state : σ) (cs : List Char) :
    members member state (memberChars level (key first) (value first) ++
        (items.flatMap (fun item => ',' :: memberChars level (key item) (value item)) ++
          ((newLine outer).toList ++ '\x7d' :: cs))) =
      ((first :: items).foldlM step state).map (·, cs) := by
  obtain ⟨tail, htail⟩ := skipSpaces_memberChars level (key first) (value first)
  refine parts_items '\x7d' (fun item => memberChars level (key item) (value item)) rfl (by decide)
    (isSpace_newLine outer) htail (by decide) (fun item hitem state cs => ?_) state cs
  have hcolon : ∀ more, expect ':' (':' :: more) = some more := expect_cons rfl
  rw [← hmember item hitem, memberChars, append_assoc, append_assoc,
    string_quoted (isSpace_newLine level)]
  simp [hcolon]

lemma intercalate_cons (first : List Char) (items : List (List Char)) :
    [','].intercalate (first :: items) = first ++ items.flatMap (',' :: ·) := by
  induction items generalizing first with
  | nil => simp
  | cons next items ih =>
    rw [intercalate_cons_cons, ih]
    simp

/-- Attributes are read back, if another level of brackets may open. -/
lemma readAttributes_writeAttributes (room level : Nat)
    (hne : attributes.isEmpty = false) (cs : List Char) :
    readAttributes room (' ' :: (chars (writeAttributes level attributes) ++ cs)) =
      if room = 0 then none else some (attributes, cs) := by
  obtain ⟨first, entries, hentries⟩ : ∃ first entries, attributes.entries = first :: entries :=
    exists_cons_of_ne_nil fun h => by simp [Dict.isEmpty, h] at hne
  let value (entry : String × String) : List Char := (quoted entry.2).toList
  have hchars : ' ' :: (chars (writeAttributes level attributes) ++ cs) = [' '] ++ '\x7b' ::
      (memberChars (level + 1) first.1 (value first) ++
        (entries.flatMap (fun entry => ',' :: memberChars (level + 1) entry.1 (value entry)) ++
          ((newLine level).toList ++ '\x7d' :: cs))) := by
    simp [chars, writeAttributes, hentries, String.toList_intercalate, intercalate_cons,
      flatMap_map, value, memberChars]
  have hfold : (first :: entries).foldlM
      (fun (state : Dict String) entry => some (state.insert entry.1 entry.2)) .empty =
        some attributes := by
    rw [← Dict.ofList_entries attributes, hentries, Dict.ofList]
    exact foldlM_pure
  rw [hchars, readAttributes, expect_append isSpace_blank, expect_cons rfl, Option.bind_eq_bind,
    Option.bind_some, members_items (level + 1) level ?hmember, hfold]
  case hmember =>
    intro entry _ state cs
    simp [value, string_blank_quoted]
  by_cases hroom : room = 0 <;> simp [hroom]

/-! ## Nodes -/

/-- A member of a node. -/
inductive Member where
  | ofTag (tag : Tag)
  | ofText (text : String)
  | ofAttributes (attributes : Dict String)
  | ofChildren (children : List SyntaxTree)

namespace Member

def key : Member → String
  | .ofTag _ => "tag"
  | .ofText _ => "text"
  | .ofAttributes _ => "attributes"
  | .ofChildren _ => "children"

/-- What is written after the key, where members stand at the given level. -/
def value (level : Nat) : Member → List Char
  | .ofTag tag => (quoted tag.name).toList
  | .ofText text => (quoted text).toList
  | .ofAttributes attributes => chars (writeAttributes level attributes)
  | .ofChildren children => '[' :: ([','].intercalate (children.map fun child =>
      (newLine (level + 1)).toList ++ chars (writePieces (level + 1) child)) ++
        ((newLine level).toList ++ [']']))

/-- A member other than the first is not empty. -/
def Filled : Member → Prop
  | .ofTag _ => True
  | .ofText text => text.isEmpty = false
  | .ofAttributes attributes => attributes.isEmpty = false
  | .ofChildren children => children ≠ []

/-- The members of a node after the first. -/
def others (text : String) (attributes : Dict String) (children : List SyntaxTree) : List Member :=
  (if text.isEmpty then [] else [.ofText text]) ++
    (if attributes.isEmpty then [] else [.ofAttributes attributes]) ++
      (if children.isEmpty then [] else [.ofChildren children])

lemma filled_of_mem_others {text : String}
    {item : Member} (h : item ∈ others text attributes children) : item.Filled := by
  simp only [others, mem_append, or_assoc] at h
  rcases h with h | h | h <;> split_ifs at h with hempty <;> simp at h <;> subst h
  · simpa [Filled] using hempty
  · simpa [Filled] using hempty
  · simpa [Filled] using hempty

/-- The parts of a node with a member set, if this does not nest too deep: `room` levels may still
open, and `fits` says which children leave it at that. -/
def set (room : Nat) (fits : SyntaxTree → Bool) (parts : NodeParts) : Member → Option NodeParts
  | .ofTag tag => (setOnce parts.tag tag).map fun tag => { parts with tag }
  | .ofText text => (setOnce parts.text text).map fun text => { parts with text }
  | .ofAttributes attributes =>
    if room = 0 then none
    else (setOnce parts.attributes attributes).map fun attributes => { parts with attributes }
  | .ofChildren children =>
    if room ≠ 0 ∧ children.all fits then
      (setOnce parts.children children).map fun children => { parts with children }
    else none

/-- All members together make the node again, empty ones having been left out. -/
lemma toTree?_foldlM_set (room : Nat) (fits : SyntaxTree → Bool) (tag : Tag) (text : String)
    (attributes : Dict String) (children : List SyntaxTree) :
    ((.ofTag tag :: others text attributes children).foldlM (set room fits) {}).bind
        NodeParts.toTree? =
      if (attributes.isEmpty ∧ children.isEmpty) ∨ (room ≠ 0 ∧ children.all fits) then
        some (.node tag text attributes children) else none := by
  obtain ⟨text?, htext?, htext⟩ : ∃ text? : Option String, text?.getD "" = text ∧
      (if text.isEmpty then [] else [ofText text]).foldlM (set room fits) { tag := some tag } =
        some { tag := some tag, text := text? } := by
    split_ifs with hempty
    · exact ⟨none, (String.isEmpty_iff.1 hempty).symm, rfl⟩
    · exact ⟨some text, rfl, rfl⟩
  have hfold : (.ofTag tag :: others text attributes children).foldlM (set room fits) {} =
      ((if attributes.isEmpty then [] else [ofAttributes attributes]) ++
        (if children.isEmpty then [] else [ofChildren children])).foldlM (set room fits)
          { tag := some tag, text := text? } := by
    have htag : set room fits {} (.ofTag tag) = some { tag := some tag } := rfl
    simp only [foldlM_cons, htag, others, append_assoc, Option.bind_eq_bind,
      Option.bind_some]
    rw [foldlM_append, htext]
    rfl
  have hempty : attributes.isEmpty → Dict.empty = attributes := fun h =>
    Dict.ext (isEmpty_iff.1 h).symm
  rw [hfold]
  clear hfold htext
  -- what has been left out is empty, and what has not takes another level
  by_cases hroom : room = 0 <;> cases hall : children.all fits <;>
    cases hattributes : attributes.isEmpty <;> cases hchildren : children.isEmpty <;>
      simp_all [set, setOnce, NodeParts.toTree?, -all_eq_true]

end Member

lemma chars_writeRest (level : Nat) (trees : List SyntaxTree) :
    chars (writeRest level trees) =
      trees.flatMap fun tree =>
        ',' :: ((newLine level).toList ++ chars (writePieces level tree)) := by
  induction trees with
  | nil => rfl
  | cons tree trees ih => simp [chars, writeRest, ← ih]

/-- A node is written as an object of its members. -/
lemma chars_writePieces (level : Nat) (tag : Tag) (text : String) (attributes : Dict String)
    (children : List SyntaxTree) (cs : List Char) :
    chars (writePieces level (.node tag text attributes children)) ++ cs =
      '\x7b' :: (memberChars (level + 1) (Member.ofTag tag).key
        (Member.value (level + 1) (.ofTag tag)) ++
        ((Member.others text attributes children).flatMap (fun item =>
          ',' :: memberChars (level + 1) item.key (item.value (level + 1))) ++
            ((newLine level).toList ++ '\x7d' :: cs))) := by
  cases children with
  | nil =>
    cases htext : text.isEmpty <;> cases hattributes : attributes.isEmpty <;>
      simp [chars, writePieces, memberChars, Member.others, Member.value, Member.key, nextMember,
        htext, hattributes]
  | cons child rest =>
    have hrest := chars_writeRest (level + 2) rest
    cases htext : text.isEmpty <;> cases hattributes : attributes.isEmpty <;>
      simp [chars, writePieces, memberChars, Member.others, Member.value, Member.key, nextMember,
        htext, hattributes, intercalate_cons, flatMap_map, hrest]

section Node

/-- After blanks, `node` reads what is written of a tree that fits, and refuses any other tree. -/
def ReadsFitting (node : Reader SyntaxTree) (fits : SyntaxTree → Bool) : Prop :=
  ∀ (blanks : List Char) (level : Nat) (tree : SyntaxTree) (cs : List Char),
    (∀ c ∈ blanks, isSpace c) → node (blanks ++ (chars (writePieces level tree) ++ cs)) =
      if fits tree then some (tree, cs) else none

variable {room : Nat} {node : Reader SyntaxTree} {fits : SyntaxTree → Bool}

lemma foldlM_cons_of_fits (children : List SyntaxTree) : ∀ done : List SyntaxTree,
    children.foldlM (fun done child => if fits child then some (child :: done) else none) done =
      if children.all fits then some (children.reverse ++ done) else none := by
  induction children with
  | nil => simp
  | cons child children ih =>
    intro done
    cases hfits : fits child <;> simp [hfits, ih]

/-- Children are read back, if another level of brackets may open and each of them is. -/
lemma readChildren_value (hnode : ReadsFitting node fits) (room level : Nat) (hne : children ≠ [])
    (cs : List Char) :
    readChildren room node (' ' :: (Member.value level (.ofChildren children) ++ cs)) =
      if room ≠ 0 ∧ children.all fits then some (children, cs) else none := by
  let text (child : SyntaxTree) : List Char :=
    (newLine (level + 1)).toList ++ chars (writePieces (level + 1) child)
  obtain ⟨first, rest, rfl⟩ := exists_cons_of_ne_nil hne
  have hchars : ' ' :: (Member.value level (.ofChildren (first :: rest)) ++ cs) = [' '] ++ '[' ::
      (text first ++ (rest.flatMap (fun child => ',' :: text child) ++
        ((newLine level).toList ++ ']' :: cs))) := by
    simp [Member.value, intercalate_cons, flatMap_map, text]
  obtain ⟨tail, htail⟩ : ∃ tail, skipSpaces (text first) = '\x7b' :: tail := by
    obtain ⟨tag, label, attributes, children⟩ := first
    have hpieces := chars_writePieces (level + 1) tag label attributes children []
    rw [append_nil] at hpieces
    simp only [text, skipSpaces_append (isSpace_newLine _), hpieces]
    exact ⟨_, skipSpaces_cons rfl _⟩
  rw [hchars, readChildren, expect_append isSpace_blank, expect_cons rfl, Option.bind_eq_bind,
    Option.bind_some, elements, parts_items ']' text rfl (by decide) (isSpace_newLine level) htail
      (by decide) ?hchild, @foldlM_cons_of_fits fits]
  case hchild =>
    intro child _ done cs
    simp only [text, append_assoc, hnode _ _ _ _ (isSpace_newLine _)]
    cases fits child <;> rfl
  by_cases hroom : room = 0
  · simp [hroom]
  · cases hall : (first :: rest).all fits <;> simp [hroom]

lemma readTag_quoted (room : Nat) (tag : Tag) (cs : List Char) :
    readTag room (' ' :: ((quoted tag.name).toList ++ cs)) = some (tag, cs) := by
  have hskip : skipSpaces (' ' :: ((quoted tag.name).toList ++ cs)) =
      (quoted tag.name).toList ++ cs := by
    rw [toList_quoted]
    exact (skipSpaces_append isSpace_blank _).trans (skipSpaces_cons rfl _)
  have hstring : string ((quoted tag.name).toList ++ cs) = some (tag.name, cs) := by
    simpa using string_quoted (forall_mem_nil (isSpace ·)) tag.name cs
  rw [readTag, hskip]
  split
  · next heq => simp [toList_quoted] at heq
  · simp [hstring, Tag.ofName?_name]

/-- A member is read back as far as it can be set. -/
lemma readPart_value (hnode : ReadsFitting node fits) (level : Nat) {item : Member}
    (hitem : item.Filled) (parts : NodeParts) (cs : List Char) :
    readPart room node item.key parts (' ' :: (item.value level ++ cs)) =
      (item.set room fits parts).map (·, cs) := by
  cases item with
  | ofTag tag =>
    cases hset : setOnce parts.tag tag <;>
      simp [readPart, Member.key, Member.value, Member.set, readTag_quoted, hset]
  | ofText text =>
    cases hset : setOnce parts.text text <;>
      simp [readPart, Member.key, Member.value, Member.set, string_blank_quoted, hset]
  | ofAttributes attributes =>
    have hread := readAttributes_writeAttributes room level hitem cs
    rw [Member.set]
    split_ifs at hread ⊢ <;> cases hset : setOnce parts.attributes attributes <;>
      simp [readPart, Member.key, Member.value, hread, hset]
  | ofChildren children =>
    have hread := readChildren_value hnode room level hitem cs
    rw [Member.set]
    split_ifs at hread ⊢ <;> cases hset : setOnce parts.children children <;>
      simp [readPart, Member.key, hread, hset]

/-- A node is read back, if its members nest no deeper than they may. -/
lemma readParts_writePieces (hnode : ReadsFitting node fits) {blanks : List Char}
    (hblanks : ∀ c ∈ blanks, isSpace c) (level : Nat) (tag : Tag) (text : String)
    (attributes : Dict String) (children : List SyntaxTree) (cs : List Char) :
    (do
      let (parts, rest) ← readParts room node
        (blanks ++ (chars (writePieces level (.node tag text attributes children)) ++ cs))
      let tree ← parts.toTree?
      some (tree, rest)) =
      if (attributes.isEmpty ∧ children.isEmpty) ∨ (room ≠ 0 ∧ children.all fits) then
        some (.node tag text attributes children, cs) else none := by
  have hmember : ∀ item ∈ .ofTag tag :: Member.others text attributes children,
      ∀ (parts : NodeParts) (cs : List Char),
        readPart room node item.key parts (' ' :: (item.value (level + 1) ++ cs)) =
          (item.set room fits parts).map (·, cs) := by
    intro item hitem parts cs
    refine readPart_value hnode (level + 1) ?_ parts cs
    rcases mem_cons.1 hitem with rfl | hitem
    · exact trivial
    · exact Member.filled_of_mem_others hitem
  have htree := Member.toTree?_foldlM_set room fits tag text attributes children
  have hread : readParts room node
      (blanks ++ (chars (writePieces level (.node tag text attributes children)) ++ cs)) =
        ((Member.ofTag tag :: Member.others text attributes children).foldlM (Member.set room fits)
          {}).map (·, cs) := by
    rw [chars_writePieces, readParts, skipSpaces_append hblanks, skipSpaces_cons rfl]
    exact members_items (level + 1) level hmember {} cs
  generalize (Member.ofTag tag :: Member.others text attributes children).foldlM
    (Member.set room fits) {} = parts? at htree hread
  rw [hread]
  cases parts? with
  | none => split_ifs at htree ⊢ <;> simp_all
  | some parts => split_ifs at htree ⊢ <;> simp_all

/-- Two levels of brackets go to a node and the list of its children. -/
lemma readsFitting_readNode : ∀ room, ReadsFitting (readNode room) (SyntaxTree.fitsWithin room)
  | 0 => fun _ _ _ _ _ => by simp [readNode, SyntaxTree.fitsWithin]
  | 1 => fun blanks level tree cs hblanks => by
    have hnone : ReadsFitting (fun _ => none) fun _ => false := fun _ _ _ _ _ => rfl
    obtain ⟨tag, text, attributes, children⟩ := tree
    rw [readNode, readParts_writePieces hnone hblanks]
    simp [SyntaxTree.fitsWithin]
  | room + 2 => fun blanks level tree cs hblanks => by
    obtain ⟨tag, text, attributes, children⟩ := tree
    rw [readNode, readParts_writePieces (readsFitting_readNode room) hblanks]
    have hfits : (attributes.isEmpty ∧ children.isEmpty) ∨
        (room + 1 ≠ 0 ∧ children.all (SyntaxTree.fitsWithin room)) ↔
          SyntaxTree.fitsWithin (room + 2) (.node tag text attributes children) := by
      cases children <;> simp [SyntaxTree.fitsWithin]
    simp only [hfits]

end Node

/-- The reader undoes the writer, unless brackets nest too deep. -/
lemma read?_write (tree : SyntaxTree) :
    read? (write tree) = if tree.fitsWithin maxNesting then some tree else none := by
  have hread := readsFitting_readNode maxNesting [] 0 tree [] (fun _ h => nomatch h)
  rw [nil_append, append_nil] at hread
  have hchars : (write tree).toList = chars (writePieces 0 tree) := String.toList_join
  rw [read?, hchars, hread]
  split_ifs <;> rfl

end Json

/-! ## Node levels -/

namespace SyntaxTree

lemma height_pos (tree : SyntaxTree) : 0 < tree.height := by
  cases tree
  rw [height]
  omega

lemma heightAll_le_iff {n : Nat} : heightAll trees ≤ n ↔ ∀ tree ∈ trees, tree.height ≤ n := by
  induction trees with
  | nil => simp [heightAll]
  | cons tree trees ih => simp [heightAll, ih]

lemma bareAllAt_iff {level : Nat} : BareAllAt level trees ↔ ∀ tree ∈ trees, tree.BareAt level := by
  induction trees with
  | nil => simp [BareAllAt]
  | cons tree trees ih => simp [BareAllAt, ih]

/-- Room for `2 * levels + 1` brackets is room for `levels + 1` levels of nodes, the last of them
without attributes. -/
lemma fitsWithin_iff (levels : Nat) : ∀ tree : SyntaxTree,
    tree.fitsWithin (2 * levels + 1) ↔ tree.height ≤ levels + 1 ∧ tree.BareAt levels := by
  induction levels with
  | zero =>
    rintro ⟨tag, text, attributes, children⟩
    cases children with
    | nil => simp [fitsWithin, height, heightAll, BareAt]
    | cons child rest =>
      have hchild := child.height_pos
      simp [fitsWithin, height, heightAll, BareAt]
      omega
  | succ levels ih =>
    rintro ⟨tag, text, attributes, children⟩
    have hroom : 2 * (levels + 1) + 1 = 2 * levels + 1 + 2 := by omega
    have hheight : height (.node tag text attributes children) ≤ levels + 1 + 1 ↔
        ∀ child ∈ children, child.height ≤ levels + 1 := by
      rw [← heightAll_le_iff, height]
      omega
    rw [hroom, fitsWithin, all_eq_true, hheight, BareAt, bareAllAt_iff]
    simp only [ih]
    exact ⟨fun h => ⟨fun child hchild => (h child hchild).1, fun child hchild =>
      (h child hchild).2⟩, fun h child hchild => ⟨h.1 child hchild, h.2 child hchild⟩⟩

end SyntaxTree

/-- A document of a tree can be read if the tree has at most 64 levels and no attributes on the
64th. -/
lemma Json.fitsWithin_maxNesting (tree : SyntaxTree) :
    tree.fitsWithin maxNesting ↔ tree.height ≤ 64 ∧ tree.BareAt 63 :=
  tree.fitsWithin_iff 63

end SqlDialect
