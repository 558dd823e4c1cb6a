import SqlDialect.Proofs.Sexpr.Grammar
import SqlDialect.Sexpr.Writer

/-!
# What is written can be read

What the writer makes of a tree is a text of the grammar that denotes the tree, provided that the
keys of its attributes are names (`document_write`); texts and values may hold any characters.
Since the reader takes every text of the grammar, it undoes the writer on all such trees
(`read_write`). Conversely the keys of a tree that was read are names (`keysIn_of_read`).
-/

namespace SqlDialect.Sexpr

open List

variable {blanks cs : List Char} {tree : SyntaxTree}

/-! ## Texts and attributes -/

lemma characters_escape (text : List Char) : Characters (text.flatMap escapeChar) text := by
  induction text with
  | nil => exact .nil
  | cons c text ih =>
    rw [flatMap_cons, escapeChar]
    split_ifs with hbackslash hquote hfeed hreturn htab
    · exact .escape (by simp [escapes, eq_of_beq hbackslash]) ih
    · exact .escape (by simp [escapes, eq_of_beq hquote]) ih
    · exact .escape (by simp [escapes, eq_of_beq hfeed]) ih
    · exact .escape (by simp [escapes, eq_of_beq hreturn]) ih
    · exact .escape (by simp [escapes, eq_of_beq htab]) ih
    · exact .plain (by simpa using hbackslash) (by simpa using hquote) ih

lemma quotedText_quoted (text : String) : QuotedText (quoted text).toList text := by
  have htoList : (quoted text).toList = '"' :: (text.toList.flatMap escapeChar ++ ['"']) := by
    simp [quoted, escape]
  rw [htoList]
  exact .quotes (characters_escape text.toList)

lemma blanks_space : Blanks [' '] := by
  simp [Blanks, isSpace]

/-- A text is left out only if it is empty. -/
lemma perhaps_writeText (text : String) : Perhaps QuotedText "" (writeText text).toList text := by
  rw [writeText]
  split_ifs with hempty
  · rw [String.isEmpty_iff.1 hempty]
    exact .absent
  · rw [String.toList_append]
    exact .present blanks_space (quotedText_quoted text)

/-- An attribute as it is written. -/
def entryChars (entry : String × String) : List Char :=
  entry.1.toList ++ '=' :: (quoted entry.2).toList

lemma pairText_entryChars {entry : String × String} (hkey : IsName entry.1)
    (hblanks : Blanks blanks) (comma : List Char) (hcomma : comma ∈ [[], [',']]) :
    PairText (blanks ++ (entryChars entry ++ comma)) entry := by
  have hpair :
      PairText (blanks ++ (entry.1.toList ++ ([] ++ '=' :: ([] ++ ((quoted entry.2).toList ++
      ([] ++ comma)))))) (entry.1, entry.2) :=
    .pair hblanks hkey blanks_nil blanks_nil (quotedText_quoted entry.2) blanks_nil hcomma
  simpa [entryChars] using hpair

/-- The comma belongs to the attribute before it, and the space to the one after it. -/
lemma pairsText_entries {entries : List (String × String)}
    (hkeys : ∀ entry ∈ entries, IsName entry.1) (hblanks : Blanks blanks) (hne : entries ≠ []) :
    PairsText (blanks ++ [',', ' '].intercalate (entries.map entryChars)) entries := by
  induction entries generalizing blanks with
  | nil => exact absurd rfl hne
  | cons entry others ih =>
    have hkey : IsName entry.1 := hkeys entry (.head _)
    cases others with
    | nil =>
      have hpairs := PairsText.cons (pairText_entryChars hkey hblanks [] (by simp)) .nil
      simpa using hpairs
    | cons next others =>
      have hothers := ih (fun entry h => hkeys entry (.tail _ h)) blanks_space
        (cons_ne_nil next others)
      have hpairs := PairsText.cons (pairText_entryChars hkey hblanks [','] (by simp)) hothers
      rw [map_cons, map_cons, intercalate_cons_cons, ← map_cons]
      simpa using hpairs

/-- Attributes are left out only if there are none. -/
lemma perhaps_writeAttributes {attributes : Dict String}
    (hkeys : ∀ entry ∈ attributes.entries, IsName entry.1) :
    Perhaps AttributesText [] (writeAttributes attributes).toList attributes.entries := by
  rw [writeAttributes]
  split_ifs with hempty
  · rw [isEmpty_iff.1 hempty]
    exact .absent
  · have hne : attributes.entries ≠ [] := fun h => hempty (isEmpty_iff.2 h)
    have hentry : (String.toList ∘ fun entry : String × String =>
        entry.1 ++ "=" ++ quoted entry.2) = entryChars := by
      funext entry
      simp [entryChars]
    have htoList : (" \x7b" ++ ", ".intercalate (attributes.entries.map fun entry =>
        entry.1 ++ "=" ++ quoted entry.2) ++ "\x7d").toList = [' '] ++ '\x7b' ::
          ([',', ' '].intercalate (attributes.entries.map entryChars) ++ ([] ++ ['\x7d'])) := by
      simp [String.toList_intercalate, hentry]
    rw [htoList]
    exact .present blanks_space (.braces (pairsText_entries hkeys blanks_nil hne) blanks_nil)

/-! ## Nodes -/

/-- The characters of pieces of text. -/
abbrev chars (pieces : List String) : List Char :=
  pieces.flatMap String.toList

lemma blanks_indentation (depth : Nat) : Blanks (indentation depth).toList := by
  rw [indentation, String.toList_ofList]
  intro c hc
  rw [eq_of_mem_replicate hc]
  rfl

mutual

/-- A node is written as a text of the grammar, after its indentation. -/
lemma nodeText_writePieces : ∀ (tree : SyntaxTree) (depth : Nat), tree.KeysIn IsName →
    ∃ cs, chars (writePieces depth tree) = (indentation depth).toList ++ cs ∧ NodeText cs tree
  | .node tag text attributes children, depth, hkeys => by
    rw [SyntaxTree.KeysIn] at hkeys
    have hlast : ∀ key, attributes.get? key = Dict.lastValue attributes.entries key := fun key => by
      rw [← Dict.get?_ofList, Dict.ofList_entries]
    refine ⟨_, ?_, .node blanks_nil (perhaps_writeAttributes hkeys.1) hlast (perhaps_writeText text)
      (nodesText_writeBelow children (depth + 1) hkeys.2) blanks_nil⟩
    simp [chars, writePieces]

/-- Each child is written after a line end and its indentation. -/
lemma nodesText_writeBelow : ∀ (trees : List SyntaxTree) (depth : Nat),
    SyntaxTree.KeysInAll IsName trees → NodesText (chars (writeBelow depth trees)) trees
  | [], _, _ => .nil
  | tree :: trees, depth, hkeys => by
    rw [SyntaxTree.KeysInAll] at hkeys
    obtain ⟨cs, hcs, hnode⟩ := nodeText_writePieces tree depth hkeys.1
    have hblanks : Blanks ('\n' :: (indentation depth).toList) :=
      forall_mem_cons.2 ⟨rfl, blanks_indentation depth⟩
    have hnodes := NodesText.cons hblanks hnode (nodesText_writeBelow trees depth hkeys.2)
    have hchars : chars (writeBelow depth (tree :: trees)) =
        '\n' :: (chars (writePieces depth tree) ++ chars (writeBelow depth trees)) := by
      simp [chars, writeBelow]
    rw [hchars, hcs]
    simpa using hnodes

end

/-- What is written of a tree denotes the tree. -/
lemma document_write (hkeys : tree.KeysIn IsName) : Document (write tree).toList tree := by
  obtain ⟨cs, hcs, hnode⟩ := nodeText_writePieces tree 0 hkeys
  have htoList : (write tree).toList = (indentation 0).toList ++ (cs ++ []) := by
    rw [append_nil, ← hcs]
    exact String.toList_join
  rw [htoList]
  exact .node (blanks_indentation 0) hnode blanks_nil

/-- Reading undoes writing on every tree whose attributes have names as keys. -/
lemma read_write (hkeys : tree.KeysIn IsName) : read (write tree) = .ok tree :=
  read_eq_ok_iff.2 (document_write hkeys)

/-! ## The keys of a tree that was read -/

lemma PairsText.isName {pairs : List (String × String)} (h : PairsText cs pairs) :
    ∀ pair ∈ pairs, IsName pair.1 := by
  induction h with
  | nil => exact fun _ hmem => nomatch hmem
  | cons hpair _ ih =>
    obtain ⟨-, hkey, -⟩ := hpair
    exact forall_mem_cons.2 ⟨hkey, ih⟩

lemma isName_of_perhaps {pairs : List (String × String)}
    (h : Perhaps AttributesText [] cs pairs) : ∀ pair ∈ pairs, IsName pair.1 := by
  obtain _ | ⟨-, ⟨hpairs, -⟩⟩ := h
  · exact fun _ hmem => nomatch hmem
  · exact hpairs.isName

mutual

lemma keysIn_of_nodeText : ∀ (tree : SyntaxTree) (cs : List Char), NodeText cs tree →
    tree.KeysIn IsName
  | .node tag text attributes children, cs, hnode => by
    obtain @⟨_, _, _, below, _, pairs, _, _, _, _, -, hpairs, hlast, -, hbelow, -⟩ := hnode
    refine ⟨fun entry hentry => ?_, keysInAll_of_nodesText children below hbelow⟩
    rw [Dict.mem_entries_iff, hlast, Dict.lastValue, Option.map_eq_some_iff] at hentry
    obtain ⟨pair, hfound, -⟩ := hentry
    have hmatch := find?_some hfound
    have hkey : pair.1 = entry.1 := eq_of_beq hmatch
    exact hkey ▸ isName_of_perhaps hpairs pair (mem_reverse.1 (mem_of_find?_eq_some hfound))

lemma keysInAll_of_nodesText : ∀ (trees : List SyntaxTree) (cs : List Char), NodesText cs trees →
    SyntaxTree.KeysInAll IsName trees
  | [], _, _ => trivial
  | tree :: trees, cs, hnodes => by
    obtain _ | @⟨_, cs, more, _, _, -, hnode, hmore⟩ := hnodes
    exact ⟨keysIn_of_nodeText tree cs hnode, keysInAll_of_nodesText trees more hmore⟩

end

lemma keysIn_of_read {input : String} (h : read input = .ok tree) : tree.KeysIn IsName := by
  rw [read_eq_ok_iff] at h
  generalize input.toList = cs at h
  obtain ⟨-, hnode, -⟩ := h
  exact keysIn_of_nodeText tree _ hnode

end SqlDialect.Sexpr
