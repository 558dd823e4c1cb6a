import Mathlib.Data.List.Sort
import SqlDialect.Proofs.Forest.Keys
import SqlDialect.Sexpr.Reader

/-!
# The grammar of S-expressions

A text denotes a syntax tree if it can be taken apart by the rules of the grammar.  Each rule is a
relation between the characters of a part and what they denote: `QuotedText`, `AttributesText`,
`NodeText` and, for a whole input, `Document`.  The rules say nothing about how a text is read; in
particular they do not say which blanks belong to which part, and they do not ask for the longest
name.

The reader takes exactly the texts of the grammar (`read_eq_ok_iff`).  What it notes of a node
before it looks up the names is a draft (`DraftText`).  It chooses greedily, and these choices are
safe because the character after the blanks decides between the parts that may follow: no two of
them start alike, and none starts with a character that could belong to the name before it (`Next`).
-/

namespace SqlDialect

open List

variable {input : List Char} {name : String} {tree : SyntaxTree}

/-! ## Dictionaries by their values -/

namespace Dict

variable {α : Type}

/-- The value that the last of several bindings of a key gives it. -/
def lastValue (bindings : List (String × α)) (key : String) : Option α :=
  (bindings.reverse.find? (·.1 == key)).map (·.2)

lemma find?_insertEntry (key wanted : String) (value : α) (entries : List (String × α)) :
    ((insertEntry key value entries).find? (·.1 == wanted)).map (·.2) =
      if wanted = key then some value else (entries.find? (·.1 == wanted)).map (·.2) := by
  induction entries with
  | nil =>
    by_cases heq : wanted = key
    · simp [insertEntry, heq]
    · simp [insertEntry, heq, Ne.symm heq]
  | cons entry rest ih =>
    rw [insertEntry]
    split_ifs with hlt hsame hwanted hwanted <;> grind

lemma get?_insert (d : Dict α) (key wanted : String) (value : α) :
    (d.insert key value).get? wanted = if wanted = key then some value else d.get? wanted :=
  find?_insertEntry key wanted value d.entries

lemma get?_foldl_insert (bindings : List (String × α)) (d : Dict α) (key : String) :
    (bindings.foldl (fun d binding => d.insert binding.1 binding.2) d).get? key =
      (lastValue bindings key).or (d.get? key) := by
  induction bindings generalizing d with
  | nil => simp [lastValue]
  | cons binding rest ih =>
    rw [foldl_cons, ih, get?_insert]
    simp only [lastValue, reverse_cons, find?_append]
    grind

/-- In a dictionary made of bindings the last one of a key holds. -/
lemma get?_ofList (bindings : List (String × α)) (key : String) :
    (ofList bindings).get? key = lastValue bindings key := by
  rw [ofList, get?_foldl_insert]
  simp [get?, empty]

lemma mem_entries_iff (d : Dict α) (entry : String × α) :
    entry ∈ d.entries ↔ d.get? entry.1 = some entry.2 := by
  obtain ⟨entries, hsorted⟩ := d
  simp only [get?]
  induction entries with
  | nil => simp
  | cons head rest ih =>
    obtain ⟨hhead, hrest⟩ := pairwise_cons.1 hsorted
    have hne : entry ∈ rest → head.1 ≠ entry.1 := fun hmem heq =>
      String.lt_irrefl _ (heq ▸ hhead entry hmem)
    rw [mem_cons, ih hrest]
    by_cases heq : head.1 = entry.1
    · have hnot : entry ∉ rest := fun hmem => hne hmem heq
      grind
    · grind

/-- A dictionary is known by its values. -/
lemma eq_of_get?_eq {d e : Dict α} (h : ∀ key, d.get? key = e.get? key) : d = e := by
  refine ext (List.Pairwise.eq_of_mem_iff d.sorted e.sorted
    fun {entry} => ?_)
  rw [mem_entries_iff, mem_entries_iff, h]

end Dict

namespace Sexpr

variable {α : Type} {cs rest : List Char} {c : Char}

/-! ## The rules -/

/-- Blanks, possibly none. -/
def Blanks (cs : List Char) : Prop :=
  ∀ c ∈ cs, isSpace c = true

/-- One or more letters, numbers or underscores. -/
def IsName (name : String) : Prop :=
  name.toList ≠ [] ∧ ∀ c ∈ name.toList, isNameChar c = true

instance (name : String) : Decidable (IsName name) :=
  decidable_of_iff (name.toList ≠ [] ∧ name.toList.all isNameChar = true)
    (and_congr_right fun _ => all_eq_true)

/-- The letters that may follow a backslash, and what they stand for. -/
def escapes : List (Char × Char) :=
  [('\\', '\\'), ('"', '"'), ('n', '\n'), ('r', '\r'), ('t', '\t')]

/-- What stands between quotes, and the characters it denotes. -/
inductive Characters : List Char → List Char → Prop
  | nil : Characters [] []
  | plain {c : Char} {cs text : List Char} :
    c ≠ '\\' → c ≠ '"' → Characters cs text → Characters (c :: cs) (c :: text)
  | escape {letter c : Char} {cs text : List Char} :
    (letter, c) ∈ escapes → Characters cs text → Characters ('\\' :: letter :: cs) (c :: text)

/-- A text between double quotes. -/
inductive QuotedText : List Char → String → Prop
  | quotes {cs : List Char} {text : String} :
    Characters cs text.toList → QuotedText ('"' :: (cs ++ ['"'])) text

/-- An attribute with the blanks around it, and perhaps a comma after it. -/
inductive PairText : List Char → String × String → Prop
  | pair {before beforeSign afterSign value after comma : List Char} {key text : String} :
    Blanks before → IsName key → Blanks beforeSign → Blanks afterSign → QuotedText value text →
    Blanks after → comma ∈ [[], [',']] →
    PairText (before ++ (key.toList ++ (beforeSign ++ '=' :: (afterSign ++ (value ++
      (after ++ comma)))))) (key, text)

/-- Any number of attributes. -/
inductive PairsText : List Char → List (String × String) → Prop
  | nil : PairsText [] []
  | cons {cs rest : List Char} {pair : String × String} {pairs : List (String × String)} :
    PairText cs pair → PairsText rest pairs → PairsText (cs ++ rest) (pair :: pairs)

/-- The attributes of a node between braces. -/
inductive AttributesText : List Char → List (String × String) → Prop
  | braces {cs blanks : List Char} {pairs : List (String × String)} :
    PairsText cs pairs → Blanks blanks →
    AttributesText ('\x7b' :: (cs ++ (blanks ++ ['\x7d']))) pairs

/-- A part that may be left out, with the blanks before it. -/
inductive Perhaps (part : List Char → α → Prop) (missing : α) : List Char → α → Prop
  | absent : Perhaps part missing [] missing
  | present {blanks cs : List Char} {a : α} :
    Blanks blanks → part cs a → Perhaps part missing (blanks ++ cs) a

mutual

/-- A node. Its name is that of a kind, and of several attributes with one key the last one
holds. -/
inductive NodeText : List Char → SyntaxTree → Prop
  | node {before pairsText textText below after : List Char} {pairs : List (String × String)}
      {tag : Tag} {text : String} {attributes : Dict String} {children : List SyntaxTree} :
    Blanks before → Perhaps AttributesText [] pairsText pairs →
    (∀ key, attributes.get? key = Dict.lastValue pairs key) →
    Perhaps QuotedText "" textText text → NodesText below children → Blanks after →
    NodeText ('(' :: (before ++ (tag.name.toList ++ (pairsText ++ (textText ++ (below ++
      (after ++ [')'])))))))
      (.node tag text attributes children)

/-- Any number of nodes, with the blanks before each. -/
inductive NodesText : List Char → List SyntaxTree → Prop
  | nil : NodesText [] []
  | cons {before cs rest : List Char} {tree : SyntaxTree} {trees : List SyntaxTree} :
    Blanks before → NodeText cs tree → NodesText rest trees →
    NodesText (before ++ (cs ++ rest)) (tree :: trees)

end

/-- A whole input: one node with blanks around it. -/
inductive Document : List Char → SyntaxTree → Prop
  | node {before cs after : List Char} {tree : SyntaxTree} :
    Blanks before → NodeText cs tree → Blanks after → Document (before ++ (cs ++ after)) tree

/-! ## Blanks and names -/

lemma skipSpaces_of_not_isSpace (h : isSpace c = false) : skipSpaces (c :: cs) = c :: cs :=
  dropWhile_cons_of_neg (by simp [h])

lemma Blanks.skipSpaces_append (h : Blanks cs) : skipSpaces (cs ++ rest) = skipSpaces rest :=
  dropWhile_append_of_pos h

lemma blanks_nil : Blanks [] := fun _ h => nomatch h

/-- What is skipped are blanks. -/
lemma exists_blanks (cs : List Char) : ∃ blanks, Blanks blanks ∧ cs = blanks ++ skipSpaces cs :=
  ⟨cs.takeWhile isSpace, all_eq_true.1 all_takeWhile,
    takeWhile_append_dropWhile.symm⟩

lemma skipSpaces_skipSpaces (cs : List Char) : skipSpaces (skipSpaces cs) = skipSpaces cs := by
  obtain ⟨blanks, hblanks, hcs⟩ := exists_blanks cs
  conv_rhs => rw [hcs, hblanks.skipSpaces_append]

/-- After blanks, the input goes on with one of the characters. -/
def Next (allowed : List Char) (cs : List Char) : Prop :=
  ∃ c tail, skipSpaces cs = c :: tail ∧ c ∈ allowed

namespace Next

variable {allowed : List Char}

lemma of_cons (hc : isSpace c = false) (hmem : c ∈ allowed) : Next allowed (c :: cs) :=
  ⟨c, cs, skipSpaces_of_not_isSpace hc, hmem⟩

lemma mono {more : List Char} (h : Next allowed cs) (hmore : ∀ c ∈ allowed, c ∈ more) :
    Next more cs := by
  obtain ⟨c, tail, hcs, hmem⟩ := h
  exact ⟨c, tail, hcs, hmore c hmem⟩

lemma blanks_append (hblanks : Blanks cs) (h : Next allowed rest) : Next allowed (cs ++ rest) := by
  rw [Next, hblanks.skipSpaces_append]
  exact h

end Next

/-- The input does not go on with a character of a name. -/
def EndsName (cs : List Char) : Prop :=
  cs.takeWhile isNameChar = []

lemma not_isSpace_of_isNameChar (h : isNameChar c = true) : isSpace c = false := by
  by_contra hspace
  simp only [isSpace, Bool.not_eq_false, Bool.or_eq_true, beq_iff_eq] at hspace
  obtain ((rfl | rfl) | rfl) | rfl := hspace <;> exact absurd h (by decide)

/-- A name ends before a blank, and before a character that is none of a name. -/
lemma Next.endsName {allowed : List Char} (h : Next allowed cs)
    (hallowed : allowed.any isNameChar = false) : EndsName cs := by
  obtain ⟨c, tail, hcs, hmem⟩ := h
  cases cs with
  | nil => rfl
  | cons head cs =>
    refine takeWhile_cons_of_neg ?_
    cases hhead : isSpace head with
    | true =>
      intro hname
      rw [not_isSpace_of_isNameChar hname] at hhead
      cases hhead
    | false =>
      rw [skipSpaces_of_not_isSpace hhead] at hcs
      rw [(List.cons.inj hcs).1]
      exact any_eq_false.1 hallowed c hmem

lemma IsName.skipSpaces (hname : IsName name) :
    skipSpaces (name.toList ++ cs) = name.toList ++ cs := by
  obtain ⟨hne, hchars⟩ := hname
  obtain ⟨c, tail, hname⟩ := exists_cons_of_ne_nil hne
  rw [hname, cons_append]
  exact skipSpaces_of_not_isSpace (not_isSpace_of_isNameChar (hchars c (by simp [hname])))

lemma readName_append (hname : IsName name) (hrest : EndsName rest) :
    readName (name.toList ++ rest) = some (name, rest) := by
  have hdrop : rest.dropWhile isNameChar = rest := by
    have happend := takeWhile_append_dropWhile (p := isNameChar) (l := rest)
    rwa [hrest, nil_append] at happend
  rw [readName, takeWhile_append_of_pos hname.2, dropWhile_append_of_pos hname.2, hrest,
    hdrop, append_nil]
  split
  · exact absurd ‹_› hname.1
  · rw [String.ofList_toList]

lemma eq_append_of_readName (h : readName cs = some (name, rest)) :
    IsName name ∧ cs = name.toList ++ rest := by
  rw [readName] at h
  split at h
  · cases h
  · rename_i hne
    obtain ⟨rfl, rfl⟩ : String.ofList (cs.takeWhile isNameChar) = name ∧
        cs.dropWhile isNameChar = rest := by simpa using h
    rw [IsName, String.toList_ofList]
    exact ⟨⟨hne, all_eq_true.1 all_takeWhile⟩, takeWhile_append_dropWhile.symm⟩

lemma isName_name (tag : Tag) : IsName tag.name := by
  have hnames : ∀ tag ∈ Tag.all, IsName tag.name := by decide +kernel
  exact hnames tag tag.mem_all

/-! ## Quoted texts -/

/-- A reader takes the texts of a rule, all of which start with the same character. -/
structure Reads (read : List Char → Option (α × List Char)) (part : List Char → α → Prop)
    (first : Char) : Prop where
  iff_append : ∀ {cs a rest}, read cs = some (a, rest) ↔ ∃ used, cs = used ++ rest ∧ part used a
  starts : ∀ {cs a}, part cs a → ∃ tail, cs = first :: tail
  not_isSpace : isSpace first = false

lemma Reads.read_append {read : List Char → Option (α × List Char)} {part : List Char → α → Prop}
    {first : Char} {a : α} (h : Reads read part first) (hpart : part cs a) (rest : List Char) :
    read (cs ++ rest) = some (a, rest) :=
  h.iff_append.2 ⟨cs, rfl, hpart⟩

lemma unescape?_eq_some_iff {letter : Char} : unescape? letter = some c ↔
    (letter, c) ∈ escapes := by
  simp only [unescape?, escapes, mem_cons, Prod.mk.injEq, not_mem_nil, or_false]
  grind

lemma readQuotedRest_append {text : List Char} (done : List Char) (h : Characters cs text) :
    readQuotedRest done (cs ++ '"' :: rest) = some (String.ofList (done.reverse ++ text),
    rest) := by
  induction h generalizing done with
  | nil => simp [readQuotedRest]
  | @plain c cs text hbackslash hquote _ ih =>
    rw [cons_append, readQuotedRest.eq_5 _ _ _ hquote hbackslash, ih]
    simp
  | @escape letter c cs text hmem _ ih =>
    rw [cons_append, cons_append, readQuotedRest, unescape?_eq_some_iff.2 hmem]
    simp [ih]

lemma characters_of_readQuotedRest {text : String} {done : List Char}
    (h : readQuotedRest done cs = some (text, rest)) : ∃ inner plain,
      cs = inner ++ '"' :: rest ∧ Characters inner plain ∧ text.toList = done.reverse ++ plain := by
  fun_induction readQuotedRest done cs with
  | case1 => cases h
  | case2 done rest' =>
    cases h
    exact ⟨[], [], rfl, .nil, by simp⟩
  | case3 => cases h
  | case4 done letter cs c hescape ih =>
    obtain ⟨inner, plain, rfl, hinner, htext⟩ := ih h
    exact ⟨_, _, rfl, .escape (unescape?_eq_some_iff.1 hescape) hinner, by simpa using htext⟩
  | case5 => cases h
  | case6 done c cs hquote hbackslash ih =>
    obtain ⟨inner, plain, rfl, hinner, htext⟩ := ih h
    exact ⟨_, _, rfl, .plain hbackslash hquote hinner, by simpa using htext⟩

lemma reads_quoted : Reads readQuoted QuotedText '"' where
  iff_append {cs text rest} := by
    constructor
    · intro h
      rw [readQuoted.eq_def] at h
      split at h
      · obtain ⟨inner, plain, rfl, hinner, htext⟩ := characters_of_readQuotedRest h
        rw [reverse_nil, nil_append] at htext
        exact ⟨'"' :: (inner ++ ['"']), by simp, .quotes (htext ▸ hinner)⟩
      · cases h
    · rintro ⟨_, rfl, hinner⟩
      obtain ⟨hinner⟩ := hinner
      rw [cons_append, append_assoc, readQuoted, singleton_append,
        readQuotedRest_append [] hinner, reverse_nil, nil_append, String.ofList_toList]
  starts h := by
    obtain ⟨-⟩ := h
    exact ⟨_, rfl⟩
  not_isSpace := rfl

/-! ## Attributes -/

/-- The reader takes an attribute of the grammar, and with it the blanks that follow. -/
lemma readPair_append {pair : String × String} (h : PairText cs pair)
    (hinput : ∀ tail, skipSpaces rest ≠ ',' :: tail)
    (hcs : skipSpaces input = skipSpaces (cs ++ rest)) :
    ∃ left, readPair input = some (pair, left) ∧ skipSpaces left = skipSpaces rest := by
  obtain @⟨before, beforeSign, afterSign, value, after, comma, key, text, hbefore,
    hkey, hbeforeSign, hafterSign, hvalue, hafter, hcomma⟩ := h
  have hequals : isSpace '=' = false := rfl
  have hname :
    EndsName (beforeSign ++ '=' :: (afterSign ++ (value ++ (after ++ (comma ++ rest))))) :=
    (Next.blanks_append hbeforeSign (.of_cons hequals (mem_singleton_self '='))).endsName
      (by decide)
  have hvalueStart : skipSpaces (value ++ (after ++ (comma ++ rest))) =
      value ++ (after ++ (comma ++ rest)) := by
    obtain ⟨tail, rfl⟩ := reads_quoted.starts hvalue
    exact skipSpaces_of_not_isSpace rfl
  have hquoted := reads_quoted.read_append hvalue (after ++ (comma ++ rest))
  simp only [append_assoc, cons_append] at hcs
  rw [hbefore.skipSpaces_append, hkey.skipSpaces] at hcs
  simp only [readPair, hcs, readName_append hkey hname, Option.bind_eq_bind, Option.bind_some,
    hbeforeSign.skipSpaces_append, skipSpaces_of_not_isSpace hequals, hafterSign.skipSpaces_append,
    hvalueStart, hquoted, hafter.skipSpaces_append]
  simp only [mem_cons, not_mem_nil, or_false] at hcomma
  obtain rfl | rfl := hcomma
  · rw [nil_append]
    split
    · exact absurd ‹_› (hinput _)
    · exact ⟨_, rfl, skipSpaces_skipSpaces rest⟩
  · exact ⟨rest, rfl, rfl⟩

lemma pairText_of_readPair {pair : String × String} (h : readPair cs = some (pair, rest)) :
    ∃ used, cs = used ++ rest ∧ PairText used pair := by
  simp only [readPair, Option.bind_eq_bind, Option.bind_eq_some_iff] at h
  obtain ⟨⟨key, afterKey⟩, hkey, h⟩ := h
  obtain ⟨before, hbefore, hcs⟩ := exists_blanks cs
  obtain ⟨beforeSign, hbeforeSign, hafterKey⟩ := exists_blanks afterKey
  obtain ⟨hname, hstart⟩ := eq_append_of_readName hkey
  split at h
  · rename_i afterSign hsign
    obtain ⟨⟨text, afterText⟩, htext, h⟩ := Option.bind_eq_some_iff.1 h
    obtain ⟨value, hvalue, hquoted⟩ := reads_quoted.iff_append.1 htext
    obtain ⟨blanks, hblanks, hafterSign⟩ := exists_blanks afterSign
    obtain ⟨after, hafter, hafterText⟩ := exists_blanks afterText
    have hinput : cs = before ++ (key.toList ++ (beforeSign ++ '=' :: (blanks ++ (value ++
        (after ++ skipSpaces afterText))))) := by
      rw [hcs, hstart, hafterKey, hsign, hafterSign, hvalue, ← hafterText]
    have hpair : ∀ comma ∈ [[], [',']], PairText (before ++ (key.toList ++ (beforeSign ++ '=' ::
        (blanks ++ (value ++ (after ++ comma)))))) (key, text) := fun comma hcomma =>
      .pair hbefore hname hbeforeSign hblanks hquoted hafter hcomma
    split at h
    · rename_i hcomma
      cases h
      exact ⟨_, by rw [hinput, hcomma]; simp, hpair [','] (by simp)⟩
    · cases h
      exact ⟨_, by rw [hinput]; simp, hpair [] (by simp)⟩
  · cases h

lemma PairText.next {pair : String × String} (h : PairText cs pair) :
    ∃ c tail, skipSpaces (cs ++ rest) = c :: tail ∧ isNameChar c = true := by
  obtain @⟨before, _, _, _, _, _, key, _, hbefore, hkey, -⟩ := h
  obtain ⟨c, tail, htail⟩ := exists_cons_of_ne_nil hkey.1
  have hname : isNameChar c = true := hkey.2 c (by simp [htail])
  exact ⟨c, _, by rw [append_assoc, hbefore.skipSpaces_append, append_assoc,
    hkey.skipSpaces, htail, cons_append], hname⟩

lemma PairsText.next {pairs : List (String × String)} (h : PairsText cs pairs)
    (hrest : Next ['\x7d'] rest) : ∀ tail, skipSpaces (cs ++ rest) ≠ ',' :: tail := by
  intro tail htail
  obtain _ | ⟨hpair, -⟩ := h
  · obtain ⟨c, tail', hc, hmem⟩ := hrest
    rw [nil_append, hc] at htail
    simp_all
  · rw [append_assoc] at htail
    obtain ⟨c, tail', hc, hname⟩ := hpair.next
    rw [hc] at htail
    rw [(List.cons.inj htail).1] at hname
    exact absurd hname (by decide)

/-- All attributes up to the closing brace are taken; what is left goes on with the brace. -/
lemma readPairs_append {pairs : List (String × String)} {fuel : Nat}
    (h : PairsText cs pairs) (hfuel : pairs.length ≤ fuel) (hrest : Next ['\x7d'] rest)
    (hinput : skipSpaces input = skipSpaces (cs ++ rest)) :
    ∃ left, readPairs fuel input = (pairs, left) ∧ skipSpaces left = skipSpaces rest := by
  induction h generalizing fuel input with
  | nil =>
    rw [nil_append] at hinput
    cases fuel with
    | zero => exact ⟨input, rfl, hinput⟩
    | succ fuel =>
      obtain ⟨c, tail, hc, hmem⟩ := hrest
      obtain rfl := mem_singleton.1 hmem
      have hnone : readPair input = none := by
        simp only [readPair, hinput, hc]
        rfl
      exact ⟨input, by rw [readPairs, hnone], hinput⟩
  | cons hpair hpairs ih =>
    obtain ⟨fuel, rfl⟩ : ∃ n, fuel = n + 1 := ⟨fuel - 1, by grind⟩
    rw [append_assoc] at hinput
    obtain ⟨left, hread, hleft⟩ := readPair_append hpair (hpairs.next hrest) hinput
    obtain ⟨left', hreads, hleft'⟩ := ih (by simpa using hfuel) hleft
    exact ⟨left', by rw [readPairs, hread]; simp only [hreads], hleft'⟩

lemma pairsText_of_readPairs (fuel : Nat) (cs : List Char) :
    ∃ used, cs = used ++ (readPairs fuel cs).2 ∧ PairsText used (readPairs fuel cs).1 := by
  induction fuel generalizing cs with
  | zero => exact ⟨[], rfl, .nil⟩
  | succ fuel ih =>
    rw [readPairs]
    split
    · rename_i pair rest hpair
      obtain ⟨used, rfl, hused⟩ := pairText_of_readPair hpair
      obtain ⟨more, hrest, hmore⟩ := ih rest
      exact ⟨used ++ more, by rw [append_assoc, ← hrest], .cons hused hmore⟩
    · exact ⟨[], rfl, .nil⟩

/-- An attribute takes at least one character. -/
lemma PairsText.length_le {pairs : List (String × String)} (h : PairsText cs pairs) :
    pairs.length ≤ cs.length := by
  induction h with
  | nil => exact Nat.zero_le _
  | cons hpair _ ih =>
    obtain @⟨_, _, _, _, _, _, _, _, -⟩ := hpair
    simp only [length_append, length_cons]
    omega

lemma reads_attributes : Reads readAttributes AttributesText '\x7b' where
  iff_append {cs pairs rest} := by
    constructor
    · intro h
      rw [readAttributes.eq_def] at h
      split at h
      · rename_i inner
        obtain ⟨used, hinner, hused⟩ := pairsText_of_readPairs inner.length inner
        obtain ⟨blanks, hblanks, hleft⟩ := exists_blanks (readPairs inner.length inner).2
        dsimp only at h
        split at h
        · rename_i hbrace
          cases h
          refine ⟨_, ?_, .braces hused hblanks⟩
          rw [hinner, hleft, hbrace]
          simp
        · cases h
      · cases h
    · rintro ⟨_, rfl, hattributes⟩
      obtain @⟨inner, blanks, _, hpairs, hblanks⟩ := hattributes
      have hbrace : isSpace '\x7d' = false := rfl
      have hrest : Next ['\x7d'] (blanks ++ '\x7d' :: rest) :=
        .blanks_append hblanks (.of_cons hbrace (mem_singleton_self _))
      have hlength := hpairs.length_le
      obtain ⟨left, hread, hleft⟩ : ∃ left, readPairs (inner ++ (blanks ++ '\x7d' :: rest)).length
          (inner ++ (blanks ++ '\x7d' :: rest)) = (pairs, left) ∧
            skipSpaces left = skipSpaces (blanks ++ '\x7d' :: rest) :=
        readPairs_append hpairs (by rw [length_append]; omega) hrest rfl
      rw [hblanks.skipSpaces_append, skipSpaces_of_not_isSpace hbrace] at hleft
      simp only [cons_append, append_assoc, nil_append, readAttributes, hread, hleft]
  starts h := by
    obtain ⟨-, -⟩ := h
    exact ⟨_, rfl⟩
  not_isSpace := rfl

/-! ## Parts that may be left out -/

lemma Next.ne {allowed : List Char} (h : Next allowed cs) (hc : c ∉ allowed) (tail : List Char) :
    skipSpaces cs ≠ c :: tail := by
  obtain ⟨c', tail', hcs, hmem⟩ := h
  rw [hcs]
  rintro ⟨⟩
  exact hc hmem

namespace Reads

variable {read : List Char → Option (α × List Char)} {part : List Char → α → Prop} {first : Char}
  {a missing : α} (h : Reads read part first)

include h

/-- A part that was left out is not found in what follows. -/
lemma optional_append (hpart : Perhaps part missing cs a)
    (hrest : ∀ tail, skipSpaces rest ≠ first :: tail) :
    optional read missing (cs ++ rest) = (a, rest) := by
  rw [optional]
  obtain _ | @⟨blanks, cs, a, hblanks, hpart⟩ := hpart
  · have hnone : read (skipSpaces rest) = none := by
      by_contra hsome
      obtain ⟨⟨a, rest'⟩, hread⟩ := Option.ne_none_iff_exists'.1 hsome
      obtain ⟨used, hused, hpart⟩ := h.iff_append.1 hread
      obtain ⟨tail, rfl⟩ := h.starts hpart
      exact hrest _ hused
    rw [nil_append, hnone, Option.getD_none]
  · obtain ⟨tail, rfl⟩ := h.starts hpart
    rw [append_assoc, hblanks.skipSpaces_append, cons_append,
      skipSpaces_of_not_isSpace h.not_isSpace, ← cons_append, h.read_append hpart,
      Option.getD_some]

lemma perhaps_of_optional (missing : α) (cs : List Char) :
    ∃ used, cs = used ++ (optional read missing cs).2 ∧
      Perhaps part missing used (optional read missing cs).1 := by
  rw [optional]
  cases hread : read (skipSpaces cs) with
  | none => exact ⟨[], rfl, .absent⟩
  | some found =>
    obtain ⟨used, hused, hpart⟩ := h.iff_append.1 hread
    obtain ⟨blanks, hblanks, hcs⟩ := exists_blanks cs
    exact ⟨blanks ++ used, by rw [Option.getD_some, append_assoc, ← hused, ← hcs],
      .present hblanks hpart⟩

lemma next_append {allowed : List Char} (hpart : Perhaps part missing cs a)
    (hrest : Next allowed rest) : Next (first :: allowed) (cs ++ rest) := by
  obtain _ | @⟨blanks, cs, a, hblanks, hpart⟩ := hpart
  · exact hrest.mono fun c hc => mem_cons_of_mem _ hc
  · obtain ⟨tail, rfl⟩ := h.starts hpart
    rw [append_assoc]
    exact .blanks_append hblanks (.of_cons h.not_isSpace (.head _))

end Reads

/-! ## Nodes -/

mutual

/-- A node as the reader notes it if `rest` follows: its name may be any. -/
inductive DraftText : List Char → List Char → Draft → Prop
  | node {rest before pairsText textText below after : List Char} {name text : String}
      {pairs : List (String × String)} {children : List Draft} :
    Blanks before → IsName name → Perhaps AttributesText [] pairsText pairs →
    Perhaps QuotedText "" textText text → DraftsText (after ++ ')' :: rest) below children →
    Blanks after →
    DraftText rest ('(' :: (before ++ (name.toList ++ (pairsText ++ (textText ++ (below ++
      (after ++ [')'])))))))
      (.node name (byteLength (name.toList ++ (pairsText ++ (textText ++ (below ++
        (after ++ ')' :: rest)))))) pairs text children)

/-- Any number of them, with the blanks before each. -/
inductive DraftsText : List Char → List Char → List Draft → Prop
  | nil {rest : List Char} : DraftsText rest [] []
  | cons {rest before cs more : List Char} {draft : Draft} {drafts : List Draft} :
    Blanks before → DraftText (more ++ rest) cs draft → DraftsText rest more drafts →
    DraftsText rest (before ++ (cs ++ more)) (draft :: drafts)

end

lemma DraftText.starts {draft : Draft} (h : DraftText rest cs draft) :
    ∃ tail, cs = '(' :: tail := by
  obtain ⟨-, -, -, -, -, -⟩ := h
  exact ⟨_, rfl⟩

lemma DraftText.skipSpaces {draft : Draft} (h : DraftText input cs draft) :
    skipSpaces (cs ++ rest) = cs ++ rest := by
  obtain ⟨tail, rfl⟩ := h.starts
  exact skipSpaces_of_not_isSpace rfl

lemma DraftsText.next {drafts : List Draft} (h : DraftsText input cs drafts)
    (hrest : Next [')'] rest) : Next ['(', ')'] (cs ++ rest) := by
  obtain _ | ⟨hbefore, hnode, -⟩ := h
  · exact hrest.mono fun c hc => mem_cons_of_mem _ hc
  · obtain ⟨tail, rfl⟩ := hnode.starts
    rw [append_assoc]
    exact .blanks_append hbefore (.of_cons rfl (.head _))

mutual

/-- A node is taken whole, whatever follows it. -/
lemma readNode_append : ∀ (draft : Draft) (cs : List Char) (fuel : Nat) (rest : List Char),
    DraftText rest cs draft → cs.length ≤ fuel + 1 → readNode fuel (cs ++ rest) = .ok (draft, rest)
  | .node _ _ _ _ children, _, fuel, rest, hdraft, hfuel => by
    obtain @⟨_, before, pairsText, textText, below, after, name, text, pairs, _, hbefore, hname,
      hpairs, htext, hbelow, hafter⟩ := hdraft
    simp only [length_cons, length_append] at hfuel
    obtain ⟨fuel, rfl⟩ : ∃ n, fuel = n + 1 := ⟨fuel - 1, by omega⟩
    have hclose : isSpace ')' = false := rfl
    -- the character after the blanks tells which part comes next
    have hend : Next [')'] (after ++ ')' :: rest) :=
      .blanks_append hafter (.of_cons hclose (mem_singleton_self _))
    have hchildren := hbelow.next hend
    have hquote := reads_quoted.next_append htext hchildren
    have hbrace := reads_attributes.next_append hpairs hquote
    have hdrafts := readNodes_append children below fuel (after ++ ')' :: rest)
      hbelow (by omega) hend
    have hread := readName_append hname (hbrace.endsName (by decide))
    have hattributes := reads_attributes.optional_append hpairs (hquote.ne (by decide))
    have htexts := reads_quoted.optional_append htext (hchildren.ne (by decide))
    simp only [cons_append, append_assoc, nil_append, readNode,
      hbefore.skipSpaces_append, hname.skipSpaces, hread, hattributes, htexts, hdrafts,
      hafter.skipSpaces_append, skipSpaces_of_not_isSpace hclose]

/-- The nodes before a closing bracket are taken. -/
lemma readNodes_append : ∀ (drafts : List Draft) (cs : List Char) (fuel : Nat) (rest : List Char),
    DraftsText rest cs drafts → cs.length ≤ fuel → Next [')'] rest →
      readNodes fuel (cs ++ rest) = (drafts, rest)
  | [], _, fuel, rest, hdrafts, _, hrest => by
    cases hdrafts
    obtain ⟨c, tail, hc, hmem⟩ := hrest
    obtain rfl := mem_singleton.1 hmem
    obtain _ | _ | fuel := fuel
    · rfl
    · rfl
    · rw [nil_append, readNodes, hc]
      rfl
  | draft :: drafts, _, fuel, rest, hdrafts, hfuel, hrest => by
    obtain _ | @⟨_, before, cs, more, _, _, hbefore, hdraft, hmore⟩ := hdrafts
    obtain ⟨tail, hcs⟩ := hdraft.starts
    have hlength := congrArg List.length hcs
    simp only [length_append, length_cons] at hfuel hlength
    obtain ⟨fuel, rfl⟩ : ∃ n, fuel = n + 1 := ⟨fuel - 1, by omega⟩
    rw [append_assoc, append_assoc, readNodes, hbefore.skipSpaces_append, hdraft.skipSpaces,
      readNode_append draft cs fuel (more ++ rest) hdraft (by omega)]
    simp only [readNodes_append drafts more fuel rest hmore (by omega) hrest]

end

/-- What is read is a text of nodes. The reader goes down from nodes to lists of nodes and back,
with less fuel each time. -/
lemma draftText_of_readNode (fuel : Nat) :
    (∀ cs draft rest, readNode fuel cs = .ok (draft, rest) →
      ∃ used, cs = used ++ rest ∧ DraftText rest used draft) ∧
    ∀ cs, ∃ used, cs = used ++ (readNodes fuel cs).2 ∧
      DraftsText (readNodes fuel cs).2 used (readNodes fuel cs).1 := by
  induction fuel with
  | zero => exact ⟨fun cs draft rest h => (by cases h), fun cs => ⟨[], rfl, .nil⟩⟩
  | succ fuel ih =>
    constructor
    · intro cs draft rest h
      rw [readNode.eq_def] at h
      dsimp only at h
      split at h
      · rename_i inner
        obtain ⟨before, hbefore, hinner⟩ := exists_blanks inner
        split at h
        · cases h
        · rename_i name afterName hname
          obtain ⟨hisName, hafterName⟩ := eq_append_of_readName hname
          obtain ⟨pairsText, hpairsText, hpairs⟩ :=
            reads_attributes.perhaps_of_optional [] afterName
          obtain ⟨textText, htextText, htext⟩ := reads_quoted.perhaps_of_optional ""
            (optional readAttributes [] afterName).2
          set afterText := (optional readQuoted "" (optional readAttributes [] afterName).2).2
          obtain ⟨below, hbelow, hdrafts⟩ := ih.2 afterText
          obtain ⟨after, hafter, hrest⟩ := exists_blanks (readNodes fuel afterText).2
          split at h
          · rename_i hclose
            cases h
            rw [hclose] at hrest
            rw [hrest] at hbelow hdrafts
            have hsplit : skipSpaces inner = name.toList ++ (pairsText ++ (textText ++ (below ++
                (after ++ ')' :: rest)))) := by
              rw [hafterName, hpairsText, htextText, hbelow]
            rw [hsplit]
            refine ⟨_, ?_, .node hbefore hisName hpairs htext hdrafts hafter⟩
            rw [hinner, hsplit]
            simp
          · cases h
      · cases h
    · intro cs
      rw [readNodes]
      split
      · rename_i draft rest hdraft
        obtain ⟨before, hbefore, hcs⟩ := exists_blanks cs
        obtain ⟨used, hused, hnode⟩ := ih.1 _ _ _ hdraft
        obtain ⟨more, hmore, hdrafts⟩ := ih.2 rest
        refine ⟨_, ?_, .cons hbefore (hmore ▸ hnode) hdrafts⟩
        rw [append_assoc, append_assoc, ← hmore, ← hused, ← hcs]
      · exact ⟨[], rfl, .nil⟩

lemma name_of_ofName? {tag : Tag} (h : Tag.ofName? name = some tag) : tag.name = name := by
  have hfound := find?_some h
  exact eq_of_beq hfound

mutual

/-- A node of the grammar is a node whose names are those of kinds. -/
lemma exists_draft : ∀ (tree : SyntaxTree) (cs rest : List Char) (total : Nat), NodeText cs tree →
    ∃ draft, DraftText rest cs draft ∧ draft.toTree total = .ok tree
  | .node tag text attributes children, _, rest, total, hnode => by
    obtain @⟨before, pairsText, textText, below, after, pairs, _, _, _, _, hbefore, hpairs, hlast,
      htext, hbelow, hafter⟩ := hnode
    obtain ⟨drafts, hdrafts, htrees⟩ :=
      exists_drafts children below (after ++ ')' :: rest) total hbelow
    refine ⟨_, .node hbefore (isName_name tag) hpairs htext hdrafts hafter, ?_⟩
    have hdict : Dict.ofList pairs = attributes :=
      Dict.eq_of_get?_eq fun key => (Dict.get?_ofList pairs key).trans (hlast key).symm
    simp only [Draft.toTree, Tag.ofName?_name, htrees, hdict]
    rfl

lemma exists_drafts : ∀ (trees : List SyntaxTree) (cs rest : List Char) (total : Nat),
    NodesText cs trees → ∃ drafts, DraftsText rest cs drafts ∧
    Draft.toTrees total drafts = .ok trees
  | [], _, _, _, hnodes => by
    cases hnodes
    exact ⟨[], .nil, rfl⟩
  | tree :: trees, _, rest, total, hnodes => by
    obtain _ | @⟨before, cs, more, _, _, hbefore, hnode, hmore⟩ := hnodes
    obtain ⟨draft, hdraft, htree⟩ := exists_draft tree cs (more ++ rest) total hnode
    obtain ⟨drafts, hdrafts, htrees⟩ := exists_drafts trees more rest total hmore
    refine ⟨_, .cons hbefore hdraft hdrafts, ?_⟩
    simp only [Draft.toTrees, htree, htrees]
    rfl

end

mutual

lemma nodeText_of_draft {total : Nat} : ∀ (draft : Draft) (cs rest : List Char) (tree : SyntaxTree),
    DraftText rest cs draft → draft.toTree total = .ok tree → NodeText cs tree
  | .node name _ pairs text children, _, _, tree, hdraft, htree => by
    obtain ⟨hbefore, -, hpairs, htext, hbelow, hafter⟩ := hdraft
    rw [Draft.toTree] at htree
    split at htree
    · cases htree
    · rename_i tag htag
      cases hchildren : Draft.toTrees total children with
      | error e =>
        rw [hchildren] at htree
        cases htree
      | ok trees =>
        rw [hchildren] at htree
        cases htree
        rw [← name_of_ofName? htag]
        exact .node hbefore hpairs (Dict.get?_ofList _) htext
          (nodesText_of_drafts children _ _ _ hbelow hchildren) hafter

lemma nodesText_of_drafts {total : Nat} : ∀ (drafts : List Draft) (cs rest : List Char)
    (trees : List SyntaxTree), DraftsText rest cs drafts → Draft.toTrees total drafts = .ok trees →
      NodesText cs trees
  | [], _, _, _, hdrafts, htrees => by
    cases hdrafts
    cases htrees
    exact .nil
  | draft :: drafts, _, _, _, hdrafts, htrees => by
    obtain _ | ⟨hbefore, hdraft, hmore⟩ := hdrafts
    rw [Draft.toTrees] at htrees
    cases htree : draft.toTree total with
    | error e =>
      rw [htree] at htrees
      cases htrees
    | ok tree =>
      cases hrest : Draft.toTrees total drafts with
      | error e =>
        rw [htree, hrest] at htrees
        cases htrees
      | ok more =>
        rw [htree, hrest] at htrees
        cases htrees
        exact .cons hbefore (nodeText_of_draft draft _ _ _ hdraft htree)
          (nodesText_of_drafts drafts _ _ _ hmore hrest)

end

/-- The reader takes the texts of the grammar and no others. -/
lemma read_eq_ok_iff {input : String} : read input = .ok tree ↔ Document input.toList tree := by
  constructor
  · intro h
    rw [read] at h
    split at h
    · cases h
    · rename_i draft rest hdraft
      split at h
      · rename_i hrest
        obtain ⟨before, hbefore, hinput⟩ := exists_blanks input.toList
        obtain ⟨after, hafter, hrest'⟩ := exists_blanks rest
        obtain ⟨used, hused, hnode⟩ := (draftText_of_readNode _).1 _ _ _ hdraft
        rw [hrest, append_nil] at hrest'
        rw [hinput, hused, hrest']
        exact .node hbefore (nodeText_of_draft draft _ _ _ hnode h) hafter
      · cases h
  · intro h
    rw [read]
    generalize input.toList = cs at h
    obtain @⟨before, cs, after, tree, hbefore, hnode, hafter⟩ := h
    obtain ⟨draft, hdraft, htree⟩ := exists_draft tree cs after
      (byteLength (before ++ (cs ++ after))) hnode
    have hread := readNode_append draft cs ((before ++ (cs ++ after)).length + 1) after hdraft
      (by simp only [length_append]; omega)
    have hend : skipSpaces after = [] := by
      have happend : skipSpaces (after ++ []) = skipSpaces [] := hafter.skipSpaces_append
      rwa [append_nil] at happend
    simp only [hbefore.skipSpaces_append, hdraft.skipSpaces, hread, hend, htree]

end Sexpr

end SqlDialect
