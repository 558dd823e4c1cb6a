import SqlDialect.Proofs.Declaration.Entry
import SqlDialect.Proofs.SyntaxTree.Parts

/-!
# Reading a declaration block

`Forest.extract` reads the tokens of a block from left to right.  What it has found if nothing more
comes (`DeclarationScan.closed`) is changed by names only: white space and commas leave it as it is,
and the tokens of one entry add one declaration to it (`Spelling.toDeclaration`).  An entry may have
any number of types, and a type may be qualified by any number of names.  Whatever the tokens are,
what has been found is part of what has been read, in the same order (`DeclarationScan.Holds`).

The tokens are the children of the block, but those of its first general container come last,
wherever it stands.  A container in the middle of an initial value is taken for this one.
-/

namespace SqlDialect

open DeclarationScan Entry SyntaxTree
open List hiding beq_eq_decide

variable {f : Forest} {block id : Nat} {passed : List Nat}

/-! ## Lists -/

section Lists

variable {α : Type} {R : α → α → Prop} [DecidableRel R] {p : α → Bool}

lemma exists_destutter'_eq_cons (a : α) (l : List α) : ∃ rest, l.destutter' R a = a :: rest := by
  induction l with
  | nil => exact ⟨[], destutter'_nil R⟩
  | cons b l ih =>
    by_cases hR : R a b
    · exact ⟨_, destutter'_cons_pos l hR⟩
    · rw [destutter'_cons_neg l hR]
      exact ih

/-- An element that may follow any other starts anew. -/
lemma destutter'_append_cons {c : α} (hc : ∀ a, R a c) (a : α) (l rest : List α) :
    (l ++ c :: rest).destutter' R a = l.destutter' R a ++ rest.destutter' R c := by
  induction l generalizing a with
  | nil => rw [nil_append, destutter'_cons_pos rest (hc a), destutter'_nil,
      singleton_append]
  | cons b l ih =>
    by_cases hR : R a b
    · rw [cons_append, destutter'_cons_pos _ hR, ih, destutter'_cons_pos _ hR,
        cons_append]
    · rw [cons_append, destutter'_cons_neg _ hR, ih, destutter'_cons_neg _ hR]

/-- An element that stays is still the first one. -/
lemma exists_rdropWhile_eq_cons {a : α} (h : p a = false) (l : List α) :
    ∃ rest, (a :: l).rdropWhile p = a :: rest := by
  rw [List.rdropWhile, reverse_cons, dropWhile_append]
  split
  · exact ⟨[], by simp [h]⟩
  · exact ⟨_, by rw [reverse_append]; rfl⟩

end Lists

/-! ## Tokens that are nodes -/

section

variable (f id)

@[simp] lemma hasKind_subtree (tag : Tag) : hasKind f.subtree tag id = f.is id tag := by
  rw [hasKind, Forest.tag_subtree, Forest.is]

@[simp] lemma isBlank_subtree : isBlank f.subtree id = f.isWhiteSpace id :=
  hasKind_subtree f id _

@[simp] lemma isComment_subtree : isComment f.subtree id = f.isComment id := by
  rw [isComment, Forest.tag_subtree, Forest.isComment]

@[simp] lemma isNoise_subtree : isNoise f.subtree id = f.isNoise id := by
  rw [isNoise, isBlank_subtree, isComment_subtree, Forest.isNoise]

end

lemma isWhiteSpace_of_isName (h : isName f.subtree id) : f.isWhiteSpace id = false :=
  (isBlank_subtree f id).symm.trans (isBlank_of_isName h)

lemma isComment_iff : f.isComment id ↔ f.tag id = .commentSingleLine ∨
    f.tag id = .commentSingleLineCStyle ∨ f.tag id = .commentMultiLine := by
  rw [Forest.isComment]
  cases f.tag id <;> simp [Tag.isComment]

lemma trimWhiteSpace_append_of_blank (ids : List Nat) (h : f.isWhiteSpace id) :
    f.trimWhiteSpace (ids ++ [id]) = f.trimWhiteSpace ids := by
  rw [Forest.trimWhiteSpace, Forest.trimWhiteSpace, dropWhile_append]
  split
  · next hnil => simp [h, isEmpty_iff.1 hnil]
  · simp [h]

/-- Only the end has to be trimmed if the list starts with something else than white space. -/
lemma trimWhiteSpace_cons (rest : List Nat) (h : f.isWhiteSpace id = false) :
    f.trimWhiteSpace (id :: rest) = (id :: rest).rdropWhile f.isWhiteSpace := by
  rw [Forest.trimWhiteSpace, dropWhile_cons_of_neg (by simp [h]), List.rdropWhile]

/-- Trimming does not matter for what is not white space. -/
lemma filter_trimWhiteSpace {p : Nat → Bool} (hp : ∀ id, f.isWhiteSpace id → p id = false)
    (ids : List Nat) : (f.trimWhiteSpace ids).filter p = ids.filter p := by
  have hdrop : ∀ ids : List Nat, (ids.dropWhile f.isWhiteSpace).filter p = ids.filter p := by
    intro ids
    induction ids with
    | nil => rfl
    | cons id ids ih =>
      by_cases hid : f.isWhiteSpace id
      · rw [dropWhile_cons_of_pos hid, ih, filter_cons_of_neg (by simp [hp id hid])]
      · rw [dropWhile_cons_of_neg hid]
  rw [Forest.trimWhiteSpace, filter_reverse, hdrop, filter_reverse, hdrop,
    reverse_reverse]

/-- The ends of a list that has been trimmed are not white space. -/
lemma isWhiteSpace_of_trimmed {ids : List Nat} (h : (f.trimWhiteSpace ids).head? = some id ∨
    (f.trimWhiteSpace ids).getLast? = some id) : f.isWhiteSpace id = false := by
  rw [Forest.trimWhiteSpace, getLast?_reverse] at h
  obtain h | h := h
  · obtain ⟨rest, hrest⟩ := head?_eq_some_iff.1 h
    obtain ⟨last, hlast⟩ := rdropWhile_prefix f.isWhiteSpace (ids.dropWhile f.isWhiteSpace)
    have hhead := head?_dropWhile_not f.isWhiteSpace ids
    rw [← hlast, List.rdropWhile, hrest] at hhead
    simpa using hhead
  · have hhead := head?_dropWhile_not f.isWhiteSpace (ids.dropWhile f.isWhiteSpace).reverse
    rw [h] at hhead
    simpa using hhead

/-! ## One token -/

namespace DeclarationScan

variable {s : DeclarationScan}

/-- What has been found if nothing more is read. -/
def closed (s : DeclarationScan) (f : Forest) : List Declaration :=
  (s.finish f).finished

/-- The name and the type of a variable have been read so far. -/
def typing (finished : List Declaration) (signature : List NodeId) (array : Bool) :
    DeclarationScan :=
  { finished, current := { signature, array } }

/-- The value of a variable is being read. -/
def valuing (finished : List Declaration) (signature value : List NodeId) (array : Bool) :
    DeclarationScan :=
  { finished, current := { signature, value, array }, inValue := true }

lemma closed_finish (s : DeclarationScan) (f : Forest) : (s.finish f).closed f = s.closed f := by
  simp [closed, finish, Declaration.trimmed, Forest.trimWhiteSpace]

lemma closed_addToSignature_of_blank (hid : f.isWhiteSpace id) :
    (s.addToSignature id).closed f = s.closed f := by
  simp [closed, finish, addToSignature, Declaration.addToSignature, Declaration.trimmed,
    trimWhiteSpace_append_of_blank _ hid]

lemma read_blank (hvalue : s.inValue = false) (hid : f.isWhiteSpace id) :
    (s.read f id).inValue = false ∧ (s.read f id).closed f = s.closed f := by
  have htag : f.tag id = .whiteSpace := Forest.tag_of_is hid
  have hread : s.read f id = s.readWhiteSpace f id := by simp [read, hvalue, htag]
  rw [hread, readWhiteSpace]
  split
  · exact ⟨hvalue, rfl⟩
  · split_ifs
    · exact ⟨hvalue, rfl⟩
    · exact ⟨hvalue, closed_addToSignature_of_blank hid⟩

lemma read_comma (hid : f.is id .comma) :
    (s.read f id).inValue = false ∧ (s.read f id).closed f = s.closed f := by
  have htag : f.tag id = .comma := Forest.tag_of_is hid
  cases hvalue : s.inValue with
  | true =>
    have hread : s.read f id = s.finish f := by simp [read, hvalue, hid]
    rw [hread]
    exact ⟨rfl, closed_finish s f⟩
  | false =>
    have hread : s.read f id = s := by simp [read, hvalue, htag, Tag.isComment]
    rw [hread]
    exact ⟨hvalue, rfl⟩

lemma read_name (hvalue : s.inValue = false) (hid : isName f.subtree id)
    (hnext : (f.nextAdjacent id).any (f.is · .period) = false)
    (hprevious : (f.previousAdjacent id).any (f.is · .period) = false) :
    s.read f id = typing (s.closed f) [id] false := by
  have hread : s.read f id = s.readName f id := by
    rw [isName_iff, Forest.tag_subtree] at hid
    obtain htag | htag := hid <;> simp [read, hvalue, htag]
  rw [hread, readName, hnext, hprevious]
  rfl

section Typing

variable {finished : List Declaration} {signature : List Nat} {array : Bool} {last : Nat}

/-- The name of a schema is left out. -/
lemma read_typing_schema (hid : isName f.subtree id)
    (hnext : (f.nextAdjacent id).any (f.is · .period)) :
    (typing finished signature array).read f id = typing finished signature array := by
  rw [isName_iff, Forest.tag_subtree] at hid
  obtain htag | htag := hid <;> simp [read, typing, htag, readName, hnext]

lemma read_typing_period (hid : f.is id .period) :
    (typing finished signature array).read f id = typing finished signature array := by
  simp [read, typing, Forest.tag_of_is hid, Tag.isComment]

/-- The name of a table type makes an array. -/
lemma read_typing_element (hid : isName f.subtree id)
    (hnext : (f.nextAdjacent id).any (f.is · .period) = false)
    (hprevious : (f.previousAdjacent id).any (f.is · .period)) :
    (typing finished signature array).read f id = typing finished (signature ++ [id]) true := by
  rw [isName_iff, Forest.tag_subtree] at hid
  obtain htag | htag := hid <;>
    simp [read, typing, htag, readName, hnext, hprevious, Declaration.addToSignature]

lemma read_typing_blank (hid : f.isWhiteSpace id) :
    (typing finished (signature ++ [last]) array).read f id =
      typing finished (signature ++ if f.isWhiteSpace last then [last] else [last, id]) array := by
  have htag : f.tag id = .whiteSpace := Forest.tag_of_is hid
  by_cases hlast : f.isWhiteSpace last
  · simp [read, typing, htag, readWhiteSpace, hlast]
  · simp [read, typing, htag, readWhiteSpace, hlast, addToSignature, Declaration.addToSignature]

/-- A token of a type that is not a name. -/
def isTypeToken (f : Forest) (id : NodeId) : Bool :=
  f.isComment id || f.is id .dataTypeKeyword || f.is id .ddlDetailParens || f.is id .ddlParens

lemma read_typing_type (hid : isTypeToken f id) :
    (typing finished signature array).read f id = typing finished (signature ++ [id]) array := by
  rw [isTypeToken, Bool.or_eq_true, Bool.or_eq_true, Bool.or_eq_true] at hid
  obtain ((hid | hid) | hid) | hid := hid
  · obtain htag | htag | htag := isComment_iff.1 hid <;>
      simp [read, typing, htag, addToSignature, Declaration.addToSignature, Tag.isComment]
  all_goals
    simp [read, typing, Forest.tag_of_is hid, addToSignature, Declaration.addToSignature]

end Typing

end DeclarationScan

/-! ## One entry -/

/-- A part of a type: a token that stands for itself, or a name and the names that qualify it, each
with the period after it. -/
inductive TypePart where
  | token (id : NodeId)
  | qualified (qualifiers : List (NodeId × NodeId)) (element : NodeId)

namespace TypePart

def tokens : TypePart → List NodeId
  | token id => [id]
  | qualified qualifiers element => (qualifiers.flatMap fun q => [q.1, q.2]) ++ [element]

/-- The token that is kept: of a qualified name the last one. -/
def kept : TypePart → NodeId
  | token id => id
  | qualified _ element => element

def isQualified : TypePart → Bool
  | token _ => false
  | qualified _ _ => true

/-- The node stands directly before a period. -/
def endsAtPeriod (f : Forest) (id : NodeId) : Bool :=
  (f.nextAdjacent id).any (f.is · .period)

/-- The node stands directly after a period. -/
def startsAtPeriod (f : Forest) (id : NodeId) : Bool :=
  (f.previousAdjacent id).any (f.is · .period)

/-- The nodes are of the kinds that types are made of, and the names of a qualified type stand
directly next to its periods. -/
def fits (f : Forest) : TypePart → Bool
  | token id => f.isWhiteSpace id || isTypeToken f id || f.isText id .otherKeyword "table"
  | qualified qualifiers element =>
    (qualifiers.all fun q => isName f.subtree q.1 && endsAtPeriod f q.1 && f.is q.2 .period) &&
      isName f.subtree element && !endsAtPeriod f element && startsAtPeriod f element

end TypePart

open TypePart

/-- How an entry is written: white space, the name, the parts of the type, and an equals sign with
the nodes of the initial value. -/
structure Spelling where
  blanks : List NodeId
  name : NodeId
  type : List TypePart
  initial : Option (NodeId × List NodeId)

namespace Spelling

def tokens (e : Spelling) : List NodeId :=
  e.blanks ++ e.name :: (e.type.flatMap TypePart.tokens ++ e.initial.toList.flatMap fun i =>
    i.1 :: i.2)

/-- The nodes of the initial value; none if there is no equals sign. -/
def value (e : Spelling) : List NodeId :=
  e.initial.toList.flatMap (·.2)

/-- The nodes are of the right kinds. The name is not next to a period, and the value has no
comma. -/
def fits (f : Forest) (e : Spelling) : Bool :=
  e.blanks.all f.isWhiteSpace && isName f.subtree e.name && !endsAtPeriod f e.name &&
    !startsAtPeriod f e.name && e.type.all (TypePart.fits f) &&
    e.initial.all fun i => f.is i.1 .equalsSign && i.2.all (!f.is · .comma)

/-- The declaration of the entry: of a run of white space the first is kept, and none at the
ends. -/
def toDeclaration (f : Forest) (e : Spelling) : Declaration where
  signature := ((e.name :: e.type.map TypePart.kept).destutter fun a b =>
    ¬ (isBlank f.subtree a ∧ isBlank f.subtree b)).rdropWhile f.isWhiteSpace
  value := f.trimWhiteSpace e.value
  array := e.type.any TypePart.isQualified

/-- The declaration is that of the entry: the variable starts with the name, the tokens of the type
follow in their order, and the value is that of the entry. -/
structure Gives (f : Forest) (e : Spelling) (d : Declaration) : Prop where
  head_eq : d.signature.head? = some e.name
  tokens_eq : d.signature.filter (!f.isWhiteSpace ·) =
    e.name :: (e.type.map TypePart.kept).filter (!f.isWhiteSpace ·)
  value_eq : d.value = f.trimWhiteSpace e.value
  array_eq : d.array = e.type.any TypePart.isQualified

end Spelling

namespace DeclarationScan

variable {s : DeclarationScan} {rest signature tokens value : List Nat}
  {finished : List Declaration} {name : Nat} {array : Bool}

lemma foldl_read_value (htokens : ∀ id ∈ tokens, f.is id .comma = false) :
    tokens.foldl (·.read f ·) (valuing finished signature value array) =
      valuing finished signature (value ++ tokens) array := by
  induction tokens generalizing value with
  | nil => simp
  | cons id tokens ih =>
    have hread : (valuing finished signature value array).read f id =
        valuing finished signature (value ++ [id]) array := by
      simp [read, valuing, htokens id mem_cons_self]
    rw [foldl_cons, hread, ih fun id hid => htokens id (mem_cons_of_mem _ hid),
      append_assoc, singleton_append]

/-- A declaration that starts with its name is complete. -/
lemma closed_valuing (hname : f.isWhiteSpace name = false) :
    (valuing finished (name :: rest) value array).closed f = finished ++ [{
      signature := (name :: rest).rdropWhile f.isWhiteSpace
      value := f.trimWhiteSpace value
      array }] := by
  obtain ⟨kept, hkept⟩ := exists_rdropWhile_eq_cons hname rest
  simp [closed, finish, valuing, Declaration.trimmed, trimWhiteSpace_cons rest hname, hkept]

lemma foldl_read_opening (hvalue : s.inValue = false) (h : ∀ id ∈ tokens, isOpening f.subtree id) :
    (tokens.foldl (·.read f ·) s).inValue = false ∧
      (tokens.foldl (·.read f ·) s).closed f = s.closed f := by
  induction tokens generalizing s with
  | nil => exact ⟨hvalue, rfl⟩
  | cons id tokens ih =>
    have hid : (s.read f id).inValue = false ∧ (s.read f id).closed f = s.closed f := by
      have hopening := h id (.head _)
      rw [isOpening, isBlank_subtree, hasKind_subtree, Bool.or_eq_true,
        Bool.and_eq_true] at hopening
      obtain hblank | ⟨hkeyword, htable⟩ := hopening
      · exact read_blank hvalue hblank
      · have htext : f.hasText id "table" = false := by
          simpa [Forest.hasText] using htable
        have hread : s.read f id = s := by
          simp [read, hvalue, Forest.tag_of_is hkeyword, htext]
        rw [hread]
        exact ⟨hvalue, rfl⟩
    obtain ⟨hvalue', hclosed⟩ := hid
    rw [foldl_cons, ← hclosed]
    exact ih hvalue' fun id hid => h id (.tail _ hid)

/-- Names that qualify another one, and their periods, are left out. -/
lemma foldl_read_qualifiers {qualifiers : List (Nat × Nat)}
    (h : ∀ q ∈ qualifiers, (isName f.subtree q.1 ∧ endsAtPeriod f q.1) ∧ f.is q.2 .period) :
    (qualifiers.flatMap fun q => [q.1, q.2]).foldl (·.read f ·) (typing finished signature array) =
      typing finished signature array := by
  induction qualifiers with
  | nil => rfl
  | cons q qualifiers ih =>
    obtain ⟨⟨hname, hnext⟩, hperiod⟩ := h q (.head _)
    rw [flatMap_cons, foldl_append, foldl_cons, foldl_cons, foldl_nil,
      read_typing_schema hname hnext, read_typing_period hperiod,
      ih fun q hq => h q (.tail _ hq)]

/-- A part of a type adds the token that is kept, unless that would make a run of white space. -/
lemma foldl_read_part {part : TypePart} (signature : List Nat) (last : Nat) (h : part.fits f) :
    part.tokens.foldl (·.read f ·) (typing finished (signature ++ [last]) array) =
      typing finished (signature ++ if f.isWhiteSpace last ∧ f.isWhiteSpace part.kept then [last]
        else [last, part.kept]) (array || part.isQualified) := by
  cases part with
  | token id =>
    change (typing finished (signature ++ [last]) array).read f id = typing finished (signature ++
      if f.isWhiteSpace last ∧ f.isWhiteSpace id then [last] else [last, id]) (array || false)
    rw [Bool.or_false]
    by_cases hblank : f.isWhiteSpace id
    · rw [read_typing_blank hblank]
      simp only [hblank, and_true]
    · rw [if_neg fun hboth => hblank hboth.2]
      rw [TypePart.fits, Bool.or_eq_true, Bool.or_eq_true] at h
      obtain (hblank' | htype) | htable := h
      · exact absurd hblank' hblank
      · rw [read_typing_type htype, append_assoc, singleton_append]
      · rw [Forest.isText, Bool.and_eq_true] at htable
        simp [read, typing, Forest.tag_of_is htable.1, htable.2, addToSignature,
          Declaration.addToSignature]
  | qualified qualifiers element =>
    simp only [TypePart.fits, Bool.and_eq_true, Bool.not_eq_true', all_eq_true] at h
    obtain ⟨⟨⟨hqualifiers, helement⟩, hnext⟩, hprevious⟩ := h
    rw [TypePart.tokens, foldl_append, foldl_read_qualifiers hqualifiers, foldl_cons,
      read_typing_element helement hnext hprevious]
    simp [isQualified, kept, isWhiteSpace_of_isName helement]

lemma foldl_read_parts {type : List TypePart} (signature : List Nat) (last : Nat)
    (h : ∀ part ∈ type, part.fits f) :
    (type.flatMap TypePart.tokens).foldl (·.read f ·)
      (typing finished (signature ++ [last]) array) =
      typing finished (signature ++ (type.map kept).destutter' (fun a b =>
        ¬ (isBlank f.subtree a ∧ isBlank f.subtree b)) last) (array || type.any isQualified) := by
  induction type generalizing signature last array with
  | nil => simp
  | cons part type ih =>
    have hrest := fun part hpart => h part (.tail _ hpart)
    rw [flatMap_cons, foldl_append, foldl_read_part signature last (h part mem_cons_self),
      map_cons, any_cons, ← Bool.or_assoc]
    by_cases hboth : f.isWhiteSpace last ∧ f.isWhiteSpace part.kept
    · rw [if_pos hboth, ih _ _ hrest, destutter'_cons_neg _ (by simpa using hboth)]
    · have hsplit : signature ++ [last, part.kept] = (signature ++ [last]) ++ [part.kept] := by simp
      rw [if_neg hboth, hsplit, ih _ _ hrest, destutter'_cons_pos _ (by simpa using hboth),
        append_assoc, singleton_append]

/-- The tokens of an entry add one declaration. -/
lemma closed_foldl_spelling {e : Spelling} (hvalue : s.inValue = false) (hfits : e.fits f) :
    (e.tokens.foldl (·.read f ·) s).closed f = s.closed f ++ [e.toDeclaration f] := by
  simp only [Spelling.fits, Bool.and_eq_true, Bool.not_eq_true', all_eq_true] at hfits
  obtain ⟨⟨⟨⟨⟨hblanks, hname⟩, hnext⟩, hprevious⟩, htype⟩, hinitial⟩ := hfits
  obtain ⟨hvalue', hclosed⟩ := foldl_read_opening (f := f) hvalue fun id hid => by
    simp [isOpening, hblanks id hid]
  have hblank := isWhiteSpace_of_isName hname
  have hread : (e.type.flatMap TypePart.tokens).foldl (·.read f ·)
      (typing (s.closed f) ([] ++ [e.name]) false) = _ := foldl_read_parts [] e.name htype
  obtain ⟨rest, hsignature⟩ := exists_destutter'_eq_cons
    (R := fun a b => ¬ (isBlank f.subtree a ∧ isBlank f.subtree b)) e.name (e.type.map kept)
  rw [nil_append, nil_append, hsignature, Bool.false_or] at hread
  rw [Spelling.tokens, foldl_append, foldl_cons, foldl_append,
    read_name hvalue' hname hnext hprevious, hclosed, hread, Spelling.toDeclaration,
    destutter_cons', hsignature, ← closed_valuing hblank, Spelling.value]
  cases hsome : e.initial with
  | none => rfl
  | some i =>
    rw [hsome, Option.all_some, Bool.and_eq_true, all_eq_true] at hinitial
    obtain ⟨hsign, hcomma⟩ := hinitial
    have hsign : (typing (s.closed f) (e.name :: rest) (e.type.any isQualified)).read f i.1 =
        valuing (s.closed f) (e.name :: rest) [] (e.type.any isQualified) := by
      simp [read, typing, valuing, Forest.tag_of_is hsign]
    simp [hsign, foldl_read_value fun id hid => by simpa using hcomma id hid]

/-! ## Whole blocks -/

lemma closed_foldl_spellings {more : List (Nat × Spelling)}
    (hmore : ∀ c ∈ more, f.is c.1 .comma ∧ c.2.fits f) :
    ((more.flatMap fun c => c.1 :: c.2.tokens).foldl (·.read f ·) s).closed f =
      s.closed f ++ more.map (·.2.toDeclaration f) := by
  induction more generalizing s with
  | nil => simp
  | cons c more ih =>
    obtain ⟨hcomma, hfits⟩ := hmore c (.head _)
    obtain ⟨hvalue, hclosed⟩ := read_comma hcomma
    rw [flatMap_cons, foldl_append, foldl_cons, ih fun c hc => hmore c (mem_cons_of_mem _ hc),
      closed_foldl_spelling hvalue hfits, hclosed]
    simp

end DeclarationScan

/-- Of a run of white space only white space is left out. -/
lemma filter_destutter' (a : Nat) (ids : List Nat) :
    (ids.destutter' (fun a b => ¬ (isBlank f.subtree a ∧ isBlank f.subtree b)) a).filter
      (!f.isWhiteSpace ·) = (a :: ids).filter (!f.isWhiteSpace ·) := by
  induction ids generalizing a with
  | nil => rfl
  | cons b ids ih =>
    by_cases hboth : isBlank f.subtree a ∧ isBlank f.subtree b
    · have hblank : f.isWhiteSpace a ∧ f.isWhiteSpace b := by simpa using hboth
      rw [destutter'_cons_neg _ (not_not_intro hboth), ih]
      simp [hblank]
    · rw [destutter'_cons_pos _ hboth]
      simp only [filter_cons, ih]

lemma Spelling.gives_toDeclaration {e : Spelling} (hfits : e.fits f) :
    e.Gives f (e.toDeclaration f) := by
  simp only [Spelling.fits, Bool.and_eq_true] at hfits
  have hblank := isWhiteSpace_of_isName hfits.1.1.1.1.2
  obtain ⟨rest, hsignature⟩ := exists_destutter'_eq_cons
    (R := fun a b => ¬ (isBlank f.subtree a ∧ isBlank f.subtree b)) e.name (e.type.map kept)
  refine ⟨?_, ?_, rfl, rfl⟩ <;> rw [Spelling.toDeclaration, destutter_cons', hsignature]
  · obtain ⟨kept, hkept⟩ := exists_rdropWhile_eq_cons hblank rest
    rw [hkept]
    rfl
  · rw [← trimWhiteSpace_cons rest hblank, filter_trimWhiteSpace (by simp), ← hsignature,
      filter_destutter']
    simp [hblank]

/-- If the tokens of a block are a keyword and entries with commas between them, each entry gives
one declaration. -/
theorem extract_gives_entries {opening : List Nat} {first : Spelling} {more : List (Nat × Spelling)}
    (hopening : ∀ id ∈ opening, isOpening f.subtree id) (hfirst : first.fits f)
    (hmore : ∀ c ∈ more, f.is c.1 .comma ∧ c.2.fits f)
    (htokens : f.declarationTokens block =
      opening ++ first.tokens ++ more.flatMap fun c => c.1 :: c.2.tokens) :
    List.Forall₂ (Spelling.Gives f) (first :: more.map (·.2)) (f.extract block) := by
  obtain ⟨hvalue, hclosed⟩ := foldl_read_opening (s := {}) rfl hopening
  have hextract : f.extract block = first.toDeclaration f :: more.map (·.2.toDeclaration f) := by
    change ((f.declarationTokens block).foldl (·.read f ·) ({} : DeclarationScan)).closed f = _
    rw [htokens, List.foldl_append, List.foldl_append, closed_foldl_spellings hmore,
      closed_foldl_spelling hvalue hfirst, hclosed]
    rfl
  rw [hextract]
  refine .cons (Spelling.gives_toDeclaration hfirst) ?_
  rw [List.forall₂_map_left_iff, List.forall₂_map_right_iff, List.forall₂_same]
  exact fun c hc => Spelling.gives_toDeclaration (hmore c hc).2

/-- `declare @a dbo.lists.Items /* all */, @b int = 1 + 2`, with white space after the comma. -/
def mixedBlock : SyntaxTree :=
  group .ddlDeclareBlock [keyword "declare", leaf .otherNode "@a", leaf .otherNode "dbo",
    leaf .period ".", leaf .otherNode "lists", leaf .period ".", leaf .otherNode "Items",
    leaf .commentMultiLine " all ", leaf .comma ",", leaf .whiteSpace " ", leaf .otherNode "@b",
    leaf .dataTypeKeyword "int", leaf .equalsSign "=", leaf .numberValue "1",
    leaf .otherOperator "+", leaf .numberValue "2"]

theorem extract_gives_entries_mixedBlock :
    let f := Forest.ofTree mixedBlock
    let a : Spelling := ⟨[], 2, [.qualified [(3, 4), (5, 6)] 7, .token 8], none⟩
    let b : Spelling := ⟨[10], 11, [.token 12], some (13, [14, 15, 16])⟩
    f.declarationTokens 0 = [1] ++ a.tokens ++ 9 :: b.tokens ∧ a.fits f ∧ b.fits f ∧
      List.Forall₂ (Spelling.Gives f) [a, b] (f.extract 0) := by
  intro f a b
  have hfits : (∀ id ∈ [1], isOpening f.subtree id) ∧ a.fits f ∧ f.is 9 .comma ∧ b.fits f ∧
      f.declarationTokens 0 = [1] ++ a.tokens ++ 9 :: b.tokens := by decide +kernel
  obtain ⟨hopening, ha, hcomma, hb, htokens⟩ := hfits
  have hmore : ∀ c ∈ [(9, b)], f.is c.1 .comma ∧ c.2.fits f := by simp [hcomma, hb]
  exact ⟨htokens, ha, hb, extract_gives_entries hopening ha hmore (by simpa using htokens)⟩

/-- `declare @a int = 1 + 2`, with the first number in a container of its own. -/
def containedValue : SyntaxTree :=
  group .ddlDeclareBlock [keyword "declare", leaf .otherNode "@a", leaf .dataTypeKeyword "int",
    leaf .equalsSign "=", group .containerGeneralContent [leaf .numberValue "1"],
    leaf .otherOperator "+", leaf .numberValue "2"]

/-- The container is taken for the one that holds the entries, so its number comes last. -/
theorem extract_containedValue :
    (Forest.ofTree containedValue).children 0 = [1, 2, 3, 4, 5, 7, 8] ∧
      (Forest.ofTree containedValue).extract 0 = [⟨[2, 3], [7, 8, 6], false⟩] := by
  decide +kernel

/-! ## Nothing is made up -/

/-- The tokens of a block are apart from each other. -/
lemma Forest.WellFormed.declarationTokens_apart (hf : f.WellFormed) (block : Nat) :
    (f.declarationTokens block).Nodup ∧ ∀ a ∈ f.declarationTokens block,
      ∀ b ∈ f.declarationTokens block, f.Under b a → b = a := by
  rw [declarationTokens]
  cases hchild : f.child block .containerGeneralContent with
  | none =>
    refine ⟨hf.nodup_children block, fun a ha b hb hunder => ?_⟩
    exact hf.eq_of_under_of_parent (.refl f b) hunder (hf.parent_of_mem hb) (hf.parent_of_mem ha)
  | some body =>
    have hbody := hf.parent_of_child hchild
    have hown : ∀ a ∈ (f.children block).filter (· != body), f.parent a = some block ∧
        a ≠ body := by
      intro a ha
      rw [mem_filter] at ha
      exact ⟨hf.parent_of_mem ha.1, by simpa using ha.2⟩
    -- of the tokens of the block and those of the container none is under another
    have hcross : ∀ a ∈ (f.children block).filter (· != body), ∀ b ∈ f.children body,
        ¬ f.Under b a ∧ ¬ f.Under a b := by
      intro a ha b hb
      obtain ⟨hparent, hne⟩ := hown a ha
      have hb := hf.parent_of_mem hb
      constructor
      · intro hunder
        exact hne (hf.eq_of_under_of_parent hunder (under_of_parent hb) hparent hbody)
      · intro hunder
        exact hne (hf.eq_of_under_of_parent (.refl f a) (hunder.trans (under_of_parent hb))
          hparent hbody)
    constructor
    · rw [nodup_append']
      refine ⟨(hf.nodup_children block).filter _, hf.nodup_children body, fun a ha hb => ?_⟩
      exact (hcross a ha a hb).1 (.refl f a)
    · intro a ha b hb hunder
      rw [mem_append] at ha hb
      rcases ha with ha | ha <;> rcases hb with hb | hb
      · exact hf.eq_of_under_of_parent (.refl f b) hunder (hown b hb).1 (hown a ha).1
      · exact absurd hunder (hcross a ha b hb).1
      · exact absurd hunder (hcross b hb a ha).2
      · exact hf.eq_of_under_of_parent (.refl f b) hunder (hf.parent_of_mem hb)
          (hf.parent_of_mem ha)

namespace Declaration

/-- The tokens of a declaration in the order of the block. -/
def tokens (d : Declaration) : List NodeId :=
  d.signature ++ d.value

/-- There is a variable, and neither list starts or ends with white space. -/
structure IsTrim (d : Declaration) (f : Forest) : Prop where
  signature_ne : d.signature ≠ []
  ends : ∀ ids ∈ [d.signature, d.value], ∀ id, ids.head? = some id ∨ ids.getLast? = some id →
    f.isWhiteSpace id = false

end Declaration

namespace DeclarationScan

variable {s : DeclarationScan}

/-- What has been found is part of what has been read. -/
structure Holds (s : DeclarationScan) (f : Forest) (passed : List NodeId) : Prop where
  sublist : (s.finished.flatMap Declaration.tokens ++ s.current.tokens).Sublist passed
  value_eq : s.inValue = false → s.current.value = []
  isTrim : ∀ d ∈ s.finished, d.IsTrim f

namespace Holds

variable (h : s.Holds f passed)
include h

lemma finish : (s.finish f).Holds f passed := by
  have htokens : (s.current.trimmed f).tokens.Sublist s.current.tokens :=
    (f.trimWhiteSpace_sublist _).append (f.trimWhiteSpace_sublist _)
  rw [DeclarationScan.finish]
  by_cases hnone : (s.current.trimmed f).signature.isEmpty
  · refine ⟨?_, fun _ => rfl, by simpa [hnone] using h.isTrim⟩
    simpa [hnone, Declaration.tokens] using (sublist_append_left _ _).trans h.sublist
  · refine ⟨?_, fun _ => rfl, fun d hd => ?_⟩
    · simpa [hnone, Declaration.tokens] using (htokens.append_left _).trans h.sublist
    · simp only [hnone, Bool.false_eq_true, if_false, mem_append, mem_singleton] at hd
      obtain hd | rfl := hd
      · exact h.isTrim d hd
      · refine ⟨by simpa using hnone, fun ids hids id hid => ?_⟩
        simp only [Declaration.trimmed, mem_cons, not_mem_nil, or_false] at hids
        obtain rfl | rfl := hids <;> exact isWhiteSpace_of_trimmed hid

lemma skip (id : Nat) : s.Holds f (passed ++ [id]) :=
  ⟨h.sublist.trans (sublist_append_left _ _), h.value_eq, h.isTrim⟩

lemma addToSignature (hvalue : s.inValue = false) (id : Nat) (array : Bool) :
    { s with current := { s.current.addToSignature id with array } }.Holds f (passed ++ [id]) := by
  refine ⟨?_, h.value_eq, h.isTrim⟩
  have hsublist := h.sublist.append_right [id]
  simpa [Declaration.tokens, Declaration.addToSignature, h.value_eq hvalue] using hsublist

lemma readName (hvalue : s.inValue = false) (id : Nat) :
    (s.readName f id).Holds f (passed ++ [id]) := by
  rw [DeclarationScan.readName]
  split_ifs
  · exact h.skip id
  · exact h.addToSignature hvalue id true
  · exact h.finish.addToSignature rfl id _

lemma readWhiteSpace (hvalue : s.inValue = false) (id : Nat) :
    (s.readWhiteSpace f id).Holds f (passed ++ [id]) := by
  rw [DeclarationScan.readWhiteSpace]
  split
  · exact h.skip id
  · split_ifs
    · exact h.skip id
    · exact h.addToSignature hvalue id _

lemma readValue (hvalue : s.inValue) (id : Nat) :
    { s with current := { s.current with value := s.current.value ++ [id] } }.Holds f
      (passed ++ [id]) := by
  refine ⟨?_, fun hnot => by simp [hvalue] at hnot, h.isTrim⟩
  simpa [Declaration.tokens] using h.sublist.append_right [id]

lemma read (id : Nat) : (s.read f id).Holds f (passed ++ [id]) := by
  rw [DeclarationScan.read]
  by_cases hvalue : s.inValue
  · rw [if_pos hvalue]
    split_ifs
    · exact h.finish.skip id
    · exact h.readValue hvalue id
  · rw [if_neg hvalue]
    rw [Bool.not_eq_true] at hvalue
    split
    · exact h.readName hvalue id
    · exact h.readName hvalue id
    · exact h.readWhiteSpace hvalue id
    · exact h.addToSignature hvalue id _
    · exact h.addToSignature hvalue id _
    · exact h.addToSignature hvalue id _
    · split_ifs
      · exact h.addToSignature hvalue id _
      · exact h.skip id
    · have hnone := h.value_eq hvalue
      refine ⟨?_, fun hnot => by simp at hnot, h.isTrim⟩
      simpa [Declaration.tokens, hnone] using (h.skip id).sublist
    · split_ifs
      · exact h.addToSignature hvalue id _
      · exact h.skip id

lemma foldl (ids : List Nat) : (ids.foldl (·.read f ·) s).Holds f (passed ++ ids) := by
  induction ids generalizing s passed with
  | nil => simpa using h
  | cons id ids ih => simpa using ih (h.read id)

end Holds

end DeclarationScan

/-- What is extracted from a node, whatever its children are, is part of its tokens in the same
order: its children without the first general container, and then the children of that. No
declaration is without a variable, and no list starts or ends with white space. -/
theorem extract_sublist_tokens (hf : f.WellFormed) (block : Nat) :
    let body := f.child block .containerGeneralContent
    ((f.extract block).flatMap fun d => d.signature ++ d.value).Sublist
      ((f.children block).filter (some · ≠ body) ++ body.toList.flatMap f.children) ∧
    ((f.extract block).flatMap fun d => d.signature ++ d.value).Nodup ∧
    ∀ d ∈ f.extract block, d.signature ≠ [] ∧ ∀ ids ∈ [d.signature, d.value], ∀ id,
      ids.head? = some id ∨ ids.getLast? = some id → f.isWhiteSpace id = false := by
  intro body
  have hstart : ({} : DeclarationScan).Holds f [] :=
    ⟨List.nil_sublist _, fun _ => rfl, by simp⟩
  have hread := (hstart.foldl (f.declarationTokens block)).finish
  have hsublist :
      ((f.extract block).flatMap Declaration.tokens).Sublist (f.declarationTokens block) :=
    (List.sublist_append_left _ _).trans hread.sublist
  have htokens : f.declarationTokens block =
      (f.children block).filter (some · ≠ body) ++ body.toList.flatMap f.children := by
    rw [Forest.declarationTokens]
    cases hbody : f.child block .containerGeneralContent <;> simp [body, hbody, bne, beq_eq_decide]
  refine ⟨htokens ▸ hsublist, hsublist.nodup (hf.declarationTokens_apart block).1, fun d hd => ?_⟩
  have htrim := hread.isTrim d hd
  exact ⟨htrim.signature_ne, htrim.ends⟩

/-- Commas and names in places where no entry has them, and a container between them. -/
def looseBlock : SyntaxTree :=
  group .ddlDeclareBlock [leaf .comma ",", leaf .otherNode "@a", leaf .equalsSign "=",
    group .containerGeneralContent [leaf .whiteSpace " ", leaf .comma ",",
    leaf .dataTypeKeyword "int"], leaf .whiteSpace " ", leaf .numberValue "1"]

theorem extract_sublist_tokens_looseBlock :
    let f := Forest.ofTree looseBlock
    f.WellFormed ∧ f.extract 0 = [⟨[2], [9], false⟩, ⟨[7], [], false⟩] ∧
      ((f.extract 0).flatMap fun d => d.signature ++ d.value).Sublist [1, 2, 3, 8, 9, 5, 6, 7] := by
  intro f
  have hf : f.WellFormed := Forest.wellFormed_ofTree looseBlock
  have htokens : (f.children 0).filter (some · ≠ f.child 0 .containerGeneralContent) ++
      (f.child 0 .containerGeneralContent).toList.flatMap f.children =
        [1, 2, 3, 8, 9, 5, 6, 7] := by
    decide +kernel
  exact ⟨hf, by decide +kernel, htokens ▸ (extract_sublist_tokens hf 0).1⟩

end SqlDialect
