import SqlDialect.Proofs.Sexpr.Grammar

/-!
# Outlines of S-expressions

The outline of a text says where the names of its nodes stand.  It follows the grammar of nodes but
lets a node have any name, so a text has an outline if it is a node as far as the syntax goes:
`Nodes` is the rule for lists of nodes, `Content` for what stands between the brackets of one, and
`NodeOutline` for a node.

The reader takes a node with an outline whole, and notes for each name how many bytes are left from
it on (`readNode_append_outline`); what it takes as a node has an outline (`exists_outline`).  Where
it cannot go on, it has taken the longest part of the input that can stand between the brackets of a
node (`length_le_of_readContent`).
-/

namespace SqlDialect.Sexpr

open List

variable {allowed below pairsText textText cs rest tail : List Char} {name : String} {fuel : Nat}
  {places : List NamePlace}

/-! ## Places of names -/

/-- The name of a node, and the text before it. -/
structure NamePlace where
  before : List Char
  name : String

/-- The places in a text that stands after another. -/
def shifted (front : List Char) (places : List NamePlace) : List NamePlace :=
  places.map fun place => { place with before := front ++ place.before }

/-- What stands between the brackets of a node. -/
def contentText (name : String) (pairsText textText below : List Char) : List Char :=
  name.toList ++ (pairsText ++ (textText ++ below))

/-- The names in it: that of the node and those of the nodes below. -/
def contentPlaces (name : String) (pairsText textText : List Char) (inner : List NamePlace) :
    List NamePlace :=
  ⟨[], name⟩ :: shifted (name.toList ++ (pairsText ++ textText)) inner

/-- A node, given what stands between its brackets. -/
def nodeText (before content after : List Char) : List Char :=
  '(' :: (before ++ (content ++ (after ++ [')'])))

/-- Any number of nodes, with blanks before each. -/
inductive Nodes : List Char → List NamePlace → Prop
  | nil : Nodes [] []
  | cons {gap before pairsText textText below after rest : List Char} {name text : String}
      {pairs : List (String × String)} {inner more : List NamePlace} :
    Blanks gap → Blanks before → IsName name → Perhaps AttributesText [] pairsText pairs →
    Perhaps QuotedText "" textText text → Nodes below inner → Blanks after → Nodes rest more →
    Nodes (gap ++ (nodeText before (contentText name pairsText textText below) after ++ rest))
      (shifted (gap ++ '(' :: before) (contentPlaces name pairsText textText inner) ++
        shifted (gap ++ nodeText before (contentText name pairsText textText below) after) more)

/-- A name, then perhaps attributes, perhaps a text, and any number of nodes. -/
inductive Content : List Char → List NamePlace → Prop
  | parts {pairsText textText below : List Char} {name text : String}
      {pairs : List (String × String)} {inner : List NamePlace} :
    IsName name → Perhaps AttributesText [] pairsText pairs → Perhaps QuotedText "" textText text →
    Nodes below inner →
    Content (contentText name pairsText textText below)
      (contentPlaces name pairsText textText inner)

/-- One node. -/
inductive NodeOutline : List Char → List NamePlace → Prop
  | brackets {before content after : List Char} {places : List NamePlace} :
    Blanks before → Content content places → Blanks after →
    NodeOutline (nodeText before content after) (shifted ('(' :: before) places)

/-- A whole input: one node with blanks around it. -/
inductive DocumentOutline : List Char → List NamePlace → Prop
  | node {before cs after : List Char} {places : List NamePlace} :
    Blanks before → NodeOutline cs places → Blanks after →
    DocumentOutline (before ++ (cs ++ after)) (shifted before places)

lemma shifted_shifted (front back : List Char) (places : List NamePlace) :
    shifted front (shifted back places) = shifted (front ++ back) places := by
  simp [shifted, append_assoc]

/-- Nodes are nodes with blanks before each. -/
lemma Nodes.of_outline {gap : List Char} {places more : List NamePlace} (hgap : Blanks gap)
    (hnode : NodeOutline cs places) (hrest : Nodes rest more) :
    Nodes (gap ++ (cs ++ rest)) (shifted gap places ++ shifted (gap ++ cs) more) := by
  obtain ⟨hbefore, hcontent, hafter⟩ := hnode
  obtain ⟨hname, hpairs, htext, hbelow⟩ := hcontent
  rw [shifted_shifted]
  exact .cons hgap hbefore hname hpairs htext hbelow hafter hrest

/-! ## Lengths in bytes -/

lemma foldl_byteLength (start : Nat) (cs : List Char) :
    cs.foldl (fun total c => total + c.utf8Size) start = start + byteLength cs := by
  induction cs generalizing start with
  | nil => rfl
  | cons c cs ih =>
    rw [byteLength, foldl_cons, foldl_cons, ih, ih (0 + c.utf8Size)]
    omega

lemma byteLength_cons (c : Char) (cs : List Char) :
    byteLength (c :: cs) = c.utf8Size + byteLength cs := by
  rw [byteLength, foldl_cons, foldl_byteLength, Nat.zero_add]

lemma byteLength_append (cs rest : List Char) :
    byteLength (cs ++ rest) = byteLength cs + byteLength rest := by
  rw [byteLength, foldl_append, ← byteLength, foldl_byteLength]

/-- A name and the number of bytes from it to the end of the input. -/
def NamePlace.remaining (input : List Char) (place : NamePlace) : String × Nat :=
  (place.name, byteLength input - byteLength place.before)

/-- How many bytes are left does not depend on what stands before. -/
lemma map_remaining_shifted (front input : List Char) (places : List NamePlace) :
    (shifted front places).map (NamePlace.remaining (front ++ input)) =
      places.map (NamePlace.remaining input) := by
  rw [shifted, map_map]
  refine map_congr_left fun place _ => ?_
  simp only [Function.comp_apply, NamePlace.remaining, byteLength_append, Nat.add_sub_add_left]

/-- A place in a text is where its name stands. -/
def NamePlace.IsIn (place : NamePlace) (cs : List Char) : Prop :=
  ∃ after, cs = place.before ++ (place.name.toList ++ after)

lemma isIn_shifted (front rest : List Char) (h : ∀ place ∈ places, place.IsIn cs) :
    ∀ place ∈ shifted front places, place.IsIn (front ++ (cs ++ rest)) := by
  intro place hplace
  obtain ⟨place, hmem, rfl⟩ := mem_map.1 hplace
  obtain ⟨after, hafter⟩ := h place hmem
  exact ⟨after ++ rest, by simp [hafter]⟩

lemma NamePlace.IsIn.byteLength_le {place : NamePlace} (h : place.IsIn cs) :
    byteLength place.before ≤ byteLength cs := by
  obtain ⟨after, rfl⟩ := h
  rw [byteLength_append]
  omega

lemma contentPlaces_isIn {inner : List NamePlace} (h : ∀ place ∈ inner, place.IsIn below) :
    ∀ place ∈ contentPlaces name pairsText textText inner,
      place.IsIn (contentText name pairsText textText below) := by
  intro place hplace
  obtain rfl | hplace := mem_cons.1 hplace
  · exact ⟨_, rfl⟩
  · have hin := isIn_shifted (name.toList ++ (pairsText ++ textText)) [] h place
      hplace
    simpa [contentText] using hin

/-- The places are in the text. -/
lemma Nodes.isIn (h : Nodes cs places) : ∀ place ∈ places, place.IsIn cs := by
  induction h with
  | nil => simp
  | @cons gap before pairsText textText below after rest name text pairs inner more _ _ _ _ _ _ _ _
      ihBelow ihRest =>
    intro place hplace
    obtain hplace | hplace := mem_append.1 hplace
    · have hin := isIn_shifted _ (after ++ (')' :: rest)) (contentPlaces_isIn ihBelow) place
        hplace
      simpa [nodeText] using hin
    · have hin := isIn_shifted _ [] ihRest place hplace
      simpa [nodeText] using hin

/-- The places are in the order of the text. -/
def InOrder (places : List NamePlace) : Prop :=
  places.Pairwise fun place other => byteLength place.before ≤ byteLength other.before

lemma InOrder.shifted (h : InOrder places) (front : List Char) :
    InOrder (shifted front places) := by
  refine pairwise_map.2 (h.imp fun hle => ?_)
  simpa only [byteLength_append, Nat.add_le_add_iff_left]

lemma InOrder.contentPlaces {inner : List NamePlace} (h : InOrder inner) (name : String)
    (pairsText textText : List Char) : InOrder (contentPlaces name pairsText textText inner) :=
  pairwise_cons.2 ⟨fun _ _ => Nat.zero_le _, h.shifted _⟩

lemma Nodes.inOrder (h : Nodes cs places) : InOrder places := by
  induction h with
  | nil => exact List.Pairwise.nil
  | @cons gap before pairsText textText below after rest name text pairs inner more _ _ _ _ _ hbelow
      _ _ ihBelow ihRest =>
    refine pairwise_append.2 ⟨(ihBelow.contentPlaces _ _ _).shifted _, ihRest.shifted _, ?_⟩
    intro place hplace other hother
    obtain ⟨place, hmem, rfl⟩ := mem_map.1 hplace
    obtain ⟨other, -, rfl⟩ := mem_map.1 hother
    have hle := (contentPlaces_isIn hbelow.isIn place hmem).byteLength_le
    simp only [nodeText, byteLength_append, byteLength_cons] at hle ⊢
    omega

/-! ## Reading a node with an outline -/

lemma NodeOutline.starts (h : NodeOutline cs places) : ∃ tail, cs = '(' :: tail := by
  obtain ⟨-, -, -⟩ := h
  exact ⟨_, rfl⟩

lemma NodeOutline.skipSpaces (h : NodeOutline cs places) :
    skipSpaces (cs ++ rest) = cs ++ rest := by
  obtain ⟨tail, rfl⟩ := h.starts
  exact skipSpaces_of_not_isSpace rfl

/-- Nothing, or a part of a node that starts after its blanks with one of the characters. -/
def Opens (allowed : List Char) (cs : List Char) : Prop :=
  cs = [] ∨ ∀ rest, Next allowed (cs ++ rest)

lemma Opens.append {more part : List Char} (h : Opens allowed cs) (hpart : Opens more part) :
    Opens (allowed ++ more) (cs ++ part) := by
  obtain rfl | hnext := h
  · obtain rfl | hmore := hpart
    · exact .inl rfl
    · exact .inr fun rest => (hmore rest).mono fun c hc => mem_append_right _ hc
  · refine .inr fun rest => ?_
    rw [append_assoc]
    exact (hnext _).mono fun c hc => mem_append_left _ hc

lemma Nodes.opens (h : Nodes cs places) : Opens ['('] cs := by
  obtain _ | ⟨hgap, -⟩ := h
  · exact .inl rfl
  · refine .inr fun rest => ?_
    rw [append_assoc]
    exact .blanks_append hgap (.of_cons rfl (.head _))

/-- What stands between the brackets of a node, as the reader takes it: a draft of the node, and
what is left of the input. -/
def readContent (fuel : Nat) (cs : List Char) : Option (Draft × List Char) :=
  (readName cs).map fun (name, after) =>
    let attributes := optional readAttributes [] after
    let text := optional readQuoted "" attributes.2
    let children := readNodes fuel text.2
    (.node name (byteLength cs) attributes.1 text.1 children.1, children.2)

lemma readNode_bracket (fuel : Nat) (cs : List Char) : readNode (fuel + 1) ('(' :: cs) =
    match readContent fuel (skipSpaces cs) with
    | none => .error (skipSpaces cs)
    | some (draft, after) =>
      match skipSpaces after with
      | ')' :: after => .ok (draft, after)
      | after => .error after := by
  simp only [readNode, readContent]
  cases readName (skipSpaces cs) with
  | none => rfl
  | some found => rfl

mutual

/-- The names of a node and of those below it, each with the number of bytes from it on. -/
def Draft.names : Draft → List (String × Nat)
  | .node name remaining _ _ children => (name, remaining) :: Draft.namesAll children

def Draft.namesAll : List Draft → List (String × Nat)
  | [] => []
  | draft :: rest => draft.names ++ Draft.namesAll rest

end

section

variable {before after : List Char} {text : String} {pairs : List (String × String)}
  {inner : List NamePlace}

/-- If the nodes below are noted with their names, so is a node. -/
lemma exists_draft_nodeText (hbefore : Blanks before) (hname : IsName name)
    (hpairs : Perhaps AttributesText [] pairsText pairs)
    (htext : Perhaps QuotedText "" textText text)
    (hafter : Blanks after) (hbelow : ∃ drafts, DraftsText (after ++ ')' :: rest) below drafts ∧
      Draft.namesAll drafts = inner.map (NamePlace.remaining (below ++ (after ++ ')' :: rest)))) :
    ∃ draft, DraftText rest (nodeText before (contentText name pairsText textText below) after)
      draft ∧
      draft.names = (shifted ('(' :: before) (contentPlaces name pairsText textText inner)).map
        (NamePlace.remaining
          (nodeText before (contentText name pairsText textText below) after ++ rest)) := by
  obtain ⟨drafts, hdrafts, hnames⟩ := hbelow
  refine ⟨_, by simpa [nodeText, contentText] using
    DraftText.node hbefore hname hpairs htext hdrafts hafter, ?_⟩
  have hsplit : nodeText before (contentText name pairsText textText below) after ++ rest =
      ('(' :: before) ++ ((name.toList ++ (pairsText ++ textText)) ++
        (below ++ (after ++ ')' :: rest))) := by
    simp [nodeText, contentText]
  rw [hsplit, map_remaining_shifted, Draft.names, hnames, contentPlaces, map_cons,
    map_remaining_shifted]
  simp [NamePlace.remaining, byteLength]

end

lemma Nodes.exists_drafts (h : Nodes cs places) (rest : List Char) :
    ∃ drafts, DraftsText rest cs drafts ∧
      Draft.namesAll drafts = places.map (NamePlace.remaining (cs ++ rest)) := by
  induction h generalizing rest with
  | nil => exact ⟨[], .nil, rfl⟩
  | @cons gap _ _ _ _ _ _ _ _ _ _ _ hgap hbefore hname hpairs htext _ hafter _ ihBelow ihRest =>
    obtain ⟨draft, hdraft, hnames⟩ :=
      exists_draft_nodeText hbefore hname hpairs htext hafter (ihBelow _)
    obtain ⟨drafts, hdrafts, hmore⟩ := ihRest rest
    refine ⟨_, .cons hgap hdraft hdrafts, ?_⟩
    rw [Draft.namesAll, hnames, hmore, map_append, ← shifted_shifted, append_assoc,
      append_assoc, map_remaining_shifted, ← append_assoc gap, map_remaining_shifted]

/-- The reader takes a node whole, whatever follows it, and knows where its names are. -/
lemma readNode_append_outline (h : NodeOutline cs places) (hfuel : cs.length ≤ fuel + 1)
    (rest : List Char) : ∃ draft, readNode fuel (cs ++ rest) = .ok (draft, rest) ∧
      draft.names = places.map (NamePlace.remaining (cs ++ rest)) := by
  obtain ⟨hbefore, hcontent, hafter⟩ := h
  obtain ⟨hname, hpairs, htext, hbelow⟩ := hcontent
  obtain ⟨draft, hdraft, hnames⟩ := exists_draft_nodeText hbefore hname hpairs htext hafter
    (hbelow.exists_drafts _)
  exact ⟨draft, readNode_append draft _ fuel rest hdraft hfuel, hnames⟩

/-! ## The outline of what is read -/

mutual

lemma exists_outline : ∀ (draft : Draft) (cs rest : List Char), DraftText rest cs draft →
    ∃ places, NodeOutline cs places
  | .node _ _ _ _ children, _, _, hdraft => by
    obtain ⟨hbefore, hname, hpairs, htext, hbelow, hafter⟩ := hdraft
    obtain ⟨inner, hinner⟩ := exists_nodes children _ _ hbelow
    exact ⟨_, by simpa [nodeText, contentText] using
      NodeOutline.brackets hbefore (.parts hname hpairs htext hinner) hafter⟩

lemma exists_nodes : ∀ (drafts : List Draft) (cs rest : List Char), DraftsText rest cs drafts →
    ∃ places, Nodes cs places
  | [], _, _, hdrafts => by
    cases hdrafts
    exact ⟨[], .nil⟩
  | draft :: drafts, _, _, hdrafts => by
    obtain _ | ⟨hgap, hdraft, hmore⟩ := hdrafts
    obtain ⟨places, hnode⟩ := exists_outline draft _ _ hdraft
    obtain ⟨more, hnodes⟩ := exists_nodes drafts _ _ hmore
    exact ⟨_, .of_outline hgap hnode hnodes⟩

end

/-- What the reader takes between brackets is the content of a node. -/
lemma content_of_readContent {draft : Draft} (h : readContent fuel cs = some (draft, rest)) :
    ∃ used places, cs = used ++ rest ∧ Content used places := by
  obtain ⟨⟨name, afterName⟩, hname, heq⟩ := Option.map_eq_some_iff.1 h
  obtain ⟨-, hrest⟩ := Prod.mk.inj heq
  obtain ⟨hisName, hafterName⟩ := eq_append_of_readName hname
  obtain ⟨pairsText, hpairsText, hpairs⟩ := reads_attributes.perhaps_of_optional [] afterName
  obtain ⟨textText, htextText, htext⟩ := reads_quoted.perhaps_of_optional ""
    (optional readAttributes [] afterName).2
  obtain ⟨below, hbelow, hdrafts⟩ := (draftText_of_readNode fuel).2
    (optional readQuoted "" (optional readAttributes [] afterName).2).2
  obtain ⟨inner, hinner⟩ := exists_nodes _ _ _ hdrafts
  refine ⟨_, _, ?_, .parts hisName hpairs htext hinner⟩
  rw [hafterName, hpairsText, htextText, hbelow, ← hrest]
  simp [contentText]

/-! ## The longest content -/

lemma length_readNodes_le (fuel : Nat) (cs : List Char) :
    (readNodes fuel cs).2.length ≤ cs.length := by
  obtain ⟨used, hcs, -⟩ := (draftText_of_readNode fuel).2 cs
  have hlength := congrArg List.length hcs
  rw [length_append] at hlength
  omega

lemma Reads.length_optional_le {α : Type} {read : List Char → Option (α × List Char)}
    {part : List Char → α → Prop} {first : Char} (h : Reads read part first) (missing : α)
    (cs : List Char) : (optional read missing cs).2.length ≤ cs.length := by
  obtain ⟨used, hcs, -⟩ := h.perhaps_of_optional missing cs
  have hlength := congrArg List.length hcs
  rw [length_append] at hlength
  omega

/-- Of nodes and more, at least the nodes are taken. -/
lemma Nodes.length_readNodes_le (h : Nodes cs places) : ∀ {fuel : Nat}, cs.length ≤ fuel →
      (readNodes fuel (cs ++ tail)).2.length ≤ tail.length := by
  induction h with
  | nil => exact fun {fuel} _ => Sexpr.length_readNodes_le fuel _
  | @cons gap before pairsText textText below after more name text pairs inner places hgap hbefore
      hname hpairs htext hbelow hafter _ _ ihRest =>
    intro fuel hfuel
    have hnode := NodeOutline.brackets hbefore (.parts hname hpairs htext hbelow) hafter
    obtain ⟨node, hcs⟩ := hnode.starts
    have hlength := congrArg List.length hcs
    simp only [length_append, length_cons] at hfuel hlength
    obtain ⟨fuel, rfl⟩ : ∃ n, fuel = n + 1 := ⟨fuel - 1, by omega⟩
    obtain ⟨draft, hdraft, -⟩ := readNode_append_outline hnode (show _ ≤ fuel + 1 by omega)
      (more ++ tail)
    rw [append_assoc, append_assoc, readNodes, hgap.skipSpaces_append, hnode.skipSpaces,
      hdraft]
    exact ihRest (by omega)

namespace Reads

variable {α : Type} {read : List Char → Option (α × List Char)} {part : List Char → α → Prop}
  {first : Char} {a missing : α} (h : Reads read part first)

include h

lemma opens (hpart : Perhaps part missing cs a) : Opens [first] cs := by
  obtain _ | @⟨blanks, cs, a, hblanks, hpart⟩ := hpart
  · exact .inl rfl
  · refine .inr fun rest => ?_
    obtain ⟨tail, rfl⟩ := h.starts hpart
    rw [append_assoc]
    exact .blanks_append hblanks (.of_cons h.not_isSpace (.head _))

/-- Either a part that may be left out is read as it stands, or nothing of the node comes after
it. -/
lemma optional_append_or (hpart : Perhaps part missing cs a)
    (hrest : Opens allowed rest) (hfirst : first ∉ allowed) (tail : List Char) :
    (optional read missing (cs ++ (rest ++ tail))).2 = rest ++ tail ∨
      (optional read missing (cs ++ (rest ++ tail))).2.length ≤ tail.length := by
  obtain _ | @⟨blanks, cs, a, hblanks, hpart⟩ := hpart
  · obtain rfl | hnext := hrest
    · exact .inr (h.length_optional_le _ _)
    · rw [h.optional_append .absent ((hnext tail).ne hfirst)]
      exact .inl rfl
  · have hspaces : skipSpaces (cs ++ (rest ++ tail)) = cs ++ (rest ++ tail) := by
      obtain ⟨more, rfl⟩ := h.starts hpart
      exact skipSpaces_of_not_isSpace h.not_isSpace
    rw [optional, append_assoc, hblanks.skipSpaces_append, hspaces, h.read_append hpart,
      Option.getD_some]
    exact .inl rfl

end Reads

lemma readName_append_or {found : String × List Char} (hname : IsName name)
    (hrest : Opens allowed rest) (hallowed : allowed.any isNameChar = false)
    (tail : List Char) (hread : readName (name.toList ++ (rest ++ tail)) = some found) :
    found.2 = rest ++ tail ∨ found.2.length ≤ tail.length := by
  obtain rfl | hnext := hrest
  · refine .inr ?_
    rw [nil_append, readName] at hread
    split at hread
    · cases hread
    · cases hread
      rw [dropWhile_append_of_pos hname.2]
      exact (dropWhile_suffix _).length_le
  · rw [readName_append hname ((hnext tail).endsName hallowed)] at hread
    cases hread
    exact .inl rfl

/-- Where the reader leaves the content of a node, it has taken at least as much as any content that
the input starts with. -/
lemma length_le_of_readContent {draft : Draft} (h : Content cs places)
    (hfuel : cs.length ≤ fuel) (hread : readContent fuel (cs ++ tail) = some (draft, rest)) :
    rest.length ≤ tail.length := by
  obtain @⟨pairsText, textText, below, name, text, pairs, inner, hname, hpairs, htext, hbelow⟩ := h
  simp only [contentText, length_append] at hfuel
  obtain ⟨⟨name', afterName⟩, hreadName, heq⟩ := Option.map_eq_some_iff.1 hread
  obtain ⟨-, rfl⟩ := Prod.mk.inj heq
  -- what is left never grows, so it is enough to find where nothing of the content is left
  have hchildren := length_readNodes_le fuel
    (optional readQuoted "" (optional readAttributes [] afterName).2).2
  have hquoted := reads_quoted.length_optional_le "" (optional readAttributes [] afterName).2
  have hbraces := reads_attributes.length_optional_le [] afterName
  have hopens := (reads_quoted.opens htext).append hbelow.opens
  simp only [contentText, append_assoc] at hreadName
  rw [← append_assoc textText, ← append_assoc pairsText] at hreadName
  obtain rfl | hshort := readName_append_or hname ((reads_attributes.opens hpairs).append hopens)
    (by decide) tail hreadName
  · rw [append_assoc] at hchildren hquoted hbraces ⊢
    obtain hattributes | hshort :=
      reads_attributes.optional_append_or hpairs hopens (by decide) tail
    · rw [hattributes, append_assoc] at hchildren hquoted ⊢
      obtain htexts | hshort := reads_quoted.optional_append_or htext hbelow.opens (by decide) tail
      · rw [htexts]
        exact hbelow.length_readNodes_le (by omega)
      · exact hchildren.trans hshort
    · exact hchildren.trans (hquoted.trans hshort)
  · exact hchildren.trans (hquoted.trans (hbraces.trans hshort))

end SqlDialect.Sexpr
