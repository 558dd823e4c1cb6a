import SqlDialect.Proofs.Sexpr.Outline

/-!
# Where reading fails

A text that does not read is refused at a place in it.  If the text is one node as far as the syntax
goes, that is the leftmost name which is not that of a kind; if it starts with a node, it is where
the text goes on after the node; and otherwise it is where the outermost node cannot go on
(`Stuck`). Inner nodes that are not complete do not matter for this: they are no part of what the
outermost node has, and so the place is never inside of one.
-/

namespace SqlDialect.Sexpr

open List

variable {before done node cs rest : List Char} {input : String} {e : ReadError}

/-! ## The three reasons -/

/-- A name that is not that of a kind. -/
def NamePlace.IsUnknown (place : NamePlace) : Prop :=
  Tag.ofName? place.name = none

/-- The leftmost of the unknown names. -/
structure IsLeftmostUnknown (places : List NamePlace) (place : NamePlace) : Prop where
  mem : place ∈ places
  isUnknown : place.IsUnknown
  le : ∀ other ∈ places, other.IsUnknown → byteLength place.before ≤ byteLength other.before

/-- The rest is at its end, or goes on with a character that is no blank and fits. -/
def GoesOn (fits : Char → Prop) (rest : List Char) : Prop :=
  ∀ c ∈ rest.head?, isSpace c = false ∧ fits c

/-- A text that starts with a node, and the rest of it from the first character after the node that
is no blank. -/
structure NodeAndMore (cs done rest : List Char) : Prop where
  eq_append : cs = done ++ rest
  node : ∃ before node places blanks, Blanks before ∧ NodeOutline node places ∧ Blanks blanks ∧
    done = before ++ (node ++ blanks)
  ne_nil : rest ≠ []
  goesOn : GoesOn (fun _ => True) rest

/-- The outermost node cannot go on: after blanks no bracket opens, or after the bracket and blanks
no name starts, or after the longest content of a node and blanks the bracket is not closed. -/
inductive Stuck : List Char → List Char → Prop
  | bracket {blanks rest : List Char} : Blanks blanks → GoesOn (· ≠ '(') rest → Stuck blanks rest
  | name {before blanks rest : List Char} : Blanks before → Blanks blanks →
    GoesOn (isNameChar · = false) rest → Stuck (before ++ '(' :: blanks) rest
  | close {before inside content blanks rest : List Char} {places : List NamePlace} :
    Blanks before → Blanks inside → Content content places →
    (∀ other places, Content other places → other <+: content ++ (blanks ++ rest) →
      other.length ≤ content.length) →
    Blanks blanks → GoesOn (· ≠ ')') rest →
    Stuck (before ++ '(' :: (inside ++ (content ++ blanks))) rest

lemma goesOn_skipSpaces {fits : Char → Prop} (h : ∀ c ∈ (skipSpaces cs).head?, fits c) :
    GoesOn fits (skipSpaces cs) := by
  intro c hc
  refine ⟨?_, h c hc⟩
  have hhead := head?_dropWhile_not isSpace cs
  rw [← skipSpaces, Option.mem_def.1 hc] at hhead
  simpa using hhead

/-! ## Names that are not those of kinds -/

mutual

/-- Reading ends with the first unknown name, if there is one. -/
lemma toTree_of_find? (total : Nat) : ∀ draft : Draft,
    match draft.names.find? fun found => (Tag.ofName? found.1).isNone with
    | some (name, remaining) => draft.toTree total = .error (.unknownTag (total - remaining) name)
    | none => ∃ tree, draft.toTree total = .ok tree
  | .node name remaining attributes text children => by
    rw [Draft.names, Draft.toTree, find?_cons]
    cases hname : Tag.ofName? name with
    | none => rfl
    | some tag =>
      have hchildren := toTrees_of_find? total children
      simp only [Option.isNone_some]
      split at hchildren
      · rename_i hfind
        rw [hfind, hchildren]
        rfl
      · rename_i hfind
        obtain ⟨trees, htrees⟩ := hchildren
        rw [hfind, htrees]
        exact ⟨_, rfl⟩

lemma toTrees_of_find? (total : Nat) : ∀ drafts : List Draft,
    match (Draft.namesAll drafts).find? fun found => (Tag.ofName? found.1).isNone with
    | some (name, remaining) =>
      Draft.toTrees total drafts = .error (.unknownTag (total - remaining) name)
    | none => ∃ trees, Draft.toTrees total drafts = .ok trees
  | [] => ⟨[], rfl⟩
  | draft :: rest => by
    have hdraft := toTree_of_find? total draft
    have hrest := toTrees_of_find? total rest
    rw [Draft.namesAll, Draft.toTrees, find?_append]
    split at hdraft
    · rename_i hfind
      rw [hfind, hdraft]
      rfl
    · rename_i hfind
      obtain ⟨tree, htree⟩ := hdraft
      rw [hfind, htree, Option.none_or]
      split at hrest
      · rw [hrest]
        rfl
      · obtain ⟨trees, htrees⟩ := hrest
        rw [htrees]
        exact ⟨_, rfl⟩

end

/-- If the names of a draft are those at the places, the first unknown one is the leftmost. -/
lemma leftmost_of_toTree {draft : Draft} {places : List NamePlace} (horder : InOrder places)
    (hin : ∀ place ∈ places, place.IsIn cs)
    (hnames : draft.names = places.map (NamePlace.remaining cs))
    (h : draft.toTree (byteLength cs) = .error e) :
    ∃ place, IsLeftmostUnknown places place ∧
      e = .unknownTag (byteLength place.before) place.name := by
  have hfind := toTree_of_find? (byteLength cs) draft
  rw [hnames, find?_map, h] at hfind
  cases hfirst : places.find? ((fun found => (Tag.ofName? found.1).isNone) ∘
      NamePlace.remaining cs) with
  | none =>
    rw [hfirst] at hfind
    obtain ⟨tree, htree⟩ := hfind
    cases htree
  | some place =>
    rw [hfirst] at hfind
    obtain ⟨hunknown, before, after, rfl, hknown⟩ := find?_eq_some_iff_append.1 hfirst
    have hplace : place ∈ before ++ place :: after := by simp
    have hle := (hin place hplace).byteLength_le
    refine ⟨place, ⟨hplace, Option.isNone_iff_eq_none.1 hunknown, fun other hother hnone => ?_⟩, ?_⟩
    · obtain hother | rfl | hother : other ∈ before ∨ other = place ∨ other ∈ after := by
        simpa using hother
      · have hsome := hknown other hother
        rw [NamePlace.IsUnknown] at hnone
        simp [NamePlace.remaining, hnone] at hsome
      · exact le_rfl
      · exact (pairwise_cons.1 (pairwise_append.1 horder).2.1).1 other hother
    · have heq : byteLength cs - (byteLength cs - byteLength place.before) =
          byteLength place.before := by omega
      simpa [NamePlace.remaining, heq] using hfind

/-! ## Places -/

lemma utf8ByteSize_ofList (cs : List Char) : (String.ofList cs).utf8ByteSize = byteLength cs := by
  induction cs with
  | nil => rfl
  | cons c cs ih =>
    rw [byteLength_cons, ← ih, String.ofList_cons, String.utf8ByteSize_append,
      String.utf8ByteSize_singleton]

/-- The end of a part of the input is a place between two characters. -/
lemma isValid_byteLength (h : input.toList = done ++ rest) :
    String.Pos.Raw.IsValid input ⟨byteLength done⟩ := by
  refine String.Pos.Raw.isValid_iff_exists_append.2 ⟨String.ofList done, String.ofList rest, ?_, ?_⟩
  · rw [← String.ofList_append, ← h, String.ofList_toList]
  · rw [String.Pos.Raw.ext_iff, String.byteIdx_rawEndPos, utf8ByteSize_ofList]

/-! ## The reader at the start of the input -/

lemma skipSpaces_of_blanks (h : Blanks cs) : skipSpaces cs = [] := by
  have happend : skipSpaces (cs ++ []) = skipSpaces [] := h.skipSpaces_append
  rwa [append_nil] at happend

/-- A node at the start of the input is read. -/
lemma readNode_of_outline {places : List NamePlace} (hbefore : Blanks before)
    (hnode : NodeOutline node places) (rest : List Char) :
    ∃ draft, readNode ((before ++ (node ++ rest)).length + 1)
        (skipSpaces (before ++ (node ++ rest))) = .ok (draft, rest) ∧
      draft.names = (shifted before places).map
        (NamePlace.remaining (before ++ (node ++ rest))) := by
  rw [map_remaining_shifted, hbefore.skipSpaces_append, hnode.skipSpaces]
  exact readNode_append_outline hnode (by simp only [length_append]; omega) rest

lemma isIn_of_outline {places : List NamePlace} (hnode : NodeOutline node places) :
    InOrder places ∧ ∀ place ∈ places, place.IsIn node := by
  obtain ⟨-, ⟨-, -, -, hbelow⟩, -⟩ := hnode
  refine ⟨(hbelow.inOrder.contentPlaces _ _ _).shifted _, fun place hplace => ?_⟩
  simpa [nodeText] using isIn_shifted _ _ (contentPlaces_isIn hbelow.isIn) place hplace

/-- Where a node cannot go on, the input is stuck. -/
lemma stuck_of_readNode (hbefore : Blanks before)
    (h : readNode ((before ++ skipSpaces cs).length + 1) (skipSpaces cs) = .error rest) :
    ∃ done, before ++ skipSpaces cs = done ++ rest ∧ Stuck done rest := by
  by_cases hopen : ∃ tail, skipSpaces cs = '(' :: tail
  · obtain ⟨tail, htail⟩ := hopen
    obtain ⟨inside, hinside, hsplit⟩ := exists_blanks tail
    rw [htail, readNode_bracket] at h
    rw [htail]
    split at h
    · rename_i hread
      cases h
      refine ⟨before ++ '(' :: inside, ?_, .name hbefore hinside (goesOn_skipSpaces ?_)⟩
      · conv_lhs => rw [hsplit]
        simp
      · intro c hc
        rw [readContent, Option.map_eq_none_iff, readName] at hread
        split at hread
        · rename_i hnone
          obtain ⟨more, hmore⟩ := head?_eq_some_iff.1 hc
          by_contra hname
          rw [hmore, takeWhile_cons_of_pos (by simpa using hname)] at hnone
          cases hnone
        · cases hread
    · rename_i draft left hread
      obtain ⟨content, places, hcontent, houtline⟩ :=
        content_of_readContent hread
      obtain ⟨blanks, hblanks, hleft⟩ := exists_blanks left
      split at h
      · cases h
      · rename_i hclose
        cases h
        refine ⟨before ++ '(' :: (inside ++ (content ++ blanks)), ?_,
          .close hbefore hinside houtline ?_ hblanks (goesOn_skipSpaces ?_)⟩
        · conv_lhs => rw [hsplit, hcontent, hleft]
          simp
        · rintro other otherPlaces hother ⟨more, hmore⟩
          rw [← hleft, ← hcontent] at hmore
          rw [← hmore] at hread
          have hle := length_le_of_readContent hother (by
            have hlength := congrArg List.length (hsplit.trans (congrArg _ hmore.symm))
            simp only [length_append, length_cons] at hlength ⊢
            omega) hread
          have hlength := congrArg List.length (hmore.trans hcontent)
          simp only [length_append] at hlength
          omega
        · intro c hc hparen
          obtain ⟨more, hmore⟩ := head?_eq_some_iff.1 hc
          exact hclose more (hparen ▸ hmore)
  · have herror : readNode ((before ++ skipSpaces cs).length + 1) (skipSpaces cs) =
        .error (skipSpaces cs) := by
      rw [readNode.eq_def]
      dsimp only
      split
      · rename_i tail htail
        exact absurd ⟨tail, htail⟩ hopen
      · rfl
    rw [herror] at h
    cases h
    refine ⟨before, rfl, .bracket hbefore (goesOn_skipSpaces fun c hc hparen => ?_)⟩
    obtain ⟨more, hmore⟩ := head?_eq_some_iff.1 hc
    exact hopen ⟨more, hparen ▸ hmore⟩

/-! ## Main results -/

lemma leftmost_of_read {places : List NamePlace} (h : read input = .error e)
    (houtline : DocumentOutline input.toList places) :
    ∃ place, IsLeftmostUnknown places place ∧ place.IsIn input.toList ∧
      e = .unknownTag (byteLength place.before) place.name := by
  rw [read] at h
  generalize input.toList = cs at h houtline
  obtain @⟨before, node, after, places, hbefore, hnode, hafter⟩ := houtline
  obtain ⟨draft, hdraft, hnames⟩ := readNode_of_outline hbefore hnode after
  obtain ⟨horder, hin⟩ := isIn_of_outline hnode
  have hshifted := isIn_shifted before after hin
  simp only [hdraft, skipSpaces_of_blanks hafter] at h
  obtain ⟨place, hplace, he⟩ := leftmost_of_toTree (horder.shifted before) hshifted hnames h
  exact ⟨place, hplace, hshifted place hplace.mem, he⟩

lemma trailing_of_read (h : read input = .error e)
    (hmore : NodeAndMore input.toList done rest) : e = .trailing (byteLength done)
    (preview rest) := by
  rw [read] at h
  obtain ⟨hinput, ⟨before, node, places, blanks, hbefore, hnode, hblanks, rfl⟩, hne, hgoesOn⟩ :=
    hmore
  obtain ⟨c, tail, rfl⟩ := exists_cons_of_ne_nil hne
  obtain ⟨draft, hdraft, -⟩ := readNode_of_outline hbefore hnode (blanks ++ c :: tail)
  have hsplit : before ++ (node ++ blanks) ++ c :: tail = before ++
      (node ++ (blanks ++ c :: tail)) := by
    simp
  rw [hinput, hsplit] at h
  simp only [hdraft, hblanks.skipSpaces_append,
    skipSpaces_of_not_isSpace (hgoesOn c rfl).1] at h
  cases h
  rw [← hsplit, byteLength_append _ (c :: tail), Nat.add_sub_cancel]

lemma stuck_of_read (h : read input = .error e)
    (hnode : ∀ places, ¬ DocumentOutline input.toList places)
    (hmore : ∀ done rest, ¬ NodeAndMore input.toList done rest) :
    ∃ done rest, input.toList = done ++ rest ∧ Stuck done rest ∧
      e = .expectedNode (byteLength done) (preview rest) := by
  rw [read] at h
  generalize input.toList = cs at h hnode hmore
  obtain ⟨before, hbefore, hcs⟩ := exists_blanks cs
  split at h
  · rename_i rest hread
    cases h
    have hlength : (before ++ skipSpaces cs).length = cs.length := by rw [← hcs]
    rw [← hlength] at hread
    obtain ⟨done, hdone, hstuck⟩ := stuck_of_readNode hbefore hread
    rw [← hcs] at hdone
    refine ⟨done, rest, hdone, hstuck, ?_⟩
    rw [hdone, byteLength_append, Nat.add_sub_cancel]
  · rename_i draft left hread
    obtain ⟨node, hsplit, hdraft⟩ := (draftText_of_readNode _).1 _ _ _ hread
    obtain ⟨places, houtline⟩ := exists_outline _ _ _ hdraft
    obtain ⟨blanks, hblanks, hleft⟩ := exists_blanks left
    exfalso
    cases hrest : skipSpaces left with
    | nil =>
      rw [hrest, append_nil] at hleft
      have hdocument := DocumentOutline.node hbefore houtline hblanks
      rw [← hleft, ← hsplit, ← hcs] at hdocument
      exact hnode _ hdocument
    | cons c tail =>
      refine hmore (before ++ (node ++ blanks)) (skipSpaces left) ⟨?_,
        ⟨_, _, _, _, hbefore, houtline,
        hblanks, rfl⟩, by simp [hrest], goesOn_skipSpaces fun _ _ => trivial⟩
      conv_lhs => rw [hcs, hsplit, hleft]
      simp

/-- An input that is refused is refused at a place between two of its characters.  If it is a node
but for the names of kinds, this is its leftmost unknown name, and the message quotes it; if a node
comes first and then something else, it is where that starts; otherwise it is where the outermost
node cannot go on. -/
theorem read_error_place (h : read input = .error e) :
    (String.Pos.Raw.IsValid input ⟨e.position⟩ ∧ e.position ≤ input.utf8ByteSize) ∧
    (∀ places, DocumentOutline input.toList places → ∃ place, IsLeftmostUnknown places place ∧
      place.IsIn input.toList ∧ e.position = byteLength place.before ∧
      e.reason = "Unknown tag: '" ++ place.name ++ "'") ∧
    (∀ done rest, NodeAndMore input.toList done rest → e.position = byteLength done ∧
      e.reason = "Unexpected trailing content: '" ++ preview rest ++ "'") ∧
    ((∀ places, ¬ DocumentOutline input.toList places) →
      (∀ done rest, ¬ NodeAndMore input.toList done rest) →
      ∃ done rest, input.toList = done ++ rest ∧ Stuck done rest ∧ e.position = byteLength done ∧
        e.reason = "Expected node near '" ++ preview rest ++ "'") := by
  have hplace : ∃ done rest, input.toList = done ++ rest ∧ e.position = byteLength done := by
    by_cases hnode : ∃ places, DocumentOutline input.toList places
    · obtain ⟨places, houtline⟩ := hnode
      obtain ⟨place, -, ⟨after, hafter⟩, rfl⟩ := leftmost_of_read h houtline
      exact ⟨_, _, hafter, rfl⟩
    · by_cases hmore : ∃ done rest, NodeAndMore input.toList done rest
      · obtain ⟨done, rest, hmore⟩ := hmore
        rw [trailing_of_read h hmore]
        exact ⟨done, rest, hmore.eq_append, rfl⟩
      · obtain ⟨done, rest, hinput, -, rfl⟩ := stuck_of_read h (by simpa using hnode)
          (by simpa using hmore)
        exact ⟨done, rest, hinput, rfl⟩
  refine ⟨?_, fun places houtline => ?_, fun done rest hmore => ?_, fun hnode hmore => ?_⟩
  · obtain ⟨done, rest, hinput, hposition⟩ := hplace
    have hvalid := isValid_byteLength hinput
    rw [hposition]
    exact ⟨hvalid, hvalid.le_utf8ByteSize⟩
  · obtain ⟨place, hleftmost, hin, rfl⟩ := leftmost_of_read h houtline
    exact ⟨place, hleftmost, hin, rfl, rfl⟩
  · rw [trailing_of_read h hmore]
    exact ⟨rfl, rfl⟩
  · obtain ⟨done, rest, hinput, hstuck, rfl⟩ := stuck_of_read h hnode hmore
    exact ⟨done, rest, hinput, hstuck, rfl, rfl⟩

lemma read_eq_error (h : (match read input with | .ok _ => none | .error e => some e) = some e) :
    read input = .error e := by
  cases hread : read input with
  | ok tree =>
    rw [hread] at h
    cases h
  | error e' =>
    rw [hread] at h
    rw [Option.some.inj h]

/-- The first of two unknown names comes after a character of two bytes; and a node that is not
complete is refused where the node around it would have to be closed. -/
theorem read_error_place_inner :
    (read " (Root \"é\" (Nope (Nada)))" = .error (.unknownTag 13 "Nope") ∧
      String.Pos.Raw.IsValid " (Root \"é\" (Nope (Nada)))" ⟨13⟩) ∧
    read "(Root (Comma) (Clause \"é))" = .error (.expectedNode 14 "(Clause \"é))") ∧
      String.Pos.Raw.IsValid "(Root (Comma) (Clause \"é))" ⟨14⟩ :=
  have hname : read " (Root \"é\" (Nope (Nada)))" = .error (.unknownTag 13 "Nope") :=
    read_eq_error (by decide +kernel)
  have hclose : read "(Root (Comma) (Clause \"é))" = .error (.expectedNode 14 "(Clause \"é))") :=
    read_eq_error (by decide +kernel)
  ⟨⟨hname, (read_error_place hname).1.1⟩, hclose, (read_error_place hclose).1.1⟩

end SqlDialect.Sexpr
