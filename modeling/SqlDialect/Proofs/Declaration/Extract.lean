import SqlDialect.Proofs.Declaration.Reading

/-!
# Extraction finds the entries

A part between two commas that is a proper entry is written as `Forest.extract` can read it
(`exists_spelling`), so what is extracted from a block are its entries.
-/

namespace SqlDialect

open DeclarationScan Entry TypePart List

variable {s : DeclarationScan} {done more own tokens : List Nat} {block body id : Nat} {f : Forest}

/-! ## One entry -/

/-- Tokens stand next to periods in the forest where they do so in the list. -/
def Adjoining (f : Forest) (tokens : List NodeId) : Prop :=
  ∀ before id after, tokens = before ++ id :: after →
    (f.nextAdjacent id).any (f.is · .period) = after.head?.any (f.is · .period) ∧
      (f.previousAdjacent id).any (f.is · .period) = before.getLast?.any (f.is · .period)

/-- The declaration that an entry is. -/
def Entry.toDeclaration (f : Forest) (e : Entry NodeId) : Declaration where
  signature := e.signature f.subtree
  value := f.trimWhiteSpace e.value
  array := e.type.any (f.is · .period)

lemma fits_token {ids : List Nat} (h : ∀ id ∈ ids, f.isNoise id ∨ isTypeToken f id) :
    ∀ part ∈ ids.map token, part.fits f := by
  intro part hpart
  obtain ⟨id, hid, rfl⟩ := mem_map.1 hpart
  have hid := h id hid
  simp only [Forest.isNoise, isTypeToken, TypePart.fits, Bool.or_eq_true] at hid ⊢
  tauto

lemma tokens_token (ids : List Nat) : (ids.map token).flatMap TypePart.tokens = ids ∧
    (ids.map token).map kept = ids ∧ (ids.map token).any isQualified = false := by
  simp [flatMap_map, Function.comp_def, TypePart.tokens, kept, isQualified]

/-- The tokens of a type are parts that can be read. -/
lemma exists_parts (htype : isKeywordType f.subtree tokens ∨ isTableType f.subtree tokens)
    (hadjoining : Adjoining f (done ++ tokens ++ more))
    (hmore : more.head?.any (f.is · .period) = false) :
    ∃ parts : List TypePart, (∀ part ∈ parts, part.fits f) ∧
      parts.flatMap TypePart.tokens = tokens ∧ parts.map kept = withoutSchema f.subtree tokens ∧
      parts.any isQualified = tokens.any (f.is · .period) := by
  obtain htype | htype := htype
  · have hperiod : ∀ id ∈ tokens, hasKind f.subtree .period id = false := fun id hid =>
      hasKind_period_of_isKeywordType htype hid
    obtain ⟨htokens, hkept, hqualified⟩ := tokens_token tokens
    refine ⟨tokens.map token, fits_token fun id hid => ?_, htokens, ?_, ?_⟩
    · have htoken := (isKeywordType_iff.1 htype).2 id hid
      rw [isNoise_subtree, Forest.tag_subtree] at htoken
      simp only [isTypeToken, Forest.is, Bool.or_eq_true, beq_iff_eq]
      tauto
    · rw [hkept, withoutSchema_eq_self hperiod]
    · rw [hqualified, any_eq_false.2 (by simpa using hperiod)]
  · obtain ⟨before, schema, period, element, after, rfl, hbefore, hschema, hperiod,
      helement, hafter⟩ :=
      exists_of_isTableType htype
    have hnext :=
      (hadjoining (done ++ before) schema (period :: element :: after ++ more) (by simp)).1
    obtain ⟨hnext', hprevious⟩ :=
      hadjoining (done ++ before ++ [schema, period]) element (after ++ more) (by simp)
    have hperiod' : f.is period .period := by simpa using hperiod
    have hlast : (after ++ more).head?.any (f.is · .period) = false := by
      cases after with
      | nil => exact hmore
      | cons token after =>
        have hnoise := (hafter token (.head _)).1
        simpa using hasKind_of_isNoise .period hnoise rfl
    have hnoise : ∀ id ∈ before, hasKind f.subtree .period id = false := fun id hid =>
      hasKind_of_isNoise .period (hbefore id hid) rfl
    have hplain {ids : List Nat} (hids : ∀ id ∈ ids, isNoise f.subtree id) :
        ∀ part ∈ ids.map token, part.fits f := fits_token fun id hid =>
          .inl (by simpa using hids id hid)
    have hfits : (qualified [(schema, period)] element).fits f := by
      have hfirst : endsAtPeriod f schema := hnext.trans (by simpa using hperiod')
      have hend : endsAtPeriod f element = false := hnext'.trans hlast
      have hstart : startsAtPeriod f element := hprevious.trans (by simpa using hperiod')
      simp [TypePart.fits, hschema, helement, hperiod', hfirst, hend, hstart]
    obtain ⟨htokens, hkept, -⟩ := tokens_token before
    obtain ⟨htokens', hkept', -⟩ := tokens_token after
    refine ⟨before.map token ++ qualified [(schema, period)] element :: after.map token, ?_, ?_, ?_,
      ?_⟩
    · intro part hpart
      rw [mem_append, mem_cons] at hpart
      obtain hpart | rfl | hpart := hpart
      · exact hplain hbefore part hpart
      · exact hfits
      · exact hplain (fun id hid => (hafter id hid).1) part hpart
    · rw [flatMap_append, flatMap_cons, htokens, htokens']
      rfl
    · rw [withoutSchema_append hnoise (hasKind_of_isName .period hschema rfl) hperiod,
        map_append, map_cons, hkept, hkept']
      rfl
    · simp [isQualified, hperiod']

/-- A proper entry can be read. -/
lemma exists_spelling {e : Entry Nat} (he : ofTokens f.subtree tokens = some e)
    (hproper : isProper f.subtree e) (hcomma : ∀ id ∈ tokens, f.is id .comma = false)
    (hadjoining : Adjoining f (done ++ tokens ++ more))
    (hdone : done.getLast?.any (f.is · .period) = false)
    (hmore : more.head?.any (f.is · .period) = false) :
    ∃ e' : Spelling, e'.fits f ∧ e'.tokens = tokens ∧ e'.toDeclaration f = e.toDeclaration f := by
  obtain ⟨blanks, initial, rfl, hblanks, hinitial⟩ := exists_of_ofTokens he
  rw [isProper, Bool.and_eq_true, Bool.or_eq_true] at hproper
  obtain ⟨hname, htype⟩ := hproper
  -- neither the name nor the end of the type is next to a period that is not part of the type
  have hinitial' : (initial ++ more).head?.any (f.is · .period) = false := by
    obtain ⟨rfl, -⟩ | ⟨sign, hsign, rfl⟩ := hinitial
    · exact hmore
    · rw [hasKind_iff, Forest.tag_subtree] at hsign
      simp [Forest.is, hsign]
  have hrest : (e.type ++ initial ++ more).head?.any (f.is · .period) = false := by
    cases htokens : e.type with
    | nil => simpa [htokens] using hinitial'
    | cons token rest =>
      rw [htokens] at htype
      simpa using hasKind_period_of_type htype
  have hbefore : (done ++ blanks).getLast?.any (f.is · .period) = false := by
    cases hlast : blanks.getLast? with
    | none => simpa [getLast?_eq_none_iff.1 hlast] using hdone
    | some id =>
      have hid := hasKind_iff.1 (hblanks id (mem_of_getLast? hlast))
      rw [Forest.tag_subtree] at hid
      simp [getLast?_append, hlast, Forest.is, hid]
  obtain ⟨hnext, hprevious⟩ :=
    hadjoining (done ++ blanks) e.name (e.type ++ initial ++ more) (by simp)
  have hadjoining' : Adjoining f (done ++ blanks ++ [e.name] ++ e.type ++ (initial ++ more)) := by
    simpa using hadjoining
  obtain ⟨parts, hfits, htokens, hkept, hqualified⟩ := exists_parts htype hadjoining' hinitial'
  obtain ⟨i, hi, htail, hvalue⟩ : ∃ i : Option (Nat × List Nat),
      (i.all fun i => f.is i.1 .equalsSign && i.2.all (!f.is · .comma)) ∧
      i.toList.flatMap (fun i => i.1 :: i.2) = initial ∧ i.toList.flatMap (·.2) = e.value := by
    obtain ⟨rfl, hnone⟩ | ⟨sign, hsign, rfl⟩ := hinitial
    · exact ⟨none, rfl, rfl, hnone.symm⟩
    · refine ⟨some (sign, e.value), ?_, by simp, by simp⟩
      simpa [by simpa using hsign] using fun id hid => hcomma id (by simp [hid])
  have hblank : isBlank f.subtree = f.isWhiteSpace := funext fun id => isBlank_subtree f id
  refine ⟨⟨blanks, e.name, parts, i⟩, ?_, by simp [Spelling.tokens, htokens, htail], ?_⟩
  · simp only [isBlank_subtree] at hblanks
    simp only [Spelling.fits, endsAtPeriod, startsAtPeriod, hnext.trans hrest,
      hprevious.trans hbefore, all_eq_true.2 hblanks, all_eq_true.2 hfits, hname, hi]
    rfl
  · simp only [Spelling.toDeclaration, toDeclaration, signature, hkept, hqualified,
      hblank, Spelling.value, hvalue]

/-! ## Whole blocks -/

/-- A part between commas adds its entry, if it is one. -/
lemma closed_foldl_read_piece (done more : List Nat) (hvalue : s.inValue = false)
    (hproper : (ofTokens f.subtree tokens).all (isProper f.subtree))
    (hcomma : ∀ id ∈ tokens, f.is id .comma = false)
    (hadjoining : Adjoining f (done ++ tokens ++ more))
    (hdone : done.getLast?.any (f.is · .period) = false)
    (hmore : more.head?.any (f.is · .period) = false) :
    (tokens.foldl (·.read f ·) s).closed f =
      s.closed f ++ ([tokens].filterMap (ofTokens f.subtree)).map (toDeclaration f) := by
  cases he : ofTokens f.subtree tokens with
  | some e =>
    rw [he] at hproper
    obtain ⟨e', hfits, rfl, hsame⟩ := exists_spelling he hproper hcomma hadjoining hdone hmore
    rw [closed_foldl_spelling hvalue hfits, hsame]
    simp [he]
  | none =>
    have hnil : tokens.dropWhile (isBlank f.subtree) = [] := by
      rw [ofTokens] at he
      split at he
      · assumption
      · cases he
    rw [dropWhile_eq_nil_iff] at hnil
    rw [(foldl_read_opening hvalue fun id hid => by simp [isOpening, hnil id hid]).2]
    simp [he]

lemma closed_foldl_read_pieces (done : List Nat) (hvalue : s.inValue = false)
    (hproper : ∀ piece ∈ separate (hasKind f.subtree .comma) tokens,
      (ofTokens f.subtree piece).all (isProper f.subtree))
    (hadjoining : Adjoining f (done ++ tokens))
    (hdone : done.getLast?.any (f.is · .period) = false) :
    (tokens.foldl (·.read f ·) s).closed f = s.closed f ++
      ((separate (hasKind f.subtree .comma) tokens).filterMap (ofTokens f.subtree)).map
        (toDeclaration f) := by
  induction tokens using parts_induction (hasKind f.subtree .comma) generalizing s done with
  | last piece hpiece =>
    rw [separate_of_forall hpiece] at hproper ⊢
    exact closed_foldl_read_piece done [] hvalue (hproper piece (by simp))
      (by simpa using hpiece) (by simpa using hadjoining) hdone rfl
  | more piece comma rest hpiece hcomma ih =>
    rw [separate_append_cons hpiece hcomma] at hproper ⊢
    rw [hasKind_subtree] at hcomma
    have hperiod : f.is comma .period = false := by
      simp [Forest.is, Forest.tag_of_is hcomma]
    have hfirst := closed_foldl_read_piece done (comma :: rest) hvalue
      (hproper piece (.head _)) (by simpa using hpiece) (by simpa using hadjoining) hdone
      (by simpa using hperiod)
    obtain ⟨hvalue', hclosed⟩ := read_comma (s := piece.foldl (·.read f ·) s) hcomma
    rw [foldl_append, foldl_cons, ih (done ++ piece ++ [comma]) hvalue'
      (fun part hpart => hproper part (.tail _ hpart)) (by simpa using hadjoining)
      (by simpa using hperiod), hclosed, hfirst, append_assoc, ← map_append, ← filterMap_append,
      singleton_append]

lemma extract_eq_of_adjoining (hproper : areProper f.subtree (f.declarationTokens block))
    (hadjoining : Adjoining f (f.declarationTokens block)) :
    f.extract block = (entriesOf f.subtree (f.declarationTokens block)).map (toDeclaration f) := by
  rw [areProper, Bool.and_eq_true, all_eq_true, all_eq_true] at hproper
  obtain ⟨hopening, hpieces⟩ := hproper
  have hsplit := takeWhile_append_dropWhile (p := (!isName f.subtree ·))
    (l := f.declarationTokens block)
  obtain ⟨hvalue, hclosed⟩ := foldl_read_opening (s := {}) rfl hopening
  have hlast : ((f.declarationTokens block).takeWhile (!isName f.subtree ·)).getLast?.any
      (f.is · .period) = false := by
    rw [Option.any_eq_false]
    intro id hid
    have hid := hopening id (mem_of_getLast? hid)
    rw [isOpening, isBlank_subtree, hasKind_subtree, Bool.or_eq_true, Bool.and_eq_true] at hid
    obtain hid | ⟨hid, -⟩ := hid <;> simp [Forest.is, Forest.tag_of_is hid]
  change ((f.declarationTokens block).foldl (fun s id => s.read f id) ({} : DeclarationScan)).closed
    f = _
  rw [entriesOf, ← hsplit, foldl_append, closed_foldl_read_pieces _ hvalue hpieces
    (by rwa [hsplit]) hlast, hclosed, hsplit]
  rfl

namespace Forest

variable {p : Nat} {before after : List Nat}

section

variable (hf : f.WellFormed) (h : f.children p = before ++ id :: after)
include hf h

lemma WellFormed.nextAdjacent_eq : f.nextAdjacent id = after.head? := by
  rw [nextAdjacent, hf.siblings_eq h]
  rfl

lemma WellFormed.previousAdjacent_eq : f.previousAdjacent id = before.getLast? := by
  rw [previousAdjacent, hf.siblings_eq h]
  rfl

end

lemma WellFormed.adjoining_children (hf : f.WellFormed) (p : Nat) : Adjoining f (f.children p) :=
  fun _ _ _ h => by rw [hf.nextAdjacent_eq h, hf.previousAdjacent_eq h]; exact ⟨rfl, rfl⟩

/-- The tokens of two nodes one after the other, where the second is the last child of the first. -/
lemma WellFormed.adjoining_append (hf : f.WellFormed)
    (hchildren : f.children p = own ++ [body]) (hbody : f.is body .period = false)
    (hown : own.getLast?.any (f.is · .period) = false)
    (hinner : (f.children body).head?.any (f.is · .period) = false) :
    Adjoining f (own ++ f.children body) := by
  intro before id after h
  obtain ⟨more, hbefore, hmore⟩ | ⟨more, hbefore, hmore⟩ := append_eq_append_iff.1 h
  · rw [hf.nextAdjacent_eq hmore, hf.previousAdjacent_eq hmore, hbefore]
    refine ⟨rfl, ?_⟩
    cases more with
    | nil => simp [hown]
    | cons first more => rw [getLast?_append_cons]
  · cases more with
    | nil =>
      have hfirst : f.children body = [] ++ id :: after := by simpa using hmore.symm
      rw [hf.nextAdjacent_eq hfirst, hf.previousAdjacent_eq hfirst, ← hbefore.trans (append_nil _),
        hown]
      exact ⟨rfl, rfl⟩
    | cons next more =>
      obtain ⟨rfl, rfl⟩ := List.cons.inj hmore
      have hplace : f.children p = before ++ id :: (more ++ [body]) := by
        rw [hchildren, hbefore, append_assoc, cons_append]
      rw [hf.nextAdjacent_eq hplace, hf.previousAdjacent_eq hplace]
      refine ⟨?_, rfl⟩
      cases more with
      | nil => simpa [hbody] using hinner
      | cons first more => simp

lemma declarationTokens_of_forall
    (h : ∀ id ∈ f.children block, f.is id .containerGeneralContent = false) :
    f.declarationTokens block = f.children block := by
  have hnone : f.child block .containerGeneralContent = none := by
    rw [child_eq_find?]
    exact find?_eq_none.2 fun id hid => by simp [h id hid]
  rw [declarationTokens, hnone]

lemma declarationTokens_of_children_eq
    (hchildren : f.children block = own ++ [body]) (hbody : f.is body .containerGeneralContent)
    (hown : ∀ id ∈ own, f.is id .containerGeneralContent = false) :
    f.declarationTokens block = own ++ f.children body := by
  have hsome : f.child block .containerGeneralContent = some body := by
    rw [child_eq_find?, hchildren, find?_append,
      find?_eq_none.2 fun id hid => by simp [hown id hid]]
    simp [hbody]
  have hfilter : own.filter (· != body) = own := by
    refine filter_eq_self.2 fun id hid => ?_
    rw [bne_iff_ne]
    rintro rfl
    rw [hown id hid] at hbody
    cases hbody
  rw [declarationTokens, hsome, hchildren]
  simp [hfilter]

/-- The tokens of a block can be seen in its view. -/
lemma WellFormed.declarationTokens_of_isLaidOut (hf : f.WellFormed)
    (h : (f.subtree block).isLaidOut) :
    (f.declarationTokens block).map f.subtree = (f.subtree block).declarationTokens ∧
      Adjoining f (f.declarationTokens block) := by
  have hsplit := takeWhile_append_dropWhile (p := (!f.is · .containerGeneralContent))
    (l := f.children block)
  have hown : ∀ id ∈ (f.children block).takeWhile (!f.is · .containerGeneralContent),
      f.is id .containerGeneralContent = false := fun id hid => by
    simpa using mem_takeWhile_imp hid
  rw [SyntaxTree.isLaidOut] at h
  rw [SyntaxTree.declarationTokens]
  simp only [hf.children_subtree, takeWhile_map, dropWhile_map, Function.comp_def,
    SyntaxTree.isContainer, ← is_eq] at h ⊢
  cases htail : (f.children block).dropWhile (!f.is · .containerGeneralContent) with
  | nil =>
    rw [htail, append_nil] at hsplit
    rw [hsplit] at hown ⊢
    rw [declarationTokens_of_forall hown]
    exact ⟨by simp, hf.adjoining_children block⟩
  | cons body rest =>
    rw [htail] at h hsplit
    have hbody : f.is body .containerGeneralContent := by
      have hhead := head_dropWhile_not (l := f.children block)
        (!f.is · .containerGeneralContent) (by simp [htail])
      simpa [htail] using hhead
    cases rest with
    | cons second rest => simp at h
    | nil =>
      simp only [map_cons, map_nil, getLast?_map, Option.any_map, hf.children_subtree,
        head?_map, ← is_eq, Bool.and_eq_true, Bool.not_eq_true'] at h
      rw [declarationTokens_of_children_eq hsplit.symm hbody hown]
      refine ⟨by simp [hf.children_subtree], hf.adjoining_append hsplit.symm ?_ h.1 h.2⟩
      simp [is, tag_of_is hbody]

/-- What is extracted from a block is what its view says. -/
lemma WellFormed.extract_eq (hf : f.WellFormed) (h : (f.subtree block).holdsEntries) :
    f.extract block = (entriesOf f.subtree (f.declarationTokens block)).map (toDeclaration f) ∧
      (entriesOf f.subtree (f.declarationTokens block)).map (Entry.map f.subtree) =
        (f.subtree block).entries ∧
      ∀ e ∈ entriesOf f.subtree (f.declarationTokens block), isProper f.subtree e := by
  rw [SyntaxTree.holdsEntries, Bool.and_eq_true] at h
  obtain ⟨htokens, hadjoining⟩ := hf.declarationTokens_of_isLaidOut h.1
  have hproper := h.2
  rw [← htokens, areProper_map] at hproper
  refine ⟨extract_eq_of_adjoining hproper hadjoining, ?_, ?_⟩
  · rw [SyntaxTree.entries, ← htokens, entriesOf_map]
    rfl
  · intro e he
    rw [entriesOf, mem_filterMap] at he
    obtain ⟨piece, hpiece, he⟩ := he
    rw [areProper, Bool.and_eq_true, all_eq_true, all_eq_true] at hproper
    have hpiece := hproper.2 piece hpiece
    change (ofTokens f.subtree piece).all _ = true at hpiece
    rw [he] at hpiece
    exact hpiece

end Forest

namespace Entry

variable {α : Type} {view : α → SyntaxTree}

/-- The tokens of the entries stand in the block in this order. -/
lemma flatMap_entriesOf_sublist (tokens : List α) :
    ((entriesOf view tokens).flatMap fun e => e.name :: (e.type ++ e.value)).Sublist tokens := by
  have hpiece : ∀ piece : List α, ((ofTokens view piece).toList.flatMap fun e =>
      e.name :: (e.type ++ e.value)).Sublist piece := by
    intro piece
    cases he : ofTokens view piece with
    | none => simp
    | some e =>
      obtain ⟨blanks, initial, rfl, -, hinitial⟩ := exists_of_ofTokens he
      have hvalue : e.value.Sublist initial := by
        obtain ⟨-, hnil⟩ | ⟨sign, -, rfl⟩ := hinitial
        · simp [hnil]
        · exact sublist_cons_self _ _
      have hrest := (hvalue.append_left e.type).cons_cons e.name
      simpa using hrest.trans (sublist_append_right blanks _)
  have hpieces : ∀ pieces : List (List α), ((pieces.filterMap (ofTokens view)).flatMap fun e =>
      e.name :: (e.type ++ e.value)).Sublist pieces.flatten := by
    intro pieces
    induction pieces with
    | nil => simp
    | cons piece pieces ih =>
      have hcons : (piece :: pieces).filterMap (ofTokens view) =
          (ofTokens view piece).toList ++ pieces.filterMap (ofTokens view) := by
        rw [filterMap_cons]
        cases ofTokens view piece <;> rfl
      rw [hcons, flatMap_append, flatten_cons]
      exact (hpiece piece).append ih
  refine (hpieces _).trans ?_
  rw [pieces, flatten_separate]
  exact filter_sublist.trans (dropWhile_sublist _)

/-- An entry is copied from its name on. -/
lemma exists_signature_eq_cons {e : Entry α} (hname : isName view e.name) :
    ∃ rest, e.signature view = e.name :: rest := by
  obtain ⟨rest, hrest⟩ := exists_destutter'_eq_cons
    (R := fun a b => ¬ (isBlank view a ∧ isBlank view b)) e.name (withoutSchema view e.type)
  rw [signature, destutter_cons', hrest]
  exact exists_rdropWhile_eq_cons (isBlank_of_isName hname) rest

end Entry

end SqlDialect
