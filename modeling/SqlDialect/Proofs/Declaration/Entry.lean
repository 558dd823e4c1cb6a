import Mathlib.Data.List.Destutter
import Mathlib.Data.List.DropRight
import SqlDialect.Proofs.Conversion.Build

/-!
# Entries of declaration blocks

What a declaration block says can be read off its commas.  After the keyword, each part between two
commas is an entry: a name, the tokens of its type, and after an equals sign those of its initial
value.  `entriesOf` divides the tokens of a block in this way.

`Forest.extract` reads the same tokens in one go from left to right, and looks at their neighbours
to tell names of variables from names of types.  On blocks whose entries have a type keyword or a
table type of a schema it finds the entries (`extract_eq`).

Tokens are trees, or nodes of a forest; `view` gives the tree of a token.
-/

namespace SqlDialect

open List

/-- An entry of a declaration block. Without an equals sign there are no tokens of a value. -/
structure Entry (α : Type) where
  name : α
  type : List α
  value : List α

namespace Entry

section

variable {α : Type} (view : α → SyntaxTree)

def hasKind (tag : Tag) (token : α) : Bool :=
  (view token).tag == tag

def isBlank (token : α) : Bool :=
  hasKind view .whiteSpace token

def isComment (token : α) : Bool :=
  (view token).tag.isComment

def isNoise (token : α) : Bool :=
  isBlank view token || isComment view token

/-- An identifier. -/
def isName (token : α) : Bool :=
  hasKind view .otherNode token || hasKind view .bracketQuotedName token

/-- A type keyword, which may have details in brackets. -/
def isKeywordType (tokens : List α) : Bool :=
  tokens.any (hasKind view .dataTypeKeyword) && tokens.all fun token => isNoise view token ||
    hasKind view .dataTypeKeyword token || hasKind view .ddlDetailParens token ||
      hasKind view .ddlParens token

/-- A table type with the schema that it is in. A comment after it must not read like a name. -/
def isTableType (tokens : List α) : Bool :=
  match tokens.dropWhile (isNoise view) with
  | schema :: period :: element :: after =>
    isName view schema && hasKind view .period period && isName view element &&
      after.all fun token =>
        isNoise view token && !namingKeywords.any (Text.sameWord (view token).text)
  | _ => false

/-- A name with a type. -/
def isProper (e : Entry α) : Bool :=
  isName view e.name && (isKeywordType view e.type || isTableType view e.type)

/-- The variable is given a value. -/
def isInitialised (e : Entry α) : Bool :=
  e.value.any (!isBlank view ·)

/-- The entry that some tokens are; none if they are white space. -/
def ofTokens (tokens : List α) : Option (Entry α) :=
  match tokens.dropWhile (isBlank view) with
  | [] => none
  | name :: rest => some {
    name
    type := rest.takeWhile (!hasKind view .equalsSign ·)
    value := (rest.dropWhile (!hasKind view .equalsSign ·)).tail }

/-- The parts of a block from its first name on, between commas. -/
def pieces (tokens : List α) : List (List α) :=
  separate (hasKind view .comma) (tokens.dropWhile (!isName view ·))

/-- The entries of a block with the given tokens. -/
def entriesOf (tokens : List α) : List (Entry α) :=
  (pieces view tokens).filterMap (ofTokens view)

/-- A token before the first name of a block: white space, or a keyword other than `table`. -/
def isOpening (token : α) : Bool :=
  isBlank view token ||
    (hasKind view .otherKeyword token && !Text.sameWord (view token).text "table")

/-- The block has a keyword and then nothing but entries with a type. -/
def areProper (tokens : List α) : Bool :=
  (tokens.takeWhile (!isName view ·)).all (isOpening view) &&
    (pieces view tokens).all fun piece => (ofTokens view piece).all (isProper view)

/-- The tokens of a type without a schema and its period. -/
def withoutSchema : List α → List α
  | schema :: next :: rest =>
    if hasKind view .period next then rest else schema :: withoutSchema (next :: rest)
  | tokens => tokens

/-- The name and the type as they are copied: of a run of white space the first is kept, and none at
the end. -/
def signature (e : Entry α) : List α :=
  ((e.name :: withoutSchema view e.type).destutter fun a b =>
    ¬ (isBlank view a ∧ isBlank view b)).rdropWhile (isBlank view)

end

/-! ## The shape of entries -/

section

variable {α : Type} {view : α → SyntaxTree} {tokens : List α} {token : α}

lemma isName_iff : isName view token ↔
    (view token).tag = .otherNode ∨ (view token).tag = .bracketQuotedName := by
  simp [isName, hasKind]

lemma hasKind_iff {tag : Tag} : hasKind view tag token ↔ (view token).tag = tag := by
  simp [hasKind]

lemma hasKind_of_isNoise (tag : Tag) (h : isNoise view token)
    (htag : (tag == .whiteSpace || tag.isComment) = false) : hasKind view tag token = false := by
  rw [hasKind, beq_eq_false_iff_ne]
  rintro rfl
  exact Bool.false_ne_true (htag.symm.trans h)

lemma hasKind_of_isName (tag : Tag) (h : isName view token)
    (htag : (tag == .otherNode || tag == .bracketQuotedName) = false) :
    hasKind view tag token = false := by
  rw [hasKind, beq_eq_false_iff_ne]
  rintro rfl
  exact Bool.false_ne_true (htag.symm.trans h)

lemma isBlank_of_isName (h : isName view token) : isBlank view token = false :=
  hasKind_of_isName .whiteSpace h rfl

lemma isName_of_isNoise (h : isNoise view token) : isName view token = false := by
  rw [isName, hasKind_of_isNoise .otherNode h rfl, hasKind_of_isNoise .bracketQuotedName h rfl]
  rfl

/-- The parts of a table type. -/
lemma exists_of_isTableType (h : isTableType view tokens) :
    ∃ before schema period element after, tokens = before ++ schema :: period :: element :: after ∧
      (∀ token ∈ before, isNoise view token) ∧ isName view schema ∧ hasKind view .period period ∧
      isName view element ∧ ∀ token ∈ after, isNoise view token ∧
        namingKeywords.any (Text.sameWord (view token).text) = false := by
  rw [isTableType] at h
  split at h
  · next schema period element after hdrop =>
    refine ⟨tokens.takeWhile (isNoise view), schema, period, element, after, ?_,
      fun token => mem_takeWhile_imp, ?_⟩
    · rw [← hdrop, takeWhile_append_dropWhile]
    · simpa [and_assoc] using h
  · cases h

lemma isKeywordType_iff : isKeywordType view tokens ↔
    (∃ token ∈ tokens, (view token).tag = .dataTypeKeyword) ∧ ∀ token ∈ tokens,
      isNoise view token ∨ (view token).tag = .dataTypeKeyword ∨
        (view token).tag = .ddlDetailParens ∨ (view token).tag = .ddlParens := by
  simp [isKeywordType, hasKind, or_assoc]

lemma hasKind_period_of_isKeywordType (h : isKeywordType view tokens) (htoken : token ∈ tokens) :
    hasKind view .period token = false := by
  obtain hnoise | htag | htag | htag := (isKeywordType_iff.1 h).2 token htoken
  · exact hasKind_of_isNoise .period hnoise rfl
  all_goals simp [hasKind, htag]

/-- A type does not start with a period. -/
lemma hasKind_period_of_type
    (h : isKeywordType view (token :: tokens) ∨ isTableType view (token :: tokens)) :
    hasKind view .period token = false := by
  obtain hkeyword | htable := h
  · exact hasKind_period_of_isKeywordType hkeyword (.head _)
  · obtain ⟨before, schema, period, element, after, heq, hbefore, hschema, -⟩ :=
      exists_of_isTableType htable
    cases before with
    | nil =>
      obtain ⟨rfl, -⟩ := List.cons.inj heq
      exact hasKind_of_isName .period hschema rfl
    | cons first before =>
      obtain ⟨rfl, -⟩ := List.cons.inj heq
      exact hasKind_of_isNoise .period (hbefore token (.head _)) rfl

lemma withoutSchema_eq_self (h : ∀ token ∈ tokens, hasKind view .period token = false) :
    withoutSchema view tokens = tokens := by
  fun_induction withoutSchema view tokens with
  | case1 schema next rest hnext => simp [h next (by simp)] at hnext
  | case2 schema next rest hnext ih =>
    rw [ih fun token htoken => h token (mem_cons_of_mem _ htoken)]
  | case3 => rfl

lemma withoutSchema_append {before after : List α} {schema period : α}
    (hbefore : ∀ token ∈ before, hasKind view .period token = false)
    (hschema : hasKind view .period schema = false) (hperiod : hasKind view .period period) :
    withoutSchema view (before ++ schema :: period :: after) = before ++ after := by
  induction before with
  | nil => rw [nil_append, withoutSchema, if_pos hperiod, nil_append]
  | cons token before ih =>
    have hbefore' := fun t h => hbefore t (mem_cons_of_mem token h)
    cases before with
    | nil => simp [withoutSchema, hschema, hperiod]
    | cons next before =>
      rw [cons_append, cons_append, withoutSchema, if_neg (by simp [hbefore next]),
        ← cons_append, ih hbefore', cons_append, cons_append, cons_append]

/-- The parts of an entry. -/
lemma exists_of_ofTokens {e : Entry α} (h : ofTokens view tokens = some e) :
    ∃ blanks initial, tokens = blanks ++ e.name :: (e.type ++ initial) ∧
      (∀ token ∈ blanks, isBlank view token) ∧ (initial = [] ∧ e.value = [] ∨
        ∃ sign, hasKind view .equalsSign sign ∧ initial = sign :: e.value) := by
  rw [ofTokens] at h
  split at h
  · cases h
  · next name rest hdrop =>
    obtain rfl := Option.some.inj h
    refine ⟨tokens.takeWhile (isBlank view), rest.dropWhile (!hasKind view .equalsSign ·), ?_,
      fun token => mem_takeWhile_imp, ?_⟩
    · rw [takeWhile_append_dropWhile, ← hdrop, takeWhile_append_dropWhile]
    · cases hinitial : rest.dropWhile (!hasKind view .equalsSign ·) with
      | nil => exact .inl ⟨rfl, rfl⟩
      | cons sign value =>
        have hsign := head_dropWhile_not (l := rest) (!hasKind view .equalsSign ·)
          (by simp [hinitial])
        simp only [hinitial, head_cons, Bool.not_eq_false'] at hsign
        exact .inr ⟨sign, hsign, rfl⟩

end

/-! ## Tokens in another form -/

section

variable {α β : Type} {view : β → SyntaxTree} {form : α → β} {tokens : List α}

/-- The entry with its tokens in another form. -/
def map (form : α → β) (e : Entry α) : Entry β where
  name := form e.name
  type := e.type.map form
  value := e.value.map form

lemma ofTokens_map (tokens : List α) :
    ofTokens view (tokens.map form) = (ofTokens (view ∘ form) tokens).map (map form) := by
  have hdrop : (tokens.map form).dropWhile (isBlank view) =
      (tokens.dropWhile (isBlank (view ∘ form))).map form := dropWhile_map ..
  rw [ofTokens, ofTokens, hdrop]
  cases tokens.dropWhile (isBlank (view ∘ form)) with
  | nil => rfl
  | cons name rest =>
    simp [map, takeWhile_map, dropWhile_map, Function.comp_def, hasKind, map_tail]

lemma pieces_map (tokens : List α) :
    pieces view (tokens.map form) = (pieces (view ∘ form) tokens).map (List.map form) := by
  rw [pieces, pieces, dropWhile_map, separate_map]
  rfl

lemma entriesOf_map (tokens : List α) :
    entriesOf view (tokens.map form) = (entriesOf (view ∘ form) tokens).map (map form) := by
  rw [entriesOf, entriesOf, pieces_map, filterMap_map, map_filterMap]
  exact filterMap_congr fun piece _ => ofTokens_map piece

lemma isTableType_map (tokens : List α) :
    isTableType view (tokens.map form) = isTableType (view ∘ form) tokens := by
  have hdrop : (tokens.map form).dropWhile (isNoise view) =
      (tokens.dropWhile (isNoise (view ∘ form))).map form := dropWhile_map ..
  rw [isTableType, isTableType, hdrop]
  rcases tokens.dropWhile (isNoise (view ∘ form)) with _ | ⟨schema,
    _ | ⟨period, _ | ⟨element, after⟩⟩⟩
  · rfl
  · rfl
  · rfl
  · simp only [map_cons, all_map]
    rfl

lemma isProper_map (e : Entry α) : isProper view (e.map form) = isProper (view ∘ form) e := by
  have hkeyword : isKeywordType view (e.type.map form) = isKeywordType (view ∘ form) e.type := by
    rw [isKeywordType, isKeywordType, any_map, all_map]
    rfl
  rw [isProper, isProper, map, hkeyword, isTableType_map]
  rfl

lemma areProper_map (tokens : List α) :
    areProper view (tokens.map form) = areProper (view ∘ form) tokens := by
  have hpiece : ∀ piece : List α, (ofTokens view (piece.map form)).all (isProper view) =
      (ofTokens (view ∘ form) piece).all (isProper (view ∘ form)) := by
    intro piece
    rw [ofTokens_map, Option.all_map]
    congr 1
    exact funext isProper_map
  rw [areProper, areProper, takeWhile_map, all_map, pieces_map, all_map]
  simp only [Function.comp_def, hpiece]
  rfl

lemma withoutSchema_map (tokens : List α) :
    withoutSchema view (tokens.map form) = (withoutSchema (view ∘ form) tokens).map form := by
  fun_induction withoutSchema (view ∘ form) tokens with
  | case1 schema next rest hnext =>
    exact if_pos hnext
  | case2 schema next rest hnext ih =>
    exact (if_neg hnext).trans (congrArg _ ih)
  | case3 tokens hshort =>
    rcases tokens with _ | ⟨schema, _ | ⟨next, rest⟩⟩
    · rfl
    · rfl
    · exact absurd rfl (hshort schema next rest)

lemma signature_map (e : Entry α) :
    signature view (e.map form) = (signature (view ∘ form) e).map form := by
  have hlist : form e.name :: withoutSchema view (e.type.map form) =
      (e.name :: withoutSchema (view ∘ form) e.type).map form := by
    rw [withoutSchema_map, map_cons]
  have hkept : ((e.name :: withoutSchema (view ∘ form) e.type).destutter fun a b =>
      ¬ (isBlank (view ∘ form) a ∧ isBlank (view ∘ form) b)).map form =
        ((e.name :: withoutSchema (view ∘ form) e.type).map form).destutter fun a b =>
          ¬ (isBlank view a ∧ isBlank view b) :=
    map_destutter fun _ _ _ _ => Iff.rfl
  rw [signature, signature, map, hlist, ← hkept, List.rdropWhile, List.rdropWhile,
    ← map_reverse, dropWhile_map, ← map_reverse]
  rfl

end

end Entry

/-! ## Blocks -/

namespace SyntaxTree

open Entry

/-- The container that a declaration block may end with. -/
def isContainer (tree : SyntaxTree) : Bool :=
  tree.tag == .containerGeneralContent

/-- The tokens of a declaration block. If it ends with a container, what is in it comes last. -/
def declarationTokens (block : SyntaxTree) : List SyntaxTree :=
  block.children.takeWhile (!·.isContainer) ++
    (block.children.dropWhile (!·.isContainer)).flatMap children

/-- Nothing follows a container in the block, and there is no period where it starts. -/
def isLaidOut (block : SyntaxTree) : Bool :=
  match block.children.dropWhile (!·.isContainer) with
  | [] => true
  | [body] => !(block.children.takeWhile (!·.isContainer)).getLast?.any (·.tag == .period) &&
      !body.children.head?.any (·.tag == .period)
  | _ => false

/-- The entries of a declaration block. -/
def entries (block : SyntaxTree) : List (Entry SyntaxTree) :=
  entriesOf (fun token => token) block.declarationTokens

/-- The block holds nothing but entries, each a name with a type and maybe a value. -/
def holdsEntries (block : SyntaxTree) : Bool :=
  block.isLaidOut && areProper (fun token => token) block.declarationTokens

end SyntaxTree

end SqlDialect
