import SqlDialect.Proofs.Conversion.Copy
import SqlDialect.Proofs.Declaration.Clause
import SqlDialect.Proofs.Declaration.Extract

/-!
# The declare section of a routine

The section of a routine is a clause that starts with the keyword and goes on with one clause for
each entry: copies of its name and of its type, a pair of brackets after a table type, a semicolon,
and then copies of the comments (`sectionOf`).  The nodes that are copied are apart from the
section, so that they look the same all the time while it is filled (`Copyable`).
-/

namespace SqlDialect

open List

/-! ## Entries in a section -/

namespace Entry

section

variable {α : Type} (view : α → SyntaxTree)

/-- The tokens with a mark after the last one for which `p` holds. -/
def markLast (p : α → Bool) (mark : SyntaxTree) : List α → List SyntaxTree
  | [] => []
  | token :: rest =>
    if p token && !rest.any p then view token :: mark :: rest.map view
    else view token :: markLast p mark rest

/-- A variable of a table type is an array of it. -/
def isArray (e : Entry α) : Bool :=
  e.type.any (hasKind view .period)

/-- Copies of the name and the type. -/
def copied (e : Entry α) : List SyntaxTree :=
  let tokens := (e.signature view).filter (!isComment view ·)
  if e.isArray view then markLast view (isName view) (.node .period "[]" .empty []) tokens
  else tokens.map view

/-- Copies of the comments, those in the value first. -/
def comments (e : Entry α) : List SyntaxTree :=
  ((e.value ++ e.signature view).filter (isComment view)).map view

end

/-- The entry in a section. -/
def declared (e : Entry SyntaxTree) : SyntaxTree :=
  .group .clause (e.copied (fun token => token) ++ .semicolon ::
    (e.comments fun token => token).flatMap fun comment =>
      [.node .whiteSpace " " .empty [], comment])

section

variable {α : Type} {view : α → SyntaxTree} {e : Entry α}

lemma isArray_iff (h : isProper view e) : e.isArray view ↔ isTableType view e.type := by
  rw [isProper, Bool.and_eq_true, Bool.or_eq_true] at h
  rw [isArray, any_eq_true]
  constructor
  · rintro ⟨token, htoken, hperiod⟩
    refine h.2.resolve_left fun hkeyword => ?_
    rw [hasKind_period_of_isKeywordType hkeyword htoken] at hperiod
    cases hperiod
  · intro htable
    obtain ⟨before, schema, period, element, after, heq, -, -, hperiod, -⟩ :=
      exists_of_isTableType htable
    exact ⟨period, by simp [heq], hperiod⟩

lemma rdropWhile_append_cons {p : α → Bool} {token : α} (htoken : p token = false)
    (front rest : List α) :
    (front ++ token :: rest).rdropWhile p = front ++ token :: rest.rdropWhile p := by
  rw [List.rdropWhile, reverse_append, reverse_cons, append_assoc,
    dropWhile_append]
  by_cases hall : (rest.reverse.dropWhile p).isEmpty
  · rw [if_pos hall, singleton_append, dropWhile_cons_of_neg (by simp [htoken]),
      List.rdropWhile, isEmpty_iff.1 hall]
    simp
  · rw [if_neg hall, List.rdropWhile]
    simp

/-- A token of the type that is not blank is copied. -/
lemma exists_signature_eq_append {before after : List α} {token : α}
    (htype : withoutSchema view e.type = before ++ token :: after)
    (htoken : isBlank view token = false) :
    ∃ front rest, e.signature view = e.name :: (front ++ token :: rest) ∧ rest ⊆ after := by
  have hfollows (a : α) : ¬ (isBlank view a = true ∧ isBlank view token = true) := by simp [htoken]
  obtain ⟨front, hfront⟩ := exists_destutter'_eq_cons
    (R := fun a b => ¬ (isBlank view a ∧ isBlank view b)) e.name before
  obtain ⟨rest, hrest⟩ := exists_destutter'_eq_cons
    (R := fun a b => ¬ (isBlank view a ∧ isBlank view b)) token after
  have hsub := after.destutter'_sublist (fun a b => ¬ (isBlank view a ∧ isBlank view b)) token
  rw [hrest] at hsub
  refine ⟨front, rest.rdropWhile (isBlank view), ?_, ?_⟩
  · rw [signature, destutter_cons', htype, destutter'_append_cons hfollows, hfront, hrest,
      rdropWhile_append_cons htoken, cons_append]
  · have hkept := rdropWhile_prefix (isBlank view) rest
    exact (hkept.sublist.trans (cons_sublist_cons.1 hsub)).subset

lemma isComment_of_isName {token : α} (h : isName view token) : isComment view token = false := by
  rw [isName_iff] at h
  obtain h | h := h <;> rw [isComment, h] <;> rfl

/-- The table type is copied without its schema, and the rest of the copy is no name. -/
lemma exists_signature_of_isTableType (h : isTableType view e.type) :
    ∃ front element rest, e.signature view = e.name :: (front ++ element :: rest) ∧
      isName view element ∧ ∀ token ∈ rest, isNoise view token ∧
        namingKeywords.any (Text.sameWord (view token).text) = false := by
  obtain ⟨before, schema, period, element, after, heq, hbefore, hschema, hperiod,
    helement, hafter⟩ :=
    exists_of_isTableType h
  have htype : withoutSchema view e.type = before ++ element :: after := by
    rw [heq, withoutSchema_append _ _ hperiod]
    · exact fun token htoken =>
        hasKind_of_isNoise .period (hbefore token htoken) rfl
    · exact hasKind_of_isName .period hschema rfl
  obtain ⟨front, rest, hsignature, hsub⟩ :=
    exists_signature_eq_append htype (isBlank_of_isName helement)
  exact ⟨front, element, rest, hsignature, helement, fun token htoken => hafter token (hsub htoken)⟩

/-- A type keyword is copied. -/
lemma exists_mem_signature_of_isKeywordType (h : isKeywordType view e.type) :
    ∃ token ∈ e.signature view, (view token).tag = .dataTypeKeyword := by
  obtain ⟨⟨token, htoken, htag⟩, -⟩ := isKeywordType_iff.1 h
  obtain ⟨before, after, heq⟩ := append_of_mem htoken
  have htype : withoutSchema view e.type = before ++ token :: after := by
    rw [withoutSchema_eq_self fun t ht => hasKind_period_of_isKeywordType h ht, heq]
  obtain ⟨front, rest, hsignature, -⟩ :=
    exists_signature_eq_append htype (by simp [isBlank, hasKind, htag])
  exact ⟨token, by simp [hsignature], htag⟩

/-- The name and the type are what the signature is made of. -/
lemma signature_sublist (e : Entry α) : (e.signature view).Sublist (e.name :: e.type) := by
  have hschema : ∀ tokens : List α, (withoutSchema view tokens).Sublist tokens := by
    intro tokens
    fun_induction withoutSchema view tokens with
    | case1 schema next rest hnext => exact (sublist_cons_self _ _).trans (sublist_cons_self _ _)
    | case2 schema next rest hnext ih => exact ih.cons_cons schema
    | case3 => exact .refl _
  refine .trans ?_ ((hschema e.type).cons_cons e.name)
  exact .trans (IsPrefix.sublist <| rdropWhile_prefix _ _) (destutter_sublist _ _)

lemma markLast_append {p : α → Bool} {mark : SyntaxTree} {token : α} {rest : List α}
    (htoken : p token) (hrest : ∀ t ∈ rest, p t = false) (front : List α) :
    markLast view p mark (front ++ token :: rest) =
      front.map view ++ view token :: mark :: rest.map view := by
  induction front with
  | nil =>
    have hnone : rest.any p = false := any_eq_false.2 fun t ht => by simp [hrest t ht]
    rw [nil_append, markLast, htoken, hnone]
    rfl
  | cons first front ih =>
    have hany : (front ++ token :: rest).any p = true := by simp [htoken]
    rw [cons_append, markLast, hany, ih]
    simp

lemma markLast_map {β : Type} {view : β → SyntaxTree} {p : β → Bool} {mark : SyntaxTree}
    (form : α → β) (tokens : List α) :
    markLast view p mark (tokens.map form) = markLast (view ∘ form) (p ∘ form) mark tokens := by
  induction tokens with
  | nil => rfl
  | cons token rest ih =>
    rw [map_cons, markLast, markLast, ih, any_map, map_map]
    rfl

lemma declared_map (view : α → SyntaxTree) (e : Entry α) : (e.map view).declared =
    .group .clause (e.copied view ++ .semicolon ::
      (e.comments view).flatMap fun comment => [.node .whiteSpace " " .empty [], comment]) := by
  have hsignature : (e.map view).signature (fun token => token) = (e.signature view).map view :=
    signature_map e
  have harray : (e.map view).isArray (fun token => token) = e.isArray view := by
    rw [isArray, map, any_map]
    rfl
  have hcopied : (e.map view).copied (fun token => token) = e.copied view := by
    rw [copied, copied, hsignature, harray, filter_map, markLast_map, map_map]
    rfl
  have hcomments : (e.map view).comments (fun token => token) = e.comments view := by
    rw [comments, comments, hsignature, map, ← map_append, filter_map, map_map]
    rfl
  rw [declared, hcopied, hcomments]

end

end Entry

namespace DeclareSection

open Conversion Forest SyntaxTree

/-! ## Declarations in a section -/

section

variable {f g : Forest} {d : Declaration} {e : Entry Nat}

/-- The token that the brackets of an array come after. -/
def elementType (f : Forest) (d : Declaration) : Option NodeId :=
  if d.array then (d.names f).getLast? else none

/-- What is copied of one token. -/
def copyOf (f : Forest) (last : Option NodeId) (id : NodeId) : List SyntaxTree :=
  if f.isComment id then []
  else f.subtree id :: if some id == last then [.node .period "[]" .empty []] else []

/-- The declaration as it stands in the section. -/
def declaredAs (f : Forest) (d : Declaration) : SyntaxTree :=
  .group .clause (d.signature.flatMap (copyOf f (elementType f d)) ++ .semicolon ::
    ((d.value ++ d.signature).filter f.isComment).flatMap fun comment =>
      [.node .whiteSpace " " .empty [], f.subtree comment])

lemma flatMap_copyOf_of_ne {last : Option Nat} {ids : List Nat} (h : ∀ id ∈ ids, some id ≠ last) :
    ids.flatMap (copyOf f last) = (ids.filter (!f.isComment ·)).map f.subtree := by
  induction ids with
  | nil => rfl
  | cons id ids ih =>
    rw [flatMap_cons, ih fun x hx => h x (mem_cons_of_mem _ hx), copyOf]
    have hne : (some id == last) = false := by simpa using h id (.head _)
    by_cases hcomment : f.isComment id
    · simp [hcomment]
    · simp [hcomment, hne]

lemma isName_of_isName_subtree {id : Nat} (h : Entry.isName f.subtree id) : f.isName id := by
  rw [Entry.isName_iff, tag_subtree] at h
  obtain h | h := h <;> simp [isName, is, h]

lemma array_toDeclaration : (e.toDeclaration f).array = e.isArray f.subtree :=
  congrArg e.type.any (funext fun id => (hasKind_subtree f id .period).symm)

lemma elementType_toDeclaration {front rest : List Nat} {element : Nat}
    (harray : e.isArray f.subtree) (hsignature : e.signature f.subtree = front ++ element :: rest)
    (helement : Entry.isName f.subtree element)
    (hrest : ∀ token ∈ rest, Entry.isNoise f.subtree token ∧
      namingKeywords.any (Text.sameWord (f.subtree token).text) = false) :
    elementType f (e.toDeclaration f) = some element := by
  have hname := isName_of_isName_subtree helement
  have hnone : rest.filter f.isName = [] := by
    refine filter_eq_nil_iff.2 fun token htoken => ?_
    obtain ⟨hnoise, htext⟩ := hrest token htoken
    have hother := Entry.isName_of_isNoise hnoise
    have hkeyword : namingKeywords.any (f.hasText token) = false := by rwa [text_subtree] at htext
    rw [Entry.isName, hasKind_subtree, hasKind_subtree] at hother
    simp [isName, hother, hkeyword]
  rw [elementType, array_toDeclaration, if_pos harray, Declaration.names, Entry.toDeclaration,
    hsignature, filter_append, filter_cons_of_pos hname, hnone, getLast?_concat]

/-- The tokens of an entry are copied one after the other, with brackets after a table type. -/
lemma flatMap_copyOf_signature (h : Entry.isProper f.subtree e)
    (hnodup : (e.signature f.subtree).Nodup) :
    (e.signature f.subtree).flatMap (copyOf f (elementType f (e.toDeclaration f))) =
      e.copied f.subtree := by
  have hkept : ∀ ids : List Nat, ids.filter (!Entry.isComment f.subtree ·) =
      ids.filter (!f.isComment ·) := fun ids => filter_congr fun id _ => by rw [isComment_subtree]
  rw [Entry.copied]
  by_cases harray : e.isArray f.subtree
  · obtain ⟨front, element, rest, hsignature, helement, hrest⟩ :=
      Entry.exists_signature_of_isTableType ((Entry.isArray_iff h).1 harray)
    rw [← cons_append] at hsignature
    rw [hsignature, nodup_middle, nodup_cons, mem_append, not_or] at hnodup
    have hne {ids : List Nat} (hids : element ∉ ids) : ∀ id ∈ ids, some id ≠ some element := by
      rintro id hid heq
      exact hids (Option.some.inj heq ▸ hid)
    have hcomment : f.isComment element = false := by
      rw [← isComment_subtree]
      exact Entry.isComment_of_isName helement
    have hfront := flatMap_copyOf_of_ne (f := f) (hne hnodup.1.1)
    have hafter := flatMap_copyOf_of_ne (f := f) (hne hnodup.1.2)
    rw [if_pos harray, hkept, elementType_toDeclaration harray hsignature helement hrest,
      hsignature, flatMap_append, hfront, flatMap_cons, hafter, filter_append,
      filter_cons_of_pos (a := element) (by simp [hcomment]), Entry.markLast_append helement]
    · simp [copyOf, hcomment]
    · exact fun token htoken =>
        Entry.isName_of_isNoise (hrest token (mem_of_mem_filter htoken)).1
  · have hnone : elementType f (e.toDeclaration f) = none := by
      rw [elementType, array_toDeclaration, if_neg harray]
    rw [if_neg harray, hkept, hnone, flatMap_copyOf_of_ne (by simp)]

/-- A declaration stands in the section as its entry says. -/
lemma declaredAs_toDeclaration (h : Entry.isProper f.subtree e)
    (hnodup : (e.signature f.subtree).Nodup) :
    declaredAs f (e.toDeclaration f) = (e.map f.subtree).declared := by
  have hblank : ∀ id, f.isWhiteSpace id → f.isComment id = false := by
    intro id hid
    rw [isComment, tag_of_is hid]
    rfl
  have hcomments : ((e.toDeclaration f).value ++ (e.toDeclaration f).signature).filter f.isComment =
      (e.value ++ e.signature f.subtree).filter (Entry.isComment f.subtree) := by
    have hkinds : Entry.isComment f.subtree = f.isComment := funext fun id => isComment_subtree f id
    rw [hkinds, filter_append, filter_append, Entry.toDeclaration,
      filter_trimWhiteSpace hblank]
  rw [Entry.declared_map, declaredAs, hcomments, ← flatMap_copyOf_signature h hnodup,
    Entry.comments, flatMap_map]
  rfl

/-- A declaration with a type is written to the section. -/
lemma isTyped_toDeclaration (h : Entry.isProper f.subtree e) : isTyped f (e.toDeclaration f) := by
  rw [Entry.isProper, Bool.and_eq_true, Bool.or_eq_true] at h
  rw [isTyped, Bool.or_eq_true]
  obtain hkeyword | htable := h.2
  · obtain ⟨token, htoken, htag⟩ := Entry.exists_mem_signature_of_isKeywordType hkeyword
    refine .inl (find?_isSome.2 ⟨token, htoken, ?_⟩)
    rw [is_eq, htag]
    rfl
  · obtain ⟨front, element, rest, hsignature, helement, -⟩ :=
      Entry.exists_signature_of_isTableType htable
    refine .inr (decide_eq_true ?_)
    rw [Declaration.names, Entry.toDeclaration, hsignature,
      filter_cons_of_pos (isName_of_isName_subtree h.1), filter_append,
      filter_cons_of_pos (isName_of_isName_subtree helement)]
    simp only [length_cons, length_append]
    omega

/-- What is written for a declaration depends on the views of its tokens only. -/
lemma declaredAs_congr (h : ∀ id ∈ d.value ++ d.signature, g.subtree id = f.subtree id) :
    declaredAs g d = declaredAs f d ∧ isTyped g d = isTyped f d := by
  have hname : ∀ id ∈ d.signature, g.isName id = f.isName id := fun id hid => by
    have hview := h id (mem_append_right _ hid)
    have htext : g.hasText id = f.hasText id := by
      funext text
      rw [hasText, hasText, ← text_subtree, hview, text_subtree]
    rw [isName, isName, is_eq, is_eq, hview, ← is_eq, ← is_eq, htext]
  have hcomment : ∀ id ∈ d.value ++ d.signature, g.isComment id = f.isComment id := fun id hid => by
    rw [← isComment_subtree, Entry.isComment, h id hid, ← Entry.isComment, isComment_subtree]
  have hnames : d.names g = d.names f := filter_congr hname
  have hkeyword : d.typeKeyword g = d.typeKeyword f := find?_congr fun id hid => by
    rw [is_eq, h id (mem_append_right _ hid), ← is_eq]
  have hcopies : d.signature.flatMap (copyOf g (elementType g d)) =
      d.signature.flatMap (copyOf f (elementType f d)) := by
    have hlast : elementType g d = elementType f d := by rw [elementType, hnames, elementType]
    rw [hlast]
    refine flatMap_congr fun id hid => ?_
    have hid := mem_append_right d.value hid
    rw [copyOf, copyOf, hcomment id hid, h id hid]
  constructor
  · rw [declaredAs, declaredAs, hcopies, filter_congr hcomment]
    congr 3
    refine flatMap_congr fun id hid => ?_
    rw [h id (mem_of_mem_filter hid)]
  · rw [isTyped, isTyped, hkeyword, hnames]

end

end DeclareSection

/-! ## Entries that are copied -/

namespace DeclareSection

open Conversion Forest SyntaxTree

variable {w w' : Workspace} {E : ConversionError → Workspace → Prop} {f : Forest}
  {c n : Nat} {tag : Tag}
  {text : String} {attributes : Dict String} {trees : List SyntaxTree} {ids : List Nat}
    {d : Declaration}

/-- The tokens of the declaration are copied to the end of a clause. -/
lemma copySignature_built (h : Built w c (.node tag text attributes trees) w)
    (hcopyable : Copyable w.forest c d.signature w) :
    Ends (copySignature c d) w (fun _ => Built w c (.node tag text attributes
      (trees ++ d.signature.flatMap (copyOf w.forest (elementType w.forest d))))) E := by
  apply ends_forest
  refine forM_built _ h fun id hid w1 trees1 h1 => ?_
  apply ends_ite
  · intro hcomment
    rw [copyOf, if_pos hcomment, append_nil]
    exact ends_pure h1
  · intro hcomment
    rw [copyOf, if_neg hcomment]
    refine ends_bind ((h1.copy id).imp fun _ w2 h2 => ?_)
    rw [(hcopyable.turned h.whole h1.toTurned id hid).2] at h2
    apply ends_ite
    · intro hlast
      refine h2.leaf.imp fun _ w3 h3 => ?_
      have hlast : (some id == elementType w.forest d) = true := hlast
      rw [append_assoc, singleton_append] at h3
      rwa [if_pos hlast]
    · intro hlast
      have hlast : ¬ (some id == elementType w.forest d) = true := hlast
      rw [if_neg hlast]
      exact ends_pure h2

/-- The tokens, a semicolon and the comments of the declaration, in a new clause. -/
lemma copyDeclaration_built (h : Built w c (.node .clause "" .empty []) w)
    (hcopyable : Copyable w.forest c (d.value ++ d.signature) w) :
    Ends (do
      copySignature c d
      appendLeaf c .semicolon ";"
      let f ← forest
      ((d.value ++ d.signature).filter f.isComment).forM fun comment => do
        appendLeaf c .whiteSpace " "
        appendCopy c comment) w
      (fun _ => Built w c (declaredAs w.forest d)) E := by
  refine ends_bind ((copySignature_built h (hcopyable.mono (subset_append_right _ _))).imp
    fun _ w1 h1 => ends_bind (h1.leaf.imp fun _ w2 h2 => ?_))
  have hcomments : (d.value ++ d.signature).filter w2.forest.isComment =
      (d.value ++ d.signature).filter w.forest.isComment := filter_congr fun id hid => by
    rw [← isComment_subtree, Entry.isComment, (hcopyable.turned h.whole h2.toTurned id hid).2,
      ← Entry.isComment, isComment_subtree]
  apply ends_forest
  rw [hcomments]
  refine (forM_built (fun id => [.node .whiteSpace " " .empty [], w.forest.subtree id]) h2
    fun id hid w3 trees3 h3 => ?_).imp fun _ w3 h3 => ?_
  · refine ends_bind (h3.leaf.imp fun _ w4 h4 => (h4.copy id).imp fun _ w5 h5 => ?_)
    rwa [(hcopyable.turned h.whole h4.toTurned id (mem_of_mem_filter hid)).2, append_assoc,
      singleton_append] at h5
  · rwa [append_assoc, append_assoc, nil_append] at h3

/-- A typed declaration has one entry at the end of the section. -/
lemma addEntry_built {w₀ : Workspace} (h : Built w₀ n (.node tag text attributes trees) w)
    (hcopyable : Copyable f n (d.value ++ d.signature) w₀) (htyped : isTyped f d) :
    Ends (addEntry n d) w
      (fun _ => Built w₀ n (.node tag text attributes (trees ++ [declaredAs f d]))) E := by
  have hcopyable0 := hcopyable.turned h.start_whole h.toTurned
  apply ends_forest
  apply ends_ite
  · intro hnot
    rw [(declaredAs_congr fun id hid => (hcopyable0 id hid).2).2, htyped] at hnot
    cases hnot
  · intro _
    refine h.build_last fun c w1 hparent h1 hleaf => ?_
    have hcopyable1 := hcopyable.turned h.start_whole h1.toTurned
    rw [← (declaredAs_congr fun id hid => (hcopyable1 id hid).2).1]
    exact copyDeclaration_built hleaf fun id hid => ⟨(hcopyable1 id hid).1.of_parent hparent, rfl⟩

/-! ## The section -/

/-- The word that a section starts with. -/
def sectionHeader : SyntaxTree :=
  group .ddlDeclareBlock [keyword "declare"]

/-- The clause of a section with the given entries. -/
def sectionOf (es : List (Entry SyntaxTree)) : SyntaxTree :=
  group .clause (sectionHeader :: es.map Entry.declared)

lemma fillSection_built {es : List (Entry Nat)} (h : Built w n (.node .clause "" .empty []) w)
    (hes : ∀ e ∈ es, Entry.isProper f.subtree e ∧ (e.signature f.subtree).Nodup)
    (hcopyable : Copyable f n ids w)
    (hids : ∀ e ∈ es, (e.toDeclaration f).value ++ (e.toDeclaration f).signature ⊆ ids) :
    Ends (do
      let header ← append n .ddlDeclareBlock ""
      appendLeaf header .otherKeyword "declare"
      (es.map (Entry.toDeclaration f)).forM (addEntry n)) w
      (fun _ => Built w n (sectionOf (es.map (Entry.map f.subtree)))) E := by
  refine h.build (fun header w' _ _ hleaf => hleaf.leaf) fun header _ w1 h1 => ?_
  refine (forM_built (fun d => [declaredAs f d]) h1 fun d hd w2 trees2 h2 => ?_).imp fun _ w2 h2 =>
    ?_
  · obtain ⟨e, he, rfl⟩ := mem_map.1 hd
    exact addEntry_built h2 (hcopyable.mono (hids e he)) (isTyped_toDeclaration (hes e he).1)
  · have hentries : (es.map (Entry.toDeclaration f)).flatMap (fun d => [declaredAs f d]) =
        (es.map (Entry.map f.subtree)).map Entry.declared := by
      rw [← map_eq_flatMap, map_map, map_map]
      exact map_congr_left fun e he => declaredAs_toDeclaration (hes e he).1 (hes e he).2
    rwa [hentries] at h2

end DeclareSection

end SqlDialect
