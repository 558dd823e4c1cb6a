/-!
# TOML documents

A document is a table of named values.  Values are strings, numbers, truth values, moments in time,
arrays and tables.  Of a number with a fraction and of a moment only the text is kept.

A table remembers how it came to be, since that decides what may be added to it further on: a table
that is written as a value is complete, one that has a header of its own cannot get a second header,
and one that only dotted keys mention cannot get a header at all.
-/

namespace SqlDialect.Toml

/-- How a table came to be. -/
inductive TableKind where
  /-- It is written as a value, between braces. -/
  | inline
  /-- It has a header of its own, or is the document. -/
  | defined
  /-- The header of a table below it mentions it. -/
  | implied
  /-- A dotted key mentions it. -/
  | dotted
  deriving DecidableEq

/-- A value of a document. -/
inductive Value where
  | string (text : String)
  | integer (value : Int)
  | float (text : String)
  | boolean (value : Bool)
  | moment (text : String)
  | array (elements : List Value)
  | table (kind : TableKind) (entries : List (String × Value))
  /-- Tables that have headers of their own in common. -/
  | tables (elements : List (List (String × Value)))

/-- The named values of a table, in the order in which they were added. -/
abbrev Entries := List (String × Value)

namespace Entries

/-- The value of a name. -/
def get? (entries : Entries) (name : String) : Option Value :=
  (entries.find? (·.1 == name)).map (·.2)

/-- Puts a value in the place of the one that a name has. -/
def replace (entries : Entries) (name : String) (value : Value) : Entries :=
  entries.map fun entry => if entry.1 == name then (name, value) else entry

/-- The entries of other names. -/
def erase (entries : Entries) (name : String) : Entries :=
  entries.filter (·.1 != name)

/-! ## Adding to a document -/

/-- Changes the table that a path of names leads to; tables on the way that are not there yet are
added. Complete tables are not entered, and dotted keys do not enter tables with a header; of
tables with a header in common the last one is entered. -/
def descend (byDottedKey : Bool) (change : TableKind → Entries → Option Entries) :
    List String → TableKind → Entries → Option Entries
  | [], kind, entries => change kind entries
  | name :: path, _, entries =>
    match entries.get? name with
    | none => do
      let kind : TableKind := if byDottedKey then .dotted else .implied
      let inner ← descend byDottedKey change path kind []
      some (entries ++ [(name, .table kind inner)])
    | some (.table kind inner) => do
      if kind == .inline || (byDottedKey && kind == .defined) then none
      let inner ← descend byDottedKey change path kind inner
      some (entries.replace name (.table kind inner))
    | some (.tables elements) => do
      let last ← elements.getLast?
      let last ← descend byDottedKey change path .defined last
      some (entries.replace name (.tables (elements.dropLast ++ [last])))
    | some _ => none

/-- Adds a value under a dotted key, whose name must be new. Names below another one are added only
to tables that dotted keys mention. -/
def addValue (entries : Entries) (key : List String) (value : Value) : Option Entries := do
  let name ← key.getLast?
  let path := key.dropLast
  descend true (fun kind entries =>
    if path.isEmpty == (kind == .dotted) || (entries.get? name).isSome then none
    else some (entries ++ [(name, value)])) path .defined entries

/-- Opens the table of a header. It is a new one, or one that other headers have mentioned. -/
def openTable (entries : Entries) (key : List String) : Option Entries := do
  let name ← key.getLast?
  descend false (fun _ entries =>
    match entries.get? name with
    | none => some (entries ++ [(name, .table .defined [])])
    | some (.table .implied inner) => some (entries.erase name ++ [(name, .table .defined inner)])
    | some _ => none) key.dropLast .defined entries

/-- Opens one more table of a header that is shared. -/
def openElement (entries : Entries) (key : List String) : Option Entries := do
  let name ← key.getLast?
  descend false (fun _ entries =>
    match entries.get? name with
    | none => some (entries ++ [(name, .tables [[]])])
    | some (.tables elements) => some (entries.replace name (.tables (elements ++ [[]])))
    | some _ => none) key.dropLast .defined entries

end Entries

/-- A line of a document that says something. -/
inductive Statement where
  /-- A value for a key of the table that is open. -/
  | value (key : List String) (content : Value)
  /-- The header of a table. -/
  | table (key : List String)
  /-- The header of one of several tables. -/
  | element (key : List String)

/-- Adds what a statement says to a document; the header of the open table goes along. -/
def Statement.addTo : Statement → List String × Entries → Option (List String × Entries)
  | .value key content, (header, document) => do
    let document ← Entries.descend false (fun _ entries => entries.addValue key content)
      header .defined document
    some (header, document)
  | .table key, (_, document) => do
    let document ← document.openTable key
    some (key, document)
  | .element key, (_, document) => do
    let document ← document.openElement key
    some (key, document)

/-- The document that statements make up. -/
def document? (statements : List Statement) : Option Entries := do
  let (_, document) ← statements.foldlM (fun state statement => Statement.addTo statement state)
    ([], [])
  some document

end SqlDialect.Toml
