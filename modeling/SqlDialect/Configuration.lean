import SqlDialect.Files
import SqlDialect.Toml.Reader

/-!
# The configuration

A configuration file is a TOML document such as

    output = "output.sql"
    format = "text"

    [debug]
    enabled = true
    tree = "debug/tree.txt"
    ptree = "debug/tree.psql.txt"
    ignore_whitespace = true

in which everything may be missing and further keys are allowed.  The configuration is read from the
path that is asked for, or else from the file in the working directory, or else from the one of the
user; with none of them the defaults apply.

A format may also be given as a table whose first key names it and has an empty value.  The debug
settings may be given as an array in the above order; a moment in their place says nothing.
-/

namespace SqlDialect

/-- How a converted tree is written. -/
inductive OutputFormat where
  /-- As program text. -/
  | text
  /-- As a JSON document. -/
  | json
  /-- As an S-expression. -/
  | tree
  deriving DecidableEq

/-- The format of a name. -/
def OutputFormat.ofName? (name : String) : Option OutputFormat :=
  if name == "text" then some .text
  else if name == "json" then some .json
  else if name == "tree" then some .tree
  else none

/-- Diagrams of the tree before and after the conversion. -/
structure DebugSettings where
  enabled : Bool := false
  /-- Where the diagram of the tree before the conversion goes. -/
  tree : String := "debug/tree.txt"
  /-- Where the diagram of the tree after the conversion goes. -/
  ptree : String := "debug/tree.psql.txt"
  ignoreWhiteSpace : Bool := true
  deriving DecidableEq

/-- The settings of a run. -/
structure Configuration where
  output : String := "output.sql"
  format : OutputFormat := .text
  debug : DebugSettings := {}
  deriving DecidableEq

/-- Why there is no configuration. -/
inductive ConfigurationError where
  /-- The document, of a file if one is given, is not a configuration. -/
  | malformed (path : Option String)
  /-- The file that was asked for is not there. -/
  | missing (path : String)
  /-- The file cannot be read. -/
  | unreadable (cause : FileError)
  deriving DecidableEq

def ConfigurationError.message : ConfigurationError → String
  | malformed none => "Configuration error: TOML parse error"
  | malformed (some path) => "Configuration error: " ++ path ++ ": TOML parse error"
  | missing path => "Configuration error: " ++ path ++ " not found"
  | unreadable cause => "IO error: " ++ cause.message

namespace Configuration

open Toml (Value Entries)

/-! ## Settings in a document -/

def string? : Value → Option String
  | .string text => some text
  | _ => none

def boolean? : Value → Option Bool
  | .boolean value => some value
  | _ => none

/-- The setting that a value holds, or the default if there is no value. A value that does not hold
one is an error. -/
def setting {α : Type} (decode : Value → Option α) (default : α) : Option Value → Option α
  | none => some default
  | some value => decode value

/-- A table or array with nothing in it. -/
def isEmpty : Value → Bool
  | .array elements => elements.isEmpty
  | .table _ entries => entries.isEmpty
  | .tables elements => elements.isEmpty
  | _ => false

/-- The format that an entry names, if its value is empty. -/
def formatOfEntry? (entry : String × Value) : Option OutputFormat :=
  if isEmpty entry.2 then OutputFormat.ofName? entry.1 else none

/-- A format: its name, or a table with it. An inline table has no other entry. -/
def format? : Value → Option OutputFormat
  | .string name => OutputFormat.ofName? name
  | .table .inline entries =>
    match entries with
    | [entry] => formatOfEntry? entry
    | _ => none
  | .table _ entries => entries.head? >>= formatOfEntry?
  | _ => none

/-- Debug settings, each from its value. -/
def debugOf? (enabled tree ptree ignoreWhiteSpace : Option Value) : Option DebugSettings := do
  let defaults : DebugSettings := {}
  let enabled ← setting boolean? defaults.enabled enabled
  let tree ← setting string? defaults.tree tree
  let ptree ← setting string? defaults.ptree ptree
  let ignoreWhiteSpace ← setting boolean? defaults.ignoreWhiteSpace ignoreWhiteSpace
  some { enabled, tree, ptree, ignoreWhiteSpace }

/-- Debug settings: a table or an array of them. -/
def debug? : Value → Option DebugSettings
  | .table _ entries =>
    let get := Entries.get? entries
    debugOf? (get "enabled") (get "tree") (get "ptree") (get "ignore_whitespace")
  | .array elements => debugOf? elements[0]? elements[1]? elements[2]? elements[3]?
  | .moment _ => some {}
  | _ => none

/-- The configuration in a document. -/
def ofEntries? (entries : Entries) : Option Configuration := do
  let defaults : Configuration := {}
  let output ← setting string? defaults.output (entries.get? "output")
  let format ← setting format? defaults.format (entries.get? "format")
  let debug ← setting debug? defaults.debug (entries.get? "debug")
  some { output, format, debug }

/-- The configuration in the text of a document. -/
def ofToml? (text : String) : Option Configuration :=
  Toml.read? text >>= ofEntries?

/-! ## Configuration files -/

/-- The file that is looked for in the working directory. -/
def localFile : String := "pgport.toml"

/-- The file that is looked for in the configuration directory of the user. -/
def userFile (directory : String) : String :=
  directory ++ "/pgport/config.toml"

variable {m : Type → Type} [Monad m]

/-- The configuration in a file. -/
def ofFile (files : FileAccess m) (path : String) :
    m (Except ConfigurationError Configuration) := do
  match ← files.read path with
  | .error cause => return .error (.unreadable cause)
  | .ok content =>
    match ofToml? content with
    | some configuration => return .ok configuration
    | none => return .error (.malformed (some path))

/-- The configuration in the first of some files that is there, or the defaults. -/
def ofFirst (files : FileAccess m) : List String → m (Except ConfigurationError Configuration)
  | [] => return .ok {}
  | path :: rest => do
    if ← files.isPresent path then ofFile files path else ofFirst files rest

/-- The configuration of a run: from the file that is asked for, which must be there, or else from
the first of the usual ones. -/
def load (files : FileAccess m) (userDirectory : Option String) (explicit : Option String) :
    m (Except ConfigurationError Configuration) := do
  match explicit with
  | some path =>
    if ← files.isPresent path then ofFile files path else return .error (.missing path)
  | none => ofFirst files (localFile :: (userDirectory.map userFile).toList)

end Configuration

end SqlDialect
