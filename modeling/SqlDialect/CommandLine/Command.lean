import SqlDialect.CommandLine.Options
import SqlDialect.Json.Reader
import SqlDialect.Json.Writer
import SqlDialect.Path
import SqlDialect.Pipeline
import SqlDialect.Sexpr.Reader
import SqlDialect.Sexpr.Writer
import SqlDialect.SyntaxTree.Diagram
import SqlDialect.SyntaxTree.Rendering

/-!
# The command

A run reads the configuration and the input tree, converts the tree, and writes it to the output.
If asked to, it writes a diagram of the tree before the conversion and another after it.  So
nothing but the diagrams is written before all else has succeeded.
-/

namespace SqlDialect.CommandLine

/-- Why a run fails. -/
inductive CommandError where
  | configuration (cause : ConfigurationError)
  | noInput
  | reading (path : String) (cause : FileError)
  | creating (directory : String) (cause : FileError)
  | writing (path : String) (cause : FileError)
  /-- The input is no S-expression of a tree. -/
  | sexpr (cause : Sexpr.ReadError)
  /-- The input is no JSON document of a tree. -/
  | json
  | pass (cause : PassError)

/-- The error, followed by its causes. -/
def CommandError.message : CommandError → String
  | configuration (.unreadable cause) =>
    (ConfigurationError.unreadable cause).message ++ ": " ++ cause.message
  | configuration cause => cause.message
  | noInput => "No input tree given"
  | reading path cause => "reading " ++ path ++ ": " ++ cause.message
  | creating directory cause => "creating " ++ directory ++ ": " ++ cause.message
  | writing path cause => "writing " ++ path ++ ": " ++ cause.message
  | sexpr cause => cause.message
  | json => "JSON error: not a syntax tree"
  | pass cause => cause.message ++ ": " ++ cause.cause.message

/-- What a run prints, and its exit code. -/
structure Outcome where
  exitCode : Nat
  output : String := ""
  errors : String := ""
  deriving DecidableEq

/-! ## Trees in files -/

/-- Whether the name of a file says that it holds a JSON document. -/
def isJsonPath (path : String) : Bool :=
  (Path.extension? path).any (Text.sameWord · "json")

/-- The tree that the content of a file denotes. -/
def parseTree (path content : String) : Except CommandError SyntaxTree :=
  if isJsonPath path then
    match Json.read? content with
    | some tree => .ok tree
    | none => .error .json
  else
    match Sexpr.read content with
    | .ok tree => .ok tree
    | .error cause => .error (.sexpr cause)

/-- The text of a tree in a format. -/
def formatTree (tree : SyntaxTree) : OutputFormat → String
  | .text => tree.render ++ "\n"
  | .json => Json.write tree
  | .tree => Sexpr.write tree

/-! ## Runs -/

section

variable {m : Type → Type} [Monad m] (files : FileAccess m)

/-- An operation on files whose error is one of the run. -/
def attempt {α : Type} (operation : m (Except FileError α)) (error : FileError → CommandError) :
    ExceptT CommandError m α := do
  match ← operation with
  | .ok result => return result
  | .error cause => throw (error cause)

/-- Writes a file, after the directories that lead to it. -/
def writeFile (path content : String) : ExceptT CommandError m Unit := do
  match Path.parent? path with
  | none | some "" => pure ()
  | some directory => attempt (files.createDirectories directory) (.creating directory)
  attempt (files.write path content) (.writing path)

/-- Reads the tree in a file. -/
def readTree (path : String) : ExceptT CommandError m SyntaxTree := do
  let content ← attempt (files.read path) (.reading path)
  match parseTree path content with
  | .ok tree => return tree
  | .error e => throw e

/-- Converts the input of a run; gives what is printed in the end. -/
def convertInput (options : Options) (configuration : Configuration) (input : String) :
    ExceptT CommandError m String := do
  let tree ← readTree files input
  let debug := options.debug || configuration.debug.enabled
  let hideBlanks := configuration.debug.ignoreWhiteSpace
  if debug then
    writeFile files (options.tree.getD configuration.debug.tree) (tree.diagram hideBlanks)
  let workspace ← match convert (Forest.ofTree tree) with
    | .ok workspace => pure workspace
    | .error e => throw (.pass e)
  let converted := workspace.forest.tree
  if debug then
    writeFile files (options.ptree.getD configuration.debug.ptree) (converted.diagram hideBlanks)
  let output := options.output.getD configuration.output
  writeFile files output (formatTree converted (options.format.getD configuration.format))
  let warnings := workspace.notes.warnings
  return "✓ " ++ output ++ "\n" ++
    if warnings == 0 then "" else warnings.repr ++ " approximate conversion(s)\n"

/-- The work of a run that has more to do than to list the passes. -/
def work (userDirectory : Option String) (options : Options) : ExceptT CommandError m String := do
  match ← ExceptT.lift (Configuration.load files userDirectory options.config) with
  | .error e => throw (.configuration e)
  | .ok configuration =>
    match options.input with
    | none => throw .noInput
    | some input => convertInput files options configuration input

end

/-! ## What is printed -/

/-- A number at the right of two places. -/
def twoPlaces (n : Nat) : String :=
  if n < 10 then " " ++ n.repr else n.repr

/-- The lines of a list whose first item has the given number. -/
def numberedLines : Nat → List String → String
  | _, [] => ""
  | n, item :: rest => "  " ++ twoPlaces n ++ ". " ++ item ++ "\n" ++ numberedLines (n + 1) rest

/-- The passes of the conversion in their order. -/
def passList : String :=
  "Conversion passes:\n" ++ numberedLines 1 (standardPasses.map (·.name))

def versionText : String := "pgport 0.3.0\n"

def usageText : String := "Usage: pgport [OPTIONS] [INPUT]\n"

/-- How options are described. -/
def helpText : String :=
  "Converts T-SQL syntax trees to PL/pgSQL\n\n" ++ usageText ++ "\nArguments:\n" ++
  "  [INPUT]  Input tree: `.json`, or tree notation for any other extension\n\nOptions:\n" ++
  "  -o, --output <OUTPUT>  Output file\n" ++
  "  -f, --format <FORMAT>  Output format [possible values: text, json, tree]\n" ++
  "  -D, --debug            Write tree dumps before and after conversion\n" ++
  "  -t, --tree <TREE>      Dump of the input tree\n" ++
  "  -p, --ptree <PTREE>    Dump of the converted tree\n" ++
  "      --passes           List the conversion passes in order and exit\n" ++
  "      --config <CONFIG>  Configuration file (default: ./pgport.toml) [env: PGPORT_CONFIG=]\n" ++
  "  -v, --verbose          Debug logging\n" ++
  "  -h, --help             Print help\n" ++
  "  -V, --version          Print version\n"

/-- What is printed when a command line leads to no run. -/
def Halt.outcome : Halt → Outcome
  | usage => { exitCode := 2, errors := usageText }
  | help => { exitCode := 0, output := helpText }
  | version => { exitCode := 0, output := versionText }

variable {m : Type → Type} [Monad m]

/-- Runs the command with its arguments. `environment` can name the configuration file, and
`userDirectory` is where the user keeps configurations. -/
def run (files : FileAccess m) (userDirectory : Option String) (arguments : List String)
    (environment : Option String) : m Outcome := do
  match readOptions arguments environment with
  | .error halt => return halt.outcome
  | .ok options =>
    if options.passes then return { exitCode := 0, output := passList }
    match ← (work files userDirectory options).run with
    | .ok output => return { exitCode := 0, output }
    | .error e => return { exitCode := 1, errors := "Error: " ++ e.message ++ "\n" }

end SqlDialect.CommandLine
