import SqlDialect.Configuration

/-!
# Options of the command line

The arguments are taken from left to right.  A setting has a value, which is part of the same
argument or is the next one; a switch has none.  Short switches can be joined.  After two dashes
everything is an input.  No option is given twice and no value is empty.  Whatever is wrong first
ends the reading, and so do the requests for help and for the version.
-/

namespace SqlDialect.CommandLine

/-- What a command line asks for. -/
structure Options where
  input : Option String := none
  output : Option String := none
  format : Option OutputFormat := none
  /-- Write diagrams of the trees. -/
  debug : Bool := false
  tree : Option String := none
  ptree : Option String := none
  /-- List the passes and do nothing else. -/
  passes : Bool := false
  config : Option String := none
  verbose : Bool := false
  deriving DecidableEq

/-- Why a command line leads to no run. -/
inductive Halt where
  /-- It is not understood. -/
  | usage
  | help
  | version
  deriving DecidableEq

/-- An option with a value. -/
inductive Setting where
  | input
  | output
  | format
  | tree
  | ptree
  | config

/-- An option without a value. -/
inductive Switch where
  | debug
  | passes
  | verbose
  | help
  | version

def Setting.ofLong? (name : String) : Option Setting :=
  if name == "output" then some .output
  else if name == "format" then some .format
  else if name == "tree" then some .tree
  else if name == "ptree" then some .ptree
  else if name == "config" then some .config
  else none

def Setting.ofShort? (letter : Char) : Option Setting :=
  if letter == 'o' then some .output
  else if letter == 'f' then some .format
  else if letter == 't' then some .tree
  else if letter == 'p' then some .ptree
  else none

def Switch.ofLong? (name : String) : Option Switch :=
  if name == "debug" then some .debug
  else if name == "passes" then some .passes
  else if name == "verbose" then some .verbose
  else if name == "help" then some .help
  else if name == "version" then some .version
  else none

def Switch.ofShort? (letter : Char) : Option Switch :=
  if letter == 'D' then some .debug
  else if letter == 'v' then some .verbose
  else if letter == 'h' then some .help
  else if letter == 'V' then some .version
  else none

namespace Options

/-- A value for a place where none was given yet. -/
def once (current : Option String) (value : String) : Except Halt (Option String) :=
  if current.isSome || value == "" then .error .usage else .ok (some value)

/-- Gives a setting its value. -/
def set (o : Options) (setting : Setting) (value : String) : Except Halt Options := do
  match setting with
  | .input => return { o with input := ← once o.input value }
  | .output => return { o with output := ← once o.output value }
  | .tree => return { o with tree := ← once o.tree value }
  | .ptree => return { o with ptree := ← once o.ptree value }
  | .config => return { o with config := ← once o.config value }
  | .format =>
    match o.format, OutputFormat.ofName? value with
    | none, some format => return { o with format := some format }
    | _, _ => throw .usage

/-- Turns a switch on. -/
def turnOn (o : Options) (switch : Switch) : Except Halt Options :=
  match switch with
  | .debug => if o.debug then .error .usage else .ok { o with debug := true }
  | .passes => if o.passes then .error .usage else .ok { o with passes := true }
  | .verbose => if o.verbose then .error .usage else .ok { o with verbose := true }
  | .help => .error .help
  | .version => .error .version

end Options

/-! ## Reading the arguments -/

/-- How far the arguments have been read. -/
structure Scan where
  options : Options := {}
  /-- A setting whose value is the next argument. -/
  pending : Option Setting := none
  /-- Two dashes have been read. -/
  inputsOnly : Bool := false

namespace Scan

/-- Gives a setting its value. -/
def set (s : Scan) (setting : Setting) (value : String) : Except Halt Scan := do
  return { s with options := ← s.options.set setting value, pending := none }

/-- Turns a switch on. -/
def turnOn (s : Scan) (switch : Switch) : Except Halt Scan := do
  return { s with options := ← s.options.turnOn switch }

/-- Short options after a dash. -/
def short (s : Scan) : List Char → Except Halt Scan
  | [] => .ok s
  | letter :: rest =>
    match Switch.ofShort? letter with
    | some switch => do (← s.turnOn switch).short rest
    | none =>
      match Setting.ofShort? letter, rest with
      | none, _ => .error .usage
      | some setting, [] => .ok { s with pending := some setting }
      | some setting, '=' :: value => s.set setting (String.ofList value)
      | some setting, value => s.set setting (String.ofList value)

/-- A long option after two dashes; its value may follow an equals sign. -/
def long (s : Scan) (text : List Char) : Except Halt Scan :=
  let name := String.ofList (text.takeWhile (· != '='))
  match text.dropWhile (· != '=') with
  | [] =>
    match Switch.ofLong? name, Setting.ofLong? name with
    | some switch, _ => s.turnOn switch
    | none, some setting => .ok { s with pending := some setting }
    | none, none => .error .usage
  | _ :: value =>
    match Setting.ofLong? name with
    | some setting => s.set setting (String.ofList value)
    | none => .error .usage

/-- Takes the next argument. A setting that waits for its value takes nothing that looks like an
option; a single dash does not. -/
def next (s : Scan) (argument : String) : Except Halt Scan :=
  if s.inputsOnly then s.set .input argument
  else match s.pending, argument.toList with
    | some _, '-' :: _ :: _ => .error .usage
    | some setting, _ => s.set setting argument
    | none, ['-', '-'] => .ok { s with inputsOnly := true }
    | none, '-' :: '-' :: text => s.long text
    | none, '-' :: letter :: text => s.short (letter :: text)
    | none, _ => s.set .input argument

end Scan

/-- The options of a command line. `environment` is the value of the variable that can name the
configuration file; the option for it goes first. There must be an input, unless only the passes are
asked for. -/
def readOptions (arguments : List String) (environment : Option String) :
    Except Halt Options := do
  let scan ← arguments.foldlM Scan.next {}
  if scan.pending.isSome then throw .usage
  let options ← match scan.options.config, environment with
    | none, some path => scan.options.set .config path
    | _, _ => pure scan.options
  if options.input.isNone && !options.passes then throw .usage
  return options

end SqlDialect.CommandLine
