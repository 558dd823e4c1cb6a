import SqlDialect.Toml.Number
import SqlDialect.Toml.Text

/-!
# Reading TOML documents

A document consists of lines: values of keys, headers, comments and blank lines.  They are read into
statements, and the statements are then put together, which fails when one of them contradicts an
earlier one.  Arrays and inline tables nest at most `maxNesting` deep.
-/

namespace SqlDialect.Toml

open Text (Reader expectWord)

/-- How deep arrays and inline tables may nest. -/
def maxNesting : Nat := 79

/-! ## Values -/

/-- A truth value. -/
def readBoolean : Reader Value := fun cs =>
  match expectWord "true".toList cs with
  | some rest => some (.boolean true, rest)
  | none => (expectWord "false".toList cs).map (.boolean false, ·)

/-- A value that holds no others. -/
def readScalar : Reader Value := fun cs =>
  match readString cs with
  | some (text, rest) => some (.string text, rest)
  | none => readBoolean cs <|> readNumber cs

/-- The elements of an array, up to its closing bracket. After each but the last stands a comma, and
after the last there may be one. -/
def readElements (element : Reader Value) : Nat → List Value → Reader (List Value)
  | 0, _, _ => none
  | fuel + 1, done, cs => do
    match ← skipTrivia? false cs with
    | ']' :: rest => some (done.reverse, rest)
    | cs =>
      let (value, cs) ← element cs
      match ← skipTrivia? false cs with
      | ',' :: rest => readElements element fuel (value :: done) rest
      | ']' :: rest => some ((value :: done).reverse, rest)
      | _ => none

/-- A key, an equals sign and a value. -/
def readPair (value : Reader Value) : Reader (List String × Value) := fun cs => do
  let (key, cs) ← readKey maxKeyLength cs
  let cs ← expectWord ['='] cs
  let (value, cs) ← value (skipBlanks cs)
  some ((key, value), cs)

/-- The pairs of an inline table, up to its closing brace, with commas between them. -/
def readPairs (value : Reader Value) : Nat → Entries → Reader Entries
  | 0, _, _ => none
  | fuel + 1, entries, cs => do
    let ((key, content), cs) ← readPair value cs
    let entries ← entries.addValue key content
    match skipBlanks cs with
    | ',' :: rest => readPairs value fuel entries rest
    | '\x7d' :: rest => some (entries, rest)
    | _ => none

/-- An inline table after its opening brace. -/
def readInline (value : Reader Value) : Reader Entries := fun cs =>
  match skipBlanks cs with
  | '\x7d' :: rest => some ([], rest)
  | cs => readPairs value (cs.length + 1) [] cs

/-- A value, in which arrays and inline tables may nest so many levels deep. -/
def readValue : Nat → Reader Value
  | 0, cs => readScalar cs
  | room + 1, cs =>
    match cs with
    | '[' :: rest =>
      (readElements (readValue room) (rest.length + 1) [] rest).map fun (elements, rest) =>
        (.array elements, rest)
    | '\x7b' :: rest =>
      (readInline (readValue room) rest).map fun (entries, rest) => (.table .inline entries, rest)
    | cs => readScalar cs

/-! ## Lines -/

/-- The statement of a line that is neither blank nor only a comment; the rest of the line is left
to be read. -/
def readStatement : Reader Statement
  | '[' :: '[' :: rest => do
    let (key, rest) ← readKey maxKeyLength rest
    let rest ← expectWord [']', ']'] rest
    some (.element key, rest)
  | '[' :: rest => do
    let (key, rest) ← readKey maxKeyLength rest
    let rest ← expectWord [']'] rest
    some (.table key, rest)
  | cs => do
    let ((key, value), rest) ← readPair (readValue maxNesting) cs
    some (.value key value, rest)

/-- The statements of all lines. Every line takes a character, so the length of the text is fuel
enough. -/
def readStatements : Nat → List Statement → List Char → Option (List Statement)
  | 0, _, _ => none
  | fuel + 1, done, cs =>
    match skipBlanks cs with
    | [] => some done.reverse
    | cs =>
      match skipLineEnd? cs with
      | some rest => readStatements fuel done rest
      | none => do
        let (statement, rest) ← readStatement cs
        let rest ← skipLineEnd? rest
        readStatements fuel (statement :: done) rest

/-- The document that a text denotes. A byte order mark may stand at its start. -/
def read? (input : String) : Option Entries := do
  let cs := match input.toList with
    | '\uFEFF' :: rest => rest
    | cs => cs
  let statements ← readStatements (cs.length + 1) [] cs
  document? statements

end SqlDialect.Toml
