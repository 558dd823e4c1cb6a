import SqlDialect.Text.Reader

/-!
# The text of TOML documents

Blanks, line ends, comments, strings and keys.  A string is written in one of four ways: between
double quotes, with escapes, or between single quotes, without; and both also with three quotes on
either side, and then over several lines.  A line end within a string counts as a line feed.
-/

namespace SqlDialect.Toml

open Text (Reader)

/-! ## Blanks and lines -/

def isBlank (c : Char) : Bool :=
  c == ' ' || c == '\t'

def skipBlanks (cs : List Char) : List Char :=
  cs.dropWhile isBlank

/-- A character that may stand in comments and strings: no control character but the tabulator. -/
def isPrintable (c : Char) : Bool :=
  c == '\t' || (0x20 ≤ c.toNat && c.toNat != 0x7F)

/-- The text after a line end. -/
def skipNewline? : List Char → Option (List Char)
  | '\n' :: rest => some rest
  | '\r' :: '\n' :: rest => some rest
  | _ => none

/-- The text after the rest of a line on which nothing but a comment may follow. -/
def skipLineEnd? (cs : List Char) : Option (List Char) :=
  let cs := match skipBlanks cs with
    | '#' :: rest => rest.dropWhile isPrintable
    | cs => cs
  if cs.isEmpty then some [] else skipNewline? cs

/-- The text after blanks and line ends. -/
def skipBlankLines : List Char → List Char
  | '\r' :: '\n' :: rest => skipBlankLines rest
  | c :: rest => if c == '\n' || isBlank c then skipBlankLines rest else c :: rest
  | [] => []

/-- The text after blanks, line ends and whole comments. -/
def skipTrivia? (inComment : Bool) : List Char → Option (List Char)
  | '\r' :: '\n' :: rest => skipTrivia? false rest
  | c :: rest =>
    if c == '\n' then skipTrivia? false rest
    else if inComment then if isPrintable c then skipTrivia? true rest else none
    else if isBlank c then skipTrivia? false rest
    else if c == '#' then skipTrivia? true rest
    else some (c :: rest)
  | [] => if inComment then none else some []

/-! ## Strings -/

/-- The character with a code point of that many hexadecimal digits. -/
def codePoint (digits : Nat) : Reader Char := fun cs => do
  if cs.length < digits then none
  let code ← Text.hexNumber? (cs.take digits)
  if code.isValidChar then some (Char.ofNat code, cs.drop digits) else none

/-- The character that an escape stands for, after its backslash. -/
def escape : Reader Char
  | 'b' :: rest => some (Char.ofNat 8, rest)
  | 't' :: rest => some ('\t', rest)
  | 'n' :: rest => some ('\n', rest)
  | 'f' :: rest => some (Char.ofNat 12, rest)
  | 'r' :: rest => some ('\r', rest)
  | '"' :: rest => some ('"', rest)
  | '\\' :: rest => some ('\\', rest)
  | 'u' :: rest => codePoint 4 rest
  | 'U' :: rest => codePoint 8 rest
  | _ => none

/-- The rest of a string up to its closing double quote. `done` holds the characters before, last
first. Every step takes a character, so the length of the text is fuel enough. -/
def basicRest : Nat → List Char → Reader String
  | 0, _, _ => none
  | fuel + 1, done, cs =>
    match cs with
    | [] => none
    | '"' :: rest => some (String.ofList done.reverse, rest)
    | '\\' :: rest =>
      match escape rest with
      | some (c, rest) => basicRest fuel (c :: done) rest
      | none => none
    | c :: rest => if isPrintable c then basicRest fuel (c :: done) rest else none

/-- The quote that allows no escapes. -/
def singleQuote : Char := '\x27'

/-- The rest of a string up to its closing single quote. -/
def literalRest : Reader String := fun cs =>
  let isInside (c : Char) := isPrintable c && c != singleQuote
  match cs.dropWhile isInside with
  | c :: rest =>
    if c == singleQuote then some (String.ofList (cs.takeWhile isInside), rest) else none
  | [] => none

/-- The text after a line end that a backslash takes back, with the blanks before it and all blanks
and line ends after it. -/
def skipJoin? (cs : List Char) : Option (List Char) :=
  (skipNewline? (skipBlanks cs)).map skipBlankLines

/-- The rest of a string up to three closing quotes. One or two quotes are part of the string, also
in front of the closing ones. -/
def blockRest (quote : Char) : Nat → List Char → Reader String
  | 0, _, _ => none
  | fuel + 1, done, cs =>
    match cs with
    | [] => none
    | c :: rest =>
      if c == quote then
        let run := (cs.takeWhile (· == quote)).length
        if run < 3 then blockRest quote fuel (List.replicate run quote ++ done) (cs.drop run)
        else
          let inside := min (run - 3) 2
          some (String.ofList (List.replicate inside quote ++ done).reverse, cs.drop (3 + inside))
      else
        match skipNewline? cs with
        | some rest => blockRest quote fuel ('\n' :: done) rest
        | none =>
          if c == '\\' && quote == '"' then
            match skipJoin? rest with
            | some rest => blockRest quote fuel done rest
            | none =>
              match escape rest with
              | some (c, rest) => blockRest quote fuel (c :: done) rest
              | none => none
          else if isPrintable c then blockRest quote fuel (c :: done) rest
          else none

/-- A string over several lines, after its three opening quotes; a line end right after them does
not count. -/
def block (quote : Char) : Reader String := fun cs =>
  let cs := (skipNewline? cs).getD cs
  blockRest quote (cs.length + 1) [] cs

/-- A string in double or single quotes on one line. -/
def quoted : Reader String
  | '"' :: rest => basicRest (rest.length + 1) [] rest
  | '\x27' :: rest => literalRest rest
  | _ => none

/-- A string in any of its forms. -/
def readString : Reader String
  | '"' :: '"' :: '"' :: rest => block '"' rest
  | '\x27' :: '\x27' :: '\x27' :: rest => block singleQuote rest
  | cs => quoted cs

/-! ## Keys -/

/-- A character of a name that is written without quotes. -/
def isBareChar (c : Char) : Bool :=
  c.isAlphanum || c == '-' || c == '_'

/-- One name of a key. -/
def readName : Reader String := fun cs =>
  match quoted cs with
  | some result => some result
  | none =>
    match cs.takeWhile isBareChar with
    | [] => none
    | name => some (String.ofList name, cs.dropWhile isBareChar)

/-- How many names a key may consist of. -/
def maxKeyLength : Nat := 79

/-- The names of a key, with points between them and blanks around them; at most so many. -/
def readKey : Nat → Reader (List String)
  | 0, _ => none
  | room + 1, cs => do
    let (name, cs) ← readName (skipBlanks cs)
    match skipBlanks cs with
    | '.' :: rest =>
      let (names, rest) ← readKey room rest
      some (name :: names, rest)
    | rest => some ([name], rest)

end SqlDialect.Toml
