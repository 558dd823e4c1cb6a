import SqlDialect.Text.Reader

/-!
# The text of JSON documents

The pieces that readers of JSON are put together from.

Blanks, strings, and the two loops over the parts of arrays and objects are here, and `skipValue`,
which steps over a value of any shape, however deep, and still refuses text that is not JSON.  A
string that is stepped over may hold half of a surrogate pair; a string that is read may not.
-/

namespace SqlDialect.Json

open Text (Reader expectWord hexDigit?)

def isSpace (c : Char) : Bool :=
  c == ' ' || c == '\n' || c == '\t' || c == '\r'

def skipSpaces (cs : List Char) : List Char :=
  cs.dropWhile isSpace

/-- The rest after blanks and the given character. -/
def expect (c : Char) (cs : List Char) : Option (List Char) :=
  match skipSpaces cs with
  | head :: rest => if head == c then some rest else none
  | [] => none

/-! ## Strings -/

/-- Four hexadecimal digits. -/
def hexUnit : Reader Nat
  | a :: b :: c :: d :: rest => do
    let a ← hexDigit? a
    let b ← hexDigit? b
    let c ← hexDigit? c
    let d ← hexDigit? d
    some (((a * 16 + b) * 16 + c) * 16 + d, rest)
  | _ => none

/-- The character of a backslash and a letter. -/
def escapeLetter? (c : Char) : Option Char :=
  if c == '"' then some '"'
  else if c == '\\' then some '\\'
  else if c == '/' then some '/'
  else if c == 'b' then some (Char.ofNat 8)
  else if c == 'f' then some (Char.ofNat 12)
  else if c == 'n' then some '\n'
  else if c == 'r' then some '\r'
  else if c == 't' then some '\t'
  else none

def isHighSurrogate (unit : Nat) : Bool := 0xD800 ≤ unit && unit ≤ 0xDBFF

def isLowSurrogate (unit : Nat) : Bool := 0xDC00 ≤ unit && unit ≤ 0xDFFF

/-- The character of the digits after a backslash and `u`; a character beyond the basic plane is
written as two such escapes, and half of one is refused. -/
def unicodeEscape : Reader Char := fun cs => do
  let (unit, cs) ← hexUnit cs
  if isLowSurrogate unit then none
  else if isHighSurrogate unit then
    match cs with
    | '\\' :: 'u' :: cs =>
      let (low, cs) ← hexUnit cs
      if isLowSurrogate low then
        some (Char.ofNat (0x10000 + (unit - 0xD800) * 0x400 + (low - 0xDC00)), cs)
      else none
    | _ => none
  else some (Char.ofNat unit, cs)

/-- A control character, which a string may hold only as an escape. -/
def isControl (c : Char) : Bool :=
  c.toNat < 0x20

/-- The rest of a string up to its closing quote. `done` holds the characters before, last first.
Every step takes a character, so the length of the text is fuel enough. -/
def stringRest : Nat → List Char → Reader String
  | 0, _, _ => none
  | fuel + 1, done, cs =>
    match cs with
    | [] => none
    | '"' :: rest => some (String.ofList done.reverse, rest)
    | '\\' :: 'u' :: rest =>
      match unicodeEscape rest with
      | some (c, rest) => stringRest fuel (c :: done) rest
      | none => none
    | '\\' :: c :: rest =>
      match escapeLetter? c with
      | some c => stringRest fuel (c :: done) rest
      | none => none
    | c :: rest => if isControl c || c == '\\' then none else stringRest fuel (c :: done) rest

/-- A string, after blanks. -/
def string : Reader String := fun cs =>
  match expect '"' cs with
  | some rest => stringRest (rest.length + 1) [] rest
  | none => none

/-- The text after a string of which the opening quote has been read. -/
def skipStringRest : Nat → List Char → Option (List Char)
  | 0, _ => none
  | fuel + 1, cs =>
    match cs with
    | [] => none
    | '"' :: rest => some rest
    | '\\' :: 'u' :: rest =>
      match hexUnit rest with
      | some (_, rest) => skipStringRest fuel rest
      | none => none
    | '\\' :: c :: rest => if (escapeLetter? c).isSome then skipStringRest fuel rest else none
    | c :: rest => if isControl c || c == '\\' then none else skipStringRest fuel rest

/-! ## Arrays and objects -/

/-- The parts of an array or object after its first one, up to the closing bracket. `part` reads
one and carries what has been read along. -/
def partsRest {σ : Type} (close : Char) (part : σ → Reader σ) : Nat → σ → Reader σ
  | 0, _, _ => none
  | fuel + 1, state, cs =>
    match skipSpaces cs with
    | [] => none
    | c :: rest =>
      if c == close then some (state, rest)
      else if c == ',' then
        match part state rest with
        | some (state, rest) => partsRest close part fuel state rest
        | none => none
      else none

/-- The parts of an array or object whose opening bracket has been read. -/
def parts {σ : Type} (close : Char) (part : σ → Reader σ) (state : σ) : Reader σ := fun cs =>
  match skipSpaces cs with
  | [] => none
  | c :: rest =>
    if c == close then some (state, rest)
    else match part state cs with
      | some (state, rest) => partsRest close part (rest.length + 1) state rest
      | none => none

/-- The members of an object whose opening brace has been read. `member` reads the value of a
key. -/
def members {σ : Type} (member : String → σ → Reader σ) (state : σ) : Reader σ :=
  parts '\x7d' (fun state cs => do
    let (key, cs) ← string cs
    let cs ← expect ':' cs
    member key state cs) state

/-- The elements of an array whose opening bracket has been read. -/
def elements {σ : Type} (element : σ → Reader σ) (state : σ) : Reader σ :=
  parts ']' element state

/-! ## Values that are stepped over -/

/-- The text after at least one digit. -/
def skipDigits1 (cs : List Char) : Option (List Char) :=
  match cs with
  | c :: rest => if c.isDigit then some (rest.dropWhile Char.isDigit) else none
  | [] => none

/-- The text after the digits of an integer, which has no superfluous leading zero. -/
def skipInteger : List Char → Option (List Char)
  | '0' :: rest =>
    match rest with
    | c :: _ => if c.isDigit then none else some rest
    | [] => some rest
  | cs => skipDigits1 cs

/-- The text after an exponent, if there is one. -/
def skipExponent (cs : List Char) : Option (List Char) :=
  match cs with
  | c :: rest =>
    if c == 'e' || c == 'E' then
      match rest with
      | sign :: digits =>
        if sign == '+' || sign == '-' then skipDigits1 digits else skipDigits1 rest
      | [] => none
    else some cs
  | [] => some cs

/-- The text after the fraction and exponent of a number, if it has them. -/
def skipFraction : List Char → Option (List Char)
  | '.' :: rest => skipDigits1 rest >>= skipExponent
  | cs => skipExponent cs

/-- The text after a number without its sign. -/
def skipNumber (cs : List Char) : Option (List Char) :=
  skipInteger cs >>= skipFraction

/-- The text after a value of any shape. -/
def skipValue : Nat → List Char → Option (List Char)
  | 0, _ => none
  | fuel + 1, cs =>
    match skipSpaces cs with
    | [] => none
    | c :: rest =>
      if c == '"' then skipStringRest (rest.length + 1) rest
      else if c == '[' then
        (parts ']' (fun _ cs => (skipValue fuel cs).map ((), ·)) () rest).map (·.2)
      else if c == '\x7b' then
        (parts '\x7d' (fun _ cs => do
          let cs ← expect '"' cs
          let cs ← skipStringRest (cs.length + 1) cs
          let cs ← expect ':' cs
          let cs ← skipValue fuel cs
          some ((), cs)) () rest).map (·.2)
      else if c == 'n' then expectWord "ull".toList rest
      else if c == 't' then expectWord "rue".toList rest
      else if c == 'f' then expectWord "alse".toList rest
      else if c == '-' then skipNumber rest
      else if c.isDigit then skipNumber (c :: rest)
      else none

end SqlDialect.Json
