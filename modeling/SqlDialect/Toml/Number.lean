import SqlDialect.Toml.Value
import SqlDialect.Text.Reader

/-!
# Numbers and moments

Integers are decimal, with or without a sign, or hexadecimal, octal or binary, and must fit 64
bits.  Numbers with a fraction or an exponent must not be too large to be represented in double
precision.  Underscores may stand between digits.  A moment is a date, a time, or a date with a
time and perhaps an offset from universal time.
-/

namespace SqlDialect.Toml

open Text (Reader expectWord hexDigit?)

/-! ## Digits -/

/-- The digits that follow a digit, each perhaps after an underscore. -/
def moreDigits (isDigit : Char → Bool) : List Char → List Char × List Char
  | '_' :: c :: rest =>
    if isDigit c then
      let (digits, rest) := moreDigits isDigit rest
      (c :: digits, rest)
    else ([], '_' :: c :: rest)
  | c :: rest =>
    if isDigit c then
      let (digits, rest) := moreDigits isDigit rest
      (c :: digits, rest)
    else ([], c :: rest)
  | [] => ([], [])

/-- At least one digit; underscores are dropped. -/
def readDigits (isDigit : Char → Bool) : Reader (List Char)
  | c :: rest =>
    if isDigit c then
      let (digits, rest) := moreDigits isDigit rest
      some (c :: digits, rest)
    else none
  | [] => none

/-- The digits of a whole number without a superfluous leading zero. -/
def readWhole : Reader (List Char)
  | '0' :: rest => some (['0'], rest)
  | cs => readDigits Char.isDigit cs

/-- Whether there is a minus sign, and the text after the sign if there is one. -/
def readSign : List Char → Bool × List Char
  | '-' :: rest => (true, rest)
  | '+' :: rest => (false, rest)
  | cs => (false, cs)

/-- The number that digits denote in a base. -/
def digitsValue (base : Nat) (digits : List Char) : Nat :=
  digits.foldl (fun value c => value * base + (hexDigit? c).getD 0) 0

/-! ## Integers -/

/-- An integer that fits 64 bits. -/
def fitting? (value : Int) : Option Value :=
  if Int64.minValue.toInt ≤ value ∧ value ≤ Int64.maxValue.toInt then some (.integer value)
  else none

/-- An integer in another base, after its mark. -/
def readBased (base : Nat) : Reader Value := fun cs => do
  let isDigit (c : Char) := (hexDigit? c).any (· < base)
  let (digits, rest) ← readDigits isDigit cs
  let value ← fitting? (digitsValue base digits)
  some (value, rest)

/-- A decimal integer. -/
def readDecimal : Reader Value := fun cs => do
  let (isNegative, cs) := readSign cs
  let (digits, rest) ← readWhole cs
  let size : Int := digitsValue 10 digits
  let value ← fitting? (if isNegative then -size else size)
  some (value, rest)

def readInteger : Reader Value
  | '0' :: 'x' :: rest => readBased 16 rest
  | '0' :: 'o' :: rest => readBased 8 rest
  | '0' :: 'b' :: rest => readBased 2 rest
  | cs => readDecimal cs

/-! ## Numbers with a fraction -/

/-- The least number that is too large: half a unit in the last place beyond the largest one of
double precision. -/
def tooLarge : Nat := Nat.pow 2 1024 - Nat.pow 2 970

/-- Whether the number with the given decimal digits before the point and a power of ten is too
large. Its digits place it between two powers of ten, and only between the 308th and the 309th is
there anything to compute. -/
def isTooLarge (digits : List Char) (exponent : Int) : Bool :=
  let digits := digits.dropWhile (· == '0')
  let places := digits.length + exponent
  if digits.isEmpty || places < 309 then false
  else if 309 < places then true
  else tooLarge * Nat.pow 10 (-exponent).toNat ≤ digitsValue 10 digits * Nat.pow 10 exponent.toNat

/-- The exponent of a number, after its mark. -/
def readExponent : Reader Int
  | c :: rest => do
    if c != 'e' && c != 'E' then none
    let (isNegative, rest) := readSign rest
    let (digits, rest) ← readDigits Char.isDigit rest
    let size : Int := digitsValue 10 digits
    some (if isNegative then -size else size, rest)
  | [] => none

/-- The digits after the point, if there is one, and the exponent, if there is one; one of the two
must be there. -/
def readScale : Reader (List Char × Int)
  | '.' :: rest => do
    let (digits, rest) ← readDigits Char.isDigit rest
    match readExponent rest with
    | some (exponent, rest) => some ((digits, exponent), rest)
    | none => some ((digits, 0), rest)
  | cs => do
    let (exponent, rest) ← readExponent cs
    some (([], exponent), rest)

/-- The part of a text before a rest of it. -/
def textBefore (cs rest : List Char) : String :=
  String.ofList (cs.take (cs.length - rest.length))

/-- A number with a fraction or an exponent. -/
def readFraction : Reader Value := fun cs => do
  let (isNegative, unsigned) := readSign cs
  let (whole, rest) ← readWhole unsigned
  let ((fraction, exponent), rest) ← readScale rest
  if !isNegative && isTooLarge (whole ++ fraction) (exponent - fraction.length) then none
  some (.float (textBefore cs rest), rest)

/-- Infinity, or what is not a number. -/
def readSpecial : Reader Value := fun cs => do
  let (_, unsigned) := readSign cs
  let rest ← expectWord "inf".toList unsigned <|> expectWord "nan".toList unsigned
  some (.float (textBefore cs rest), rest)

/-! ## Moments -/

/-- A number of exactly so many digits, between two bounds. -/
def readPart (digits low high : Nat) : Reader Nat := fun cs =>
  let part := cs.take digits
  let value := digitsValue 10 part
  if part.length == digits && part.all Char.isDigit && low ≤ value && value ≤ high then
    some (value, cs.drop digits)
  else none

/-- The number of days of a month. -/
def daysOf (year month : Nat) : Nat :=
  if month == 2 then
    if year % 4 == 0 && (year % 100 != 0 || year % 400 == 0) then 29 else 28
  else if month ∈ [4, 6, 9, 11] then 30
  else 31

/-- The text after a date. -/
def skipDate? (cs : List Char) : Option (List Char) := do
  let (year, cs) ← readPart 4 0 9999 cs
  let cs ← expectWord ['-'] cs
  let (month, cs) ← readPart 2 1 12 cs
  let cs ← expectWord ['-'] cs
  let (_, cs) ← readPart 2 1 (daysOf year month) cs
  some cs

/-- The text after a fraction of a second, if there is one. -/
def skipFraction : List Char → List Char
  | '.' :: c :: rest =>
    if c.isDigit then rest.dropWhile Char.isDigit else '.' :: c :: rest
  | cs => cs

/-- The text after hours and minutes. -/
def skipMinutes? (cs : List Char) : Option (List Char) := do
  let (_, cs) ← readPart 2 0 23 cs
  let cs ← expectWord [':'] cs
  let (_, cs) ← readPart 2 0 59 cs
  some cs

/-- The text after a time. A minute may have a leap second. -/
def skipTime? (cs : List Char) : Option (List Char) := do
  let cs ← skipMinutes? cs
  let cs ← expectWord [':'] cs
  let (_, cs) ← readPart 2 0 60 cs
  some (skipFraction cs)

/-- The text after an offset from universal time. -/
def skipOffset? : List Char → Option (List Char)
  | 'Z' :: rest | 'z' :: rest => some rest
  | '+' :: rest | '-' :: rest => skipMinutes? rest
  | _ => none

/-- The text after the time that may follow a date. -/
def skipTimeOfDay? : List Char → Option (List Char)
  | 'T' :: rest | 't' :: rest | ' ' :: rest => do
    let rest ← skipTime? rest
    some ((skipOffset? rest).getD rest)
  | _ => none

/-- A date, a time, or both. -/
def readMoment : Reader Value := fun cs => do
  let rest ← match skipDate? cs with
    | some rest => some ((skipTimeOfDay? rest).getD rest)
    | none => skipTime? cs
  some (.moment (textBefore cs rest), rest)

/-- Whatever starts with a digit or a sign. -/
def readNumber : Reader Value := fun cs =>
  readMoment cs <|> readFraction cs <|> readSpecial cs <|> readInteger cs

end SqlDialect.Toml
