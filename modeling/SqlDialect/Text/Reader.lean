/-!
# Readers

A reader takes the characters from its place on and gives what it read together with the characters
after it, or nothing.
-/

namespace SqlDialect.Text

/-- A reader of something at the start of a text. -/
abbrev Reader (α : Type) := List Char → Option (α × List Char)

/-- The rest after a word. -/
def expectWord : List Char → List Char → Option (List Char)
  | [], cs => some cs
  | w :: word, c :: cs => if w == c then expectWord word cs else none
  | _ :: _, [] => none

/-- The value of a hexadecimal digit in either case. -/
def hexDigit? (c : Char) : Option Nat :=
  if c.isDigit then some (c.toNat - '0'.toNat)
  else if 'a' ≤ c ∧ c ≤ 'f' then some (c.toNat - 'a'.toNat + 10)
  else if 'A' ≤ c ∧ c ≤ 'F' then some (c.toNat - 'A'.toNat + 10)
  else none

/-- The number that hexadecimal digits denote, the first of them the highest. -/
def hexNumber? (digits : List Char) : Option Nat :=
  digits.foldlM (fun value c => (hexDigit? c).map (value * 16 + ·)) 0

end SqlDialect.Text
