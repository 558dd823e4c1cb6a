import SqlDialect.Text.Lowercase

/-!
# Snake case

`UserId` becomes `user_id` and `HTTPServer` becomes `http_server`: every letter is written in lower
case, and an underscore marks the places where a capital opens a new word.
-/

namespace SqlDialect.Text

/-- Whether a capital between `prev` and what follows opens a word: after a lower case letter, after
a digit, or as the last capital of a run that a lower case letter ends. -/
def opensWord (prev : Char) (after : List Char) : Bool :=
  isLowercase prev || prev.isDigit ||
    (isUppercase prev && match after with
      | next :: _ => isLowercase next
      | [] => false)

/-- Snake case of a text that stands after the character `prev`, if there is one. -/
def snakeFrom (prev : Option Char) : List Char → List Char
  | [] => []
  | c :: after =>
    let boundary := match prev with
      | some p => isUppercase c && opensWord p after
      | none => false
    (if boundary then ['_'] else []) ++ lowerChar c ++ snakeFrom (some c) after

/-- The name in snake case. -/
def snakeCase (name : String) : String :=
  String.ofList (snakeFrom none name.toList)

end SqlDialect.Text
