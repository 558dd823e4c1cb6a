/-!
# Lists in parts

The parts of a list between its separators, such as the columns between commas or the names between
points.
-/

namespace SqlDialect

/-- The parts of a list between the elements that satisfy `isSeparator`; always one more than there
are separators. -/
def separate {α : Type} (isSeparator : α → Bool) : List α → List (List α)
  | [] => [[]]
  | a :: rest =>
    if isSeparator a then [] :: separate isSeparator rest
    else match separate isSeparator rest with
      | part :: parts => (a :: part) :: parts
      | [] => [[a]]

/-- The parts of a text between the occurrences of a character. -/
def separateText (mark : Char) (text : String) : List String :=
  (separate (· == mark) text.toList).map String.ofList

end SqlDialect
