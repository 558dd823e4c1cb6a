import SqlDialect.Separate

/-!
# File names

A path is a text in which slashes divide the names of directories.  Empty names, and the name of the
directory itself (a single point), count only at the start.
-/

namespace SqlDialect.Path

/-- Whether a path starts at the root of the file system. -/
def isAbsolute (path : String) : Bool :=
  path.toList.head? == some '/'

/-- A name that leads nowhere. -/
def isIdle (name : String) : Bool :=
  name == "" || name == "."

/-- The names between the slashes of a path, those after the root if it is absolute, without the
idle ones at its end. The first name of a relative path is always kept. -/
def names (path : String) : List String :=
  let trimEnd (names : List String) := (names.reverse.dropWhile isIdle).reverse
  if isAbsolute path then trimEnd ((separateText '/' path).drop 1)
  else match separateText '/' path with
    | [] => []
    | first :: rest => first :: trimEnd rest

/-- The path with the given names. -/
def ofNames (absolute : Bool) (names : List String) : String :=
  (if absolute then "/" else "") ++ "/".intercalate names

/-- The directory of a path. A single name is in the directory with the empty path; the root and the
empty path are in none. -/
def parent? (path : String) : Option String :=
  if path == "" then none
  else if isAbsolute path then
    match names path with
    | [] => none
    | names => some (ofNames true (((names.dropLast).reverse.dropWhile isIdle).reverse))
  else
    match (names path).dropLast with
    | [] => some ""
    | first :: rest => some (ofNames false (first :: (rest.reverse.dropWhile isIdle).reverse))

/-- The part after the last point of the last name, if something stands before that point. -/
def extension? (path : String) : Option String := do
  let name ← (names path).getLast?
  if name == "." || name == ".." then none
  match (separateText '.' name).reverse with
  | [] | [_] => none
  | last :: before => if before == [""] then none else some last

end SqlDialect.Path
