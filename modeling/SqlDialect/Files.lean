/-!
# Access to files

What the program asks of the files around it: whether there is one, what it holds, and to write
one and the directories that lead to it.  The program is written against this record of operations
and so runs on the files of a computer as well as on a `FileSystem`, which is a value.
-/

namespace SqlDialect

/-- Why a file could not be read or written. -/
inductive FileError where
  | notFound
  | alreadyExists
  | notADirectory
  | isADirectory
  | other (reason : String)
  deriving DecidableEq

/-- The error as the system words it. -/
def FileError.message : FileError → String
  | notFound => "No such file or directory (os error 2)"
  | alreadyExists => "File exists (os error 17)"
  | notADirectory => "Not a directory (os error 20)"
  | isADirectory => "Is a directory (os error 21)"
  | other reason => reason

/-- The operations on files. -/
structure FileAccess (m : Type → Type) where
  /-- Whether there is a file or a directory with the path. -/
  isPresent : String → m Bool
  /-- The content of a file. -/
  read : String → m (Except FileError String)
  /-- Makes a directory and those that lead to it, as far as they are not there. -/
  createDirectories : String → m (Except FileError Unit)
  /-- Puts a content into a file, which need not have been there. -/
  write : String → String → m (Except FileError Unit)

end SqlDialect
