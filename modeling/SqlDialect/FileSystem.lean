import SqlDialect.Files
import SqlDialect.Path

/-!
# A file system as a value

Files and directories are known by their places: the names on the way from the root to them.  A
path is followed name by name from the root, or from the working directory if it is relative;
everything on the way must be a directory.  Each operation gives the error that a file system of
the usual kind gives.

## Main definitions

* `locate` follows a path to a place, where there may or may not be something.
* `read`, `write`, `createDirectory` and `createDirectories` are the operations, and `access` is the
  record of them for programs.
-/

namespace SqlDialect

/-- A place: the names that lead to it from the root. -/
abbrev Place := List String

/-- Files with their contents, and directories. -/
structure FileSystem where
  /-- Where relative paths start. -/
  workingDirectory : Place := []
  files : List (Place × String) := []
  directories : List Place := []

namespace FileSystem

/-- What can be found at a place. -/
inductive Entry where
  | file (content : String)
  | directory

/-- The content of the file at a place. -/
def content? (fs : FileSystem) (place : Place) : Option String :=
  (fs.files.find? (·.1 == place)).map (·.2)

/-- What is at a place. The root is always a directory. -/
def entry? (fs : FileSystem) (place : Place) : Option Entry :=
  match fs.content? place with
  | some content => some (.file content)
  | none => if place == [] || fs.directories.contains place then some .directory else none

/-! ## Following paths -/

/-- A place, provided that it is a directory. -/
def asDirectory (fs : FileSystem) (place : Place) : Except FileError Place :=
  match fs.entry? place with
  | some .directory => .ok place
  | some (.file _) => .error .notADirectory
  | none => .error .notFound

/-- The place that a name leads to from a directory. -/
def step (place : Place) (name : String) : Place :=
  if name == "." then place
  else if name == ".." then place.dropLast
  else place ++ [name]

/-- Follows names from a place; all but the last place must be directories. -/
def follow (fs : FileSystem) : Place → List String → Except FileError Place
  | place, [] => .ok place
  | place, name :: rest => do
    let directory ← fs.asDirectory place
    fs.follow (step directory name) rest

/-- Where a path starts. -/
def start (fs : FileSystem) (path : String) : Place :=
  if Path.isAbsolute path then [] else fs.workingDirectory

/-- The names of a path that are not empty. -/
def steps (path : String) : List String :=
  (separateText '/' path).filter (· != "")

/-- Whether a path ends with a slash, and so can only be that of a directory. -/
def endsWithSlash (path : String) : Bool :=
  path.toList.getLast? == some '/'

/-- The place of a path. -/
def locate (fs : FileSystem) (path : String) : Except FileError Place :=
  if path == "" then .error .notFound
  else fs.follow (fs.start path) (steps path ++ if endsWithSlash path then ["."] else [])

/-- The directory that holds the last name of a path, and that name. -/
def locateParent (fs : FileSystem) (path : String) : Except FileError (Place × Option String) := do
  if path == "" then throw .notFound
  let names := steps path
  let place ← fs.follow (fs.start path) names.dropLast
  let directory ← fs.asDirectory place
  return (directory, names.getLast?)

/-! ## Operations -/

/-- Whether something has the path. -/
def isPresent (fs : FileSystem) (path : String) : Bool :=
  match fs.locate path with
  | .ok place => (fs.entry? place).isSome
  | .error _ => false

/-- Whether a directory has the path. -/
def isDirectory (fs : FileSystem) (path : String) : Bool :=
  match fs.locate path with
  | .ok place => (fs.asDirectory place).isOk
  | .error _ => false

/-- The content of the file with a path. -/
def read (fs : FileSystem) (path : String) : Except FileError String := do
  let place ← fs.locate path
  match fs.entry? place with
  | some (.file content) => return content
  | some .directory => throw .isADirectory
  | none => throw .notFound

/-- Puts a content at a place. -/
def setContent (fs : FileSystem) (place : Place) (content : String) : FileSystem :=
  { fs with files := fs.files.filter (·.1 != place) ++ [(place, content)] }

/-- Puts a content into the file with a path. -/
def write (fs : FileSystem) (path content : String) : Except FileError FileSystem := do
  match ← fs.locateParent path with
  | (_, none) => throw .isADirectory
  | (directory, some name) =>
    if endsWithSlash path || name == "." || name == ".." then throw .isADirectory
    let place := directory ++ [name]
    match fs.entry? place with
    | some .directory => throw .isADirectory
    | _ => return fs.setContent place content

/-- Makes the directory with a path, in a directory that is there. -/
def createDirectory (fs : FileSystem) (path : String) : Except FileError FileSystem := do
  match ← fs.locateParent path with
  | (_, none) => throw .alreadyExists
  | (directory, some name) =>
    if name == "." || name == ".." then throw .alreadyExists
    let place := directory ++ [name]
    if (fs.entry? place).isSome then throw .alreadyExists
    return { fs with directories := fs.directories ++ [place] }

/-- Makes a directory, unless it is there; any other error stays. -/
def ensureDirectory (fs : FileSystem) (path : String) : Except FileError FileSystem :=
  match fs.createDirectory path with
  | .ok fs => .ok fs
  | .error e => if fs.isDirectory path then .ok fs else .error e

/-- Makes the directory with a path and, if it is in none, the ones above it first. The paths above
get shorter, so the length of the path is fuel enough. What was made before an error stays. -/
def createDirectoriesFrom (fs : FileSystem) : Nat → String → Except FileError Unit × FileSystem
  | 0, _ => (.error .notFound, fs)
  | fuel + 1, path =>
    if path == "" then (.ok (), fs)
    else match fs.ensureDirectory path with
      | .ok fs => (.ok (), fs)
      | .error .notFound =>
        match Path.parent? path with
        | none => (.error (.other "failed to create whole tree"), fs)
        | some above =>
          match fs.createDirectoriesFrom fuel above with
          | (.error e, fs) => (.error e, fs)
          | (.ok (), fs) =>
            match fs.ensureDirectory path with
            | .ok fs => (.ok (), fs)
            | .error e => (.error e, fs)
      | .error e => (.error e, fs)

/-- Makes the directory with a path and those that lead to it. -/
def createDirectories (fs : FileSystem) (path : String) : Except FileError Unit × FileSystem :=
  fs.createDirectoriesFrom (path.length + 1) path

/-- The operations on a file system that a program carries along. -/
def access : FileAccess (StateM FileSystem) where
  isPresent path := return (← get).isPresent path
  read path := return (← get).read path
  createDirectories path := modifyGet (·.createDirectories path)
  write path content := do
    match (← get).write path content with
    | .ok fs =>
      set fs
      return .ok ()
    | .error e => return .error e

end FileSystem

end SqlDialect
