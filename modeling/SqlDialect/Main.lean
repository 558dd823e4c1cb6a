import SqlDialect.CommandLine.Command

/-!
# The program

The command on the files of the computer it runs on.
-/

namespace SqlDialect.Program

/-- The error of a file operation. -/
def fileError : IO.Error → FileError
  | .noFileOrDirectory .. => .notFound
  | .alreadyExists .. => .alreadyExists
  | e => .other (toString e)

/-- The result of an operation, or its error. -/
def guarded {α : Type} (operation : IO α) : IO (Except FileError α) := do
  try
    return .ok (← operation)
  catch e =>
    return .error (fileError e)

/-- The operations on the files of the computer. -/
def access : FileAccess IO where
  isPresent path := do
    match ← guarded (IO.FS.realPath path) with
    | .ok _ => return path != ""
    | .error _ => return false
  read path := guarded (IO.FS.readFile path)
  createDirectories path := guarded (IO.FS.createDirAll path)
  write path content := guarded (IO.FS.writeFile path content)

/-- The directory in which the user keeps configurations. -/
def userDirectory : IO (Option String) := do
  match ← IO.getEnv "XDG_CONFIG_HOME" with
  | some directory => return some directory
  | none => return (← IO.getEnv "HOME").map (· ++ "/.config")

end SqlDialect.Program

open SqlDialect in
def main (arguments : List String) : IO UInt32 := do
  let environment ← IO.getEnv "PGPORT_CONFIG"
  let directory ← Program.userDirectory
  let outcome ← CommandLine.run Program.access directory arguments environment
  IO.print outcome.output
  IO.eprint outcome.errors
  return outcome.exitCode.toUInt32
