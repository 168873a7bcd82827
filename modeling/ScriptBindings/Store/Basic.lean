import ScriptBindings.Text.Cut

/-!
# File stores

What a pipeline asks of the place where files are kept, and the errors that it may get.  Paths are
texts; they are joined and cut by their text alone.
-/

namespace ScriptBindings

/-- Why a file store refuses. -/
inductive StoreError where
  | notFound
  | permissionDenied
  | alreadyExists
  | notADirectory
  | isADirectory
  | nameTooLong
  | nulInPath
  | nulInProgram
deriving DecidableEq, Repr, Inhabited

/-- The wording of a refusal. -/
def StoreError.message : StoreError → String
  | .notFound => "No such file or directory (os error 2)"
  | .permissionDenied => "Permission denied (os error 13)"
  | .alreadyExists => "File exists (os error 17)"
  | .notADirectory => "Not a directory (os error 20)"
  | .isADirectory => "Is a directory (os error 21)"
  | .nameTooLong => "File name too long (os error 36)"
  | .nulInPath => "file name contained an unexpected NUL byte"
  | .nulInProgram => "nul byte found in provided data"

/-- A place where files are kept: it reads a file, lists what a directory holds, makes a directory with
all directories above it, and writes a file. -/
structure FileStore (m : Type → Type) where
  read : String → m (Except StoreError String)
  names : String → m (Except StoreError (List String))
  makeDirectory : String → m (Except StoreError Unit)
  write : String → String → m (Except StoreError Unit)

namespace FileStore

/-- The greatest number of bytes that a step of a path may have. -/
def maxNameBytes : Nat := 255

/-- The greatest number of bytes that a path may have. -/
def maxPathBytes : Nat := 4095

/-- What refuses a path by its text alone. -/
def refusal? (path : String) : Option StoreError :=
  if path.toList.contains '\x00' then some .nulInPath
  else if maxPathBytes < path.utf8ByteSize then some .nameTooLong
  else if path = "" then some .notFound
  else none

/-- The path of something seen from a directory; a path from the root directory stands for itself. -/
def pathFrom (directory path : String) : String :=
  if directory = "" ∨ Text.startsWith "/" path then path
  else if Text.endsWith "/" directory then directory ++ path
  else directory ++ "/" ++ path

/-- Drop what says nothing at the end of a path, which is given last character first. -/
def trimPath : List Char → List Char
  | '/' :: rest => trimPath rest
  | '.' :: '/' :: rest => trimPath rest
  | s => s

/-- The path of the directory that something is in. -/
def directoryOf (path : String) : String :=
  let above := trimPath ((trimPath path.toList.reverse).dropWhile (· ≠ '/'))
  if above.isEmpty && Text.startsWith "/" path then "/" else String.ofList above.reverse

end FileStore

end ScriptBindings
