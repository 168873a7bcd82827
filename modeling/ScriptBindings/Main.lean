import ScriptBindings.Pipeline

/-!
# Command line

The first argument is the path of a configuration.  `--mode` chooses between `bindings` and
`documentation`, `--output` replaces the output directory, and `--generate-xml` asks for new documents.
-/

namespace ScriptBindings

/-- The refusal that an error of the system stands for. -/
def StoreError.ofSystem : IO.Error → StoreError
  | .alreadyExists .. => .alreadyExists
  | .inappropriateType .. => .isADirectory
  | .permissionDenied .. => .permissionDenied
  | _ => .notFound

/-- Turn errors of the system into refusals. -/
def attempt {α : Type} (act : IO α) : IO (Except StoreError α) := do
  match ← act.toBaseIO with
  | .ok a => return .ok a
  | .error e => return .error (.ofSystem e)

/-- The names of the documents in a directory, as its index has them.  They stand in for the listing of the
directory, from which the pipeline chooses its documents.  A document that lies in the directory without an entry
in the index is missed, one that has an entry is named even if it is not there, and a directory without an index
is refused. -/
def indexedNames (directory : String) : IO (List String) := do
  let text ← IO.FS.readFile (FileStore.pathFrom directory "index.xml")
  let compounds := ((Xml.parse? text).map fun root => root.children "compound").getD []
  return compounds.map fun c => c.attr "refid" ++ ".xml"

/-- The files of the system. -/
def systemStore : FileStore IO where
  read path := attempt (IO.FS.readFile path)
  names path := attempt (indexedNames path)
  makeDirectory path := attempt (IO.FS.createDirAll path)
  write path contents := attempt (IO.FS.writeFile path contents)

/-- Read the arguments. -/
def requestOf? : Pipeline.Request → List String → Option Pipeline.Request
  | r, [] => if r.config = "" then none else some r
  | r, "--mode" :: "bindings" :: rest => requestOf? { r with mode := .bindings } rest
  | r, "--mode" :: "documentation" :: rest => requestOf? { r with mode := .documentation } rest
  | r, "--output" :: path :: rest => requestOf? { r with output := some path } rest
  | r, "--generate-xml" :: rest => requestOf? { r with generateXml := true } rest
  | r, path :: rest => if r.config = "" then requestOf? { r with config := path } rest else none

/-- How the program is called. -/
def usage : String :=
  "usage: CONFIG [--mode bindings|documentation] [--output DIR] [--generate-xml]"

/-- Run the pipeline on the files of the system, and tell the exit code. -/
def runCommand (arguments : List String) : IO UInt32 := do
  match requestOf? ⟨"", .bindings, none, false⟩ arguments with
  | none =>
      IO.eprintln usage
      return 2
  | some request =>
      match ← (Pipeline.run systemStore request).run with
      | .ok _ => return 0
      | .error f =>
          IO.eprintln ("Error: " ++ f.message)
          return 1

end ScriptBindings

/-- The command line. -/
def main (arguments : List String) : IO UInt32 :=
  ScriptBindings.runCommand arguments

