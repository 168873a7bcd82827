import ScriptBindings.Dict
import ScriptBindings.Path
import ScriptBindings.Store.Basic

/-!
# Files in memory

A disk that is held in memory.  A path is followed step by step, and every step but the last must lead
to a directory; steps and paths have a greatest length.  The directory that relative paths start from is at the top; nothing lies above it.
-/

namespace ScriptBindings

/-- Files with their contents, and directories, by their folded paths. -/
structure Disk where
  files : Dict String := .empty
  directories : Dict Unit := .empty
deriving DecidableEq, Repr, Inhabited

namespace Disk

/-- What is found at a place. -/
inductive Kind where
  | file (contents : String)
  | directory
deriving DecidableEq, Repr

/-- What is found at a place, which is given by its folded path. -/
def kindOf? (d : Disk) (place : Path) : Option Kind :=
  match d.files.get? place.text with
  | some contents => some (.file contents)
  | none =>
      if place.steps.isEmpty || d.directories.contains place.text then some .directory else none

/-- The place one step further. -/
def child (place : Path) (step : String) : Path :=
  { place with steps := place.steps ++ [step] }

/-- The place one step up; above the top there is nothing, and the root directory is above itself. -/
def above (place : Path) : Except StoreError Path :=
  if place.steps.isEmpty && !place.rooted then .error .notFound
  else .ok { place with steps := place.steps.dropLast }

/-- Take a step from a place, which must be a directory. -/
def step (d : Disk) (place : Path) (s : String) : Except StoreError Path :=
  match d.kindOf? place with
  | none => .error .notFound
  | some (.file _) => .error .notADirectory
  | some .directory =>
      if s = "" ∨ s = "." then .ok place
      else if s = ".." then above place
      else if FileStore.maxNameBytes < s.utf8ByteSize then .error .nameTooLong
      else .ok (child place s)

/-- Where a path starts. -/
def startOf (path : String) : Path :=
  ⟨Text.startsWith "/" path, []⟩

/-- The place that a path leads to; there may be nothing at the place itself. -/
def locate (d : Disk) (path : String) : Except StoreError Path :=
  match FileStore.refusal? path with
  | some e => .error e
  | none => (Text.pieces '/' path).foldlM d.step (startOf path)

/-- Read a file. -/
def read (d : Disk) (path : String) : Except StoreError String := do
  match d.kindOf? (← d.locate path) with
  | some (.file contents) => return contents
  | some .directory => throw .isADirectory
  | none => throw .notFound

/-- The steps from a place to a path, which is given by its text; nothing if it is not below. -/
def stepsBelow? (place : Path) (key : String) : Option (List String) :=
  let p := Path.parse key
  if p.rooted = place.rooted ∧ place.steps.length < p.steps.length then
    place.steps.isPrefixOf? p.steps
  else none

/-- The names of what a directory holds. -/
def names (d : Disk) (path : String) : Except StoreError (List String) := do
  let place ← d.locate path
  match d.kindOf? place with
  | none => throw .notFound
  | some (.file _) => throw .notADirectory
  | some .directory =>
      return (d.files.keys ++ d.directories.keys).filterMap fun key =>
        match stepsBelow? place key with
        | some [name] => some name
        | _ => none

/-- Do steps from a place lead to a directory? -/
def isDirectory (d : Disk) (start : Path) (steps : List String) : Bool :=
  match steps.foldlM d.step start with
  | .ok place => d.kindOf? place = some .directory
  | .error _ => false

/-- Make a directory, in a directory that is there. -/
def makeOne (d : Disk) (start : Path) (steps : List String) : Except StoreError Disk := do
  let place ← steps.foldlM d.step start
  if (d.kindOf? place).isSome then throw .alreadyExists
  else return { d with directories := d.directories.insert place.text () }

/-- Make a directory unless it is there. -/
def ensure (d : Disk) (start : Path) (steps : List String) : Except StoreError Disk :=
  match d.makeOne start steps with
  | .error e => if d.isDirectory start steps then .ok d else .error e
  | done => done

/-- Make a directory, and if something is missing, first all directories above it.  The steps are given
last step first, and what is written behind the last step apart from them. -/
def makeAll (d : Disk) (start : Path) (behind : List String) :
    List String → Except StoreError Disk
  | [] => .ok d
  | s :: above =>
      let steps := (s :: above).reverse ++ behind
      match d.ensure start steps with
      | .error .notFound => do (← d.makeAll start [] above).ensure start steps
      | done => done

/-- Make a directory and all directories above it.  A slash at the end of the path means nothing, but
a step that stays in place asks for the directory before it. -/
def makeDirectory (d : Disk) (path : String) : Except StoreError Disk :=
  match FileStore.refusal? path with
  | some e => if path = "" then .ok d else .error e
  | none =>
      let steps := (Text.pieces '/' path).filter (· ≠ "")
      let behind := if steps.getLast? = some "." then ["."] else []
      d.makeAll (startOf path) behind (steps.filter (· ≠ ".")).reverse

/-- Write a file, in a directory that is there. -/
def write (d : Disk) (path contents : String) : Except StoreError Disk := do
  let place ← d.locate path
  match d.kindOf? place with
  | some .directory => throw .isADirectory
  | _ => return { d with files := d.files.insert place.text contents }

/-- Put a file on a disk, with the directories that it needs; a file that cannot be put is left out. -/
def put (d : Disk) (path contents : String) : Disk :=
  let written := do
    let d ← d.makeDirectory (FileStore.directoryOf path)
    d.write path contents
  written.toOption.getD d

/-- A disk with some files. -/
def ofFiles (files : List (String × String)) : Disk :=
  files.foldl (fun d (path, contents) => d.put path contents) {}

/-- All files below a directory, by their paths from there. -/
def filesBelow (d : Disk) (directory : String) : List (String × String) :=
  match d.locate directory with
  | .error _ => []
  | .ok place =>
      d.files.entries.filterMap fun (key, contents) =>
        (stepsBelow? place key).map fun steps => (Path.steppedText steps, contents)

/-- Change a disk if that succeeds. -/
def change (f : Disk → Except StoreError Disk) : StateM Disk (Except StoreError Unit) := do
  match f (← get) with
  | .ok d =>
      set d
      return .ok ()
  | .error e => return .error e

/-- A disk as a file store. -/
def store : FileStore (StateM Disk) where
  read path := do return (← get).read path
  names path := do return (← get).names path
  makeDirectory path := change fun d => d.makeDirectory path
  write path contents := change fun d => d.write path contents

end Disk

end ScriptBindings
