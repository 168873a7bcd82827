import ScriptBindings.Text.Cut

/-!
# Paths, by their text alone

A path is a list of steps, taken from the root directory or from wherever one stands.  Folding a path
never looks at a disk: it drops the steps that stay in place and takes a step up back with the step
before it.
-/

namespace ScriptBindings

/-- The steps of a path, and whether they start at the root directory. -/
structure Path where
  rooted : Bool
  steps : List String
deriving DecidableEq, Repr, Inhabited

namespace Path

/-- Read a path; repeated and final slashes mean nothing. -/
def parse (text : String) : Path :=
  ⟨Text.startsWith "/" text, (Text.pieces '/' text).filter (· ≠ "")⟩

/-- Take one more step from a place, which is given innermost directory first. -/
def foldStep (place : List String) (step : String) : List String :=
  if step = "." then place
  else if step = ".." then
    match place with
    | [] => [".."]
    | _ :: outer => outer
  else step :: place

/-- Drop the steps that stay in place and let each step up take back the step before it.  At the
start there is nothing to take back, and a step up is kept. -/
def normalize (p : Path) : Path :=
  ⟨p.rooted, (p.steps.foldl foldStep []).reverse⟩

/-- The steps joined by slashes, without the root. -/
def steppedText (steps : List String) : String :=
  "/".intercalate steps

/-- The path as a text. -/
def text (p : Path) : String :=
  if p.rooted then "/" ++ steppedText p.steps else steppedText p.steps

/-- The path that goes nowhere. -/
def here : Path := ⟨false, []⟩

/-- The steps that lead from `root` to `p`, if `root` is an initial part of `p`. -/
def below? (root p : Path) : Option (List String) :=
  if root = here then some p.steps
  else if root.rooted = p.rooted then root.steps.isPrefixOf? p.steps
  else none

/-- Follow `p` from `base`; a path from the root directory forgets the base. -/
def join (base p : Path) : Path :=
  if p.rooted then p else ⟨base.rooted, base.steps ++ p.steps⟩

/-- A file's path from a project's directory, or its whole path if it lies elsewhere. -/
def relativeTo (file root : String) : String :=
  let file := (parse file).normalize
  let root := (parse root).normalize
  match below? root file with
  | some steps => if root = here then file.text else steppedText steps
  | none => file.text

/-- A file's path from the first of the directories that contains it. -/
def withoutRoot (file : String) (roots : List String) : String :=
  let file := (parse file).normalize
  let below := roots.findSome? fun root => below? (parse root).normalize file
  steppedText (below.getD file.steps)

end Path

end ScriptBindings
