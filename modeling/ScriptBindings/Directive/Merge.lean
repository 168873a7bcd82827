import ScriptBindings.Directive.Flags
import ScriptBindings.Text.Quoted

/-!
# Merging flags

Two sets of flags are merged field by field: switches are joined, lists are appended, and of two
single values the first one stays.  Single values that differ are conflicts.
-/

namespace ScriptBindings.Flags

/-- Append what is not there yet, from left to right, as told by a key. -/
def appendNew {α κ : Type} [DecidableEq κ] (key : α → κ) (mine theirs : List α) : List α :=
  theirs.foldl (fun all x => if all.any fun y => key y = key x then all else all ++ [x]) mine

/-- The first priority that is set. -/
def firstPriority (mine theirs : Int) : Int :=
  if mine = 0 then theirs else mine

/-- The flags of both, the first ones deciding. -/
def merge (a b : Flags) : Flags where
  helpers := a.helpers ++ b.helpers
  templateHints := appendNew TemplateHint.bindName a.templateHints b.templateHints
  noBind := a.noBind || b.noBind
  additionalIncludes := a.additionalIncludes ++ b.additionalIncludes
  asProperty := a.asProperty || b.asProperty
  copyParentItems := a.copyParentItems || b.copyParentItems
  proxy := a.proxy.or b.proxy
  noConstructor := a.noConstructor || b.noConstructor
  loadPriority := firstPriority a.loadPriority b.loadPriority
  rename := a.rename.or b.rename
  renameParameters := a.renameParameters ++ b.renameParameters
  bindCode := a.bindCode.or b.bindCode
  nonCopyable := a.nonCopyable || b.nonCopyable
  hooks := appendNew id a.hooks b.hooks
  mergeSpecialisationsAs := a.mergeSpecialisationsAs.or b.mergeSpecialisationsAs
  visibility := a.visibility.or b.visibility
  surrogateFor := a.surrogateFor ++ b.surrogateFor

/-- A field with two different single values, of which the first one stayed. -/
structure Conflict where
  field : String
  kept : String
  dropped : String
deriving DecidableEq, Repr, Inhabited

/-- The conflict of a field with an optional value, shown by `render`. -/
def optionalConflict {α : Type} [DecidableEq α] (field : String) (render : α → String) :
    Option α → Option α → List Conflict
  | some kept, some dropped =>
      if kept = dropped then [] else [⟨field, render kept, render dropped⟩]
  | _, _ => []

/-- The conflict of two priorities. -/
def priorityConflict (kept dropped : Int) : List Conflict :=
  optionalConflict "load_priority" toString
    (some kept |>.filter (· ≠ 0)) (some dropped |>.filter (· ≠ 0))

/-- The word for a visibility. -/
def visibilityWord : Visibility → String
  | .pub => "Public"
  | .prot => "Protected"
  | .priv => "Private"

/-- The conflicts of merging, in a fixed order of the fields. -/
def conflicts (a b : Flags) : List Conflict :=
  optionalConflict "proxy" Text.quoted a.proxy b.proxy ++
  priorityConflict a.loadPriority b.loadPriority ++
  optionalConflict "rename" Text.quoted a.rename b.rename ++
  optionalConflict "bind_code" Text.quoted a.bindCode b.bindCode ++
  optionalConflict "merge_template_specialisations_as" Text.quoted a.mergeSpecialisationsAs
    b.mergeSpecialisationsAs ++
  optionalConflict "visibility" visibilityWord a.visibility b.visibility

end ScriptBindings.Flags
