/-!
# Binding flags

What the authors of a documented symbol can ask for: how it is bound, what replaces it, what comes
along with it.  A symbol without directives has the default flags.
-/

namespace ScriptBindings

/-- Who may use a member. -/
inductive Visibility where
  | pub
  | prot
  | priv
deriving DecidableEq, Repr, Inhabited

/-- Protected and private members are hidden from scripts. -/
def Visibility.isHidden : Visibility → Bool
  | .pub => false
  | .prot => true
  | .priv => true

/-- When the code of a hook is emitted: after the binding of the class that has the hook, or after
those of the classes that derive from it. -/
inductive HookTrigger where
  | bind
  | inherit
deriving DecidableEq, Repr, Inhabited

/-- Code to emit along with bindings. -/
structure Hook where
  trigger : HookTrigger
  code : String
deriving DecidableEq, Repr, Inhabited

/-- One concrete type for each template parameter, in the order of the hint. -/
abbrev Combination := List (String × String)

/-- A name to bind a template under, and the concrete types to bind it for. -/
structure TemplateHint where
  bindName : String
  combinations : List Combination
deriving DecidableEq, Repr, Inhabited

/-- The flags of a symbol.  A priority of zero is the same as none. -/
structure Flags where
  helpers : List String := []
  templateHints : List TemplateHint := []
  noBind : Bool := false
  additionalIncludes : List String := []
  asProperty : Bool := false
  copyParentItems : Bool := false
  proxy : Option String := none
  noConstructor : Bool := false
  loadPriority : Int := 0
  rename : Option String := none
  renameParameters : List (String × String) := []
  bindCode : Option String := none
  nonCopyable : Bool := false
  hooks : List Hook := []
  mergeSpecialisationsAs : Option String := none
  visibility : Option Visibility := none
  surrogateFor : List String := []
deriving DecidableEq, Repr, Inhabited

namespace Flags

/-- The hint with a bind name. -/
def templateHint? (flags : Flags) (bindName : String) : Option TemplateHint :=
  flags.templateHints.find? fun h => h.bindName = bindName

end Flags

end ScriptBindings
