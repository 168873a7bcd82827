import ScriptBindings.Compound.Reading
import ScriptBindings.Directive.Reader
import ScriptBindings.Entity.Slot

/-!
# Reading callables

A function member becomes a callable, or a placeholder if it cannot be bound: a specialised template,
a free operator, or a declaration with a type that cannot be read.
-/

namespace ScriptBindings.Compound

/-- Does the documentation of parameters have an item for a name? -/
def documents (name : String) (item : Xml.Element) : Bool :=
  (Directive.elementsTagged "parametername" item).any fun n => Text.trimmed n.text = name

/-- What the detailed description says about a parameter. -/
def parameterDescription? (member : Xml.Element) (name : String) : Option String := do
  let detailed ← member.child? "detaileddescription"
  let item ← (Directive.elementsTagged "parameteritem" detailed).find? (documents name)
  item.childText? "parameterdescription"

/-- The name of a parameter, made from its position if it has none. -/
def parameterName (param : Xml.Element) (position : Nat) : String :=
  ((param.childText? "declname").or (param.childText? "defname")).getD
    (CppType.positionName position)

/-- Read a parameter. -/
def readParameter (s : Setting) (place : Place) (member param : Xml.Element) (position : Nat) :
    Except Fault (Reading Parameter) := do
  let name := parameterName param position
  match ← memberType s place param with
  | none => return .unreadable s!"parameter `{name}` has no type"
  | some (.unreadable reason) => return .unreadable reason
  | some (.read ty) =>
      return .read
        { name := name
          ty := ty
          default := param.childText? "defval"
          description := ((parameterDescription? member name).or
            (param.childText? "briefdescription")).getD "" }

/-- Read parameters up to the first one that cannot be read. -/
def readParameters (s : Setting) (place : Place) (member : Xml.Element) :
    List (Xml.Element × Nat) → Except Fault (Reading (List Parameter))
  | [] => .ok (.read [])
  | (param, position) :: rest => do
      match ← readParameter s place member param position with
      | .unreadable reason => return .unreadable reason
      | .read p =>
          match ← readParameters s place member rest with
          | .unreadable reason => return .unreadable reason
          | .read ps => return .read (p :: ps)

/-- Rename the first parameter with a name. -/
def renameParameter (old new : String) : List Parameter → List Parameter
  | [] => []
  | p :: rest =>
      if p.name = old then { p with name := new } :: rest
      else p :: renameParameter old new rest

/-- Rename parameters, one renaming after the other. -/
def renameParameters (params : List Parameter) (renamings : List (String × String)) :
    List Parameter :=
  renamings.foldl (fun params (old, new) => renameParameter old new params) params

/-- The name of a specialised template; the operator `<=>` is none. -/
def isSpecialisationName (name : String) : Bool :=
  name.toList.contains '<' && name.toList.contains '>' && !Text.occursIn "<=>".toList name.toList

/-- The name of a constructor or destructor of the class that a place is in. -/
def isSpecialName (place : Place) (name : String) : Bool :=
  (place.owner.map Name.withoutTemplateArgs).any fun c => name = c || name = "~" ++ c

/-- Is the declaration marked as deleted? -/
def isDeleted (member : Xml.Element) : Bool :=
  let args := (member.childText "argsstring").toList.filter (· ≠ ' ')
  "=delete".toList.isSuffixOf args

/-- Read the result of a callable.  Only constructors and destructors go without. -/
def readResult (s : Setting) (place : Place) (member : Xml.Element) (special : Bool) :
    Except Fault (Reading (Option CppType)) := do
  match ← memberType s place member with
  | some (.read t) => return .read (some t)
  | some (.unreadable reason) => return .unreadable reason
  | none => return if special then .read none else .unreadable "no return type"

/-- The visibility of a callable: the one its flags ask for, or else the declared one. -/
def callableVisibility (flags : Flags) (member : Xml.Element) : Visibility :=
  flags.visibility.getD (visibilityOf (member.attr? "prot"))

/-- What stands for a callable that cannot be bound. -/
def placeholderFor (place : Place) (member : Xml.Element) (flags : Flags) (reason : String) :
    Placeholder where
  id := member.attr "id"
  name := member.childText "name"
  scope := place.scope
  owner := place.owner
  visibility := callableVisibility flags member
  reason := reason

/-- Read a callable whose flags are known. -/
def callableSlot (s : Setting) (place : Place) (member : Xml.Element) (flags : Flags) :
    Except Fault Slot := do
  let name := member.childText "name"
  let unbound (reason : String) : Slot := .placeholder (placeholderFor place member flags reason)
  if isSpecialisationName name then return unbound "template specialisation"
  if Text.startsWith "operator" name && place.owner.isNone then return unbound "free operator"
  let params := templateParams member
  let inner := { place with templateParams := place.templateParams ++ params }
  match ← readResult s inner member (isSpecialName place name) with
  | .unreadable reason => return unbound reason
  | .read result =>
      match ← readParameters s inner member (member.children "param").zipIdx with
      | .unreadable reason => return unbound reason
      | .read parameters =>
          let location ← Location.ofElement member (place.fqn name) s.root
          return .concrete
            { id := member.attr "id"
              name := name
              scope := place.scope
              owner := place.owner
              definition := member.childText "definition"
              params := renameParameters parameters flags.renameParameters
              result := result
              isTemplate := !params.isEmpty
              templateParams := params
              quals := memberQuals member
              flags := flags
              description := member.childText "briefdescription"
              deleted := isDeleted member
              isAbstract := member.attr? "virt" = some "pure-virtual"
              visibility := callableVisibility flags member
              location := location }

/-- Read a callable; its flags are read first and whatever it turns out to be. -/
def readCallable (s : Setting) (place : Place) (ctx : FlagContext) (member : Xml.Element) :
    Except Fault (Slot × FlagContext) := do
  let (flags, ctx) := ctx.flagsOf member (place.fqn (member.childText "name"))
  return (← callableSlot s place member flags, ctx)

end ScriptBindings.Compound
