import ScriptBindings.Compound.Reading
import ScriptBindings.Directive.Reader
import ScriptBindings.Entity.Database

/-!
# Reading enumerations, type names, variables and data members

A member with a type that cannot be read, or without one, is left out, and then its directives are not
read either.
-/

namespace ScriptBindings.Compound

/-- Read a value of an enumeration. -/
def enumValue (e : Xml.Element) : EnumValue :=
  ⟨e.childText "name", e.childText "briefdescription"⟩

/-- The enumeration that a member declares. -/
def enumerationOf (scope : String) (member : Xml.Element) (flags : Flags) (location : Location) :
    Enumeration where
  id := member.attr "id"
  name := member.childText "name"
  scope := scope
  values := (member.children "enumvalue").map enumValue
  flags := flags
  description := member.childText "briefdescription"
  location := location

/-- Read an enumeration of a namespace or class. -/
def readEnum (s : Setting) (scope : String) (ctx : FlagContext) (member : Xml.Element) :
    Except Fault (Enumeration × FlagContext) := do
  let fqn := Name.qualify scope none (member.childText "name")
  let (flags, ctx) := ctx.flagsOf member fqn
  let location ← Location.ofElement member fqn s.root
  return (enumerationOf scope member flags location, ctx)

/-- Read a symbol that must have a type: `make` is given the type, the flags and the location. -/
def readTyped {α : Type} (s : Setting) (place : Place) (ctx : FlagContext) (member : Xml.Element)
    (fqn : String) (make : CppType → Flags → Location → α) :
    Except Fault (Option α × FlagContext) := do
  match ← memberType s place member with
  | some (.read ty) =>
      let (flags, ctx) := ctx.flagsOf member fqn
      let location ← Location.ofElement member fqn s.root
      return (some (make ty flags location), ctx)
  | _ => return (none, ctx)

/-- The type name that a member declares. -/
def typedefOf (place : Place) (member : Xml.Element) (ty : CppType) (flags : Flags)
    (location : Location) : Typedef where
  id := member.attr "id"
  name := member.childText "name"
  scope := place.context
  ty := ty
  definition := member.childText "definition"
  flags := flags
  description := member.childText "briefdescription"
  location := location

/-- Read another name for a type. -/
def readTypedef (s : Setting) (place : Place) (ctx : FlagContext) (member : Xml.Element) :
    Except Fault (Option Typedef × FlagContext) :=
  readTyped s place ctx member (Name.qualify place.context none (member.childText "name"))
    (typedefOf place member)

/-- The variable that a member declares; its description may be in either place. -/
def globalOf (place : Place) (member : Xml.Element) (ty : CppType) (flags : Flags)
    (location : Location) : Global where
  id := member.attr "id"
  name := member.childText "name"
  scope := place.scope
  ty := ty
  definition := member.childText "definition"
  initializer := member.childText? "initializer"
  quals := memberQuals member
  flags := flags
  description := ((member.childText? "briefdescription").or
    (member.childText? "detaileddescription")).getD ""
  location := location

/-- Read a variable of a namespace. -/
def readGlobal (s : Setting) (place : Place) (ctx : FlagContext) (member : Xml.Element) :
    Except Fault (Option Global × FlagContext) :=
  readTyped s place ctx member (Name.qualify place.scope none (member.childText "name"))
    (globalOf place member)

/-- The data member that a member of a class declares. -/
def attributeOf (place : Place) (member : Xml.Element) (ty : CppType) (flags : Flags)
    (location : Location) : Attribute where
  id := member.attr "id"
  name := member.childText "name"
  scope := place.scope
  owner := place.owner.getD ""
  ty := ty
  quals := memberQuals member
  flags := flags
  description := member.childText "briefdescription"
  visibility := visibilityOf (member.attr? "prot")
  location := location

/-- Read a data member of a class. -/
def readAttribute (s : Setting) (place : Place) (ctx : FlagContext) (member : Xml.Element) :
    Except Fault (Option Attribute × FlagContext) :=
  readTyped s place ctx member (place.fqn (member.childText "name")) (attributeOf place member)

end ScriptBindings.Compound
