import ScriptBindings.Compound.Callable
import ScriptBindings.Compound.Item

/-!
# Reading classes

The members of a class are read one after the other, and each finds its place by its kind, its name
and its protection: public callables with the class's own name are constructors, the destructor is
kept apart, and all other callables share slots with those of the same name and the same side of
visibility.  A class with a member that must be implemented is abstract.
-/

namespace ScriptBindings.Compound

/-- A member of a class that has been read and knows its place. -/
inductive ClassMember where
  | constructor (f : Callable)
  | rejected (p : Placeholder)
  | destructor (f : Callable)
  | method (slot : Slot)
  | hidden (slot : Slot)
  | attribute (a : Attribute)
  | enumeration (e : Enumeration)
  | typedef (t : Typedef)

/-- The members of a class that a slot stands for.  A destructor that cannot be bound is forgotten. -/
def placeCallable (shortName : String) (visibility : Visibility) (slot : Slot) : List ClassMember :=
  if slot.name = shortName ∧ visibility = .pub then
    match slot with
    | .placeholder p => [.rejected p]
    | slot => slot.callables.map .constructor
  else if slot.name = "~" ++ shortName then
    match slot with
    | .concrete f => [.destructor f]
    | _ => []
  else if visibility = .pub then [.method slot]
  else [.hidden slot]

/-- Read a member.  Of the members that are no callables only the public ones are read. -/
def readClassMember (s : Setting) (place : Place) (fqn : String) (ctx : FlagContext)
    (member : Xml.Element) : Except Fault (List ClassMember × FlagContext) := do
  let visibility := visibilityOf (member.attr? "prot")
  let shortName := Name.withoutTemplateArgs (place.owner.getD "")
  match member.attr? "kind" with
  | some "function" =>
      let (slot, ctx) ← readCallable s place ctx member
      return (placeCallable shortName visibility slot, ctx)
  | some kind =>
      if visibility ≠ .pub then return ([], ctx)
      else if kind = "variable" then
        let (a, ctx) ← readAttribute s place ctx member
        return (a.toList.map .attribute, ctx)
      else if kind = "enum" then
        let (e, ctx) ← readEnum s fqn ctx member
        return ([.enumeration e], ctx)
      else if kind = "typedef" then
        let (t, ctx) ← readTypedef s place ctx member
        return (t.toList.map .typedef, ctx)
      else return ([], ctx)
  | none => return ([], ctx)

/-- Read members one after the other. -/
def readClassMembers (s : Setting) (place : Place) (fqn : String) :
    FlagContext → List Xml.Element → Except Fault (List ClassMember × FlagContext)
  | ctx, [] => .ok ([], ctx)
  | ctx, member :: rest => do
      let (here, ctx) ← readClassMember s place fqn ctx member
      let (later, ctx) ← readClassMembers s place fqn ctx rest
      return (here ++ later, ctx)

/-- Read the bases: a known symbol by its identifier, any other by its text. -/
def readBase (s : Setting) (scope : String) (e : Xml.Element) : Except Fault String := do
  match (e.attr? "refid").bind s.index.byId.get? with
  | some symbol => return symbol.fqn
  | none =>
      let text := Text.trimmed e.text
      match ← readType s { scope := scope } text with
      | .read t => return t.text
      | .unreadable _ => return text

/-- Add a member to the class that it is a member of. -/
def addToClass (c : Class) : ClassMember → Class
  | .constructor f => { c with constructors := c.constructors ++ [f] }
  | .rejected p => { c with rejectedConstructors := c.rejectedConstructors ++ [p] }
  | .destructor f => { c with destructor := some f }
  | .method slot => { c with methods := c.methods.add slot.name slot }
  | .hidden slot => { c with hiddenMethods := c.hiddenMethods.add slot.name slot }
  | .attribute a => { c with attributes := c.attributes.insert a.name a }
  | .enumeration _ => c
  | .typedef _ => c

/-- Add a member of a class to the database if it is an entity of its own. -/
def addBesideClass (fqn : String) (db : Database) : ClassMember → Database
  | .enumeration e => { db with enums := db.enums.insert (Name.qualify fqn none e.name) e }
  | .typedef t => { db with typedefs := db.typedefs.insert (Name.qualify fqn none t.name) t }
  | _ => db

/-- A class with a method that must be implemented, whatever the method's visibility. -/
def hasAbstractMethod (c : Class) : Bool :=
  c.allMethods.any fun slot => slot.callables.any (·.isAbstract)

/-- Mark a class as abstract if one of its methods must be implemented. -/
def withAbstractness (c : Class) : Class :=
  { c with isAbstract := hasAbstractMethod c }

/-- Put a class together from its members. -/
def assembleClass (header : Class) (found : List ClassMember) : Class :=
  withAbstractness (found.foldl addToClass header)

/-- What a class document says about the class itself. -/
def readClassHeader (s : Setting) (fqn : String) (flags : Flags) (compound : Xml.Element) :
    Except Fault Class := do
  let params := templateParams compound
  let location ← Location.ofElement compound fqn s.root
  let bases ← (compound.children "basecompoundref").mapM (readBase s (Name.parentScope fqn))
  return {
      id := compound.attr "id"
      name := Name.lastSegment fqn
      scope := Name.parentScope fqn
      bases := bases
      isTemplate := !params.isEmpty
      templateParams := params
      flags := flags
      description := compound.childText "briefdescription"
      visibility := visibilityOf (compound.attr? "prot")
      location := location }

/-- Read a class with all its members into a database. -/
def readClass (s : Setting) (db : Database) (ctx : FlagContext) (compound : Xml.Element) :
    Except Fault (Database × FlagContext) := do
  let fqn := compound.childText "compoundname"
  let (flags, ctx) := ctx.flagsOf compound fqn
  let header ← readClassHeader s fqn flags compound
  let place : Place := ⟨header.scope, some header.name, header.templateParams⟩
  let (found, ctx) ← readClassMembers s place fqn ctx (members compound)
  let db := found.foldl (addBesideClass fqn) db
  return ({ db with classes := db.classes.insert fqn (assembleClass header found) }, ctx)

/-- Is the class private, or in a namespace that is not bound? -/
def isSkippedClass (db : Database) (compound : Xml.Element) : Bool :=
  compound.attr? "prot" = some "private" ||
    (db.namespaces.get? (Name.parentScope (compound.childText "compoundname"))).any
      (·.flags.noBind)

/-- Add a class document to a database. -/
def addClass (s : Setting) (db : Database) (ctx : FlagContext) (compound : Xml.Element) :
    Except Fault (Database × FlagContext) :=
  if isSkippedClass db compound then .ok (db, ctx) else readClass s db ctx compound

end ScriptBindings.Compound
