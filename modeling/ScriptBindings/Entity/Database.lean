import ScriptBindings.Entity.Slot

/-!
# Entities and the database

Everything that bindings can be made for, each kind in a dictionary of its own.  Entities refer to each
other by qualified name alone.
-/

namespace ScriptBindings

/-- A data member of a class. -/
structure Attribute where
  id : String := ""
  name : String := ""
  scope : String := ""
  owner : String := ""
  ty : CppType := .named ""
  quals : MemberQuals := {}
  flags : Flags := {}
  description : String := ""
  visibility : Visibility := .pub
  location : Location := {}
deriving DecidableEq, Inhabited

/-- A class with its members.  Bases are qualified names where they are known, and the text of the
declaration otherwise.  Constructors that could not be read are rejected, and methods that are not
public are hidden: nothing binds them, but they tell whether the class can be constructed and whether
it is abstract. -/
structure Class where
  id : String := ""
  name : String := ""
  scope : String := ""
  bases : List String := []
  constructors : List Callable := []
  rejectedConstructors : List Placeholder := []
  destructor : Option Callable := none
  methods : Slots := .empty
  hiddenMethods : Slots := .empty
  attributes : Dict Attribute := .empty
  isAbstract : Bool := false
  isTemplate : Bool := false
  templateParams : List String := []
  flags : Flags := {}
  description : String := ""
  visibility : Visibility := .pub
  location : Location := {}
deriving DecidableEq, Inhabited

namespace Class

/-- The qualified name. -/
def fqn (c : Class) : String :=
  Name.qualify c.scope none c.name

/-- The name for scripts. -/
def bindName (c : Class) : String :=
  c.flags.rename.getD c.name

/-- The slots of all methods, the public ones first. -/
def allMethods (c : Class) : List Slot :=
  c.methods.values ++ c.hiddenMethods.values

end Class

/-- A value of an enumeration. -/
structure EnumValue where
  name : String := ""
  description : String := ""
deriving DecidableEq, Repr, Inhabited

/-- An enumeration. -/
structure Enumeration where
  id : String := ""
  name : String := ""
  scope : String := ""
  values : List EnumValue := []
  flags : Flags := {}
  description : String := ""
  location : Location := {}
deriving DecidableEq, Repr, Inhabited

/-- A variable of a namespace. -/
structure Global where
  id : String := ""
  name : String := ""
  scope : String := ""
  ty : CppType := .named ""
  definition : String := ""
  initializer : Option String := none
  quals : MemberQuals := {}
  flags : Flags := {}
  description : String := ""
  location : Location := {}
deriving DecidableEq, Inhabited

/-- Another name for a type. -/
structure Typedef where
  id : String := ""
  name : String := ""
  scope : String := ""
  ty : CppType := .named ""
  definition : String := ""
  flags : Flags := {}
  description : String := ""
  location : Location := {}
deriving DecidableEq, Inhabited

/-- A namespace, by its qualified name. -/
structure NamespaceInfo where
  id : String := ""
  name : String := ""
  flags : Flags := {}
  description : String := ""
deriving DecidableEq, Repr, Inhabited

/-- All entities by qualified name. -/
structure Database where
  namespaces : Dict NamespaceInfo := .empty
  classes : Dict Class := .empty
  functions : Slots := .empty
  enums : Dict Enumeration := .empty
  globals : Dict Global := .empty
  typedefs : Dict Typedef := .empty
deriving DecidableEq, Inhabited

namespace Database

/-- The key and the class found under a name, or else under the name without template arguments. -/
def findClass? (db : Database) (name : String) : Option (String × Class) :=
  match db.classes.get? name with
  | some c => some (name, c)
  | none =>
      let bare := Name.withoutTemplateArgs name
      (db.classes.get? bare).map fun c => (bare, c)

/-- The class found under a name, or else under the name without template arguments. -/
def class? (db : Database) (name : String) : Option Class :=
  (db.findClass? name).map (·.2)

/-- Nothing that could be bound. -/
def isEmpty (db : Database) : Bool :=
  db.classes.isEmpty && db.functions.isEmpty && db.enums.isEmpty && db.globals.isEmpty &&
    db.typedefs.isEmpty

end Database

end ScriptBindings
