import ScriptBindings.Binding.Plan
import ScriptBindings.Emit.Names
import ScriptBindings.Flavour

/-!
# Loaders

A loader is a function that registers one entity with the scripting state.  Entities that are not bound
have none.
-/

namespace ScriptBindings.Emit

/-- What bindings are spelled with: the entities, the flavour, and the directories that headers are
included from. -/
structure Style where
  db : Database
  flavour : Flavour
  roots : List String

/-- A loader with what decides its place and what its text includes. -/
structure Loader where
  name : String
  priority : Int
  location : Location
  includes : List String
  body : String
deriving DecidableEq, Repr, Inhabited

namespace Style

/-- The line that includes the file of a location. -/
def includeFor (s : Style) (location : Location) : String :=
  includeLine (Path.withoutRoot location.file s.roots)

/-- The lines to include for an entity. -/
def includes (s : Style) (location : Location) (flags : Flags) : List String :=
  s.includeFor location :: flags.additionalIncludes.map includeLine

/-- The variable that holds the table of a namespace. -/
def tableName (scope : String) : String :=
  Name.lastSegment scope ++ "_namespace"

/-- The line that fetches the table of a namespace. -/
def fetchTable (s : Style) (scope : String) : String :=
  let path := String.join ((Name.segments scope).map fun part => "[\"" ++ part ++ "\"]")
  Template.render s.flavour.fetchTable [("store_in", tableName scope), ("namespace_path", path)]

/-- The text of a loader. -/
def loaderText (s : Style) (name body : String) : String :=
  "void Load" ++ name ++ "(" ++ s.flavour.stateView ++ " state)\n\x7b\n" ++ body ++ "\n\x7d"

/-- A loader of a namespace's member. -/
def loader (s : Style) (name scope body : String) (flags : Flags) (location : Location)
    (includes : List String) : Loader where
  name := name
  priority := flags.loadPriority
  location := location
  includes := includes
  body := s.loaderText name (s.fetchTable scope ++ "\n" ++ body)

/-- The line that binds a method entry in the variable of its class. -/
def methodLine? (s : Style) (store : String) (e : Binding.Entry) : Option String :=
  (s.flavour.expression? e.strategy).map fun expression =>
    store ++ "[" ++ s.flavour.keyText e.key ++ "] = " ++
      s.flavour.methodText expression e.asProperty ++ ";"

/-- How an attribute is bound: a reference through a pointer to what it refers to, a static one as a
variable, a constant one for reading only. -/
def attributeText (s : Style) (cls : String) (a : Attribute) : String :=
  let q := a.ty.quals
  let address := cls ++ "::" ++ a.name
  if q.isLvalueRef then
    Template.render s.flavour.propertyRef
      [("class_name", cls), ("attribute_name", a.name),
        ("property_type", (Binding.mapOutermost (fun _ => []) a.ty).text)]
  else if a.quals.isStatic then Template.render s.flavour.staticAttrib [("name", address)]
  else if q.isConst || a.quals.isConst then
    Template.render s.flavour.propertyReadonly [("address", "&" ++ address)]
  else "&" ++ address

/-- The line that binds an attribute. -/
def attributeLine? (s : Style) (store cls : String) (a : Attribute) : Option String :=
  if a.flags.noBind then none
  else some (store ++ "[\"" ++ a.name ++ "\"] = " ++ s.attributeText cls a ++ ";")

/-- How the objects of a class are constructed. -/
def constructorText (s : Style) (cls : String) (signatures : List (List String)) : String :=
  if signatures = [] then s.flavour.defaultConstructor
  else
    let calls := signatures.map fun types => cls ++ "(" ++ ", ".intercalate types ++ ")"
    Template.render s.flavour.constructors [("constructors", ", ".intercalate calls)]

/-- The constructors and bases of a class, each behind a comma. -/
def classDefinition (s : Style) (c : Class) : String :=
  let plan := Binding.planConstructors s.db c
  let constructors :=
    if plan.constructible then
      ", " ++ s.flavour.callConstructor ++ ", " ++ s.constructorText c.fqn plan.signatures
    else ""
  let bases :=
    if c.bases = [] then ""
    else ", " ++ Template.render s.flavour.baseClasses [("bases", ", ".intercalate c.bases)]
  constructors ++ bases

/-- The lines that bind the members of a class. -/
def memberLines (s : Style) (c : Class) : List String :=
  let store := "bind_" ++ Name.snakeCase c.bindName
  (c.methods.values.flatMap (Binding.planSlot s.db)).filterMap (s.methodLine? store) ++
    c.attributes.values.filterMap (s.attributeLine? store c.fqn)

/-- The loader of a class; templates have none. -/
def classLoader? (s : Style) (c : Class) : Option Loader :=
  if c.flags.noBind || c.isTemplate then none
  else
    let helpers := c.flags.helpers.map fun source =>
      Template.render s.flavour.scriptFile [("source", source)]
    let hooks := (c.flags.hooks.filter fun h => h.trigger = .bind).map (·.code)
    let body := Template.render s.flavour.classBody
      [("cpp_class", c.fqn), ("lua_formatted_name", Name.snakeCase c.bindName),
        ("lua_short_name", c.bindName), ("namespace", Name.lastSegment c.scope),
        ("class_definition", s.classDefinition c), ("body", "\n".intercalate (s.memberLines c)),
        ("helpers", "\n".intercalate helpers), ("hooks", "\n".intercalate hooks)]
    some (s.loader (loaderName "Class" c.bindName) c.scope body c.flags c.location
      (s.includes c.location c.flags))

/-- The loader of an enumeration. -/
def enumLoader? (s : Style) (e : Enumeration) : Option Loader :=
  if e.flags.noBind then none
  else
    let type := Name.qualify e.scope none e.name
    let name := e.flags.rename.getD e.name
    let fields := e.values.map fun v =>
      "\x7b\"" ++ v.name ++ "\", " ++ type ++ "::" ++ v.name ++ "\x7d"
    let body := Template.render s.flavour.enumBody
      [("namespace", Name.lastSegment e.scope), ("enum_type", type), ("enum_name", name),
        ("enum_fields", "\x7b" ++ ", ".intercalate fields ++ "\x7d")]
    some (s.loader (loaderName "Enum" name) e.scope body e.flags e.location
      (s.includes e.location e.flags))

/-- The line that binds a function entry of a namespace. -/
def functionLine? (s : Style) (scope : String) (e : Binding.Entry) : Option String :=
  (s.flavour.expression? e.strategy).map fun expression =>
    match e.key with
    | .named name =>
        Template.render s.flavour.functionBody
          [("namespace", Name.lastSegment scope), ("function_name", name),
            ("function_ptr", expression)]
    | key => tableName scope ++ "[" ++ s.flavour.keyText key ++ "] = " ++ expression ++ ";"

/-- The first name among the keys of what is bound. -/
def firstName? (s : Style) (entries : List Binding.Entry) : Option String :=
  entries.findSome? fun e =>
    match s.flavour.expression? e.strategy, e.key with
    | some _, .named name => some name
    | _, _ => none

/-- The namespace and the loader of the functions of a slot. -/
def functionLoader? (s : Style) (slot : Slot) : Option (String × Loader) := do
  let first ← slot.callables.head?
  let flags ← slot.flags?
  let entries := Binding.planSlot s.db slot
  let lines := entries.filterMap (s.functionLine? first.scope)
  let name := (s.firstName? entries).getD slot.name
  let includes := slot.callables.map (fun f => s.includeFor f.location) ++
    flags.additionalIncludes.map includeLine
  if lines = [] then none
  else some (first.scope, s.loader (loaderName "Function" name) first.scope
    ("\n".intercalate lines) flags first.location includes)

/-- The loader of a variable. -/
def globalLoader? (s : Style) (g : Global) : Option Loader :=
  if g.flags.noBind then none
  else
    let name := g.flags.rename.getD g.name
    let body := Template.render s.flavour.globalBody
      [("namespace", Name.lastSegment g.scope), ("global_name", name),
        ("global_ptr", Name.qualify g.scope none g.name)]
    some (s.loader (loaderName "Global" name) g.scope body g.flags g.location
      (s.includes g.location g.flags))

end Style

end ScriptBindings.Emit
