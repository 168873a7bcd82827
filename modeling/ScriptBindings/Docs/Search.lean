import ScriptBindings.Docs.Url
import ScriptBindings.Entity.Database

/-!
# The search index

A flat list of everything that is documented, with the addresses of its documentation.  The callables of
a slot are listed once, by the first of them.
-/

namespace ScriptBindings.Docs

/-- A line of the search index. -/
structure SearchEntry where
  kind : EntityKind
  name : String
  scope : String
  owner : Option String
  url : String
  sourceUrl : Option String
  doxygenUrl : Option String
deriving DecidableEq, Repr, Inhabited

/-- What the addresses of an entity are made from. -/
structure Target where
  kind : EntityKind
  scope : String
  name : String
  owner : Option String := none
  location : Option Location := none
deriving DecidableEq, Repr, Inhabited

/-- The qualified name of an entity; a namespace is named by it. -/
def Target.fqn (t : Target) : String :=
  if t.kind = .scope then t.name else Name.qualify t.scope t.owner t.name

/-- The line for an entity. -/
def Target.entry (sites : Sites) (index : SymbolIndex) (t : Target) : SearchEntry where
  kind := t.kind
  name := t.name
  scope := t.scope
  owner := t.owner.map fun c => t.scope ++ "::" ++ c
  url := sites.documentationUrl t.kind t.scope t.name t.owner
  sourceUrl := t.location.bind sites.sourceUrl
  doxygenUrl := sites.doxygenUrl index t.kind t.fqn

/-- The first callable of a slot. -/
def slotTarget? (kind : EntityKind) (slot : Slot) : Option Target :=
  slot.callables.head?.map fun f => ⟨kind, f.scope, f.name, f.owner, some f.location⟩

/-- A class, its public methods and its attributes. -/
def classTargets (c : Class) : List Target :=
  ⟨.cls, c.scope, c.name, none, some c.location⟩ ::
    c.methods.values.filterMap (slotTarget? .method) ++
    c.attributes.values.map fun a => ⟨.attribute, a.scope, a.name, some a.owner, some a.location⟩

/-- All entities: namespaces, classes with their members, functions, enumerations, variables and type
names. -/
def targets (db : Database) : List Target :=
  (db.namespaces.values.map fun n => ⟨.scope, Name.parentScope n.name, n.name, none, none⟩) ++
  db.classes.values.flatMap classTargets ++
  db.functions.values.filterMap (slotTarget? .function) ++
  (db.enums.values.map fun e => ⟨.enumeration, e.scope, e.name, none, some e.location⟩) ++
  (db.globals.values.map fun g => ⟨.variable, g.scope, g.name, none, some g.location⟩) ++
  (db.typedefs.values.map fun t => ⟨.typedef, t.scope, t.name, none, some t.location⟩)

/-- The search index of a database. -/
def searchIndex (db : Database) (index : SymbolIndex) (sites : Sites) : List SearchEntry :=
  (targets db).map (Target.entry sites index)

end ScriptBindings.Docs
