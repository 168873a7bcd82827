import ScriptBindings.Compound.Callable
import ScriptBindings.Compound.Item

/-!
# Reading namespaces

A namespace is recorded with its flags, and its functions, enumerations, type names and variables are
added to the database, unless the namespace is not bound.
-/

namespace ScriptBindings.Compound

/-- A member of a namespace that has been read. -/
inductive NamespaceMember where
  | function (slot : Slot)
  | enumeration (e : Enumeration)
  | typedef (t : Typedef)
  | variable (g : Global)

/-- Read a member; members of other kinds are passed over. -/
def readNamespaceMember (s : Setting) (name : String) (ctx : FlagContext) (member : Xml.Element) :
    Except Fault (Option NamespaceMember × FlagContext) := do
  let place : Place := { scope := name }
  match member.attr? "kind" with
  | some "function" =>
      let (slot, ctx) ← readCallable s place ctx member
      return (some (.function slot), ctx)
  | some "enum" =>
      let (e, ctx) ← readEnum s name ctx member
      return (some (.enumeration e), ctx)
  | some "typedef" =>
      let (t, ctx) ← readTypedef s place ctx member
      return (t.map .typedef, ctx)
  | some "variable" =>
      let (g, ctx) ← readGlobal s place ctx member
      return (g.map .variable, ctx)
  | _ => return (none, ctx)

/-- Read members one after the other. -/
def readNamespaceMembers (s : Setting) (name : String) :
    FlagContext → List Xml.Element → Except Fault (List NamespaceMember × FlagContext)
  | ctx, [] => .ok ([], ctx)
  | ctx, member :: rest => do
      let (here, ctx) ← readNamespaceMember s name ctx member
      let (later, ctx) ← readNamespaceMembers s name ctx rest
      return (here.toList ++ later, ctx)

/-- Add a member of a namespace to the database. -/
def addNamespaceMember (name : String) (db : Database) : NamespaceMember → Database
  | .function slot =>
      { db with functions := db.functions.add (Name.qualify name none slot.name) slot }
  | .enumeration e => { db with enums := db.enums.insert (Name.qualify name none e.name) e }
  | .typedef t => { db with typedefs := db.typedefs.insert (Name.qualify name none t.name) t }
  | .variable g => { db with globals := db.globals.insert (Name.qualify name none g.name) g }

/-- Add a namespace document to a database. -/
def addNamespace (s : Setting) (db : Database) (ctx : FlagContext) (compound : Xml.Element) :
    Except Fault (Database × FlagContext) := do
  let name := compound.childText "compoundname"
  let (flags, ctx) := ctx.flagsOf compound name
  let info : NamespaceInfo :=
    ⟨compound.attr "id", name, flags, compound.childText "briefdescription"⟩
  let db := { db with namespaces := db.namespaces.insert name info }
  if flags.noBind then return (db, ctx)
  let (found, ctx) ← readNamespaceMembers s name ctx (members compound)
  return (found.foldl (addNamespaceMember name) db, ctx)

end ScriptBindings.Compound
