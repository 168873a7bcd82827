import ScriptBindings.Resolve.Inheritance
import ScriptBindings.Resolve.Template

/-!
# Resolving a database

The passes between extraction and binding, in their order: templates first, so that inheritance sees
the classes that they are replaced by.
-/

namespace ScriptBindings

/-- Run all passes; the namespaces are the project's own. -/
def Database.resolve (namespaces : List String) (db : Database) : Database :=
  let db := Resolve.specialiseFunctions (Resolve.specialiseClasses db)
  let db := Resolve.copyBases namespaces (Resolve.inferAbstract db)
  Resolve.copyItems (Resolve.inheritHooks db)

end ScriptBindings
