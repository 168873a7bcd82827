import ScriptBindings.CppType.Reader

/-!
# Putting types in place of template parameters

A name that is exactly a parameter is replaced by the concrete type bound to it, and the qualifiers
around the name are kept around the type.  All replacements happen at once: the names of a concrete
type are not looked up again.
-/

namespace ScriptBindings

/-- Concrete types by template parameter; the first one for a parameter counts. -/
abbrev Bindings := List (String × String)

/-- The concrete type bound to a name. -/
def Bindings.get? (b : Bindings) (name : String) : Option String :=
  (b.find? fun e => e.1 = name).map (·.2)

namespace CppType

/-- The type that replaces a qualified name.  A concrete text that is not a type becomes the name. -/
def substituteBase (b : Bindings) (name : String) (q : Qualifiers) : CppType :=
  match b.get? name with
  | none => .base name q
  | some concrete =>
      match parse concrete with
      | .ok t => t.withQuals (q.around t.quals)
      | .error _ => .base concrete q

mutual

/-- Put the bound types in place of the parameters. -/
def substitute (b : Bindings) : CppType → CppType
  | .base n q => substituteBase b n q
  | .template n q args => .template ((b.get? n).getD n) q (substituteList b args)
  | .function r q args => .function (r.substitute b) q (substituteArgs b args)

/-- `substitute` on several types. -/
def substituteList (b : Bindings) : List CppType → List CppType
  | [] => []
  | t :: ts => t.substitute b :: substituteList b ts

/-- `substitute` on the types of function arguments. -/
def substituteArgs (b : Bindings) : List FunctionArg → List FunctionArg
  | [] => []
  | ⟨ty, q, name, generated⟩ :: rest =>
      ⟨ty.substitute b, q, name, generated⟩ :: substituteArgs b rest

end

end CppType

end ScriptBindings
