import ScriptBindings.Name.Casing
import ScriptBindings.Name.Scope
import ScriptBindings.Text.Blank

/-!
# Names in generated files

Where the bindings of a namespace go, what loaders are called, and how headers are included.
-/

namespace ScriptBindings.Emit

/-- The directory of a namespace's bindings: the outermost namespace is left out, unless there is no
other. -/
def bindingsDirectory (scope : String) : String :=
  match Text.cutFirst? [':', ':'] scope.toList with
  | some (_, rest) => "Bindings/" ++ Text.replaced "::" "/" (String.ofList rest)
  | none => "Bindings/" ++ Name.capitalize scope

/-- The name of a loader without its first word: the kind of entity and the letters and digits of the
entity's name. -/
def loaderName (kind name : String) : String :=
  let words := (name.toList.splitOnP fun c => !c.isAlphanum).map String.ofList
  kind ++ String.join (words.map Name.capitalize)

/-- The line that includes a header.  A line that is written out is kept. -/
def includeLine (path : String) : String :=
  if "#include".toList.isPrefixOf (Text.trimStart path.toList) then path
  else "#include <" ++ path ++ ">"

end ScriptBindings.Emit
