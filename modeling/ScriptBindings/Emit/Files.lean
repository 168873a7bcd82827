import ScriptBindings.Emit.Loader

/-!
# Generated files

The loaders of a namespace are declared in a header and defined, in the same order, in a source file.
They are ordered by priority, highest first, then by the place of what they load.  The global namespace
has no files.
-/

namespace ScriptBindings.Emit

/-- A generated file by its path in the output directory. -/
structure GeneratedFile where
  path : String
  contents : String
deriving DecidableEq, Repr, Inhabited

/-- All loaders with their namespaces: those of classes, enumerations, functions and variables. -/
def Style.loaders (s : Style) : List (String × Loader) :=
  s.db.classes.values.filterMap (fun c => (s.classLoader? c).map (c.scope, ·)) ++
  s.db.enums.values.filterMap (fun e => (s.enumLoader? e).map (e.scope, ·)) ++
  s.db.functions.values.filterMap s.functionLoader? ++
  s.db.globals.values.filterMap (fun g => (s.globalLoader? g).map (g.scope, ·))

/-- Compare two values, and leave the decision to the next comparison where they are equal. -/
def thenBy {α : Type} [DecidableEq α] (less : α → α → Bool) (a b : α) (next : Bool) : Bool :=
  if a = b then next else less a b

/-- May one loader stand before another one? -/
def Loader.before (a b : Loader) : Bool :=
  thenBy (fun p q => decide (q < p)) a.priority b.priority <|
  thenBy (fun p q => decide (p < q)) a.location.file b.location.file <|
  thenBy (fun p q => decide (p < q)) a.location.line b.location.line <|
  decide (a.name ≤ b.name)

/-- Loaders by namespace, in the order in which they were found. -/
def groupLoaders (found : List (String × Loader)) : Dict (List Loader) :=
  found.foldl (fun d (scope, l) => d.insert scope ((d.get? scope).getD [] ++ [l])) .empty

/-- The declaration of the scripting state's class. -/
def Style.forward (s : Style) : String :=
  match s.flavour.stateViewParts with
  | ("", name) => "class " ++ name ++ ";"
  | (space, name) => "namespace " ++ space ++ " \x7b class " ++ name ++ "; \x7d;"

/-- Text in the bindings' part of a namespace. -/
def inBindings (scope text : String) : String :=
  "namespace " ++ scope ++ "::Bindings\n\x7b\n" ++ text ++ "\n\x7d;\n"

/-- Where the files of a namespace go, without extension. -/
def fileStem (scope : String) : String :=
  bindingsDirectory scope ++ "/" ++ Name.lastSegment scope

/-- The line that declares a loader. -/
def Style.declaration (s : Style) (l : Loader) : String :=
  "void Load" ++ l.name ++ "(" ++ s.flavour.stateView ++ " state);"

/-- The header of a namespace. -/
def Style.header (s : Style) (scope : String) (loaders : List Loader) : GeneratedFile where
  path := "include/" ++ fileStem scope ++ ".hpp"
  contents := "#pragma once\n\n" ++ s.forward ++ "\n" ++
    inBindings scope ("\n".intercalate (loaders.map s.declaration))

/-- All lines to include, each once, in ascending order. -/
def includeLines (loaders : List Loader) : List String :=
  (Dict.ofList ((loaders.flatMap (·.includes)).map fun line => (line, ()))).keys

/-- The source file of a namespace. -/
def Style.source (s : Style) (scope : String) (loaders : List Loader) : GeneratedFile where
  path := "src/" ++ fileStem scope ++ ".cpp"
  contents := "#include <" ++ fileStem scope ++ ".hpp>\n#include <" ++ s.flavour.includeFile ++
    ">\n\n" ++ "\n".intercalate (includeLines loaders) ++ "\n\n" ++
    inBindings scope ("\n".intercalate (loaders.map (·.body)))

/-- The loaders of a namespace in the order of its files. -/
def arrange (loaders : List Loader) : List Loader :=
  loaders.mergeSort Loader.before

/-- The files of a namespace. -/
def Style.namespaceFiles (s : Style) (scope : String) (loaders : List Loader) :
    List GeneratedFile :=
  let loaders := arrange loaders
  [s.header scope loaders, s.source scope loaders]

/-- The files of all namespaces, in the order of their names. -/
def Style.files (s : Style) : List GeneratedFile :=
  (groupLoaders s.loaders).entries.flatMap fun (scope, loaders) =>
    if scope = "" then [] else s.namespaceFiles scope loaders

end ScriptBindings.Emit
