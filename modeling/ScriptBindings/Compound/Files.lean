import ScriptBindings.Name.Scope

/-!
# Files of compounds

Which files of a documentation directory describe the namespaces and classes of a project.  A file is
named after its compound, with `_1_1` for `::`.
-/

namespace ScriptBindings.Compound

/-- Drop a final `.xml` as often as there is one; the length of the name bounds how often. -/
def dropExtension : Nat → List Char → List Char
  | 0, s => s
  | fuel + 1, s =>
      match Text.beforeTail? ".xml".toList s with
      | some before => dropExtension fuel before
      | none => s

/-- The name of a file without its extension. -/
def stem (file : String) : String :=
  String.ofList (dropExtension file.length file.toList)

/-- Is the stem that of something of a kind inside one of the namespaces? -/
def isNested (namespaces : List String) (kind stem : String) : Bool :=
  namespaces.any fun ns => Text.startsWith (kind ++ ns ++ "_1_1") stem

/-- The file of a class of one of the namespaces. -/
def isClassFile (namespaces : List String) (file : String) : Bool :=
  isNested namespaces "class" (stem file) || isNested namespaces "struct" (stem file)

/-- The file of one of the namespaces or of a namespace inside it. -/
def isNamespaceFile (namespaces : List String) (file : String) : Bool :=
  !isClassFile namespaces file &&
    (namespaces.any (fun ns => stem file = "namespace" ++ ns) ||
      isNested namespaces "namespace" (stem file))

/-- Files to read, those of namespaces and those of classes. -/
structure Files where
  namespaces : List String
  classes : List String
deriving DecidableEq, Repr

/-- Choose the files to read, in ascending order. -/
def chooseFiles (names namespaces : List String) : Files :=
  let documents := (names.filter (Text.endsWith ".xml")).mergeSort (fun a b => decide (a ≤ b))
  ⟨documents.filter (isNamespaceFile namespaces), documents.filter (isClassFile namespaces)⟩

end ScriptBindings.Compound
