import ScriptBindings.Text.Blank
import ScriptBindings.Text.Cut

/-!
# Qualified names

A qualified name is a text with `::` between its segments.  Nothing is assumed about the segments:
they may be empty, and the last one may carry template arguments.
-/

namespace ScriptBindings.Name

/-- Cut at every `::`, from left to right. -/
def cutScopes : List Char → List (List Char)
  | [] => [[]]
  | ':' :: ':' :: s => [] :: cutScopes s
  | c :: s => Text.consHead c (cutScopes s)

/-- The segments of a qualified name, empty ones included. -/
def segments (name : String) : List String :=
  (cutScopes name.toList).map String.ofList

/-- The segments that are not empty. -/
def scopes (name : String) : List String :=
  (segments name).filter (· ≠ "")

/-- Join segments with `::`. -/
def joinScopes (parts : List String) : String :=
  "::".intercalate parts

/-- Join the parts that are not empty. -/
def joined (parts : List String) : String :=
  joinScopes (parts.filter (· ≠ ""))

/-- The fully qualified name of a symbol of a namespace, or of a class in it. -/
def qualify (space : String) (owner : Option String) (name : String) : String :=
  joined (space :: owner.toList ++ [name])

/-- The text after the last `::`. -/
def lastSegment (name : String) : String :=
  match Text.cutLast? [':', ':'] name.toList with
  | some (_, after) => String.ofList after
  | none => name

/-- The text before the last `::`, empty for an unqualified name. -/
def parentScope (name : String) : String :=
  match Text.cutLast? [':', ':'] name.toList with
  | some (before, _) => String.ofList before
  | none => ""

/-- The text before the first `<`, without the blanks that end it. -/
def withoutTemplateArgs (name : String) : String :=
  String.ofList (Text.trimEnd (name.toList.takeWhile (· ≠ '<')))

/-- Do the trailing segments of `name` equal all segments of `tail`? -/
def endsWithSegments (name tail : String) : Bool :=
  (segments tail).isSuffixOf (segments name)

end ScriptBindings.Name
