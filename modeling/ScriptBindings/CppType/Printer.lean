import ScriptBindings.CppType.Basic
import ScriptBindings.CppType.Words

/-!
# Printing C++ types

Every word in front of a type is followed by a space.  A mark behind it is preceded by a space if it
starts like an identifier, and is attached otherwise.  Arguments are separated by a comma and a
space.
-/

namespace ScriptBindings

namespace Qualifiers

/-- A mark as it is attached to what stands before it. -/
def attached (mark : String) : List Char :=
  match mark.toList with
  | [] => []
  | c :: s => if CppType.isIdentChar c then ' ' :: c :: s else c :: s

/-- Write the qualifiers around a text. -/
def wrap (q : Qualifiers) (core : List Char) : List Char :=
  q.leading.flatMap (fun word => word.toList ++ [' ']) ++ core ++ q.trailing.flatMap attached

/-- `wrap` on strings. -/
def format (q : Qualifiers) (core : String) : String :=
  String.ofList (q.wrap core.toList)

end Qualifiers

namespace CppType

/-- Texts with a comma and a space between them. -/
def commaSeparated (texts : List (List Char)) : List Char :=
  [',', ' '].intercalate texts

mutual

/-- The printed form of a type. -/
def chars : CppType → List Char
  | .base n q => q.wrap n.toList
  | .template n q args => q.wrap (n.toList ++ '<' :: commaSeparated (charsOfList args) ++ ['>'])
  | .function r q args => q.wrap (r.chars ++ '(' :: commaSeparated (charsOfArgs args) ++ [')'])

/-- The printed forms of several types. -/
def charsOfList : List CppType → List (List Char)
  | [] => []
  | t :: ts => t.chars :: charsOfList ts

/-- The printed forms of function arguments: the type, and the name unless it is generated. -/
def charsOfArgs : List FunctionArg → List (List Char)
  | [] => []
  | ⟨ty, q, name, generated⟩ :: rest =>
      q.wrap (if generated then ty.chars else ty.chars ++ ' ' :: name.toList) :: charsOfArgs rest

end

/-- The printed form as a string. -/
def text (t : CppType) : String :=
  String.ofList t.chars

/-- A name, and not a template or a function, all of whose words name built-in types. -/
def isPrimitive : CppType → Bool
  | .base n _ => isPrimitiveName n
  | _ => false

end CppType

end ScriptBindings
