import ScriptBindings.Text.Blank

/-!
# The words of the type language

Which characters make identifiers, which words and marks qualify a type, and which words name a
built-in type.
-/

namespace ScriptBindings.CppType

/-- Identifiers are made of ASCII letters, ASCII digits and `_`. -/
def isIdentChar (c : Char) : Bool :=
  c.isAlphanum || c == '_'

/-- A non-empty text of identifier characters that does not begin with a digit. -/
def isIdentifier (s : List Char) : Bool :=
  match s with
  | [] => false
  | c :: _ => (c.isAlpha || c == '_') && s.all isIdentChar

/-- The words that may stand in front of a type. -/
def leadingWords : List String :=
  ["const", "constexpr", "consteval", "static", "volatile"]

/-- The marks that may stand behind a type, in the order in which they are tried: a mark comes
before every mark that it ends with. -/
def trailingMarks : List String :=
  ["&&", "const&", "const*", "&", "*", "const", "volatile"]

/-- The words that name built-in types. -/
def primitiveWords : List String :=
  ["void", "bool", "char", "wchar_t", "char8_t", "char16_t", "char32_t", "short", "int", "long",
    "float", "double", "unsigned", "signed", "auto", "size_t", "std::size_t", "int8_t",
    "int16_t", "int32_t", "int64_t", "uint8_t", "uint16_t", "uint32_t", "uint64_t",
    "std::int8_t", "std::int16_t", "std::int32_t", "std::int64_t", "std::uint8_t",
    "std::uint16_t", "std::uint32_t", "std::uint64_t", "intptr_t", "uintptr_t", "ptrdiff_t"]

/-- A single word that names a built-in type. -/
def isPrimitiveWord (s : List Char) : Bool :=
  primitiveWords.contains (String.ofList s)

/-- A non-empty name all of whose words name built-in types, such as `unsigned int`. -/
def isPrimitiveName (name : String) : Bool :=
  name ≠ "" && (Text.words name.toList).all isPrimitiveWord

end ScriptBindings.CppType
