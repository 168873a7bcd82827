/-!
# Letter case of names

Case is a matter of ASCII letters only; every other character is kept as it is.
-/

namespace ScriptBindings.Name

/-- Make the first ASCII letter upper case, wherever it stands. -/
def capitalizeChars : List Char → List Char
  | [] => []
  | c :: s => if c.isAlpha then c.toUpper :: s else c :: capitalizeChars s

/-- `capitalizeChars` on strings. -/
def capitalize (s : String) : String :=
  String.ofList (capitalizeChars s.toList)

/-- Does a word begin at the upper-case letter between these two neighbours? -/
def beginsWord (before : Char) (after : Option Char) : Bool :=
  before.isLower || before.isDigit || (before.isUpper && after.any (·.isLower))

/-- Lower the case, with the character before the text at hand. -/
def snakeFrom : Option Char → List Char → List Char
  | _, [] => []
  | before, c :: s =>
      if c = '-' ∨ c = ' ' then '_' :: snakeFrom (some c) s
      else if c.isUpper && before.any (beginsWord · s.head?) then
        '_' :: c.toLower :: snakeFrom (some c) s
      else c.toLower :: snakeFrom (some c) s

/-- `LoadClassVector2` becomes `load_class_vector2`, `HTTPServer` becomes `http_server`. -/
def snakeCase (s : String) : String :=
  String.ofList (snakeFrom none s.toList)

end ScriptBindings.Name
