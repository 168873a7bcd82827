/-!
# JSON

JSON values with integers for numbers and members in the order in which they are written, and their
printed form over several lines.
-/

namespace ScriptBindings

/-- A JSON value. -/
inductive Json where
  | null
  | boolean (b : Bool)
  | integer (n : Int)
  | string (s : String)
  | array (items : List Json)
  | object (members : List (String × Json))

namespace Json

instance : Inhabited Json := ⟨.null⟩

/-- A list of texts. -/
def strings (l : List String) : Json := .array (l.map .string)

/-- A value that may be absent. -/
def optional {α : Type} (f : α → Json) : Option α → Json
  | some a => f a
  | none => .null

/-- The digits of a character's number, four of them, in base sixteen. -/
def hexDigits (n : Nat) : List Char :=
  let ds := Nat.toDigits 16 n
  List.replicate (4 - ds.length) '0' ++ ds

/-- A character inside of a printed text. -/
def escaped (c : Char) : List Char :=
  if c = '"' then ['\\', '"']
  else if c = '\\' then ['\\', '\\']
  else if c = '\x08' then ['\\', 'b']
  else if c = '\x0c' then ['\\', 'f']
  else if c = '\n' then ['\\', 'n']
  else if c = '\r' then ['\\', 'r']
  else if c = '\t' then ['\\', 't']
  else if c.toNat < 0x20 then '\\' :: 'u' :: hexDigits c.toNat
  else [c]

/-- A printed text. -/
def printString (s : String) : String :=
  String.ofList ('"' :: s.toList.flatMap escaped ++ ['"'])

/-- The start of a line at a depth. -/
def newline (depth : Nat) : String :=
  String.ofList ('\n' :: List.replicate (2 * depth) ' ')

mutual

/-- The printed form of a value whose first line is at a depth: two spaces for each level, and brackets
without content on one line. -/
def print (depth : Nat) : Json → String
  | .null => "null"
  | .boolean b => if b then "true" else "false"
  | .integer n => toString n
  | .string s => printString s
  | .array [] => "[]"
  | .array (item :: rest) =>
      "[" ++ newline (depth + 1) ++ print (depth + 1) item ++ printItems (depth + 1) rest ++
        newline depth ++ "]"
  | .object [] => "\x7b\x7d"
  | .object ((key, value) :: rest) =>
      "\x7b" ++ newline (depth + 1) ++ printString key ++ ": " ++ print (depth + 1) value ++
        printMembers (depth + 1) rest ++ newline depth ++ "\x7d"

/-- The further items of an array. -/
def printItems (depth : Nat) : List Json → String
  | [] => ""
  | item :: rest => "," ++ newline depth ++ print depth item ++ printItems depth rest

/-- The further members of an object. -/
def printMembers (depth : Nat) : List (String × Json) → String
  | [] => ""
  | (key, value) :: rest =>
      "," ++ newline depth ++ printString key ++ ": " ++ print depth value ++
        printMembers depth rest

end

/-- The printed form of a value. -/
def text (j : Json) : String := print 0 j

end Json

end ScriptBindings
