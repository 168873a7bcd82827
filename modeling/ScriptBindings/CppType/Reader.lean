import ScriptBindings.CppType.Basic
import ScriptBindings.CppType.Brackets
import ScriptBindings.CppType.Error
import ScriptBindings.CppType.Words

/-!
# Reading C++ types

A type text is stripped of the qualifiers at its ends; what is left is a name, a template or a
function, told apart by the first `<` or `(` and by the last character.  The parts of a template or
function are shorter than the whole, so the length of the text bounds the depth of the reading.
-/

namespace ScriptBindings

namespace Qualifiers

/-- One word in front of the text and the blank that must follow it, with the rest of the text. -/
def takeLeading? (s : List Char) : Option (String × List Char) :=
  CppType.leadingWords.findSome? fun word =>
    match Text.afterLead? word.toList s with
    | some (c :: rest) => if Text.isBlank c then some (word, Text.trimStart rest) else none
    | _ => none

/-- Is a mark that starts like an identifier the end of a longer identifier? -/
def runsOn (mark before : List Char) : Bool :=
  mark.head?.any CppType.isIdentChar && before.getLast?.any CppType.isIdentChar

/-- One mark behind the text, with the text in front of it. -/
def takeTrailing? (s : List Char) : Option (String × List Char) :=
  CppType.trailingMarks.findSome? fun mark =>
    match Text.beforeTail? mark.toList s with
    | some before => if runsOn mark.toList before then none else some (mark, Text.trimEnd before)
    | none => none

/-- Take words off the front as long as there are any, at most `fuel` of them. -/
def stripLeading : Nat → List Char → List String × List Char
  | 0, s => ([], s)
  | fuel + 1, s =>
      match takeLeading? s with
      | some (word, rest) =>
          let (words, core) := stripLeading fuel rest
          (word :: words, core)
      | none => ([], s)

/-- Take marks off the back as long as there are any, at most `fuel` of them. -/
def stripTrailing : Nat → List Char → List Char × List String
  | 0, s => (s, [])
  | fuel + 1, s =>
      match takeTrailing? s with
      | some (mark, rest) =>
          let (core, marks) := stripTrailing fuel rest
          (core, marks ++ [mark])
      | none => (s, [])

/-- Separate a type text from the qualifiers at its ends.  Each step shortens the text, so its
length is enough fuel. -/
def strip (s : List Char) : List Char × Qualifiers :=
  let s := Text.trim s
  let (words, rest) := stripLeading s.length s
  let (core, marks) := stripTrailing rest.length rest
  (core, ⟨words, marks⟩)

end Qualifiers

namespace CppType

/-- The three shapes of a type without qualifiers. -/
inductive Shape where
  | name
  | template
  | function
deriving DecidableEq, Repr

/-- The shape of a type text: a first `(` makes a function, and a first `<` makes a template unless
the text also has a `(` and ends with `)`. -/
def shapeOf (core : List Char) : Shape :=
  match core.find? fun c => c == '<' || c == '(' with
  | none => .name
  | some c =>
      if c = '(' ∨ ('(' ∈ core ∧ core.getLast? = some ')') then .function else .template

/-- The pieces between commas outside of brackets. -/
def splitList (s : List Char) : Except SyntaxError (List (List Char)) :=
  match splitOutside ',' s with
  | some pieces => .ok pieces
  | none => .error (.unbalanced (String.ofList s))

/-- Read a template by its name and the group behind it.  A member of a template type, with `::`
behind the group, is kept as an opaque name. -/
def readTemplate (read : List Char → Except SyntaxError CppType) (core : List Char)
    (q : Qualifiers) : Except SyntaxError CppType :=
  let name := Text.trim (core.takeWhile (· ≠ '<'))
  match takeGroup ['>'] ((core.dropWhile (· ≠ '<')).drop 1) with
  | none => .error (.unbalanced (String.ofList core))
  | some (inside, after) =>
      let after := Text.trim after
      if name = [] then .error .empty
      else if [':', ':'].isPrefixOf after then
        .ok (.base (String.ofList (Text.collapse core)) q)
      else if after ≠ [] then .error (.trailingText (String.ofList core) (String.ofList after))
      else do
        let pieces ← splitList inside
        return .template (String.ofList (Text.collapse name)) q (← pieces.mapM read)

/-- A reference or pointer mark. -/
def isMarkChar (c : Char) : Bool :=
  c == '&' || c == '*'

/-- Add a token to the tokens before it, which are given last first; marks in front of it belong to
the token before. -/
def glueToken (before : List (List Char)) (token : List Char) : List (List Char) :=
  let marks := token.takeWhile isMarkChar
  let rest := token.dropWhile isMarkChar
  match before with
  | [] => [token]
  | previous :: earlier =>
      if marks = [] then token :: before
      else if rest = [] then (previous ++ marks) :: earlier
      else rest :: (previous ++ marks) :: earlier

/-- Glue the marks that stand apart to the tokens before them. -/
def glueMarks (tokens : List (List Char)) : List (List Char) :=
  (tokens.foldl glueToken []).reverse

/-- The name generated for the argument at a position. -/
def positionName (index : Nat) : String :=
  "p" ++ index.repr

/-- Read an argument of a function: a type, or a type and a name that is no built-in type. -/
def readArgument (read : List Char → Except SyntaxError CppType) (index : Nat)
    (text : List Char) : Except SyntaxError FunctionArg :=
  let (core, q) := Qualifiers.strip text
  match splitOutside ' ' core with
  | none => .error (.unbalanced (String.ofList core))
  | some tokens =>
      match glueMarks tokens with
      | [ty] => do return ⟨← read ty, q, positionName index, true⟩
      | [ty, name] =>
          if isIdentifier name && !isPrimitiveWord name then do
            return ⟨← read ty, q, String.ofList name, false⟩
          else .error (.ambiguousArgument (String.ofList text))
      | _ => .error (.ambiguousArgument (String.ofList text))

/-- Read a function by its result and the group behind it. -/
def readFunction (read : List Char → Except SyntaxError CppType) (core : List Char)
    (q : Qualifiers) : Except SyntaxError CppType :=
  match cutAtParen? 0 core with
  | none => .error (.unbalanced (String.ofList core))
  | some (before, rest) =>
      match takeGroup [')'] rest with
      | none => .error (.unbalanced (String.ofList core))
      | some (inside, after) =>
          let after := Text.trim after
          let result := Text.trim before
          if after ≠ [] then .error (.trailingText (String.ofList core) (String.ofList after))
          else if result = [] then .error (.missingResult (String.ofList core))
          else do
            let result ← read result
            let pieces ← splitList inside
            return .function result q (← pieces.zipIdx.mapM fun (arg, i) => readArgument read i arg)

/-- Read one type, going at most `fuel` levels deep. -/
def readSegment : Nat → List Char → Except SyntaxError CppType
  | 0, _ => .error .empty
  | fuel + 1, s =>
      let (core, q) := Qualifiers.strip s
      if core = [] then .error .empty
      else
        match shapeOf core with
        | .name => .ok (.base (String.ofList (Text.collapse core)) q)
        | .template => readTemplate (readSegment fuel) core q
        | .function => readFunction (readSegment fuel) core q

/-- Read a text that holds exactly one type. -/
def readChars (s : List Char) : Except SyntaxError CppType := do
  match ← splitList s with
  | [] => .error .empty
  | [segment] => readSegment (segment.length + 1) segment
  | segments => .error (.multipleRoots (String.ofList s) segments.length)

/-- Read a string that holds exactly one type. -/
def parse (s : String) : Except SyntaxError CppType :=
  readChars s.toList

end CppType

end ScriptBindings
