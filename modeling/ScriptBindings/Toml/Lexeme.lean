import ScriptBindings.Text.Cut
import ScriptBindings.Text.Number

/-!
# Words of configuration documents

Blanks, line ends, comments, quoted texts, keys and numbers, each read from the front of a text.
-/

namespace ScriptBindings.Toml

/-- A character that may stand in a comment or in a text of one line. -/
def isPlain (c : Char) : Bool :=
  c = '\t' || (' ' ≤ c && c ≠ '\x7f')

/-- Drop the blanks in front. -/
def skipBlanks (s : List Char) : List Char :=
  s.dropWhile fun c => c = ' ' || c = '\t'

/-- Read past a line end. -/
def afterLineEnd? : List Char → Option (List Char)
  | '\n' :: s => some s
  | '\r' :: '\n' :: s => some s
  | _ => none

/-- Read past the comment in front, if there is one, up to the end of its line. -/
def afterComment? : List Char → Option (List Char)
  | '#' :: s =>
      let rest := s.dropWhile isPlain
      if rest.isEmpty || (afterLineEnd? rest).isSome then some rest else none
  | s => some s

/-- Read past what may follow at the end of a line. -/
def afterLine? (s : List Char) : Option (List Char) := do
  let s ← afterComment? (skipBlanks s)
  if s.isEmpty then return [] else afterLineEnd? s

/-- Read past blanks, comments and line ends; the first argument bounds the number of lines. -/
def afterLines? : Nat → List Char → Option (List Char)
  | 0, s => some s
  | fuel + 1, s => do
      let s ← afterComment? (skipBlanks s)
      match afterLineEnd? s with
      | some rest => afterLines? fuel rest
      | none => return s

/-- The character with a number of so many hexadecimal digits. -/
def takeCode? (count : Nat) (s : List Char) : Option (Char × List Char) :=
  let digits := s.take count
  let code := Text.digitsValue 16 digits
  if digits.length = count ∧ digits.all Text.isHexDigit then
    if h : code.isValidChar then some (Char.ofNatAux code h, s.drop count) else none
  else none

/-- Read what follows a backslash. -/
def takeEscape? : List Char → Option (Char × List Char)
  | 'b' :: s => some ('\x08', s)
  | 't' :: s => some ('\t', s)
  | 'n' :: s => some ('\n', s)
  | 'f' :: s => some ('\x0c', s)
  | 'r' :: s => some ('\r', s)
  | 'e' :: s => some ('\x1b', s)
  | '"' :: s => some ('"', s)
  | '\\' :: s => some ('\\', s)
  | 'x' :: s => takeCode? 2 s
  | 'u' :: s => takeCode? 4 s
  | 'U' :: s => takeCode? 8 s
  | _ => none

/-- Read the rest of a text in double quotes on one line; the first argument bounds its length. -/
def takeEscaped? : Nat → List Char → Option (List Char × List Char)
  | 0, _ => none
  | _ + 1, [] => none
  | fuel + 1, c :: s =>
      if c = '"' then some ([], s)
      else do
        let (c, s) ← if c = '\\' then takeEscape? s else if isPlain c then some (c, s) else none
        let (text, s) ← takeEscaped? fuel s
        return (c :: text, s)

/-- Read the rest of a text in single quotes on one line. -/
def takeLiteral? (s : List Char) : Option (List Char × List Char) :=
  let inside (c : Char) : Bool := isPlain c && c != '\''
  match s.dropWhile inside with
  | '\'' :: rest => some (s.takeWhile inside, rest)
  | _ => none

/-- Read three quotes, with up to two more in front that belong to the text. -/
def takeClosing? (quote : Char) (s : List Char) : Option (List Char × List Char) :=
  let run := min (s.takeWhile (· = quote)).length 5
  if 3 ≤ run then some (List.replicate (run - 3) quote, s.drop run) else none

/-- Read past blanks and line ends; the first argument bounds the number of lines. -/
def skipBlankLines : Nat → List Char → List Char
  | 0, s => s
  | fuel + 1, s =>
      match afterLineEnd? (skipBlanks s) with
      | some rest => skipBlankLines fuel rest
      | none => skipBlanks s

/-- Read past a line end behind a backslash, and past everything blank that follows it. -/
def afterContinuation? (s : List Char) : Option (List Char) :=
  (afterLineEnd? (skipBlanks s)).map fun rest => skipBlankLines rest.length rest

/-- A character that may stand in a text of several lines, where line ends are kept as written; what
follows it is given. -/
def isBlockChar (c : Char) (s : List Char) : Bool :=
  isPlain c || c = '\n' || (c = '\r' && s.head? = some '\n')

/-- Read the rest of a text in three quotes; escapes count between double quotes only.  The first
argument bounds the length. -/
def takeBlock? (quote : Char) : Nat → List Char → Option (List Char × List Char)
  | 0, _ => none
  | _ + 1, [] => none
  | fuel + 1, c :: s => do
      let more (c : Char) (s : List Char) : Option (List Char × List Char) := do
        let (text, s) ← takeBlock? quote fuel s
        return (c :: text, s)
      match takeClosing? quote (c :: s) with
      | some found => return found
      | none =>
          if c = '\\' ∧ quote = '"' then
            match afterContinuation? s with
            | some rest => takeBlock? quote fuel rest
            | none =>
                let (c, rest) ← takeEscape? s
                more c rest
          else if isBlockChar c s then more c s
          else none

/-- Read a quoted text of either quote on one line. -/
def takeQuoted? : List Char → Option (String × List Char)
  | '"' :: s => do
      let (text, s) ← takeEscaped? (s.length + 1) s
      return (String.ofList text, s)
  | '\'' :: s => do
      let (text, s) ← takeLiteral? s
      return (String.ofList text, s)
  | _ => none

/-- Read a quoted text of any kind; the first line end of a text in three quotes is left out. -/
def takeText? (s : List Char) : Option (String × List Char) :=
  match s with
  | a :: b :: c :: rest =>
      if a = b ∧ b = c ∧ (a = '"' ∨ a = '\'') then do
        let body := (afterLineEnd? rest).getD rest
        let (text, rest) ← takeBlock? a (body.length + 1) body
        return (String.ofList text, rest)
      else takeQuoted? s
  | _ => takeQuoted? s

/-- A character of a key without quotes. -/
def isKeyChar (c : Char) : Bool :=
  c.isAlphanum || c = '-' || c = '_'

/-- Read one key. -/
def takeKey? (s : List Char) : Option (String × List Char) :=
  match s.takeWhile isKeyChar with
  | [] => takeQuoted? s
  | word => some (String.ofList word, s.dropWhile isKeyChar)

/-- The greatest number of keys that dots may join. -/
def maxKeys : Nat := 80

/-- Read keys with dots between them: all but the last one, and the last one.  The first argument
bounds their number. -/
def takeKeys? : Nat → List Char → Option (List String × String × List Char)
  | 0, _ => none
  | fuel + 1, s => do
      let (key, s) ← takeKey? (skipBlanks s)
      match skipBlanks s with
      | '.' :: s =>
          let (path, last, s) ← takeKeys? fuel s
          return (key :: path, last, s)
      | s => return ([], key, s)

/-- Do underscores stand only between digits?  Digits of any base count here. -/
def isGrouped (s : List Char) : Bool :=
  let groups := s.splitOn '_'
  groups.tail.all (fun g => g.head?.any Text.isHexDigit) &&
    groups.dropLast.all fun g => g.getLast?.any Text.isHexDigit

/-- An octal digit. -/
def isOctalDigit (c : Char) : Bool :=
  '0' ≤ c && c ≤ '7'

/-- A binary digit. -/
def isBinaryDigit (c : Char) : Bool :=
  c = '0' || c = '1'

/-- A number behind the mark of its base.  There may be no digits, and then it has no value. -/
def basedNumber? (base : Nat) (isDigit : Char → Bool) (s : List Char) : Option (Option Nat) :=
  let digits := s.filter (· ≠ '_')
  if isGrouped s ∧ digits.all isDigit then
    some (if digits.isEmpty then none else some (Text.digitsValue base digits))
  else none

/-- A decimal number without a sign; it has no leading zeros.  Behind an underscore stands anything that
is not a fraction or an exponent, but the number has a value only if it is made of decimal digits. -/
def decimalNumber? (s : List Char) : Option (Option Nat) :=
  let lead := s.takeWhile Char.isDigit
  let rest := s.dropWhile Char.isDigit
  let digits := s.filter (· ≠ '_')
  if lead.isEmpty ∨ (lead.head? = some '0' ∧ s.length ≠ 1) then none
  else if rest.isEmpty ∨ (rest.head? = some '_' ∧ isGrouped s ∧ !rest.any ".eE".toList.contains) then
    some (if digits.all Char.isDigit then some (Text.digitsValue 10 digits) else none)
  else none

/-- The whole number that a word writes, with its value if it has one. -/
def wholeNumber? : List Char → Option (Option Int)
  | '0' :: 'x' :: s => (basedNumber? 16 Text.isHexDigit s).map (·.map Int.ofNat)
  | '0' :: 'o' :: s => (basedNumber? 8 isOctalDigit s).map (·.map Int.ofNat)
  | '0' :: 'b' :: s => (basedNumber? 2 isBinaryDigit s).map (·.map Int.ofNat)
  | '+' :: s => (decimalNumber? s).map (·.map Int.ofNat)
  | '-' :: s => (decimalNumber? s).map (·.map fun n => -Int.ofNat n)
  | s => (decimalNumber? s).map (·.map Int.ofNat)

end ScriptBindings.Toml
