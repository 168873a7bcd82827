import ScriptBindings.Toml.Draft
import ScriptBindings.Toml.Lexeme

/-!
# Reading configuration documents

A document is a list of lines: headers of tables, headers of further tables of an array, and keys with
values.  Keys belong to the table of the header before them.
-/

namespace ScriptBindings.Toml

/-- A character of a value without quotes or brackets: no blank, no line end, and none of the characters
that stand between values. -/
def isWordChar (c : Char) : Bool :=
  !" \t\r\n#=,[]\x7b\x7d".toList.contains c

/-- The value that a word stands for. -/
def ofWord? (word : List Char) : Option Toml :=
  if word = "true".toList then some (.boolean true)
  else if word = "false".toList then some (.boolean false)
  else (wholeNumber? word).map .integer

/-- Read the equality sign behind a key. -/
def afterEquals? : List Char → Option (List Char)
  | '=' :: s => some (skipBlanks s)
  | _ => none

/-- Read the equality sign behind a key of a table in braces; lines may end on both sides of it. -/
def afterEqualsInBraces? (s : List Char) : Option (List Char) := do
  match ← afterLines? s.length s with
  | '=' :: s => afterLines? s.length s
  | _ => none

/-- The greatest depth of arrays and tables in braces inside of each other. -/
def maxDepth : Nat := 80

mutual

/-- Read a value; the first argument bounds the number of its parts, and the second one its depth. -/
def takeValue? : Nat → Nat → List Char → Option (Toml × List Char)
  | 0, _, _ => none
  | fuel + 1, room, s =>
      match s, room with
      | '[' :: _, 0 => none
      | '[' :: rest, room + 1 => do
          let (items, rest) ← takeItems? fuel room rest
          return (.array items, rest)
      | '\x7b' :: _, 0 => none
      | '\x7b' :: rest, room + 1 => do
          let (entries, rest) ← takeEntries? fuel room [] rest
          return (.table (Draft.finishEntries entries), rest)
      | c :: _, _ =>
          if c = '"' ∨ c = '\'' then do
            let (text, rest) ← takeText? s
            return (.string text, rest)
          else do
            let v ← ofWord? (s.takeWhile isWordChar)
            return (v, s.dropWhile isWordChar)
      | [], _ => none

/-- Read the rest of an array.  A comma may stand behind the last item. -/
def takeItems? : Nat → Nat → List Char → Option (List Toml × List Char)
  | 0, _, _ => none
  | fuel + 1, room, s => do
      match ← afterLines? s.length s with
      | ']' :: rest => return ([], rest)
      | s =>
          let (item, s) ← takeValue? fuel room s
          match ← afterLines? s.length s with
          | ']' :: rest => return ([item], rest)
          | ',' :: s =>
              let (items, rest) ← takeItems? fuel room s
              return (item :: items, rest)
          | _ => none

/-- Read the rest of a table in braces, whose entries so far are given.  A comma may stand behind the
last entry. -/
def takeEntries? : Nat → Nat → Draft.Entries → List Char → Option (Draft.Entries × List Char)
  | 0, _, _, _ => none
  | fuel + 1, room, entries, s => do
      match ← afterLines? s.length s with
      | '\x7d' :: rest => return (entries, rest)
      | s =>
          let (path, key, s) ← takeKeys? maxKeys s
          let (v, s) ← takeValue? fuel room (← afterEqualsInBraces? s)
          let entries ← Draft.assign? path key v entries
          match ← afterLines? s.length s with
          | '\x7d' :: rest => return (entries, rest)
          | ',' :: s => takeEntries? fuel room entries s
          | _ => none

end

/-- What a line of a document says: a table is written out, one more table of an array is, or a key
has a value.  Keys are given by the keys before the last dot and the last key. -/
inductive Line where
  | header (path : List String) (key : String)
  | itemHeader (path : List String) (key : String)
  | assignment (path : List String) (key : String) (v : Toml)

/-- Read a line without what may follow at its end. -/
def takeLine? (s : List Char) : Option (Line × List Char) := do
  match s with
  | '[' :: '[' :: s =>
      match ← takeKeys? maxKeys s with
      | (path, key, ']' :: ']' :: rest) => return (.itemHeader path key, rest)
      | _ => none
  | '[' :: s =>
      match ← takeKeys? maxKeys s with
      | (path, key, ']' :: rest) => return (.header path key, rest)
      | _ => none
  | s =>
      let (path, key, s) ← takeKeys? maxKeys s
      let s ← afterEquals? s
      let (v, rest) ← takeValue? (s.length + 1) maxDepth s
      return (.assignment path key v, rest)

/-- Read all lines; the first argument bounds their number. -/
def takeLines? : Nat → List Char → Option (List Line)
  | 0, s => if s.isEmpty then some [] else none
  | fuel + 1, s => do
      let s ← afterLines? s.length s
      if s.isEmpty then return []
      let (line, s) ← takeLine? s
      return line :: (← takeLines? fuel (← afterLine? s))

/-- The tables so far, and the keys of the header in force. -/
structure Progress where
  entries : Draft.Entries := []
  current : List String := []

/-- Take one line in. -/
def Progress.add? (p : Progress) : Line → Option Progress
  | .header path key => do
      return { entries := ← Draft.openTable? path key p.entries, current := path ++ [key] }
  | .itemHeader path key => do
      return { entries := ← Draft.openItem? path key p.entries, current := path ++ [key] }
  | .assignment path key v => do
      let assign (_ : Origin) (entries : Draft.Entries) : Option Draft.Entries :=
        Draft.assign? path key v entries
      let entries ← Draft.within? .onTheWay assign p.current .header p.entries
      return { p with entries := entries }

/-- Read a document as its top table; nothing if it is not well formed. -/
def parse? (text : String) : Option (List (String × Toml)) := do
  let s := match text.toList with
    | '\uFEFF' :: s => s
    | s => s
  let lines ← takeLines? (s.length + 1) s
  let progress ← lines.foldlM Progress.add? {}
  return Draft.finishEntries progress.entries

end ScriptBindings.Toml
