/-!
# Cutting texts

Finding a piece of text inside another one: at the front, at the back, at its first or last
occurrence, and everywhere.  A piece to look for is never empty.
-/

namespace ScriptBindings.Text

/-- What follows `lead`, if the text starts with it. -/
def afterLead? (lead s : List Char) : Option (List Char) :=
  lead.isPrefixOf? s

/-- What precedes `tail`, if the text ends with it. -/
def beforeTail? (tail s : List Char) : Option (List Char) :=
  tail.isSuffixOf? s

/-- The parts before and after the first occurrence of `mark`. -/
def cutFirst? (mark : List Char) : List Char → Option (List Char × List Char)
  | [] => none
  | c :: s =>
      match mark.isPrefixOf? (c :: s) with
      | some after => some ([], after)
      | none => (cutFirst? mark s).map fun (before, after) => (c :: before, after)

/-- The parts before and after the last occurrence of `mark`. -/
def cutLast? (mark : List Char) : List Char → Option (List Char × List Char)
  | [] => none
  | c :: s =>
      match cutLast? mark s with
      | some (before, after) => some (c :: before, after)
      | none => (mark.isPrefixOf? (c :: s)).map fun after => ([], after)

/-- Replacement from left to right; the first argument counts the characters of an occurrence
that are still to be passed over. -/
def replaceFrom (old new : List Char) : Nat → List Char → List Char
  | _, [] => []
  | skip + 1, _ :: s => replaceFrom old new skip s
  | 0, c :: s =>
      if old.isPrefixOf (c :: s) then new ++ replaceFrom old new (old.length - 1) s
      else c :: replaceFrom old new 0 s

/-- Replace all occurrences of `old` that do not overlap, leftmost first. -/
def replace (old new s : List Char) : List Char :=
  replaceFrom old new 0 s

/-- `replace` on strings. -/
def replaced (old new s : String) : String :=
  String.ofList (replace old.toList new.toList s.toList)

/-- Does `mark` occur in the text? -/
def occursIn (mark s : List Char) : Bool :=
  (cutFirst? mark s).isSome

/-- Put a character in front of the first of several pieces. -/
def consHead (c : Char) : List (List Char) → List (List Char)
  | [] => [[c]]
  | w :: ws => (c :: w) :: ws

/-- The text cut at every occurrence of one character, the empty pieces included. -/
def pieces (c : Char) (s : String) : List String :=
  (s.toList.splitOn c).map String.ofList

/-- The parts before and after the first occurrence of one character. -/
def cutAtChar? (c : Char) (s : String) : Option (String × String) :=
  (cutFirst? [c] s.toList).map fun (before, after) => (String.ofList before, String.ofList after)

/-- The text starts with `lead`. -/
def startsWith (lead s : String) : Bool :=
  lead.toList.isPrefixOf s.toList

/-- The text ends with `tail`. -/
def endsWith (tail s : String) : Bool :=
  tail.toList.isSuffixOf s.toList

end ScriptBindings.Text
