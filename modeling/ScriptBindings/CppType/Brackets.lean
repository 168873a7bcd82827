import ScriptBindings.Text.Blank
import ScriptBindings.Text.Cut

/-!
# Brackets in types

The three kinds of brackets, and the scanners that respect them.  A scanner carries the closing
brackets that it still awaits, innermost first, and fails where another one comes.
-/

namespace ScriptBindings.CppType

/-- The bracket that closes an opening one. -/
def closer? : Char → Option Char
  | '<' => some '>'
  | '(' => some ')'
  | '[' => some ']'
  | _ => none

/-- A closing bracket of any kind. -/
def isCloser (c : Char) : Bool :=
  c == '>' || c == ')' || c == ']'

/-- Cut at every `sep` outside of brackets; nothing if the brackets are not nested properly. -/
def cutOutside (sep : Char) : List Char → List Char → Option (List (List Char))
  | [], [] => some [[]]
  | _ :: _, [] => none
  | awaited, c :: s =>
      match closer? c with
      | some d => (cutOutside sep (d :: awaited) s).map (Text.consHead c)
      | none =>
          if isCloser c then
            match awaited with
            | [] => none
            | d :: outer =>
                if c = d then (cutOutside sep outer s).map (Text.consHead c) else none
          else if c = sep ∧ awaited = [] then (cutOutside sep [] s).map ([] :: ·)
          else (cutOutside sep awaited s).map (Text.consHead c)

/-- The trimmed pieces between the separators outside of brackets, without the blank ones. -/
def splitOutside (sep : Char) (s : List Char) : Option (List (List Char)) :=
  (cutOutside sep [] s).map fun pieces => (pieces.map Text.trim).filter fun p => !p.isEmpty

/-- The text inside of an open group and the text behind it.  The list of awaited brackets ends with
the one that closes the group. -/
def takeGroup : List Char → List Char → Option (List Char × List Char)
  | _, [] => none
  | awaited, c :: s =>
      let within (r : Option (List Char × List Char)) : Option (List Char × List Char) :=
        r.map fun (inside, after) => (c :: inside, after)
      match closer? c with
      | some d => within (takeGroup (d :: awaited) s)
      | none =>
          if isCloser c then
            match awaited with
            | [] => none
            | [d] => if c = d then some ([], s) else none
            | d :: outer => if c = d then within (takeGroup outer s) else none
          else within (takeGroup awaited s)

/-- The parts before and after the first `(` outside of brackets.  Only the depth is counted here,
and a closing bracket too many does not make it negative. -/
def cutAtParen? : Nat → List Char → Option (List Char × List Char)
  | _, [] => none
  | depth, c :: s =>
      if c = '(' ∧ depth = 0 then some ([], s)
      else
        let depth := if (closer? c).isSome then depth + 1
          else if isCloser c then depth - 1
          else depth
        (cutAtParen? depth s).map fun (before, after) => (c :: before, after)

end ScriptBindings.CppType
