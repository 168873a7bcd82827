import ScriptBindings.Name.Scope

/-!
# Encoded names

Documentation files are named after the symbol they describe: the kind of compound, then the name
with `:` written `_1`, an upper-case letter written `_` and the lower-case letter, and `_` written
`__`.  This module decodes such names, and works out the name that a cross-reference points to from
its target and its visible text.
-/

namespace ScriptBindings.Name

/-- The kinds of compound that an encoded name may begin with. -/
def compoundKinds : List String := ["class", "namespace", "struct"]

/-- Drop the kind of compound in front, if there is one. -/
def withoutKind (id : List Char) : List Char :=
  (compoundKinds.findSome? fun kind => Text.afterLead? kind.toList id).getD id

/-- Characters that a `_` may follow when it marks an upper-case letter. -/
def precedesMark (c : Char) : Bool :=
  c == ':' || c.isAlphanum

/-- Read `x_y` as `xY`, passing over each such triple as a whole. -/
def raiseMarked : List Char → List Char
  | a :: t@('_' :: b :: s) =>
      if precedesMark a && b.isAlphanum then a :: b.toUpper :: raiseMarked s
      else a :: raiseMarked t
  | c :: s => c :: raiseMarked s
  | [] => []

/-- Read a mark in front of the whole name. -/
def raiseFirst : List Char → List Char
  | '_' :: c :: s => if c.isAlphanum then c.toUpper :: s else '_' :: c :: s
  | s => s

/-- Decode the name behind the kind of compound. -/
def decodeChars (id : List Char) : List Char :=
  let colons := Text.replace ['_', '1'] [':'] (withoutKind id)
  Text.replace ['_', '_'] ['_'] (raiseFirst (raiseMarked colons))

/-- The name that an encoded compound name stands for. -/
def decode (id : String) : String :=
  String.ofList (decodeChars id.toList)

/-- Put the visible segments in place of the decoded ones they overlap: from the first visible
segment on, or from the last decoded one if that segment is not among the last ones. -/
def overlay (decoded visible : List String) : List String :=
  let start := decoded.length - visible.length
  let shared := (decoded.drop start).findIdx? (some · = visible.head?)
  decoded.take ((shared.map (start + ·)).getD (decoded.length - 1)) ++ visible

/-- The number of leading segments that two names share. -/
def sharedLead : List String → List String → Nat
  | a :: as, b :: bs => if a = b then sharedLead as bs + 1 else 0
  | _, _ => 0

/-- The name a reference points to, by its target and its visible text, which is right about the
trailing segments. -/
def ofReference? (target visible : String) : Option String :=
  let short := segments visible
  let t := target.toList
  match (Text.afterLead? "class".toList t).or (Text.afterLead? "struct".toList t) with
  | some rest => some (joinScopes (overlay (segments (String.ofList (decodeChars rest))) short))
  | none =>
      (Text.afterLead? "namespace".toList t).map fun rest =>
        let scope := ((Text.cutLast? ['_'] rest).map (·.1)).getD rest
        let parts := scopes (String.ofList (decodeChars scope))
        joinScopes (parts ++ short.drop (sharedLead parts short))

end ScriptBindings.Name
