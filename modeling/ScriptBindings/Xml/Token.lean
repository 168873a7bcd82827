import ScriptBindings.Text.Cut
import ScriptBindings.Xml.Chars

/-!
# Tokens of documents

A document text is cut into tags, texts, verbatim sections and things that say nothing.  References
in texts and attribute values are left as written here.  Document type declarations are refused.
-/

namespace ScriptBindings.Xml

/-- A name with the prefix before its colon, empty if there is no colon. -/
structure QName where
  space : List Char
  name : List Char
deriving DecidableEq, Repr

/-- An attribute with its value as written. -/
structure RawAttr where
  name : QName
  value : List Char
deriving Repr

/-- A part of a document. -/
inductive Token where
  | opening (name : QName) (attrs : List RawAttr) (closed : Bool)
  | closing (name : QName)
  | text (raw : List Char)
  | verbatim (raw : List Char)
  | silent
deriving Repr

/-- Drop the spaces in front. -/
def skipSpaces (s : List Char) : List Char :=
  s.dropWhile isSpace

/-- A name or prefix begins as a name must. -/
def beginsName (s : List Char) : Bool :=
  s.head?.any isNameStart

/-- Read a name with at most one colon. -/
def takeQName? (s : List Char) : Option (QName × List Char) :=
  let word := s.takeWhile fun c => isNameChar c || c == ':'
  let rest := s.dropWhile fun c => isNameChar c || c == ':'
  match word.splitOn ':' with
  | [name] => if beginsName name then some (⟨[], name⟩, rest) else none
  | [space, name] =>
      if (space.isEmpty || beginsName space) && beginsName name then some (⟨space, name⟩, rest)
      else none
  | _ => none

/-- Read a name, the equality sign and a quoted value without `<`. -/
def takeAttr? (s : List Char) : Option (RawAttr × List Char) := do
  let (name, s) ← takeQName? s
  match skipSpaces s with
  | '=' :: s =>
      match skipSpaces s with
      | quote :: s =>
          if quote = '"' ∨ quote = '\'' then
            let value := s.takeWhile fun c => c != quote && c != '<'
            match s.dropWhile fun c => c != quote && c != '<' with
            | c :: rest => if c = quote then some (⟨name, value⟩, rest) else none
            | [] => none
          else none
      | [] => none
  | _ => none

/-- Read the rest of an opening tag behind its name.  A space must stand before each attribute. -/
def takeAttrs? : Nat → List Char → Option (List RawAttr × Bool × List Char)
  | 0, _ => none
  | fuel + 1, s =>
      match skipSpaces s with
      | '/' :: '>' :: rest => some ([], true, rest)
      | '>' :: rest => some ([], false, rest)
      | inner =>
          if s.head?.any isSpace then do
            let (a, rest) ← takeAttr? inner
            let (attrs, closed, rest) ← takeAttrs? fuel rest
            return (a :: attrs, closed, rest)
          else none

/-- A comment has no two dashes in a row and does not end with a dash. -/
def isComment (body : List Char) : Bool :=
  !Text.occursIn ['-', '-'] body && body.getLast? != some '-'

/-- The start of an XML declaration, which is allowed at the start of a document only. -/
def declarationLead : List Char := "<?xml ".toList

/-- Read one token; nothing if the text begins with none.  The first argument bounds the number of
attributes. -/
def takeToken? (fuel : Nat) (s : List Char) : Option (Token × List Char) :=
  match s with
  | [] => none
  | '<' :: '!' :: rest =>
      match Text.afterLead? "--".toList rest, Text.afterLead? "[CDATA[".toList rest with
      | some body, _ => do
          let (body, rest) ← Text.cutFirst? "-->".toList body
          if isComment body then some (.silent, rest) else none
      | _, some body => do
          let (body, rest) ← Text.cutFirst? "]]>".toList body
          return (.verbatim body, rest)
      | _, _ => none
  | '<' :: '?' :: rest => do
      let (body, after) ← Text.cutFirst? "?>".toList rest
      if body.head?.any (fun c => isNameStart c || c == ':') && !declarationLead.isPrefixOf s then
        some (.silent, after)
      else none
  | '<' :: '/' :: rest => do
      let (name, rest) ← takeQName? rest
      match skipSpaces rest with
      | '>' :: rest => some (.closing name, rest)
      | _ => none
  | '<' :: rest => do
      let (name, rest) ← takeQName? rest
      let (attrs, closed, rest) ← takeAttrs? fuel rest
      return (.opening name attrs closed, rest)
  | _ =>
      let raw := s.takeWhile (· ≠ '<')
      if Text.occursIn "]]>".toList raw then none
      else some (.text raw, s.dropWhile (· ≠ '<'))

/-- Read all tokens.  Neither a token nor an attribute is empty, so the length of the text is enough
fuel. -/
def tokens? : Nat → List Char → Option (List Token)
  | _, [] => some []
  | 0, _ :: _ => none
  | fuel + 1, s => do
      let (token, rest) ← takeToken? (fuel + 1) s
      return token :: (← tokens? fuel rest)

/-- Read past one part of the XML declaration: spaces, or nothing before the end. -/
def declarationGap? (s : List Char) : Option (List Char) :=
  if s.head?.any isSpace then some (skipSpaces s)
  else if ['?', '>'].isPrefixOf s || s.isEmpty then some s
  else none

/-- Read past an optional part of the XML declaration. -/
def optionalPart? (name : String) (s : List Char) : Option (List Char) :=
  if name.toList.isPrefixOf s then (takeAttr? s).map (·.2) else some s

/-- Read past the XML declaration, if the text begins with one. -/
def afterDeclaration? (s : List Char) : Option (List Char) :=
  if declarationLead.isPrefixOf s then do
    let s := skipSpaces (s.drop 5)
    if "version".toList.isPrefixOf s then
      let s ← declarationGap? (← optionalPart? "version" s)
      let s ← if "encoding".toList.isPrefixOf s then
          (optionalPart? "encoding" s).bind declarationGap?
        else some s
      let s ← optionalPart? "standalone" s
      Text.afterLead? ['?', '>'] (skipSpaces s)
    else none
  else some s

/-- The tokens of a document text behind its byte order mark and its declaration. -/
def documentTokens? (s : List Char) : Option (List Token) := do
  let s := if s.head? = some '\uFEFF' then s.tail else s
  let body ← afterDeclaration? s
  tokens? body.length body

end ScriptBindings.Xml
