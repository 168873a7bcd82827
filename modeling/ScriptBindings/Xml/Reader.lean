import ScriptBindings.Text.Number
import ScriptBindings.Xml.Token
import ScriptBindings.Xml.Tree

/-!
# Reading documents

Tokens are put together to a tree: tags must match, prefixes must be declared, attributes must not be
repeated, and there is one root element with nothing but spaces around it.  Texts get their references
resolved and their line ends turned into line feeds.
-/

namespace ScriptBindings.Xml

/-- The character with a number; a number that is no character stands for the replacement
character. -/
def characterOf? (base : Nat) (digits : List Char) : Option Char :=
  let n := Text.digitsValue base digits
  if digits.isEmpty || 4294967296 ≤ n then none
  else
    let c := if h : n.isValidChar then Char.ofNatAux n h else '\uFFFD'
    if isDocumentChar c then some c else none

/-- The character that a named reference stands for. -/
def namedCharacter? (name : List Char) : Option Char :=
  match String.ofList name with
  | "quot" => some '"'
  | "amp" => some '&'
  | "apos" => some '\''
  | "lt" => some '<'
  | "gt" => some '>'
  | _ => none

/-- The character that the text between `&` and `;` stands for. -/
def referenced? : List Char → Option Char
  | '#' :: 'x' :: digits => if digits.all Text.isHexDigit then characterOf? 16 digits else none
  | '#' :: digits => if digits.all Char.isDigit then characterOf? 10 digits else none
  | name => namedCharacter? name

/-- A character of a text, and whether it was written as a reference. -/
structure Written where
  char : Char
  asReference : Bool
deriving Repr

/-- Resolve the references of a text; the first argument bounds the number of steps. -/
def resolve? : Nat → List Char → Option (List Written)
  | _, [] => some []
  | 0, _ :: _ => none
  | fuel + 1, '&' :: s => do
      let (name, rest) ← Text.cutFirst? [';'] s
      return ⟨← referenced? name, true⟩ :: (← resolve? fuel rest)
  | fuel + 1, c :: s => do
      return ⟨c, false⟩ :: (← resolve? fuel s)

/-- Write a text with the line ends turned into line feeds.  The text so far is given last character
first; a character behind a reference is kept as it is, whatever it is. -/
def writeLines : List Char → Bool → List Written → List Char
  | out, _, [] => out.reverse
  | out, _, ⟨c, true⟩ :: rest => writeLines (c :: out) true rest
  | out, true, ⟨c, false⟩ :: rest => writeLines (c :: out) false rest
  | out, false, ⟨c, false⟩ :: rest =>
      let last : Bool := rest.isEmpty && c == '\r'
      match out with
      | '\r' :: before =>
          if last then writeLines ('\n' :: '\n' :: before) false rest
          else if c = '\n' then writeLines ('\n' :: before) false rest
          else writeLines (c :: '\n' :: before) false rest
      | _ => writeLines ((if last then '\n' else c) :: out) false rest

/-- The text that a run of characters stands for. -/
def textOf? (raw : List Char) : Option String := do
  let written ← resolve? raw.length raw
  return String.ofList (writeLines [] false written)

/-- The text of a verbatim section, which has no references. -/
def verbatimText (raw : List Char) : String :=
  String.ofList (writeLines [] false (raw.map fun c => ⟨c, false⟩))

/-- Write an attribute value: each line end or tab that is not a reference becomes a space. -/
def writeValue : List Written → List Char
  | [] => []
  | ⟨c, true⟩ :: rest => c :: writeValue rest
  | ⟨'\r', false⟩ :: ⟨'\n', false⟩ :: rest => ' ' :: writeValue rest
  | ⟨c, false⟩ :: rest =>
      (if c = '\r' ∨ c = '\n' ∨ c = '\t' then ' ' else c) :: writeValue rest

/-- The value of an attribute. -/
def valueOf? (raw : List Char) : Option String := do
  let written ← resolve? raw.length raw
  return String.ofList (writeValue written)

/-- The prefixes in scope with what they stand for, innermost first; the empty prefix stands for the
default of elements. -/
abbrev Scope := List (List Char × String)

/-- What the prefix `xml` stands for in the names of attributes, without being declared. -/
def xmlNamespace : String := "http://www.w3.org/XML/1998/namespace"

/-- What the prefix `xmlns` stands for; nothing else may stand for it. -/
def declarationNamespace : String := "http://www.w3.org/2000/xmlns/"

/-- The prefix of the attributes that declare prefixes, and the name of those that set the default. -/
def declarationName : List Char := "xmlns".toList

/-- Does an attribute declare a prefix or set the default? -/
def isDeclaration (name : QName) : Bool :=
  name.space = declarationName || name.name = declarationName

/-- Take the declaration that an attribute makes, in front of those that its element has made.  No
prefix is declared twice, though the default may be set again; and the namespace `xml` goes with its
prefix only, where declaring it adds nothing. -/
def declare? (declared : Scope) (name : QName) (value : String) : Option Scope :=
  if value = declarationNamespace then none
  else if name.space = declarationName then
    if name.name = "xml".toList then
      if value = xmlNamespace then some declared else none
    else if value = xmlNamespace || (declared.lookup name.name).isSome then none
    else some ((name.name, value) :: declared)
  else if value = xmlNamespace then none
  else some (([], value) :: declared)

/-- An attribute's namespace and name; a name without a prefix is in none. -/
def expand? (scope : Scope) (name : QName) : Option (Option String × List Char) :=
  if name.space = [] then some (none, name.name)
  else if name.space = "xml".toList then some (some xmlNamespace, name.name)
  else (scope.lookup name.space).map fun uri => (some uri, name.name)

/-- May an element have this prefix?  The prefix `xml` is for attributes. -/
def isElementPrefix (scope : Scope) (space : List Char) : Bool :=
  space.isEmpty || (space != declarationName && (scope.lookup space).isSome)

/-- An element that is still open, with its content so far, last piece first. -/
structure Open where
  name : QName
  attrs : List (String × String)
  scope : Scope
  content : List Node

/-- Open an element in a scope. -/
def open? (scope : Scope) (name : QName) (raw : List RawAttr) : Option Open := do
  let attrs ← raw.mapM fun a => do return (a.name, ← valueOf? a.value)
  let (declarations, plain) := attrs.partition fun (n, _) => isDeclaration n
  let declared ← declarations.foldlM (fun declared (n, v) => declare? declared n v) []
  let scope := declared ++ scope
  let names ← plain.mapM fun (n, _) => expand? scope n
  if isElementPrefix scope name.space && names.eraseDups.length == names.length then
    let kept := plain.filter fun (n, _) => n.space.isEmpty
    return ⟨name, kept.map fun (n, v) => (String.ofList n.name, v), scope, []⟩
  else none

/-- The finished element. -/
def Open.close (o : Open) : Element :=
  ⟨String.ofList o.name.name, o.attrs, o.content.reverse⟩

/-- Add a piece of content. -/
def Open.add (o : Open) (n : Node) : Open :=
  { o with content := n :: o.content }

/-- Put tokens together, with the open elements, innermost first, and the root if it is finished. -/
def build? : List Open → Option Element → List Token → Option Element
  | [], root, [] => root
  | _ :: _, _, [] => none
  | stack, root, .silent :: rest => build? stack root rest
  | [], root, .text raw :: rest => if raw.all isSpace then build? [] root rest else none
  | o :: outer, root, .text raw :: rest => do
      build? (o.add (.text (← textOf? raw)) :: outer) root rest
  | [], _, .verbatim _ :: _ => none
  | o :: outer, root, .verbatim raw :: rest =>
      build? (o.add (.text (verbatimText raw)) :: outer) root rest
  | [], some _, .opening .. :: _ => none
  | [], none, .opening name attrs closed :: rest => do
      let o ← open? [] name attrs
      if closed then build? [] (some o.close) rest else build? [o] none rest
  | parent :: outer, root, .opening name attrs closed :: rest => do
      let o ← open? parent.scope name attrs
      if closed then build? (parent.add (.element o.close) :: outer) root rest
      else build? (o :: parent :: outer) root rest
  | [], _, .closing _ :: _ => none
  | [o], _, .closing name :: rest =>
      if o.name = name then build? [] (some o.close) rest else none
  | o :: parent :: outer, root, .closing name :: rest =>
      if o.name = name then build? (parent.add (.element o.close) :: outer) root rest else none

/-- The root element of a document; nothing if the text is not well formed. -/
def parse? (text : String) : Option Element := do
  let s := text.toList
  if s.all isDocumentChar then build? [] none (← documentTokens? s) else none

end ScriptBindings.Xml
