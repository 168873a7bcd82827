import ScriptBindings.Dict
import ScriptBindings.Fault
import ScriptBindings.Name.Scope
import ScriptBindings.Xml.Query
import ScriptBindings.Xml.Reader

/-!
# The symbol index

What the symbols of a project are called, by the identifier that cross-references use and by
qualified name.  A later registration takes the place of an earlier one under the same identifier,
and, independently, under the same name.
-/

namespace ScriptBindings

/-- The kinds of symbols. -/
inductive SymbolKind where
  | space
  | cls
  | method
  | field
  | enumeration
  | typedef
  | function
  | variable
  | define
deriving DecidableEq, Repr, Inhabited

/-- The kinds that the name of a type may refer to. -/
def SymbolKind.isType : SymbolKind → Bool
  | .cls => true
  | .typedef => true
  | .enumeration => true
  | _ => false

/-- A symbol with its identifier, its qualified name and its name. -/
structure Symbol where
  kind : SymbolKind
  refid : String
  fqn : String
  name : String
deriving DecidableEq, Repr, Inhabited

/-- Symbols by identifier and by qualified name. -/
structure SymbolIndex where
  byId : Dict Symbol
  byName : Dict Symbol
deriving DecidableEq, Repr

namespace SymbolIndex

/-- The index without symbols. -/
def empty : SymbolIndex := ⟨.empty, .empty⟩

instance : Inhabited SymbolIndex := ⟨empty⟩

/-- Add a symbol. -/
def register (index : SymbolIndex) (s : Symbol) : SymbolIndex :=
  ⟨index.byId.insert s.refid s, index.byName.insert s.fqn s⟩

/-- Add a list of symbols from left to right. -/
def registerAll (index : SymbolIndex) (symbols : List Symbol) : SymbolIndex :=
  symbols.foldl register index

/-- The index of a list of symbols. -/
def ofSymbols (symbols : List Symbol) : SymbolIndex :=
  empty.registerAll symbols

/-- All symbols of both; those of the second win. -/
def merge (a b : SymbolIndex) : SymbolIndex :=
  ⟨a.byId.union b.byId, a.byName.union b.byName⟩

/-- The number of qualified names. -/
def size (index : SymbolIndex) : Nat := index.byName.size

/-- Does a qualified name belong to a type? -/
def isType (index : SymbolIndex) (fqn : String) : Bool :=
  (index.byName.get? fqn).any fun s => s.kind.isType

/-- The symbols whose trailing segments equal all segments of a name, by qualified name. -/
def endingWith (index : SymbolIndex) (name : String) : List Symbol :=
  (index.byName.entries.filter fun e => Name.endsWithSegments e.1 name).map (·.2)

/-- The qualified names of types that end with a name, ascending. -/
def typesEndingWith (index : SymbolIndex) (name : String) : List String :=
  (index.byName.entries.filter fun e =>
    Name.endsWithSegments e.1 name && e.2.kind.isType).map (·.1)

/-- The qualified names of types, ascending. -/
def types (index : SymbolIndex) : List String :=
  (index.byName.entries.filter fun e => e.2.kind.isType).map (·.1)

/-- The kind that a member of a class, or of another compound, is registered as. -/
def memberKind? (inClass : Bool) : String → Option SymbolKind
  | "function" => some (if inClass then .method else .function)
  | "variable" => some (if inClass then .field else .variable)
  | "enum" => some .enumeration
  | "typedef" => some .typedef
  | "define" => if inClass then none else some .define
  | _ => none

/-- The symbol of a member of a compound; the names of members follow `lead`. -/
def memberSymbol? (inClass : Bool) (lead : String) (member : Xml.Element) : Option Symbol :=
  (memberKind? inClass (member.attr "kind")).map fun kind =>
    let name := member.childText "name"
    ⟨kind, member.attr "refid", if kind = .define then name else lead ++ name, name⟩

/-- The symbols of a compound of some kind: itself, if it is a class or a namespace, and its
members. -/
def compoundSymbols (kind : String) (compound : Xml.Element) : List Symbol :=
  let name := compound.childText "name"
  let itself (k : SymbolKind) : Symbol := ⟨k, compound.attr "refid", name, Name.lastSegment name⟩
  let members (inClass : Bool) (lead : String) : List Symbol :=
    (compound.children "member").filterMap (memberSymbol? inClass lead)
  if kind = "class" ∨ kind = "struct" then itself .cls :: members true (name ++ "::")
  else if kind = "namespace" then itself .space :: members false (name ++ "::")
  else members false ""

/-- The kinds of compounds in the order in which they are registered. -/
def compoundGroups : List (List String) := [["class", "struct"], ["namespace"], ["file"]]

/-- The compounds of one group, with their kinds, in document order. -/
def compoundsOf (root : Xml.Element) (group : List String) : List (String × Xml.Element) :=
  (root.children "compound").filterMap fun c =>
    ((c.attr? "kind").filter group.contains).map fun kind => (kind, c)

/-- The index of a document that lists all compounds: the compounds of one group after those of the
group before, so that a namespace's symbols win over those of a class. -/
def ofDocument (root : Xml.Element) : SymbolIndex :=
  (compoundGroups.flatMap (compoundsOf root)).foldl
    (fun index (kind, c) => index.merge (ofSymbols (compoundSymbols kind c))) empty

/-- Read the index of a document text. -/
def ofText (text : String) : Except Fault SymbolIndex :=
  match Xml.parse? text with
  | some root => .ok (ofDocument root)
  | none => .error .malformedDocument

end SymbolIndex

end ScriptBindings
