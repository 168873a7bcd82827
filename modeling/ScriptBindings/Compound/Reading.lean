import ScriptBindings.CppType.Reader
import ScriptBindings.CppType.Repair
import ScriptBindings.Entity.Callable
import ScriptBindings.Name.Encoded

/-!
# Reading types in their place

A documented type is text mixed with references.  References are replaced by the qualified names they
point to, the text is read as a type, and the names in it are qualified for the place they stand in.
A type that cannot be read spoils only the symbol that has it; an ambiguous name stops the reading.
-/

namespace ScriptBindings.Compound

/-- What all compounds are read against: the known symbols and the project's directory. -/
structure Setting where
  index : SymbolIndex
  root : String

/-- The place of a member: the namespace, the class in it, and the template parameters in scope. -/
structure Place where
  scope : String
  owner : Option String := none
  templateParams : List String := []

namespace Place

/-- The scope that relative names are looked up from. -/
def context (place : Place) : String :=
  Name.qualify place.scope none (place.owner.getD "")

/-- The qualified name of a member. -/
def fqn (place : Place) (name : String) : String :=
  Name.qualify place.scope place.owner name

end Place

/-- Something that was read, or the reason why it could not be. -/
inductive Reading (α : Type) where
  | read (a : α)
  | unreadable (reason : String)

/-- What a reference stands for: the symbol with its identifier, or else the name that the identifier
encodes, or else the visible text. -/
def referenceText (index : SymbolIndex) (ref : Xml.Element) : String :=
  let shown := ref.text
  match ref.attr? "refid" with
  | none => shown
  | some id =>
      match index.byId.get? id with
      | some symbol => symbol.fqn
      | none => (Name.ofReference? id shown).getD shown

/-- The text of a part of a type. -/
def partText (index : SymbolIndex) : Xml.Node → String
  | .text s => s
  | .element e => if e.tag = "ref" then referenceText index e else e.text

/-- The text of a type, with single spaces. -/
def typeText (index : SymbolIndex) (e : Xml.Element) : String :=
  Text.collapsed (String.join (e.content.map (partText index)))

/-- Read the text of a type in its place. -/
def readType (s : Setting) (place : Place) (text : String) : Except Fault (Reading CppType) :=
  match CppType.parse text with
  | .error cause =>
      let because := cause.message
      .ok (.unreadable s!"cannot parse type `{text}`: {because}")
  | .ok t =>
      match t.repair s.index place.context place.templateParams with
      | .ok t => .ok (.read t)
      | .error (.typeSyntax cause) => .ok (.unreadable cause.message)
      | .error fault => .error fault

/-- Read the type of a symbol; nothing if it has none or a blank one. -/
def memberType (s : Setting) (place : Place) (e : Xml.Element) :
    Except Fault (Option (Reading CppType)) :=
  match e.child? "type" with
  | none => .ok none
  | some t =>
      let text := typeText s.index t
      if text = "" then .ok none else (readType s place text).map some

/-- The name of a template parameter: the declared one, or the last word of its type. -/
def templateParam? (param : Xml.Element) : Option String :=
  (param.childText? "declname").or
    ((Text.words (param.childText "type").toList).getLast?.map String.ofList)

/-- The names of the template parameters of a symbol. -/
def templateParams (e : Xml.Element) : List String :=
  match e.child? "templateparamlist" with
  | none => []
  | some list => (list.children "param").filterMap templateParam?

/-- The members of all sections, in document order. -/
def members (compound : Xml.Element) : List Xml.Element :=
  (compound.children "sectiondef").flatMap fun s => s.children "memberdef"

/-- The visibility that a protection stands for. -/
def visibilityOf : Option String → Visibility
  | some "protected" => .prot
  | some "private" => .priv
  | _ => .pub

/-- The words that qualify a member. -/
def memberQuals (member : Xml.Element) : MemberQuals :=
  ⟨member.flag "const", member.flag "static", member.flag "volatile"⟩

end ScriptBindings.Compound
