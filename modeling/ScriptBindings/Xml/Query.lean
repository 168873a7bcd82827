import ScriptBindings.Text.Blank
import ScriptBindings.Xml.Tree

/-!
# Questions to elements

Child elements are asked for by tag, attributes by name, both with regard to case.
-/

namespace ScriptBindings.Xml.Element

/-- The child elements with a tag, in document order. -/
def children (e : Element) (tag : String) : List Element :=
  (e.content.filterMap Node.element?).filter fun c => c.tag = tag

/-- The first child element with a tag. -/
def child? (e : Element) (tag : String) : Option Element :=
  (e.children tag).head?

/-- The trimmed text of the first child element with a tag, empty if there is none. -/
def childText (e : Element) (tag : String) : String :=
  match e.child? tag with
  | some c => Text.trimmed c.text
  | none => ""

/-- The trimmed text of the first child element with a tag, if it is not empty. -/
def childText? (e : Element) (tag : String) : Option String :=
  some (e.childText tag) |>.filter (· ≠ "")

/-- The value of an attribute. -/
def attr? (e : Element) (name : String) : Option String :=
  (e.attrs.find? fun a => a.1 = name).map (·.2)

/-- The value of an attribute, empty if it is absent. -/
def attr (e : Element) (name : String) : String :=
  (e.attr? name).getD ""

/-- Does an attribute have the value `yes`? -/
def flag (e : Element) (name : String) : Bool :=
  e.attr? name = some "yes"

end ScriptBindings.Xml.Element
