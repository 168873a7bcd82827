/-!
# Element trees

A document is its root element: a tag, attributes, and content in which elements and texts alternate
freely.  Comments and processing instructions are not part of the tree.  Tags are kept without their
prefix, and attributes with a prefix are not kept, since nothing asks for them.
-/

namespace ScriptBindings.Xml

mutual

/-- An element with its attributes and its content, in document order. -/
structure Element where
  tag : String
  attrs : List (String × String)
  content : List Node

/-- A piece of content. -/
inductive Node where
  | element (e : Element)
  | text (s : String)

end

instance : Inhabited Element := ⟨⟨"", [], []⟩⟩

/-- The element, if the piece of content is one. -/
def Node.element? : Node → Option Element
  | .element e => some e
  | .text _ => none

mutual

/-- All text inside of an element. -/
def Element.text : Element → String
  | ⟨_, _, content⟩ => textOfContent content

/-- All text of some content. -/
def textOfContent : List Node → String
  | [] => ""
  | n :: ns => n.allText ++ textOfContent ns

/-- All text of a piece of content. -/
def Node.allText : Node → String
  | .element e => e.text
  | .text s => s

end

end ScriptBindings.Xml
