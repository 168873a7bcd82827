/-!
# Text templates

A template is text with holes, written as a name in braces.  A brace that is text is doubled.  A hole
with a name that has no value is left as it is, and so is a brace that stands alone.  Values are never
read as templates.
-/

namespace ScriptBindings.Template

/-- Values by the name of the hole; the first one for a name counts. -/
abbrev Values := List (String × String)

/-- What stands in place of a hole. -/
def fill (values : Values) (name : List Char) : List Char :=
  match values.lookup (String.ofList name) with
  | some value => value.toList
  | none => '\x7b' :: name ++ ['\x7d']

/-- Fill the holes from left to right.  Inside of a hole, the name so far is at hand, last character
first. -/
def renderChars (values : Values) : Option (List Char) → List Char → List Char
  | none, [] => []
  | some _, [] => []
  | some name, c :: s =>
      if c = '\x7d' then fill values name.reverse ++ renderChars values none s
      else renderChars values (some (c :: name)) s
  | none, '\x7b' :: '\x7b' :: s => '\x7b' :: renderChars values none s
  | none, '\x7d' :: '\x7d' :: s => '\x7d' :: renderChars values none s
  | none, c :: s =>
      if c = '\x7b' ∧ '\x7d' ∈ s then renderChars values (some []) s
      else c :: renderChars values none s

/-- Fill the holes of a template. -/
def render (template : String) (values : Values) : String :=
  String.ofList (renderChars values none template.toList)

end ScriptBindings.Template
