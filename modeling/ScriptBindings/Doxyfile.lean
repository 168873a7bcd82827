import ScriptBindings.Text.Cut

/-!
# Settings of the documentation tool

The tool's settings come from a template with a mark where the source directories belong.
-/

namespace ScriptBindings.Doxyfile

/-- The mark that stands for the source directories. -/
def directoriesMark : String := "\x7b\x7binput_directories\x7d\x7d"

/-- What stands between two directories: the line goes on, and the next one is aligned. -/
def separator : String :=
  " \\\n" ++ String.ofList (List.replicate 25 ' ')

/-- Put the source directories into a template. -/
def render (template : String) (directories : List String) : String :=
  Text.replaced directoriesMark (separator.intercalate directories) template

end ScriptBindings.Doxyfile
