import ScriptBindings.Fault
import ScriptBindings.Path
import ScriptBindings.Text.Number
import ScriptBindings.Xml.Query

/-!
# Source locations

Where a symbol is declared: a file, relative to the project if it lies in it, a line and a column.
-/

namespace ScriptBindings

/-- A place in a source file. -/
structure Location where
  file : String := ""
  line : Nat := 0
  column : Nat := 0
deriving DecidableEq, Repr, Inhabited

namespace Location

/-- The location that an element holds.  It must be there, while its numbers may be missing. -/
def ofElement (e : Xml.Element) (context root : String) : Except Fault Location :=
  match e.child? "location" with
  | none => .error (.missingNode "location" context)
  | some l =>
      let number (name : String) : Nat := ((l.attr? name).bind Text.word32?).getD 0
      .ok ⟨Path.relativeTo (l.attr "file") root, number "line", number "column"⟩

end Location

end ScriptBindings
