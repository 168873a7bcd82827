import ScriptBindings.Dict
import ScriptBindings.Directive.Flags
import ScriptBindings.Text.Blank
import ScriptBindings.Text.Cut

/-!
# Template hints

A hint is written `Name:T=int;U=$numerics`: a bind name and one assignment per template parameter.  A
parameter is given a type, or a `$` and the name of a set of types; the hint stands for every way to
choose one type per parameter.
-/

namespace ScriptBindings

/-- Lists of types by name. -/
abbrev TypeSets := Dict (List String)

namespace TypeSets

/-- The sets that are always there. -/
def builtin : TypeSets :=
  .ofList [
    ("numerics", ["int", "double"]),
    ("integers", ["int", "unsigned int", "long long", "std::size_t"]),
    ("floats", ["float", "double"]),
    ("strings", ["std::string", "std::string_view"])]

/-- The built-in sets and further ones, which win over built-in ones of the same name. -/
def extended (extra : TypeSets) : TypeSets :=
  builtin.union extra

end TypeSets

namespace TemplateHint

/-- The parameter of an assignment and the types it may have. -/
def choices? (sets : TypeSets) (assignment : String) : Option (String × List String) := do
  let (param, value) ← Text.cutAtChar? '=' assignment
  match (Text.trimmed value).toList with
  | '$' :: set => do return (Text.trimmed param, ← sets.get? (String.ofList set))
  | value => return (Text.trimmed param, [String.ofList value])

/-- All ways to choose, the last parameter changing fastest. -/
def product : List (String × List String) → List Combination
  | [] => [[]]
  | (param, types) :: rest => types.flatMap fun t => (product rest).map ((param, t) :: ·)

/-- The assignments of a hint, blank ones left out. -/
def assignments (text : String) : List String :=
  (Text.pieces ';' text).filter fun a => !Text.isBlankText a

/-- Expand a hint line; nothing if it has no colon, an assignment without `=`, or an unknown set. -/
def expand? (sets : TypeSets) (line : String) : Option TemplateHint := do
  let (bindName, rest) ← Text.cutAtChar? ':' line
  let params ← (assignments rest).mapM (choices? sets)
  return ⟨Text.trimmed bindName, product params⟩

end TemplateHint

end ScriptBindings
