import ScriptBindings.CppType.Error

/-!
# Faults of documentation

The causes for which documentation cannot be turned into a database.  An unreadable type is a fault
only where nothing can stand in for the symbol that has it.
-/

namespace ScriptBindings

/-- A cause for which reading documentation stops. -/
inductive Fault where
  | typeSyntax (cause : CppType.SyntaxError)
  | ambiguousName (name context : String) (candidates : List String)
  | missingNode (tag context : String)
  | malformedDocument
deriving DecidableEq, Repr, Inhabited

/-- The wording of a fault. -/
def Fault.message : Fault → String
  | .typeSyntax cause => cause.message
  | .ambiguousName name context candidates =>
      let listed := ", ".intercalate candidates
      s!"ambiguous type `{name}` in `{context}`, candidates: {listed}"
  | .missingNode tag context => s!"missing <{tag}> in {context}"
  | .malformedDocument => "invalid xml"

end ScriptBindings
