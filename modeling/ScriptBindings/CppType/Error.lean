/-!
# Why a text is not a type

The causes for which reading a type fails.  Each keeps the text it was found in.
-/

namespace ScriptBindings.CppType

/-- A text that is not a C++ type. -/
inductive SyntaxError where
  | empty
  | unbalanced (text : String)
  | multipleRoots (text : String) (count : Nat)
  | trailingText (text trailing : String)
  | missingResult (text : String)
  | ambiguousArgument (text : String)
deriving DecidableEq, Repr, Inhabited

/-- The wording of a cause. -/
def SyntaxError.message : SyntaxError → String
  | .empty => "empty type string"
  | .unbalanced text => s!"unbalanced brackets in `{text}`"
  | .multipleRoots text count =>
      s!"expected a single type but found {count} top-level segments in `{text}`"
  | .trailingText text trailing =>
      s!"unexpected text `{trailing}` after closing bracket in `{text}`"
  | .missingResult text => s!"function type `{text}` has no return type"
  | .ambiguousArgument text =>
      s!"cannot separate type from name in function argument `{text}`"

end ScriptBindings.CppType
