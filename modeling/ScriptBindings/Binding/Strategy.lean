/-!
# Binding strategies

How a callable is handed to scripts: by its address, by a cast address, through a wrapper that adapts
parameters or the result, by code of the author's own, or as one of several.  A strategy says what is
bound; only the spelling of an overload is up to the scripting side.
-/

namespace ScriptBindings

/-- Why a callable needs a wrapper. -/
inductive WrapperReason where
  | proxy
  | abstractReference
  | rvalueReference
  | primitiveReference
  | nonCopyableReturn
  | defaultParameters
  | constructor
deriving DecidableEq, Repr, Inhabited

/-- A wrapper around a call: its parameters by type and name, the receiver first, its result type, what
is called with which arguments, and what is put in front of the call. -/
structure CallWrapper where
  parameters : List (String × String) := []
  returnType : String := ""
  call : String := ""
  arguments : List String := []
  callLead : String := ""
  reason : WrapperReason := .proxy
deriving DecidableEq, Repr, Inhabited

/-- A cast of an address: the signature to choose, and the class for a pointer to a member. -/
structure AddressCast where
  returnType : String := ""
  owner : Option String := none
  parameters : List String := []
  qualifiers : List String := []
  target : String := ""
deriving DecidableEq, Repr, Inhabited

/-- What is bound for a callable. -/
inductive Strategy where
  | deleted (reason : String)
  | direct (target : String)
  | cast (c : AddressCast)
  | wrapper (w : CallWrapper)
  | overload (variants : List Strategy)
  | verbatim (code : String)
deriving Inhabited

/-- The wrapper as an expression of the program. -/
def CallWrapper.text (w : CallWrapper) : String :=
  let parameters := ", ".intercalate (w.parameters.map fun (ty, name) => ty ++ " " ++ name)
  let arguments := ", ".intercalate w.arguments
  "[](" ++ parameters ++ ") -> " ++ w.returnType ++ " \x7b return " ++ w.callLead ++ w.call ++
    "(" ++ arguments ++ "); \x7d"

/-- The cast as an expression of the program. -/
def AddressCast.text (c : AddressCast) : String :=
  let owner := (c.owner.map (· ++ "::")).getD ""
  let words := " ".intercalate c.qualifiers
  let qualifiers := if words = "" then "" else " " ++ words
  let parameters := ", ".intercalate c.parameters
  "static_cast<" ++ c.returnType ++ " (" ++ owner ++ "*)(" ++ parameters ++ ")" ++ qualifiers ++
    ">(" ++ c.target ++ ")"

namespace Strategy

/-- Nothing is bound. -/
def isDeleted : Strategy → Bool
  | .deleted _ => true
  | _ => false

/-- Several variants are bound together. -/
def isOverload : Strategy → Bool
  | .overload _ => true
  | _ => false

mutual

/-- The variants that are bound, those of variants included. -/
def leaves : Strategy → List Strategy
  | .deleted _ => []
  | .overload variants => leavesOfList variants
  | .direct target => [.direct target]
  | .cast c => [.cast c]
  | .wrapper w => [.wrapper w]
  | .verbatim code => [.verbatim code]

/-- The variants that several strategies bind. -/
def leavesOfList : List Strategy → List Strategy
  | [] => []
  | s :: ss => s.leaves ++ leavesOfList ss

end

/-- The expression of a strategy that binds one thing. -/
def text? : Strategy → Option String
  | .direct target => some target
  | .cast c => some c.text
  | .wrapper w => some w.text
  | .verbatim code => some code
  | .deleted _ => none
  | .overload _ => none

end Strategy

end ScriptBindings
