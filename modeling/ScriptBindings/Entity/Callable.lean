import ScriptBindings.CppType.Basic
import ScriptBindings.Directive.Flags
import ScriptBindings.Location
import ScriptBindings.Name.Scope

/-!
# Callables

Functions, methods, constructors and destructors, as far as bindings need to know them.
-/

namespace ScriptBindings

/-- The words that qualify a member. -/
structure MemberQuals where
  isConst : Bool := false
  isStatic : Bool := false
  isVolatile : Bool := false
deriving DecidableEq, Repr, Inhabited

/-- A parameter; one with a default may be left out of a call. -/
structure Parameter where
  name : String
  ty : CppType
  default : Option String := none
  description : String := ""
deriving DecidableEq, Inhabited

/-- A function of a namespace, or a method of the class `owner` in it.  Constructors and destructors
have no result.  A callable whose bare address would be ambiguous has to be cast. -/
structure Callable where
  id : String := ""
  name : String := ""
  scope : String := ""
  owner : Option String := none
  definition : String := ""
  params : List Parameter := []
  result : Option CppType := none
  isTemplate : Bool := false
  templateParams : List String := []
  templateArgs : List String := []
  quals : MemberQuals := {}
  flags : Flags := {}
  forceCast : Bool := false
  description : String := ""
  deleted : Bool := false
  isAbstract : Bool := false
  visibility : Visibility := .pub
  location : Location := {}
deriving DecidableEq, Inhabited

namespace Callable

/-- The qualified name of the class that owns the callable. -/
def classFqn (f : Callable) : Option String :=
  f.owner.map fun c => Name.qualify f.scope none c

/-- The qualified name. -/
def fqn (f : Callable) : String :=
  Name.qualify f.scope f.owner f.name

/-- The name for scripts. -/
def bindName (f : Callable) : String :=
  f.flags.rename.getD f.name

/-- Does a class own it? -/
def isMethod (f : Callable) : Bool :=
  f.owner.isSome

/-- Give a callable to a class. -/
def rehome (scope owner : String) (f : Callable) : Callable :=
  { f with scope := scope, owner := some owner }

end Callable

/-- What is known of a callable whose declaration could not be read. -/
structure Placeholder where
  id : String := ""
  name : String := ""
  scope : String := ""
  owner : Option String := none
  visibility : Visibility := .pub
  reason : String := ""
deriving DecidableEq, Repr, Inhabited

end ScriptBindings
