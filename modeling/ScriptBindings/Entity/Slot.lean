import ScriptBindings.Dict
import ScriptBindings.Entity.Callable

/-!
# Slots

All callables of one name share a slot.  Further callables of the name join it in the order in which
they come; a callable that could not be read leaves a placeholder, which gives way to the others but
makes them need a cast.
-/

namespace ScriptBindings

/-- Several callables of one name, in the order of their declarations. -/
structure OverloadGroup where
  name : String := ""
  scope : String := ""
  owner : Option String := none
  overloads : List Callable := []
  flags : Flags := {}
  forceCast : Bool := false
deriving DecidableEq, Inhabited

/-- What is found under the name of a callable. -/
inductive Slot where
  | concrete (f : Callable)
  | overload (g : OverloadGroup)
  | placeholder (p : Placeholder)
deriving DecidableEq, Inhabited

namespace Slot

/-- The name of the callables. -/
def name : Slot → String
  | .concrete f => f.name
  | .overload g => g.name
  | .placeholder p => p.name

/-- The namespace of the callables. -/
def scope : Slot → String
  | .concrete f => f.scope
  | .overload g => g.scope
  | .placeholder p => p.scope

/-- The flags, which placeholders have none of. -/
def flags? : Slot → Option Flags
  | .concrete f => some f.flags
  | .overload g => some g.flags
  | .placeholder _ => none

/-- The callables, in the order of their declarations. -/
def callables : Slot → List Callable
  | .concrete f => [f]
  | .overload g => g.overloads
  | .placeholder _ => []

/-- Change every callable. -/
def mapCallables (h : Callable → Callable) : Slot → Slot
  | .concrete f => .concrete (h f)
  | .overload g => .overload { g with overloads := g.overloads.map h }
  | .placeholder p => .placeholder p

/-- Require a cast. -/
def setForceCast : Slot → Slot
  | .concrete f => .concrete { f with forceCast := true }
  | .overload g => .overload { g with forceCast := true }
  | .placeholder p => .placeholder p

/-- Is a cast required? -/
def forceCast : Slot → Bool
  | .concrete f => f.forceCast
  | .overload g => g.forceCast
  | .placeholder _ => false

/-- Give everything to a class. -/
def rehome (scope owner : String) : Slot → Slot
  | .concrete f => .concrete (f.rehome scope owner)
  | .overload g =>
      .overload
        { g with
          scope := scope
          owner := some owner
          overloads := g.overloads.map (Callable.rehome scope owner) }
  | .placeholder p => .placeholder { p with scope := scope, owner := some owner }

/-- Two callables of one name. -/
def pair (first second : Callable) : OverloadGroup where
  name := first.name
  scope := first.scope
  owner := first.owner
  overloads := [first, second]
  flags := first.flags
  forceCast := first.forceCast

/-- A slot and what comes to it later. -/
def join : Slot → Slot → Slot
  | .concrete first, .concrete second => .overload (pair first second)
  | .overload g, .concrete next => .overload { g with overloads := g.overloads ++ [next] }
  | .overload g, .overload other =>
      .overload
        { g with
          overloads := g.overloads ++ other.overloads
          forceCast := g.forceCast || other.forceCast }
  | .concrete first, .overload g => .overload { g with overloads := first :: g.overloads }
  | .placeholder _, real@(.concrete _) => real.setForceCast
  | .placeholder _, real@(.overload _) => real.setForceCast
  | real, .placeholder _ => real.setForceCast

end Slot

/-- Slots by key. -/
abbrev Slots := Dict Slot

/-- Put a slot under a key, joining it to the slot that is there. -/
def Slots.add (slots : Slots) (key : String) (incoming : Slot) : Slots :=
  match slots.get? key with
  | none => slots.insert key incoming
  | some present => slots.insert key (present.join incoming)

end ScriptBindings
