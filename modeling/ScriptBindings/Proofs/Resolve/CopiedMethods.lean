import Mathlib
import ScriptBindings.Proofs.Resolve.HandedDown

/-!
# Which methods are copied

A class that asks for the items of its bases keeps its own slots.  A name that it does not have is filled by
the first of its bases that is known and had the name before any class received methods.  What a base receives
itself is therefore not handed on, and the classes may receive their methods one after another, in place and in
any order.
-/

namespace ScriptBindings

namespace Resolve

open Database

variable {db : Database} {key name : String} {c : Class} {found : Option Slot}

/-! ## The priority of the bases -/

/-- A method as it is declared in a class; the identifier tells the class. -/
def declared (owner name : String) : Slot :=
  .concrete { id := owner, name := name, scope := "ns", owner := some owner }

end Resolve

end ScriptBindings
