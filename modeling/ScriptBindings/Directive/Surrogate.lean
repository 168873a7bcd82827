import ScriptBindings.Directive.Hint
import ScriptBindings.Directive.Merge

/-!
# Surrogates

A surrogate carries flags to another symbol, which may be met before or after it.  The flags wait
under the name of their target.  Every symbol of that name receives each of them once, in the order in
which they came in; how many it has received is remembered by the symbol's identifier.
-/

namespace ScriptBindings

/-- A conflict of flags, with the symbol it was found at. -/
structure TargetConflict where
  target : String
  conflict : Flags.Conflict
deriving DecidableEq, Repr, Inhabited

/-- What directives need besides their own text: the type sets, the flags that wait for a target, how
many of them each symbol has received, the targets that were met, and the conflicts so far. -/
structure FlagContext where
  typeSets : TypeSets
  waiting : Dict (List Flags)
  received : Dict Nat
  met : Dict Unit
  conflicts : List TargetConflict
deriving DecidableEq, Repr

namespace FlagContext

/-- A context in which nothing waits, with type sets besides the built-in ones. -/
def new (extra : TypeSets) : FlagContext :=
  ⟨.extended extra, .empty, .empty, .empty, []⟩

instance : Inhabited FlagContext := ⟨new .empty⟩

/-- The flags that wait for a target, in the order in which they came in. -/
def waitingFor (ctx : FlagContext) (target : String) : List Flags :=
  (ctx.waiting.get? target).getD []

/-- Let flags wait for a target. -/
def buffer (ctx : FlagContext) (target : String) (flags : Flags) : FlagContext :=
  { ctx with waiting := ctx.waiting.insert target (ctx.waitingFor target ++ [flags]) }

/-- What the flags received by a symbol are counted under. -/
def receiverKey (fqn id : String) : String :=
  if id = "" then fqn else id

/-- How many of the flags that wait under its name a symbol has received. -/
def receivedBy (ctx : FlagContext) (key : String) : Nat :=
  (ctx.received.get? key).getD 0

/-- Merge flags into others one after the other, and list the conflicts. -/
def mergeAll (target : String) (flags : Flags) (more : List Flags) :
    Flags × List TargetConflict :=
  more.foldl (fun (flags, found) f =>
    (flags.merge f, found ++ (flags.conflicts f).map fun c => ⟨target, c⟩)) (flags, [])

/-- Give a symbol the flags that wait for it and that it has not received yet. -/
def apply (ctx : FlagContext) (fqn id : String) (flags : Flags) : Flags × FlagContext :=
  match ctx.waiting.get? fqn with
  | none => (flags, ctx)
  | some waiting =>
      let key := receiverKey fqn id
      let (merged, found) := mergeAll fqn flags (waiting.drop (ctx.receivedBy key))
      (merged,
        { ctx with
          received := ctx.received.insert key waiting.length
          met := ctx.met.insert fqn ()
          conflicts := ctx.conflicts ++ found })

/-- The targets that were never met, ascending. -/
def pending (ctx : FlagContext) : List String :=
  ctx.waiting.keys.filter fun target => !ctx.met.contains target

end FlagContext

end ScriptBindings
