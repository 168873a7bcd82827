import ScriptBindings.Binding.Decide
import ScriptBindings.Binding.Key

/-!
# Binding plans

What is bound for all callables of a slot, one entry per key, and with which signatures a class can be
constructed.
-/

namespace ScriptBindings.Binding

/-- What is bound under a key. -/
structure Entry where
  key : BindKey
  strategy : Strategy
  asProperty : Bool
deriving Inhabited

/-- Add a strategy to those of its key; keys stay in the order in which they first came. -/
def addStrategy (key : BindKey) (s : Strategy) :
    List (BindKey × List Strategy) → List (BindKey × List Strategy)
  | [] => [(key, [s])]
  | (k, ss) :: rest => if k = key then (k, ss ++ [s]) :: rest else (k, ss) :: addStrategy key s rest

/-- The callables of a slot that have a key, with their strategies, deleted ones left out. -/
def boundCallables (db : Database) (slot : Slot) : List (BindKey × Strategy) :=
  let overloaded := 1 < slot.callables.length || slot.forceCast
  slot.callables.filterMap fun f => do
    let key ← BindKey.ofCallable? f
    let s := strategyOf db f overloaded
    if s.isDeleted then none else some (key, s)

/-- One strategy for all variants of some strategies, if there are any. -/
def gather? (ss : List Strategy) : Option Strategy :=
  match Strategy.leavesOfList ss with
  | [] => none
  | [s] => some s
  | variants => some (.overload variants)

/-- What is bound for the callables of a slot. -/
def planSlot (db : Database) (slot : Slot) : List Entry :=
  let asProperty := slot.flags?.any (·.asProperty)
  let grouped := (boundCallables db slot).foldl (fun g (key, s) => addStrategy key s g) []
  grouped.filterMap fun (key, ss) => (gather? ss).map fun s => ⟨key, s, asProperty⟩

/-- How a class can be constructed: the parameter types of each way, and whether it can be at all. -/
structure ConstructorPlan where
  signatures : List (List String) := []
  constructible : Bool := false
deriving DecidableEq, Repr, Inhabited

/-- A constructor that no signature stands for. -/
def isSkippedConstructor (db : Database) (f : Callable) : Bool :=
  f.deleted || f.isTemplate || requiresProxy db f

/-- The signatures of a constructor, one for each number of arguments. -/
def signaturesOf (f : Callable) : List (List String) :=
  (arities f).map fun n => (f.params.map fun p => p.ty.text).take n

/-- Can objects of the class be destroyed from outside? -/
def isDestructible (c : Class) : Bool :=
  c.destructor.all fun d => !d.deleted && d.visibility = .pub

/-- Does the class have a constructor that is not public? -/
def hasHiddenConstructor (c : Class) : Bool :=
  c.hiddenMethods.values.any fun slot => slot.name = Name.withoutTemplateArgs c.name

/-- Work out how a class can be constructed.  A class all of whose constructors are skipped cannot be,
and neither can one that cannot be destroyed. -/
def planConstructors (db : Database) (c : Class) : ConstructorPlan :=
  if c.isAbstract || c.flags.noConstructor || !isDestructible c then {}
  else
    let kept := c.constructors.filter fun f => !isSkippedConstructor db f
    let signatures := kept.flatMap signaturesOf
    let noneSkipped := c.rejectedConstructors.isEmpty && kept.length = c.constructors.length
    ⟨signatures, !hasHiddenConstructor c && (noneSkipped || !signatures.isEmpty)⟩

end ScriptBindings.Binding
