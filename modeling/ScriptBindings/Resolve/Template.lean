import ScriptBindings.CppType.Substitute
import ScriptBindings.Entity.Database
import ScriptBindings.Name.Casing

/-!
# Specialised templates

A template cannot be bound, but the types it is wanted for can.  A class template is replaced by one
class for each combination of its hints.  A function template is replaced by one function for each
combination, under the bind name of the hint; without hints a class template is not bound and a
function template leaves a placeholder.
-/

namespace ScriptBindings.Resolve

/-- The concrete types of a combination. -/
def argumentsOf (b : Combination) : List String :=
  b.map (·.2)

/-- What a concrete type adds to a bind name. -/
def argumentSuffix (type : String) : String :=
  let word := Name.capitalize (Text.replaced " " "_" (Name.lastSegment type))
  String.join ((Text.pieces '_' word).map Name.capitalize)

/-- The bind name of one combination; combinations that share a hint are told apart by their types. -/
def specialisationName (bindName : String) (b : Combination) (shared : Bool) : String :=
  if shared then bindName ++ String.join ((argumentsOf b).map argumentSuffix) else bindName

/-- Put the types of a combination in place of template parameters. -/
def substituteParam (b : Combination) (p : Parameter) : Parameter :=
  { p with ty := p.ty.substitute b }

/-- A method of a specialised class. -/
def specialiseMethod (owner : String) (b : Combination) (f : Callable) : Callable :=
  { f with
    owner := some owner
    params := f.params.map (substituteParam b)
    result := f.result.map (·.substitute b) }

/-- A constructor of a specialised class, which returns the class. -/
def specialiseConstructor (owner fqn : String) (b : Combination) (f : Callable) : Callable :=
  specialiseMethod owner b { f with result := some (f.result.getD (.named fqn)) }

/-- The methods of a slot of a specialised class. -/
def specialiseSlot (owner : String) (b : Combination) : Slot → Slot
  | .concrete f => .concrete (specialiseMethod owner b f)
  | .overload g =>
      .overload
        { g with
          owner := some owner
          overloads := g.overloads.map (specialiseMethod owner b) }
  | .placeholder p => .placeholder p

/-- The class that a class template is for one combination. -/
def specialiseClass (t : Class) (bindName : String) (shared : Bool) (b : Combination) : Class :=
  let arguments := ", ".intercalate (argumentsOf b)
  let name := t.name ++ "<" ++ arguments ++ ">"
  let fqn := Name.qualify t.scope none name
  { t with
    name := name
    isTemplate := false
    flags := { t.flags with
      templateHints := []
      rename := some (specialisationName bindName b shared) }
    constructors := t.constructors.map (specialiseConstructor name fqn b)
    methods := t.methods.map fun _ slot => specialiseSlot name b slot
    hiddenMethods := t.hiddenMethods.map fun _ slot => specialiseSlot name b slot
    attributes := t.attributes.map fun _ a =>
      { a with owner := name, ty := a.ty.substitute b } }

/-- The classes that a class template is replaced by. -/
def specialisations (t : Class) : List Class :=
  t.flags.templateHints.flatMap fun hint =>
    hint.combinations.map (specialiseClass t hint.bindName (1 < hint.combinations.length))

/-- The members of a specialised class that are also wanted as functions, with the names for it. -/
def mergedMembers (c : Class) : List (String × Callable) :=
  (c.constructors ++ c.allMethods.flatMap Slot.callables).filterMap fun f =>
    f.flags.mergeSpecialisationsAs.map fun shared => (shared, f)

/-- Callables by the name under which they are merged. -/
abbrev Merges := Dict (List Callable)

/-- Add a callable to those that are merged under a name. -/
def addMerge (m : Merges) (e : String × Callable) : Merges :=
  m.insert e.1 ((m.get? e.1).getD [] ++ [e.2])

/-- A class template without hints is kept and not bound. -/
def unboundTemplate (t : Class) : Class :=
  { t with flags := { t.flags with noBind := true } }

/-- Replace the class template with a key. -/
def replaceTemplate (state : Dict Class × Merges) (key : String) : Dict Class × Merges :=
  match state.1.get? key with
  | none => state
  | some t =>
      let others := state.1.erase key
      if t.flags.templateHints = [] then (others.insert key (unboundTemplate t), state.2)
      else
        let specs := specialisations t
        (others.insertAll (specs.map fun c => (c.fqn, c)),
          (specs.flatMap mergedMembers).foldl addMerge state.2)

/-- The function under which callables are merged: a group that must be cast. -/
def mergedFunction? (shared : String) (callables : List Callable) : Option (String × Slot) :=
  callables.head?.map fun first =>
    (Name.qualify first.scope none shared,
      .overload
        { name := shared
          scope := first.scope
          owner := first.owner
          overloads := callables.map fun f =>
            { f with flags := { f.flags with rename := some shared } }
          flags := first.flags
          forceCast := true })

/-- Replace every class template, in the order of their names. -/
def specialiseClasses (db : Database) : Database :=
  let templates := (db.classes.filter fun _ c => c.isTemplate).keys
  let (classes, merges) := templates.foldl replaceTemplate (db.classes, .empty)
  let merged := merges.entries.filterMap fun (shared, callables) => mergedFunction? shared callables
  { db with classes := classes, functions := db.functions.insertAll merged }

/-- The function that a function template is for one combination. -/
def specialiseFunction (f : Callable) (bindName : String) (b : Combination) : Callable :=
  { f with
    isTemplate := false
    templateArgs := argumentsOf b
    params := f.params.map (substituteParam b)
    result := f.result.map (·.substitute b)
    flags := { f.flags with templateHints := [], rename := some bindName }
    forceCast := true }

/-- What stands for a function template without hints. -/
def unboundFunction (f : Callable) : Placeholder where
  id := f.id
  name := f.name
  scope := f.scope
  owner := f.owner
  visibility := f.visibility
  reason := "template without hints"

/-- What a callable of a slot with templates is replaced by, under which keys. -/
def expandCallable (keyFor : Callable → String → String) (key : String) (forceCast : Bool)
    (f : Callable) : List (String × Slot) :=
  if !f.isTemplate then [(key, .concrete { f with forceCast := f.forceCast || forceCast })]
  else if f.flags.templateHints = [] then [(key, .placeholder (unboundFunction f))]
  else
    f.flags.templateHints.flatMap fun hint =>
      hint.combinations.map fun b =>
        (keyFor f hint.bindName, .concrete (specialiseFunction f hint.bindName b))

/-- Rebuild a slot among those rebuilt so far; one without templates is taken over as it is. -/
def rebuildSlot (keyFor : Callable → String → String) (out : Slots) (e : String × Slot) : Slots :=
  let (key, slot) := e
  if slot.callables.any (·.isTemplate) then
    (slot.callables.flatMap (expandCallable keyFor key slot.forceCast)).foldl
      (fun out e => out.add e.1 e.2) out
  else out.insert key slot

/-- Replace the function templates of some slots, in the order of the keys. -/
def specialiseSlots (keyFor : Callable → String → String) (slots : Slots) : Slots :=
  slots.entries.foldl (rebuildSlot keyFor) .empty

/-- Replace every function template, and every method template that is public. -/
def specialiseFunctions (db : Database) : Database :=
  { db with
    functions := specialiseSlots (fun f bindName => Name.qualify f.scope none bindName) db.functions
    classes := db.classes.map fun _ c =>
      { c with methods := specialiseSlots (fun _ bindName => bindName) c.methods } }

end ScriptBindings.Resolve
