import ScriptBindings.Entity.Database

/-!
# Inheritance

What classes get from the classes they derive from: abstractness, the bases of their bases, hooks and
methods.  The base relation may have cycles and may lead out of the database; every walk remembers the
classes it has met, so the classes not met yet bound it.
-/

namespace ScriptBindings.Resolve

/-- The classes of a database that are not among the names met. -/
def unmet (db : Database) (met : List String) : List Class :=
  db.classes.values.filter fun c => c.fqn ∉ met

theorem mem_values_of_class? {db : Database} {name : String} {c : Class}
    (h : db.class? name = some c) : c ∈ db.classes.values := by
  unfold Database.class? Database.findClass? at h
  split at h
  · rename_i found
    obtain rfl : _ = c := by simpa using h
    exact Dict.mem_values_of_get? found
  · simp only [Option.map_map, Option.map_eq_some_iff] at h
    obtain ⟨d, found, rfl⟩ := h
    exact Dict.mem_values_of_get? found

theorem unmet_cons (db : Database) (met : List String) (name : String) :
    unmet db (name :: met) = (unmet db met).filter fun c => c.fqn ≠ name := by
  simp [unmet, List.filter_filter]

/-- Meeting a class of the database for the first time leaves fewer classes to meet. -/
theorem length_unmet_cons_lt {db : Database} {met : List String} {c : Class}
    (hc : c ∈ db.classes.values) (hm : c.fqn ∉ met) :
    (unmet db (c.fqn :: met)).length < (unmet db met).length := by
  rw [unmet_cons, List.length_filter_lt_length_iff_exists]
  exact ⟨c, List.mem_filter.2 ⟨hc, by simpa using hm⟩, by simp⟩

/-- The classes that the names in a queue lead to, nearest first, without those met already. -/
def ancestorsFrom (db : Database) (met queue : List String) : List Class :=
  match queue with
  | [] => []
  | base :: rest =>
      match _found : db.class? base with
      | none => ancestorsFrom db met rest
      | some parent =>
          if _new : parent.fqn ∈ met then ancestorsFrom db met rest
          else parent :: ancestorsFrom db (parent.fqn :: met) (rest ++ parent.bases)
termination_by ((unmet db met).length, queue.length)
decreasing_by
  · exact Prod.Lex.right _ (by simp)
  · exact Prod.Lex.right _ (by simp)
  · exact Prod.Lex.left _ _ (length_unmet_cons_lt (mem_values_of_class? _found) _new)

/-- All classes of the database that a class derives from, nearest first. -/
def ancestors (db : Database) (c : Class) : List Class :=
  ancestorsFrom db [c.fqn] c.bases

/-- All callables of a class that have a slot. -/
def methodsOf (c : Class) : List Callable :=
  c.allMethods.flatMap Slot.callables

/-- A name that some of the methods leave to be implemented and none of them implements. -/
def isMissing (methods : List Callable) (name : String) : Bool :=
  (methods.any fun f => f.isAbstract && f.name = name) &&
    !methods.any fun f => !f.isAbstract && f.name = name

/-- A class with an abstract ancestor that leaves a method unimplemented. -/
def inheritsAbstractness (db : Database) (c : Class) : Bool :=
  let lineage := ancestors db c
  let methods := (lineage ++ [c]).flatMap methodsOf
  lineage.any (·.isAbstract) && methods.any fun f => isMissing methods f.name

/-- Mark the classes that inherit abstractness. -/
def inferAbstract (db : Database) : Database :=
  { db with
    classes := db.classes.map fun _ c =>
      { c with isAbstract := c.isAbstract || inheritsAbstractness db c } }

/-- A name that lies in one of the project's namespaces. -/
def isOwnName (namespaces : List String) (name : String) : Bool :=
  namespaces.any fun ns => Text.startsWith (ns ++ "::") name

/-- The bases in a list that are the project's own, each followed by those that its class leads to.
A class that the walk is inside of is not entered again. -/
def flattenBases (db : Database) (namespaces inside bases : List String) : List String :=
  match bases with
  | [] => []
  | base :: rest =>
      let here := if isOwnName namespaces base then [base] else []
      let inherited := match _found : db.class? base with
        | none => []
        | some parent =>
            if _new : parent.fqn ∈ inside then []
            else flattenBases db namespaces (parent.fqn :: inside) parent.bases
      here ++ inherited ++ flattenBases db namespaces inside rest
termination_by ((unmet db inside).length, bases.length)
decreasing_by
  · exact Prod.Lex.left _ _ (length_unmet_cons_lt (mem_values_of_class? _found) _new)
  · exact Prod.Lex.right _ (by simp)

/-- Give every class all bases of the project that it derives from, each once. -/
def copyBases (namespaces : List String) (db : Database) : Database :=
  { db with
    classes := db.classes.map fun key c =>
      { c with bases := (flattenBases db namespaces [key] c.bases).eraseDups } }

/-- The code that a class leaves to the classes that derive from it. -/
def inheritedCode (c : Class) : List String :=
  (c.flags.hooks.filter fun h => h.trigger = .inherit).map (·.code)

/-- The bind hook that inherited code becomes for a class. -/
def hookFor (key code : String) : Hook :=
  ⟨.bind, Text.replaced "%childclass%" key code⟩

/-- Add a hook unless it is there. -/
def addHook (hooks : List Hook) (h : Hook) : List Hook :=
  if h ∈ hooks then hooks else hooks ++ [h]

/-- The hooks that a class receives, in the order of the classes that leave them. -/
def receivedHooks (db : Database) (key : String) (c : Class) : List Hook :=
  (db.classes.entries.filter fun e => c.bases.any fun b => Name.withoutTemplateArgs b = e.1).flatMap
    fun e => (inheritedCode e.2).map (hookFor key)

/-- Hand the code of inherit hooks to the classes that derive from their class. -/
def inheritHooks (db : Database) : Database :=
  { db with
    classes := db.classes.map fun key c =>
      { c with flags := { c.flags with
          hooks := (receivedHooks db key c).foldl addHook c.flags.hooks } } }

/-- Add the methods that a class does not have yet. -/
def addMissingMethods (c : Class) (methods : Slots) : Class :=
  methods.entries.foldl (fun c (name, slot) =>
    if c.methods.contains name then c
    else { c with methods := c.methods.insert name (slot.rehome c.scope c.name) }) c

/-- Give the methods of its bases to a class, those of an earlier base first. -/
def copyItemsTo (db : Database) (c : Class) : Class :=
  if c.flags.copyParentItems then
    (c.bases.filterMap db.class?).foldl (fun c base => addMissingMethods c base.methods) c
  else c

/-- Give the methods of their bases to the classes that ask for them. -/
def copyItems (db : Database) : Database :=
  { db with classes := db.classes.map fun _ c => copyItemsTo db c }

end ScriptBindings.Resolve
