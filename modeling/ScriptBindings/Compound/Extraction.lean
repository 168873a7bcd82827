import ScriptBindings.Compound.Class
import ScriptBindings.Compound.Namespace

/-!
# Extraction

Documents are added to a database one at a time.  At the end every entity is given the flags that wait
for it, so that it does not matter whether a surrogate was met before or after its target.
-/

namespace ScriptBindings.Compound

/-- What has been extracted so far. -/
structure Extraction where
  db : Database := {}
  ctx : FlagContext

namespace Extraction

/-- Nothing extracted, with type sets besides the built-in ones. -/
def start (extra : TypeSets) : Extraction :=
  { ctx := .new extra }

/-- Add a compound by its kind; compounds of other kinds are passed over. -/
def addCompound (s : Setting) (x : Extraction) (compound : Xml.Element) :
    Except Fault Extraction := do
  match compound.attr? "kind" with
  | some "namespace" =>
      let (db, ctx) ← addNamespace s x.db x.ctx compound
      return ⟨db, ctx⟩
  | some "class" | some "struct" =>
      let (db, ctx) ← addClass s x.db x.ctx compound
      return ⟨db, ctx⟩
  | _ => return x

/-- Add a document, which must hold a compound. -/
def addRoot (s : Setting) (x : Extraction) (root : Xml.Element) : Except Fault Extraction :=
  match root.child? "compounddef" with
  | none => .error (.missingNode "compounddef" "compound document")
  | some compound => x.addCompound s compound

/-- Add a document by its text. -/
def addText (s : Setting) (x : Extraction) (text : String) : Except Fault Extraction :=
  match Xml.parse? text with
  | none => .error .malformedDocument
  | some root => x.addRoot s root

end Extraction

/-- Change the elements of a list from left to right, with a state that is handed on. -/
def thread {σ α : Type} (f : σ → α → α × σ) : σ → List α → List α × σ
  | s, [] => ([], s)
  | s, a :: as =>
      let (a, s) := f s a
      let (as, s) := thread f s as
      (a :: as, s)

/-- Change the values of a list of entries in the same way. -/
def threadEntries {σ α : Type} (f : σ → String → α → α × σ) :
    σ → List (String × α) → List (String × α) × σ
  | s, [] => ([], s)
  | s, (k, a) :: rest =>
      let (a, s) := f s k a
      let (rest, s) := threadEntries f s rest
      ((k, a) :: rest, s)

theorem keys_threadEntries {σ α : Type} (f : σ → String → α → α × σ) (s : σ)
    (l : List (String × α)) : (threadEntries f s l).1.map (·.1) = l.map (·.1) := by
  induction l generalizing s with
  | nil => rfl
  | cons e rest ih =>
      obtain ⟨k, a⟩ := e
      simp [threadEntries, ih]

/-- Change the values of a dictionary in the order of their keys. -/
def threadDict {σ α : Type} (f : σ → String → α → α × σ) (s : σ) (d : Dict α) : Dict α × σ :=
  (⟨(threadEntries f s d.entries).1, by
      have h := d.sorted
      rw [← List.pairwise_map (f := Prod.fst) (R := fun a b : String => a < b)] at h ⊢
      rw [keys_threadEntries]
      exact h⟩,
    (threadEntries f s d.entries).2)

/-- Give a callable the flags that wait for its qualified name. -/
def settleMethod (ctx : FlagContext) (f : Callable) : Callable × FlagContext :=
  let (flags, ctx) := ctx.apply f.fqn f.id f.flags
  ({ f with flags := flags }, ctx)

/-- Give a callable the flags that wait for a name. -/
def settleFunction (fqn : String) (ctx : FlagContext) (f : Callable) : Callable × FlagContext :=
  let (flags, ctx) := ctx.apply fqn f.id f.flags
  ({ f with flags := flags }, ctx)

/-- Settle the callables of a slot; the flags of a group itself are left as they are. -/
def settleSlot (settle : FlagContext → Callable → Callable × FlagContext) (ctx : FlagContext) :
    Slot → Slot × FlagContext
  | .concrete f =>
      let (f, ctx) := settle ctx f
      (.concrete f, ctx)
  | .overload g =>
      let (overloads, ctx) := thread settle ctx g.overloads
      (.overload { g with overloads := overloads }, ctx)
  | .placeholder p => (.placeholder p, ctx)

/-- Give a class and its members the flags that wait for them. -/
def settleClass (ctx : FlagContext) (fqn : String) (c : Class) : Class × FlagContext :=
  let (flags, ctx) := ctx.apply fqn c.id c.flags
  let (methods, ctx) := threadDict (fun ctx _ s => settleSlot settleMethod ctx s) ctx c.methods
  let (hidden, ctx) :=
    threadDict (fun ctx _ s => settleSlot settleMethod ctx s) ctx c.hiddenMethods
  let (constructors, ctx) := thread settleMethod ctx c.constructors
  let (destructor, ctx) := thread settleMethod ctx c.destructor.toList
  let (attributes, ctx) := threadDict (fun ctx _ (a : Attribute) =>
    let (flags, ctx) := ctx.apply (fqn ++ "::" ++ a.name) a.id a.flags
    ({ a with flags := flags }, ctx)) ctx c.attributes
  ({ c with
      flags := flags
      methods := methods
      hiddenMethods := hidden
      constructors := constructors
      destructor := destructor.head?
      attributes := attributes }, ctx)

/-- Give every entity the flags that wait for it. -/
def Extraction.finish (x : Extraction) : Extraction :=
  let (namespaces, ctx) := threadDict (fun ctx fqn (n : NamespaceInfo) =>
    let (flags, ctx) := ctx.apply fqn n.id n.flags
    ({ n with flags := flags }, ctx)) x.ctx x.db.namespaces
  let (classes, ctx) := threadDict settleClass ctx x.db.classes
  let (functions, ctx) :=
    threadDict (fun ctx fqn s => settleSlot (settleFunction fqn) ctx s) ctx x.db.functions
  let (enums, ctx) := threadDict (fun ctx fqn (e : Enumeration) =>
    let (flags, ctx) := ctx.apply fqn e.id e.flags
    ({ e with flags := flags }, ctx)) ctx x.db.enums
  let (globals, ctx) := threadDict (fun ctx fqn (g : Global) =>
    let (flags, ctx) := ctx.apply fqn g.id g.flags
    ({ g with flags := flags }, ctx)) ctx x.db.globals
  let (typedefs, ctx) := threadDict (fun ctx fqn (t : Typedef) =>
    let (flags, ctx) := ctx.apply fqn t.id t.flags
    ({ t with flags := flags }, ctx)) ctx x.db.typedefs
  ⟨⟨namespaces, classes, functions, enums, globals, typedefs⟩, ctx⟩

end ScriptBindings.Compound
