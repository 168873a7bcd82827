import Mathlib
import ScriptBindings.Compound.Extraction
import ScriptBindings.Proofs.Dict
import ScriptBindings.Proofs.Directive.Receiving

/-!
# What finishing does

Finishing goes through all entities and hands one context on.  When no two of the stored symbols are
counted under the same key, the order does not matter: every symbol is given what is outstanding for it in
the context that finishing began with, and nothing but its flags changes.
-/

namespace ScriptBindings

/-- New flags for a symbol, by its qualified name, its identifier and the flags it has. -/
abbrev FlagMap := String → String → Flags → Flags

/-! ## Changing all flags -/

/-- Change the flags of a callable that is known under a name. -/
def Callable.reflag (m : FlagMap) (name : Callable → String) (f : Callable) : Callable :=
  { f with flags := m (name f) f.id f.flags }

/-- Change the flags of the callables of a slot; a group keeps its own. -/
def Slot.reflag (m : FlagMap) (name : Callable → String) : Slot → Slot :=
  mapCallables (Callable.reflag m name)

/-- Change the flags of an attribute of a class. -/
def Attribute.reflag (m : FlagMap) (owner : String) (a : Attribute) : Attribute :=
  { a with flags := m (owner ++ "::" ++ a.name) a.id a.flags }

/-- Change the flags of a class and of its members. -/
def Class.reflag (m : FlagMap) (fqn : String) (c : Class) : Class :=
  { c with
    flags := m fqn c.id c.flags
    methods := c.methods.map fun _ => Slot.reflag m Callable.fqn
    hiddenMethods := c.hiddenMethods.map fun _ => Slot.reflag m Callable.fqn
    constructors := c.constructors.map (Callable.reflag m Callable.fqn)
    destructor := c.destructor.map (Callable.reflag m Callable.fqn)
    attributes := c.attributes.map fun _ => Attribute.reflag m fqn }

/-- Change the flags of all entities. -/
def Database.reflag (m : FlagMap) (db : Database) : Database where
  namespaces := db.namespaces.map fun fqn n => { n with flags := m fqn n.id n.flags }
  classes := db.classes.map (Class.reflag m)
  functions := db.functions.map fun fqn => Slot.reflag m fun _ => fqn
  enums := db.enums.map fun fqn e => { e with flags := m fqn e.id e.flags }
  globals := db.globals.map fun fqn g => { g with flags := m fqn g.id g.flags }
  typedefs := db.typedefs.map fun fqn t => { t with flags := m fqn t.id t.flags }

/-! ## The symbols that are stored -/

/-- The callables of a slot, each by its name and its identifier. -/
def Slot.symbols (name : Callable → String) (s : Slot) : List (String × String) :=
  s.callables.map fun f => (name f, f.id)

/-- A class and its members. -/
def Class.symbols (fqn : String) (c : Class) : List (String × String) :=
  [(fqn, c.id)] ++
    (c.methods.gather (fun _ => Slot.symbols Callable.fqn) ++
      (c.hiddenMethods.gather (fun _ => Slot.symbols Callable.fqn) ++
        (c.constructors.map (fun f => (f.fqn, f.id)) ++
          (c.destructor.toList.map (fun f => (f.fqn, f.id)) ++
            c.attributes.gather fun _ a => [(fqn ++ "::" ++ a.name, a.id)]))))

/-- All symbols that are stored, in the order in which finishing comes to them. -/
def Database.symbols (db : Database) : List (String × String) :=
  db.namespaces.gather (fun fqn n => [(fqn, n.id)]) ++
    (db.classes.gather Class.symbols ++
      (db.functions.gather (fun fqn => Slot.symbols fun _ => fqn) ++
        (db.enums.gather (fun fqn e => [(fqn, e.id)]) ++
          (db.globals.gather (fun fqn g => [(fqn, g.id)]) ++
            db.typedefs.gather fun fqn t => [(fqn, t.id)]))))

namespace Compound

/-- What the flags received by a stored symbol are counted under. -/
def symbolKey (p : String × String) : String :=
  FlagContext.receiverKey p.1 p.2

/-! ## Handing one context on -/

/-- A context in which nothing has changed for some symbols, none of which share a counter. -/
structure Untouched (ctx₀ ctx : FlagContext) (symbols : List (String × String)) : Prop where
  waiting : ctx.waiting = ctx₀.waiting
  received : ∀ p ∈ symbols, ctx.receivedBy (symbolKey p) = ctx₀.receivedBy (symbolKey p)
  distinct : (symbols.map symbolKey).Nodup

/-- A change that hands a context on does to untouched symbols what a plain function does, and leaves the
other untouched symbols alone. -/
def Settles {α : Type} (ctx₀ : FlagContext) (f : FlagContext → α → α × FlagContext)
    (symbols : α → List (String × String)) (g : α → α) : Prop :=
  ∀ ctx a rest, Untouched ctx₀ ctx (symbols a ++ rest) →
    (f ctx a).1 = g a ∧ Untouched ctx₀ (f ctx a).2 rest

variable {ctx₀ ctx : FlagContext}

/-- Nothing has happened yet. -/
theorem untouched_refl {symbols : List (String × String)} (h : (symbols.map symbolKey).Nodup) :
    Untouched ctx ctx symbols :=
  ⟨rfl, fun _ _ => rfl, h⟩

/-- An untouched symbol that receives is given what was outstanding for it at the beginning. -/
theorem Untouched.apply {fqn id : String} {rest : List (String × String)}
    (h : Untouched ctx₀ ctx ((fqn, id) :: rest)) (flags : Flags) :
    (ctx.apply fqn id flags).1 = ctx₀.settled fqn id flags ∧
      Untouched ctx₀ (ctx.apply fqn id flags).2 rest := by
  obtain ⟨hnew, hrest⟩ := List.nodup_cons.1 h.distinct
  constructor
  · have hcount := h.received (fqn, id) List.mem_cons_self
    rw [FlagContext.apply_fst]
    unfold FlagContext.settled FlagContext.outstanding
    rw [FlagContext.waitingFor_congr h.waiting]
    exact congrArg (fun n => ((ctx₀.waitingFor fqn).drop n).foldl Flags.merge flags) hcount
  · refine ⟨(FlagContext.waiting_apply _ _ _ _).trans h.waiting, fun p hp => ?_, hrest⟩
    have hne : symbolKey p ≠ FlagContext.receiverKey fqn id := fun heq =>
      hnew (List.mem_map.2 ⟨p, hp, heq⟩)
    rw [FlagContext.receivedBy_apply_of_ne hne]
    exact h.received p (List.mem_cons_of_mem _ hp)

variable {α : Type} {f : FlagContext → α → α × FlagContext} {g : α → α}
  {symbols : α → List (String × String)}

/-- Elements from left to right. -/
theorem Settles.thread (h : Settles ctx₀ f symbols g) :
    Settles ctx₀ (Compound.thread f) (fun as => as.flatMap symbols) (List.map g) := by
  intro ctx as rest huntouched
  induction as generalizing ctx with
  | nil => exact ⟨rfl, huntouched⟩
  | cons a as ih =>
      simp only [List.flatMap_cons, List.append_assoc] at huntouched
      obtain ⟨ha, hothers⟩ := h ctx a _ huntouched
      obtain ⟨has, hrest⟩ := ih _ hothers
      refine ⟨?_, hrest⟩
      show (f ctx a).1 :: (Compound.thread f (f ctx a).2 as).1 = _
      rw [ha, has, List.map_cons]

/-- Elements that are one symbol each. -/
theorem Settles.thread_single {symbol : α → String × String}
    (h : Settles ctx₀ f (fun a => [symbol a]) g) :
    Settles ctx₀ (Compound.thread f) (List.map symbol) (List.map g) := by
  intro ctx as rest huntouched
  rw [List.map_eq_flatMap] at huntouched
  exact h.thread ctx as rest huntouched

/-- The entries of a dictionary in the order of their keys. -/
theorem Settles.threadDict {f : FlagContext → String → α → α × FlagContext} {g : String → α → α}
    {symbols : String → α → List (String × String)}
    (h : ∀ key, Settles ctx₀ (f · key) (symbols key) (g key)) :
    Settles ctx₀ (Compound.threadDict f) (Dict.gather symbols) (Dict.map g) := by
  -- By induction on the entries: each one leaves those behind it untouched.
  have hentries : ∀ (l : List (String × α)) ctx rest,
      Untouched ctx₀ ctx (l.flatMap (fun e => symbols e.1 e.2) ++ rest) →
        (threadEntries f ctx l).1 = l.map (fun e => (e.1, g e.1 e.2)) ∧
          Untouched ctx₀ (threadEntries f ctx l).2 rest := by
    intro l
    induction l with
    | nil => exact fun ctx rest huntouched => ⟨rfl, huntouched⟩
    | cons e l ih =>
        intro ctx rest huntouched
        rw [List.flatMap_cons, List.append_assoc] at huntouched
        obtain ⟨he, hothers⟩ := h e.1 ctx e.2 _ huntouched
        obtain ⟨hl, hrest⟩ := ih _ _ hothers
        refine ⟨?_, hrest⟩
        show (e.1, (f ctx e.1 e.2).1) :: (threadEntries f (f ctx e.1 e.2).2 l).1 = _
        rw [he, hl, List.map_cons]
  intro ctx d rest huntouched
  obtain ⟨hd, hrest⟩ := hentries d.entries ctx rest huntouched
  refine ⟨?_, hrest⟩
  unfold Compound.threadDict Dict.map
  simp only [hd]

/-! ## Settling entities -/

/-- The flags that finishing gives to a symbol. -/
theorem settles_apply (fqn id : α → String) (flags : α → Flags) (set : Flags → α → α) :
    Settles ctx₀
      (fun ctx a => (set (ctx.apply (fqn a) (id a) (flags a)).1 a,
        (ctx.apply (fqn a) (id a) (flags a)).2))
      (fun a => [(fqn a, id a)]) (fun a => set (ctx₀.settled (fqn a) (id a) (flags a)) a) := by
  intro ctx a rest huntouched
  obtain ⟨hflags, hrest⟩ := huntouched.apply (flags a)
  exact ⟨congrArg (set · a) hflags, hrest⟩

theorem settles_method : Settles ctx₀ settleMethod (fun f => [(f.fqn, f.id)])
    (Callable.reflag ctx₀.settled Callable.fqn) :=
  settles_apply Callable.fqn Callable.id Callable.flags fun flags f => { f with flags := flags }

theorem settles_function (fqn : String) : Settles ctx₀ (settleFunction fqn) (fun f => [(fqn, f.id)])
    (Callable.reflag ctx₀.settled fun _ => fqn) :=
  settles_apply (fun _ => fqn) Callable.id Callable.flags fun flags f => { f with flags := flags }

/-- Every callable of a slot is settled by itself; placeholders and the flags of groups are not. -/
theorem settles_slot {name : Callable → String}
    {settle : FlagContext → Callable → Callable × FlagContext}
    (h : Settles ctx₀ settle (fun f => [(name f, f.id)]) (Callable.reflag ctx₀.settled name)) :
    Settles ctx₀ (settleSlot settle) (Slot.symbols name) (Slot.reflag ctx₀.settled name) := by
  intro ctx slot rest huntouched
  cases slot with
  | concrete f =>
      obtain ⟨hf, hrest⟩ := h ctx f rest huntouched
      exact ⟨congrArg Slot.concrete hf, hrest⟩
  | overload g =>
      obtain ⟨hg, hrest⟩ := h.thread_single ctx g.overloads rest huntouched
      exact ⟨congrArg (fun overloads => Slot.overload { g with overloads := overloads }) hg, hrest⟩
  | placeholder p => exact ⟨rfl, huntouched⟩

/-- Entries that are one symbol each. -/
theorem settles_entries (name : String → α → String) (id : α → String) (flags : α → Flags)
    (set : Flags → α → α) :
    Settles ctx₀
      (threadDict fun ctx key a => (set (ctx.apply (name key a) (id a) (flags a)).1 a,
        (ctx.apply (name key a) (id a) (flags a)).2))
      (Dict.gather fun key a => [(name key a, id a)])
      (Dict.map fun key a => set (ctx₀.settled (name key a) (id a) (flags a)) a) :=
  Settles.threadDict fun key => settles_apply (name key) id flags set

theorem settles_class (fqn : String) : Settles ctx₀ (settleClass · fqn) (Class.symbols fqn)
    (Class.reflag ctx₀.settled fqn) := by
  intro ctx c rest huntouched
  have hmethod : Settles ctx₀ settleMethod _ _ := settles_method
  have hslots := Settles.threadDict fun _ => settles_slot hmethod
  have hentries : Settles ctx₀ _ _ _ := settles_entries (fun _ a => fqn ++ "::" ++ a.name)
    Attribute.id Attribute.flags fun flags a => { a with flags := flags }
  simp only [Class.symbols, List.append_assoc] at huntouched
  -- In the order of settling: each part leaves the symbols of the later ones untouched.
  obtain ⟨hflags, hclass⟩ := huntouched.apply c.flags
  obtain ⟨hmethods, hclass⟩ := hslots _ c.methods _ hclass
  obtain ⟨hhidden, hclass⟩ := hslots _ c.hiddenMethods _ hclass
  obtain ⟨hconstructors, hclass⟩ := hmethod.thread_single _ c.constructors _ hclass
  obtain ⟨hdestructor, hclass⟩ := hmethod.thread_single _ c.destructor.toList _ hclass
  obtain ⟨hattributes, hrest⟩ := hentries _ c.attributes _ hclass
  refine ⟨?_, hrest⟩
  simp only [settleClass, Class.reflag]
  rw [hflags, hmethods, hhidden, hconstructors, hdestructor]
  have hhead : (c.destructor.toList.map (Callable.reflag ctx₀.settled Callable.fqn)).head? =
      c.destructor.map (Callable.reflag ctx₀.settled Callable.fqn) := by
    cases c.destructor <;> rfl
  rw [hhead]
  rw [hattributes]
  rfl

/-- Finishing gives every stored symbol what is outstanding for it, and changes nothing else. -/
theorem finish_db (x : Extraction) (h : (x.db.symbols.map symbolKey).Nodup) :
    x.finish.db = x.db.reflag x.ctx.settled := by
  have hnamespaces : Settles x.ctx _ _ _ := settles_entries (fun fqn _ => fqn) NamespaceInfo.id
    NamespaceInfo.flags fun flags n => { n with flags := flags }
  have hclasses : Settles x.ctx _ _ _ := Settles.threadDict settles_class
  have hfunctions : Settles x.ctx _ _ _ :=
    Settles.threadDict fun fqn => settles_slot (settles_function fqn)
  have henums : Settles x.ctx _ _ _ := settles_entries (fun fqn _ => fqn) Enumeration.id
    Enumeration.flags fun flags e => { e with flags := flags }
  have hglobals : Settles x.ctx _ _ _ := settles_entries (fun fqn _ => fqn) Global.id
    Global.flags fun flags g => { g with flags := flags }
  have htypedefs : Settles x.ctx _ _ _ := settles_entries (fun fqn _ => fqn) Typedef.id
    Typedef.flags fun flags t => { t with flags := flags }
  have huntouched : Untouched x.ctx x.ctx _ := untouched_refl h
  rw [← List.append_nil x.db.symbols] at huntouched
  simp only [Database.symbols, List.append_assoc] at huntouched
  -- In the order of settling, as for the parts of a class.
  obtain ⟨hn, hrest⟩ := hnamespaces _ x.db.namespaces _ huntouched
  obtain ⟨hc, hrest⟩ := hclasses _ x.db.classes _ hrest
  obtain ⟨hf, hrest⟩ := hfunctions _ x.db.functions _ hrest
  obtain ⟨he, hrest⟩ := henums _ x.db.enums _ hrest
  obtain ⟨hg, hrest⟩ := hglobals _ x.db.globals _ hrest
  obtain ⟨ht, -⟩ := htypedefs _ x.db.typedefs _ hrest
  simp only [Extraction.finish, Database.reflag]
  rw [hn, hc, hf, he, hg, ht]

end Compound

end ScriptBindings
