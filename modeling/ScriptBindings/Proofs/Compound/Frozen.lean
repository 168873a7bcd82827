import Mathlib
import ScriptBindings.Proofs.Compound.Draft
import ScriptBindings.Proofs.Compound.Settling
import ScriptBindings.Proofs.Dict

/-!
# What is fixed when a callable is read

Finishing replaces the flags of the entities.  Some of what flags say has been used up by then: callables
have taken their visibility and the names of their parameters from the flags that they were read with,
placeholders their visibility, and a group has copied the flags of its first callable.  All this is frozen.
An entity is determined by what is frozen and by what is left of it without.
-/

namespace ScriptBindings

/-! ## Frozen -/

/-- The visibility and the parameters. -/
def Callable.frozen (f : Callable) : Visibility × List Parameter :=
  (f.visibility, f.params)

/-- What is frozen of a slot: of its callables, or of the placeholder, and the flags of a group. -/
structure FrozenSlot where
  callables : List (Visibility × List Parameter) := []
  placeholder : Option Visibility := none
  group : Option Flags := none
deriving DecidableEq

/-- What is frozen of a slot. -/
def Slot.frozen : Slot → FrozenSlot
  | .concrete f => { callables := [f.frozen] }
  | .overload g => { callables := g.overloads.map Callable.frozen, group := some g.flags }
  | .placeholder p => { placeholder := some p.visibility }

/-- What is frozen of a class. -/
structure FrozenClass where
  constructors : List (Visibility × List Parameter)
  rejected : List Visibility
  destructor : Option (Visibility × List Parameter)
  methods : Dict FrozenSlot
  hiddenMethods : Dict FrozenSlot
deriving DecidableEq

/-- What is frozen of a class. -/
def Class.frozen (c : Class) : FrozenClass where
  constructors := c.constructors.map Callable.frozen
  rejected := c.rejectedConstructors.map Placeholder.visibility
  destructor := c.destructor.map Callable.frozen
  methods := c.methods.map fun _ => Slot.frozen
  hiddenMethods := c.hiddenMethods.map fun _ => Slot.frozen

/-- What is frozen of a database. -/
structure FrozenDatabase where
  classes : Dict FrozenClass
  functions : Dict FrozenSlot
deriving DecidableEq

/-- What is frozen of a database. -/
def Database.frozen (db : Database) : FrozenDatabase where
  classes := db.classes.map fun _ => Class.frozen
  functions := db.functions.map fun _ => Slot.frozen

/-! ## Bare -/

/-- A callable without what is frozen. -/
def Callable.bare (f : Callable) : Callable :=
  { f with params := [], visibility := .pub }

/-- A placeholder without what is frozen. -/
def Placeholder.bare (p : Placeholder) : Placeholder :=
  { p with visibility := .pub }

/-- A slot without what is frozen. -/
def Slot.bare : Slot → Slot
  | .concrete f => .concrete f.bare
  | .overload g => .overload { g with overloads := g.overloads.map Callable.bare, flags := {} }
  | .placeholder p => .placeholder p.bare

/-- A class without what is frozen. -/
def Class.bare (c : Class) : Class :=
  { c with
    constructors := c.constructors.map Callable.bare
    rejectedConstructors := c.rejectedConstructors.map Placeholder.bare
    destructor := c.destructor.map Callable.bare
    methods := c.methods.map fun _ => Slot.bare
    hiddenMethods := c.hiddenMethods.map fun _ => Slot.bare }

/-- A database without what is frozen. -/
def Database.bare (db : Database) : Database :=
  { db with
    classes := db.classes.map fun _ => Class.bare
    functions := db.functions.map fun _ => Slot.bare }

/-! ## An entity is what is frozen of it and what is bare -/

/-- Two functions that tell the elements apart tell lists of them apart. -/
theorem list_eq_of_map_eq {α β γ : Type} {f : α → β} {g : α → γ}
    (h : ∀ a b, f a = f b → g a = g b → a = b) {as bs : List α} (hf : as.map f = bs.map f)
    (hg : as.map g = bs.map g) : as = bs := by
  induction as generalizing bs with
  | nil => simpa [eq_comm] using hf
  | cons a as ih =>
      cases bs with
      | nil => simp at hf
      | cons b bs =>
          obtain ⟨hfirst, hf⟩ := List.cons.inj hf
          obtain ⟨hfirst', hg⟩ := List.cons.inj hg
          rw [h a b hfirst hfirst', ih hf hg]

/-- They tell optional elements apart. -/
theorem option_eq_of_map_eq {α β γ : Type} {f : α → β} {g : α → γ}
    (h : ∀ a b, f a = f b → g a = g b → a = b) {a b : Option α} (hf : a.map f = b.map f)
    (hg : a.map g = b.map g) : a = b := by
  cases a with
  | none => simpa [eq_comm] using hf
  | some a =>
      cases b with
      | none => simp at hf
      | some b => rw [h a b (Option.some.inj hf) (Option.some.inj hg)]

/-- They tell dictionaries apart. -/
theorem Dict.eq_of_map_eq {α β γ : Type} {f : α → β} {g : α → γ}
    (h : ∀ a b, f a = f b → g a = g b → a = b) {d e : Dict α}
    (hf : (d.map fun _ => f) = e.map fun _ => f) (hg : (d.map fun _ => g) = e.map fun _ => g) :
    d = e := by
  ext1 key
  have hf' := congrArg (·.get? key) hf
  have hg' := congrArg (·.get? key) hg
  rw [Dict.get?_map, Dict.get?_map] at hf' hg'
  exact option_eq_of_map_eq h hf' hg'

theorem Callable.eq_of_bare {f g : Callable} (hbare : f.bare = g.bare)
    (hfrozen : f.frozen = g.frozen) : f = g := by
  cases f
  cases g
  simp_all [bare, frozen]

theorem Placeholder.eq_of_bare {p q : Placeholder} (hbare : p.bare = q.bare)
    (hfrozen : p.visibility = q.visibility) : p = q := by
  cases p
  cases q
  simp_all [bare]

theorem Slot.eq_of_bare {s t : Slot} (hbare : s.bare = t.bare) (hfrozen : s.frozen = t.frozen) :
    s = t := by
  -- Slots of different kinds differ without their flags already.
  cases s with
  | concrete f =>
      cases t with
      | concrete g =>
          simp only [bare, frozen, concrete.injEq, FrozenSlot.mk.injEq, List.cons.injEq] at hbare hfrozen
          rw [Callable.eq_of_bare hbare hfrozen.1.1]
      | overload g => cases hbare
      | placeholder q => cases hbare
  | overload g =>
      cases t with
      | concrete f => cases hbare
      | overload h =>
          obtain ⟨name, scope, owner, overloads, flags, forceCast⟩ := g
          obtain ⟨name', scope', owner', overloads', flags', forceCast'⟩ := h
          simp only [bare, frozen, overload.injEq, OverloadGroup.mk.injEq, FrozenSlot.mk.injEq,
            Option.some.injEq] at hbare hfrozen
          obtain ⟨rfl, rfl, rfl, hbare, -, rfl⟩ := hbare
          obtain ⟨hfrozen, -, rfl⟩ := hfrozen
          rw [list_eq_of_map_eq (fun _ _ => Callable.eq_of_bare) hbare hfrozen]
      | placeholder q => cases hbare
  | placeholder p =>
      cases t with
      | concrete f => cases hbare
      | overload g => cases hbare
      | placeholder q =>
          simp only [bare, frozen, placeholder.injEq, FrozenSlot.mk.injEq, Option.some.injEq]
            at hbare hfrozen
          rw [Placeholder.eq_of_bare hbare hfrozen.2.1]

theorem Class.eq_of_bare {c c' : Class} (hbare : c.bare = c'.bare) (hfrozen : c.frozen = c'.frozen) :
    c = c' := by
  cases c
  cases c'
  simp only [bare, frozen, Class.mk.injEq, FrozenClass.mk.injEq] at hbare hfrozen ⊢
  obtain ⟨hid, hname, hscope, hbases, hconstructors, hrejected, hdestructor, hmethods, hhidden, hrest⟩ :=
    hbare
  obtain ⟨hconstructors', hrejected', hdestructor', hmethods', hhidden'⟩ := hfrozen
  exact ⟨hid, hname, hscope, hbases,
    list_eq_of_map_eq (fun _ _ => Callable.eq_of_bare) hconstructors hconstructors',
    list_eq_of_map_eq (fun _ _ => Placeholder.eq_of_bare) hrejected hrejected',
    option_eq_of_map_eq (fun _ _ => Callable.eq_of_bare) hdestructor hdestructor',
    Dict.eq_of_map_eq (fun _ _ => Slot.eq_of_bare) hmethods hmethods',
    Dict.eq_of_map_eq (fun _ _ => Slot.eq_of_bare) hhidden hhidden', hrest⟩

theorem Database.eq_of_bare {db db' : Database} (hbare : db.bare = db'.bare)
    (hfrozen : db.frozen = db'.frozen) : db = db' := by
  cases db
  cases db'
  simp only [bare, frozen, Database.mk.injEq, FrozenDatabase.mk.injEq] at hbare hfrozen ⊢
  obtain ⟨hnamespaces, hclasses, hfunctions, hrest⟩ := hbare
  exact ⟨hnamespaces, Dict.eq_of_map_eq (fun _ _ => Class.eq_of_bare) hclasses hfrozen.1,
    Dict.eq_of_map_eq (fun _ _ => Slot.eq_of_bare) hfunctions hfrozen.2, hrest⟩

/-! ## Changing flags leaves the frozen alone -/

theorem Slot.frozen_reflag (m : FlagMap) (name : Callable → String) (s : Slot) :
    (s.reflag m name).frozen = s.frozen := by
  cases s with
  | concrete f => rfl
  | overload g =>
      simp only [reflag, mapCallables, frozen, List.map_map]
      rfl
  | placeholder p => rfl

theorem Class.frozen_reflag (m : FlagMap) (fqn : String) (c : Class) :
    (c.reflag m fqn).frozen = c.frozen := by
  simp only [reflag, frozen, Dict.map_map, List.map_map, Option.map_map, Slot.frozen_reflag]
  rfl

/-- Finishing does not change what is frozen. -/
theorem Database.frozen_reflag (m : FlagMap) (db : Database) : (db.reflag m).frozen = db.frozen := by
  simp only [reflag, frozen, Dict.map_map, Class.frozen_reflag, Slot.frozen_reflag]

end ScriptBindings
