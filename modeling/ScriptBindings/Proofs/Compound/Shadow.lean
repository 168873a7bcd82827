import Mathlib
import ScriptBindings.Compound.Extraction
import ScriptBindings.Proofs.Compound.Agreement
import ScriptBindings.Proofs.Dict

/-!
# The shadow of a placeholder

A callable that could not be read leaves a placeholder under its name.  The placeholder holds a place that
would be free, or is there instead of a later placeholder, or makes the callables of its name need a cast;
whatever joins the slot afterwards, nothing else comes of it.  A constructor that could not be read is
rejected, and one that is left out is not.
-/

namespace ScriptBindings

/-! ## Dictionaries that differ under one key -/

/-- The same answers under all keys but one, and related answers under that one. -/
def Dict.DiffersAt {α : Type} (R : Option α → Option α → Prop) (key : String) (d' d : Dict α) : Prop :=
  (∀ other, other ≠ key → d'.get? other = d.get? other) ∧ R (d'.get? key) (d.get? key)

namespace Dict.DiffersAt

variable {α : Type} {R : Option α → Option α → Prop} {key : String} {d d' : Dict α}

/-- Under another key, dictionaries are changed alike. -/
theorem insert_of_ne (h : DiffersAt R key d' d) {other : String} (hne : other ≠ key) (value : α) :
    DiffersAt R key (d'.insert other value) (d.insert other value) := by
  refine ⟨fun k hk => ?_, ?_⟩
  · rw [get?_insert, get?_insert, h.1 k hk]
  · rw [get?_insert, get?_insert, if_neg hne.symm, if_neg hne.symm]
    exact h.2

/-- Related values may be inserted under the key itself. -/
theorem insert_self (hsame : ∀ other, other ≠ key → d'.get? other = d.get? other) {value value' : α}
    (hvalue : R (some value') (some value)) :
    DiffersAt R key (d'.insert key value') (d.insert key value) := by
  refine ⟨fun other hother => ?_, ?_⟩
  · rw [get?_insert, get?_insert, if_neg hother, if_neg hother, hsame other hother]
  · rw [get?_insert, get?_insert, if_pos rfl, if_pos rfl]
    exact hvalue

end Dict.DiffersAt

/-! ## Casts -/

/-- The same callable, which may have to be cast where it did not have to be. -/
def Callable.Recast (f' f : Callable) : Prop :=
  ∃ cast, f = { f' with forceCast := cast } ∧ (f'.forceCast = true → cast = true)

theorem Callable.Recast.refl (f : Callable) : f.Recast f :=
  ⟨f.forceCast, rfl, fun h => h⟩

namespace Slot

/-- The same slot, which may have to be cast where it did not have to be, or some callables of which may. -/
inductive Recast : Slot → Slot → Prop
  | concrete {f' f : Callable} (h : f'.Recast f) : Recast (.concrete f') (.concrete f)
  | overload {g : OverloadGroup} {overloads : List Callable} {cast : Bool}
      (h : List.Forall₂ Callable.Recast g.overloads overloads) (hcast : g.forceCast = true → cast = true) :
      Recast (.overload g) (.overload { g with overloads := overloads, forceCast := cast })
  | placeholder (p : Placeholder) : Recast (.placeholder p) (.placeholder p)

theorem forall₂_recast_refl (fs : List Callable) : List.Forall₂ Callable.Recast fs fs :=
  List.forall₂_same.2 fun f _ => .refl f

theorem Recast.refl (s : Slot) : s.Recast s := by
  cases s with
  | concrete f => exact .concrete (.refl f)
  | overload g => exact .overload (forall₂_recast_refl g.overloads) id
  | placeholder p => exact .placeholder p

theorem recast_setForceCast (s : Slot) : s.Recast s.setForceCast := by
  cases s with
  | concrete f => exact .concrete ⟨true, rfl, fun _ => rfl⟩
  | overload g => exact .overload (forall₂_recast_refl g.overloads) fun _ => rfl
  | placeholder p => exact .placeholder p

/-- Recast slots stay recast when the same slot joins them. -/
theorem Recast.join {s' s : Slot} (h : Recast s' s) (t : Slot) : Recast (s'.join t) (s.join t) := by
  cases h with
  | concrete h =>
      obtain ⟨cast, rfl, hcast⟩ := h
      rename_i f
      have hrecast : f.Recast { f with forceCast := cast } := ⟨cast, rfl, hcast⟩
      cases t with
      | concrete g =>
          exact .overload (g := pair f g) (.cons hrecast (forall₂_recast_refl [g])) hcast
      | overload g =>
          exact .overload (g := { g with overloads := f :: g.overloads })
            (.cons hrecast (forall₂_recast_refl g.overloads)) id
      | placeholder p => exact .concrete ⟨true, rfl, fun _ => rfl⟩
  | overload h hcast =>
      rename_i g overloads cast
      cases t with
      | concrete f =>
          exact .overload (g := { g with overloads := g.overloads ++ [f] })
            (List.rel_append h (forall₂_recast_refl [f])) hcast
      | overload k =>
          refine .overload (g := { g with
            overloads := g.overloads ++ k.overloads, forceCast := g.forceCast || k.forceCast })
            (List.rel_append h (forall₂_recast_refl k.overloads)) fun hor => ?_
          rcases Bool.or_eq_true_iff.1 hor with hg | hk
          · exact Bool.or_eq_true_iff.2 (Or.inl (hcast hg))
          · exact Bool.or_eq_true_iff.2 (Or.inr hk)
      | placeholder p => exact .overload (g := { g with forceCast := true }) h fun _ => rfl
  | placeholder p => exact .refl _

/-! ## Slots -/

/-- What is found under the name of a callable that could not be read, where the placeholder for it was left
out and where it was not. -/
inductive Shadowed (p : Placeholder) : Option Slot → Option Slot → Prop
  /-- The placeholder holds a place that would be free. -/
  | alone : Shadowed p none (some (.placeholder p))
  /-- The placeholder is there instead of another one. -/
  | inStead (q : Placeholder) : Shadowed p (some (.placeholder q)) (some (.placeholder p))
  /-- The placeholder requires casts, if anything. -/
  | recast {s' s : Slot} (h : Recast s' s) : Shadowed p (some s') (some s)

/-- A slot to which another one comes. -/
def joined (present : Option Slot) (incoming : Slot) : Slot :=
  match present with
  | none => incoming
  | some present => present.join incoming

theorem Shadowed.joined {p : Placeholder} {present' present : Option Slot}
    (h : Shadowed p present' present) (incoming : Slot) :
    Shadowed p (some (Slot.joined present' incoming)) (some (Slot.joined present incoming)) := by
  cases h with
  | alone =>
      cases incoming with
      | concrete f => exact .recast (recast_setForceCast (.concrete f))
      | overload g => exact .recast (recast_setForceCast (.overload g))
      | placeholder q => exact .inStead q
  | inStead q =>
      cases incoming with
      | concrete f => exact .recast (.refl _)
      | overload g => exact .recast (.refl _)
      | placeholder r => exact .inStead q
  | recast h => exact .recast (h.join incoming)

/-- A placeholder that comes to a slot shadows it. -/
theorem shadowed_joined (p : Placeholder) (present : Option Slot) :
    Shadowed p present (some (Slot.joined present (.placeholder p))) := by
  cases present with
  | none => exact .alone
  | some s =>
      have hjoin : s.join (.placeholder p) = s.setForceCast := by cases s <;> rfl
      rw [Slot.joined, hjoin]
      exact .recast (recast_setForceCast s)

end Slot

namespace Slots

variable {p : Placeholder} {key : String} {slots slots' : Slots}

/-- Slots that are shadowed under one key. -/
abbrev ShadowedAt (p : Placeholder) (key : String) (slots' slots : Slots) : Prop :=
  Dict.DiffersAt (Slot.Shadowed p) key slots' slots

theorem add_eq_insert (slots : Slots) (key : String) (s : Slot) :
    slots.add key s = slots.insert key (Slot.joined (slots.get? key) s) := by
  unfold Slots.add
  cases slots.get? key <;> rfl

theorem ShadowedAt.add (h : ShadowedAt p key slots' slots) (other : String) (s : Slot) :
    ShadowedAt p key (slots'.add other s) (slots.add other s) := by
  rw [add_eq_insert, add_eq_insert]
  by_cases hother : other = key
  · subst hother
    exact Dict.DiffersAt.insert_self h.1 (h.2.joined s)
  · rw [h.1 other hother]
    exact h.insert_of_ne hother _

theorem shadowedAt_add (p : Placeholder) (key : String) (slots : Slots) :
    ShadowedAt p key slots (slots.add key (.placeholder p)) := by
  refine ⟨fun other hother => ?_, ?_⟩
  · rw [add_eq_insert, Dict.get?_insert, if_neg hother]
  · rw [add_eq_insert, Dict.get?_insert, if_pos rfl]
    exact Slot.shadowed_joined p _

end Slots

/-! ## Classes and databases -/

/-- A class without a placeholder and with it: among its rejected constructors, or in the shadow that it
casts on the methods or the hidden methods of its name. -/
inductive Class.Shadowed (p : Placeholder) : Class → Class → Prop
  | rejected (c : Class) (before after : List Placeholder) :
      Shadowed p { c with rejectedConstructors := before ++ after }
        { c with rejectedConstructors := before ++ p :: after }
  | method (c : Class) {slots' slots : Slots} (h : slots'.ShadowedAt p p.name slots) :
      Shadowed p { c with methods := slots' } { c with methods := slots }
  | hidden (c : Class) {slots' slots : Slots} (h : slots'.ShadowedAt p p.name slots) :
      Shadowed p { c with hiddenMethods := slots' } { c with hiddenMethods := slots }

/-- The class under a key is shadowed. -/
abbrev Class.ShadowedAt (p : Placeholder) (key : String) (classes' classes : Dict Class) : Prop :=
  Dict.DiffersAt (fun found' found => ∃ c' c, found' = some c' ∧ found = some c ∧ c'.Shadowed p c) key
    classes' classes

/-- A database without a placeholder and with it, where the placeholder belongs to a compound: a namespace, or
a class under its name. -/
inductive Database.Shadowed (p : Placeholder) (compound : String) : Database → Database → Prop
  | function (db : Database) {slots' slots : Slots}
      (h : slots'.ShadowedAt p (Name.qualify compound none p.name) slots) :
      Shadowed p compound { db with functions := slots' } { db with functions := slots }
  | member (db : Database) {classes' classes : Dict Class}
      (h : Class.ShadowedAt p compound classes' classes) :
      Shadowed p compound { db with classes := classes' } { db with classes := classes }

namespace Compound

variable {p : Placeholder} {c c' : Class}

/-- What a member adds to the methods of its class. -/
def ClassMember.addMethod (x : ClassMember) (slots : Slots) : Slots :=
  match x with
  | .method slot => slots.add slot.name slot
  | _ => slots

/-- What a member adds to the hidden methods of its class. -/
def ClassMember.addHidden (x : ClassMember) (slots : Slots) : Slots :=
  match x with
  | .hidden slot => slots.add slot.name slot
  | _ => slots

/-- What a member adds to the rejected constructors of its class. -/
def ClassMember.addRejected (x : ClassMember) (rejected : List Placeholder) : List Placeholder :=
  match x with
  | .rejected p => rejected ++ [p]
  | _ => rejected

theorem addToClass_methods (c : Class) (slots : Slots) (x : ClassMember) :
    addToClass { c with methods := slots } x =
      { addToClass c x with methods := x.addMethod slots } := by
  cases x <;> rfl

theorem addToClass_hiddenMethods (c : Class) (slots : Slots) (x : ClassMember) :
    addToClass { c with hiddenMethods := slots } x =
      { addToClass c x with hiddenMethods := x.addHidden slots } := by
  cases x <;> rfl

theorem addToClass_rejectedConstructors (c : Class) (rejected : List Placeholder) (x : ClassMember) :
    addToClass { c with rejectedConstructors := rejected } x =
      { addToClass c x with rejectedConstructors := x.addRejected rejected } := by
  cases x <;> rfl

/-- A member that is added to a shadowed class leaves it shadowed. -/
theorem shadowed_addToClass (h : c'.Shadowed p c) (x : ClassMember) :
    (addToClass c' x).Shadowed p (addToClass c x) := by
  cases h with
  | rejected c before after =>
      -- Rejected constructors are only ever added behind the others.
      have hsplit : ∀ front back, x.addRejected (front ++ back) = front ++ x.addRejected back := by
        intro front back
        cases x with
        | rejected q => exact List.append_assoc front back [q]
        | _ => rfl
      have hcons : x.addRejected (p :: after) = p :: x.addRejected after := hsplit [p] after
      rw [addToClass_rejectedConstructors c (before ++ after),
        addToClass_rejectedConstructors c (before ++ p :: after), hsplit, hsplit, hcons]
      exact .rejected (addToClass c x) before (x.addRejected after)
  | method c h =>
      rename_i slots' slots
      rw [addToClass_methods c slots', addToClass_methods c slots]
      refine .method (addToClass c x) ?_
      cases x with
      | method slot => exact h.add slot.name slot
      | _ => exact h
  | hidden c h =>
      rename_i slots' slots
      rw [addToClass_hiddenMethods c slots', addToClass_hiddenMethods c slots]
      refine .hidden (addToClass c x) ?_
      cases x with
      | hidden slot => exact h.add slot.name slot
      | _ => exact h

theorem shadowed_foldl_addToClass (h : c'.Shadowed p c) (found : List ClassMember) :
    (found.foldl addToClass c').Shadowed p (found.foldl addToClass c) := by
  induction found generalizing c c' with
  | nil => exact h
  | cons x found ih => exact ih (shadowed_addToClass h x)

/-! ## Abstractness -/

theorem any_isAbstractSlot_iff {slots : Slots} : slots.values.any isAbstractSlot = true ↔
    ∃ key, (slots.get? key).any isAbstractSlot = true := by
  simp only [List.any_eq_true, Dict.mem_values_iff, Option.any_eq_true]
  constructor
  · rintro ⟨s, ⟨key, hget⟩, habstract⟩
    exact ⟨key, s, hget, habstract⟩
  · rintro ⟨key, s, hget, habstract⟩
    exact ⟨s, ⟨key, hget⟩, habstract⟩

theorem isAbstractSlot_of_recast {s' s : Slot} (h : s'.Recast s) :
    isAbstractSlot s = isAbstractSlot s' := by
  cases h with
  | concrete h =>
      obtain ⟨cast, rfl, -⟩ := h
      rfl
  | overload h hcast =>
      rename_i g overloads cast
      show overloads.any Callable.isAbstract = g.overloads.any Callable.isAbstract
      generalize g.overloads = before at h
      induction h with
      | nil => rfl
      | cons hf _ ih =>
          obtain ⟨cast, rfl, -⟩ := hf
          rw [List.any_cons, List.any_cons, ih]
  | placeholder p => rfl

/-- A shadow has no part in whether some callable is abstract. -/
theorem any_isAbstractSlot_of_shadowedAt {key : String} {slots' slots : Slots}
    (h : slots'.ShadowedAt p key slots) :
    slots.values.any isAbstractSlot = slots'.values.any isAbstractSlot := by
  -- A placeholder is not abstract, and a cast does not make a callable abstract.
  have hself : (slots.get? key).any isAbstractSlot = (slots'.get? key).any isAbstractSlot := by
    obtain ⟨-, hshadow⟩ := h
    generalize slots'.get? key = found' at hshadow ⊢
    generalize slots.get? key = found at hshadow ⊢
    cases hshadow with
    | alone => rfl
    | inStead q => rfl
    | recast h => exact isAbstractSlot_of_recast h
  have hsame : ∀ other, (slots.get? other).any isAbstractSlot =
      (slots'.get? other).any isAbstractSlot := by
    intro other
    by_cases hother : other = key
    · rw [hother, hself]
    · rw [h.1 other hother]
  rw [Bool.eq_iff_iff, any_isAbstractSlot_iff, any_isAbstractSlot_iff]
  exact exists_congr fun other => by rw [hsame other]

theorem hasAbstractMethod_eq (c : Class) : hasAbstractMethod c =
    (c.methods.values.any isAbstractSlot || c.hiddenMethods.values.any isAbstractSlot) :=
  List.any_append

/-- A shadowed class is abstract if it is abstract without the shadow. -/
theorem shadowed_assembleClass (h : c'.Shadowed p c) (found : List ClassMember) :
    (assembleClass c' found).Shadowed p (assembleClass c found) := by
  have hfound := shadowed_foldl_addToClass h found
  unfold assembleClass
  generalize found.foldl addToClass c' = d' at hfound ⊢
  generalize found.foldl addToClass c = d at hfound ⊢
  unfold withAbstractness
  -- A placeholder has no callables, so it does not make a class abstract.
  cases hfound with
  | rejected d before after =>
      exact .rejected { d with isAbstract := hasAbstractMethod d } before after
  | method d h =>
      rename_i slots' slots
      have hsame : hasAbstractMethod { d with methods := slots } =
          hasAbstractMethod { d with methods := slots' } := by
        rw [hasAbstractMethod_eq, hasAbstractMethod_eq, any_isAbstractSlot_of_shadowedAt h]
      rw [hsame]
      exact .method { d with isAbstract := hasAbstractMethod { d with methods := slots' } } h
  | hidden d h =>
      rename_i slots' slots
      have hsame : hasAbstractMethod { d with hiddenMethods := slots } =
          hasAbstractMethod { d with hiddenMethods := slots' } := by
        rw [hasAbstractMethod_eq, hasAbstractMethod_eq, any_isAbstractSlot_of_shadowedAt h]
      rw [hsame]
      exact .hidden { d with isAbstract := hasAbstractMethod { d with hiddenMethods := slots' } } h

/-! ## Adding compounds -/

/-- A placeholder that is placed in a class shadows it, unless it is that of a destructor. -/
theorem shadowed_placeCallable (p : Placeholder) (shortName : String) (visibility : Visibility)
    (c : Class) :
    (placeCallable shortName visibility (.placeholder p)).foldl addToClass c = c ∨
      c.Shadowed p ((placeCallable shortName visibility (.placeholder p)).foldl addToClass c) := by
  unfold placeCallable
  split
  -- The cases follow the placing: a constructor, a destructor, a method, a hidden method.
  · have hrejected := Class.Shadowed.rejected (p := p) c c.rejectedConstructors []
    rw [List.append_nil] at hrejected
    exact Or.inr hrejected
  · split
    · exact Or.inl rfl
    · split
      · exact Or.inr (.method c (Slots.shadowedAt_add p p.name c.methods))
      · exact Or.inr (.hidden c (Slots.shadowedAt_add p p.name c.hiddenMethods))

/-- A placeholder is not an entity of its own. -/
theorem addBesideClass_placeCallable (fqn : String) (p : Placeholder) (shortName : String)
    (visibility : Visibility) (db : Database) :
    (placeCallable shortName visibility (.placeholder p)).foldl (addBesideClass fqn) db = db := by
  unfold placeCallable
  split
  · rfl
  · split
    · rfl
    · split <;> rfl

/-- A class is added with a placeholder among its members, or without. -/
theorem shadowed_addFound (fqn : String) (header : Class) (front back : List ClassMember)
    (p : Placeholder) (shortName : String) (visibility : Visibility) (db : Database) :
    let placed := placeCallable shortName visibility (.placeholder p)
    addFound fqn header (front ++ back) db = addFound fqn header (front ++ (placed ++ back)) db ∨
      (addFound fqn header (front ++ back) db).Shadowed p fqn
        (addFound fqn header (front ++ (placed ++ back)) db) := by
  intro placed
  have hbeside : (front ++ (placed ++ back)).foldl (addBesideClass fqn) db =
      (front ++ back).foldl (addBesideClass fqn) db := by
    rw [List.foldl_append, List.foldl_append, addBesideClass_placeCallable, List.foldl_append]
  have hclass : ∀ found, assembleClass header (front ++ found) =
      assembleClass (front.foldl addToClass header) found := by
    intro found
    rw [assembleClass, List.foldl_append]
    rfl
  have hplaced : ∀ c, assembleClass c (placed ++ back) =
      assembleClass (placed.foldl addToClass c) back := by
    intro c
    rw [assembleClass, List.foldl_append]
    rfl
  unfold addFound
  rw [hbeside, hclass, hclass, hplaced]
  -- The placeholder shadows the class behind the first members, and the other members leave it so.
  rcases shadowed_placeCallable p shortName visibility (front.foldl addToClass header) with
    hsame | hshadow
  · rw [hsame]
    exact Or.inl rfl
  · have hassembled := shadowed_assembleClass hshadow back
    generalize (front ++ back).foldl (addBesideClass fqn) db = db
    exact Or.inr (.member db (Dict.DiffersAt.insert_self (fun _ _ => rfl)
      ⟨_, _, rfl, rfl, hassembled⟩))

/-- A member that is added to a shadowed database leaves it shadowed. -/
theorem shadowed_addNamespaceMember {compound name : String} {db db' : Database}
    (h : db'.Shadowed p compound db) (y : NamespaceMember) :
    (addNamespaceMember name db' y).Shadowed p compound (addNamespaceMember name db y) := by
  -- Only a function can join a shadowed slot; everything else goes into a dictionary of its own.
  cases h with
  | function db h =>
      cases y with
      | function slot => exact .function db (h.add _ slot)
      | enumeration e =>
          exact .function { db with enums := db.enums.insert (Name.qualify name none e.name) e } h
      | typedef t =>
          exact .function
            { db with typedefs := db.typedefs.insert (Name.qualify name none t.name) t } h
      | «variable» g =>
          exact .function { db with globals := db.globals.insert (Name.qualify name none g.name) g } h
  | member db h =>
      cases y with
      | function slot =>
          exact .member
            { db with functions := db.functions.add (Name.qualify name none slot.name) slot } h
      | enumeration e =>
          exact .member { db with enums := db.enums.insert (Name.qualify name none e.name) e } h
      | typedef t =>
          exact .member
            { db with typedefs := db.typedefs.insert (Name.qualify name none t.name) t } h
      | «variable» g =>
          exact .member { db with globals := db.globals.insert (Name.qualify name none g.name) g } h

/-- A namespace is added with a placeholder among its members, or without. -/
theorem shadowed_foldl_addNamespaceMember (name : String) (front back : List NamespaceMember)
    (p : Placeholder) (db : Database) :
    ((front ++ back).foldl (addNamespaceMember name) db).Shadowed p name
      ((front ++ .function (.placeholder p) :: back).foldl (addNamespaceMember name) db) := by
  rw [List.foldl_append, List.foldl_append, List.foldl_cons]
  generalize front.foldl (addNamespaceMember name) db = db
  -- The shadow is cast once; members that are added later leave it.
  have hshadow : db.Shadowed p name (addNamespaceMember name db (.function (.placeholder p))) :=
    .function db (Slots.shadowedAt_add p _ db.functions)
  generalize addNamespaceMember name db (.function (.placeholder p)) = shadow at hshadow ⊢
  induction back generalizing db shadow with
  | nil => exact hshadow
  | cons y back ih => exact ih _ _ (shadowed_addNamespaceMember hshadow y)

end Compound

end ScriptBindings
