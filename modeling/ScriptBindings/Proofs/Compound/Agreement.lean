import Mathlib
import ScriptBindings.Proofs.Compound.Frozen
import ScriptBindings.Proofs.Compound.Stored

/-!
# Settling commutes with adding

A document can be added to a database with the flags that its symbols were given when it was read, and the
flags settled afterwards; or it can be added with the final flags at once.  Apart from what is frozen, this
makes no difference.
-/

namespace ScriptBindings

variable {m : FlagMap} {name : Callable → String} {flags flags' : Flags}

/-! ## Slots -/

theorem Callable.bare_reflag_endow (hname : Callable.Named name) {f : Callable}
    (hm : m (name f) f.id flags = flags') :
    ((f.endow flags).reflag m name).bare = (f.endow flags').bare := by
  show ({ (f.endow flags) with
    params := [], flags := m (name (f.endow flags)) f.id flags, visibility := .pub } : Callable) = _
  rw [(hname f).2, hm]
  rfl

namespace Slot

theorem bare_reflag_endow (hname : Callable.Named name) {s : Slot}
    (hm : ∀ p ∈ s.symbols name, m p.1 p.2 flags = flags') :
    ((s.endow flags).reflag m name).bare = (s.endow flags').bare := by
  cases s with
  | concrete f =>
      exact congrArg concrete (Callable.bare_reflag_endow hname (hm (name f, f.id) List.mem_cons_self))
  | overload g =>
      have hall : ∀ f ∈ g.overloads,
          ((f.endow flags).reflag m name).bare = (f.endow flags').bare := fun f hf =>
        Callable.bare_reflag_endow hname (hm (name f, f.id) (List.mem_map.2 ⟨f, hf, rfl⟩))
      have hoverloads : ((g.overloads.map (Callable.endow flags)).map (Callable.reflag m name)).map
          Callable.bare = (g.overloads.map (Callable.endow flags')).map Callable.bare := by
        rw [List.map_map, List.map_map, List.map_map]
        exact List.map_congr_left hall
      exact congrArg (fun overloads => overload { g with overloads := overloads, flags := {} })
        hoverloads
  | placeholder p => rfl

/-- What is bare of joined slots is bare of both. -/
theorem bare_join (s t : Slot) : (s.join t).bare = (s.bare.join t.bare).bare := by
  have hbare : ∀ fs : List Callable, (fs.map Callable.bare).map Callable.bare = fs.map Callable.bare :=
    fun fs => by
      rw [List.map_map]
      rfl
  cases s <;> cases t <;>
    first
      | rfl
      | simp only [join, bare, setForceCast, List.map_append, List.map_cons, List.map_nil, hbare]
        rfl
      | simp only [join, bare, setForceCast, List.map_append, hbare]

theorem bare_reflag_join (hname : Callable.Named name) (s t : Slot) :
    ((s.join t).reflag m name).bare = ((s.reflag m name).join (t.reflag m name)).bare := by
  have hcast : ∀ f : Callable, ({ f with forceCast := true } : Callable).reflag m name =
      { f.reflag m name with forceCast := true } := fun f => by
    simp only [Callable.reflag, (hname f).1]
  have hconcrete : ∀ f : Callable, ((concrete f).setForceCast.reflag m name) =
      ((concrete f).reflag m name).setForceCast := fun f => congrArg concrete (hcast f)
  cases s <;> cases t <;>
    first
      | rfl
      | simp only [join, hconcrete]
        rfl
      | simp only [join, bare, reflag, mapCallables, List.map_append, List.map_cons, List.map_nil]

/-- Joining slots that agree gives slots that agree. -/
theorem bare_reflag_join_of_eq (hname : Callable.Named name) {s t s' t' : Slot}
    (hs : (s.reflag m name).bare = s'.bare) (ht : (t.reflag m name).bare = t'.bare) :
    ((s.join t).reflag m name).bare = (s'.join t').bare := by
  rw [bare_reflag_join hname, bare_join, hs, ht, ← bare_join]

end Slot

/-- Adding slots that agree to slots that agree. -/
theorem Slots.map_add_of_eq {slots slots' : Slots} {name : String → Callable → String}
    (hname : ∀ key, Callable.Named (name key)) {key : String} {s s' : Slot}
    (hslots : (slots.map fun key s => (s.reflag m (name key)).bare) = slots'.map fun _ => Slot.bare)
    (hs : (s.reflag m (name key)).bare = s'.bare) :
    ((slots.add key s).map fun key s => (s.reflag m (name key)).bare) =
      (slots'.add key s').map fun _ => Slot.bare := by
  have hget := congrArg (·.get? key) hslots
  rw [Dict.get?_map, Dict.get?_map] at hget
  unfold Slots.add
  cases hpresent : slots.get? key with
  | none =>
      rw [hpresent] at hget
      rw [Option.map_eq_none_iff.1 hget.symm]
      simp only [Dict.map_insert, hslots, hs]
  | some present =>
      rw [hpresent] at hget
      obtain ⟨present', hpresent', hbare⟩ := Option.map_eq_some_iff.1 hget.symm
      rw [hpresent']
      simp only [Dict.map_insert, hslots]
      rw [Slot.bare_reflag_join_of_eq (hname key) hbare.symm hs]

namespace Compound

/-! ## Members -/

/-- Adding slots to the methods of classes that agree. -/
theorem map_add_methods {methods methods' : Slots} {slot : Slot}
    (hmethods : (methods.map fun _ => Slot.reflag m Callable.fqn).map (fun _ => Slot.bare) =
      methods'.map fun _ => Slot.bare)
    (hm : ∀ p ∈ slot.symbols Callable.fqn, m p.1 p.2 flags = flags') :
    ((methods.add (slot.endow flags).name (slot.endow flags)).map fun _ =>
        Slot.reflag m Callable.fqn).map (fun _ => Slot.bare) =
      (methods'.add (slot.endow flags').name (slot.endow flags')).map fun _ => Slot.bare := by
  rw [Dict.map_map] at hmethods ⊢
  rw [Slot.name_endow, Slot.name_endow]
  exact Slots.map_add_of_eq (fun _ => Callable.named_fqn) hmethods
    (Slot.bare_reflag_endow Callable.named_fqn hm)

/-- A member of a class, with flags that are settled afterwards or at once. -/
theorem bare_reflag_addToClass {fqn : String} {c c' : Class} {x : ClassMember}
    (hc : (c.reflag m fqn).bare = c'.bare) (hm : ∀ p ∈ x.inside fqn, m p.1 p.2 flags = flags') :
    ((addToClass c (x.endow flags)).reflag m fqn).bare = (addToClass c' (x.endow flags')).bare := by
  -- A member changes one field of the class, and the others agree as before.
  cases x with
  | constructor f =>
      have hf := Callable.bare_reflag_endow Callable.named_fqn (hm (f.fqn, f.id) List.mem_cons_self)
      have hall : ((c.constructors ++ [f.endow flags]).map (Callable.reflag m Callable.fqn)).map
          Callable.bare = (c'.constructors ++ [f.endow flags']).map Callable.bare := by
        rw [List.map_append, List.map_append, List.map_append]
        exact congrArg₂ (· ++ ·) (congrArg Class.constructors hc) (congrArg ([·]) hf)
      exact congrArg₂ (fun (c : Class) constructors => { c with constructors := constructors }) hc hall
  | rejected p =>
      have hall : (c.rejectedConstructors ++ [p.endow flags]).map Placeholder.bare =
          (c'.rejectedConstructors ++ [p.endow flags']).map Placeholder.bare := by
        rw [List.map_append, List.map_append]
        exact congrArg (· ++ [p.bare]) (congrArg Class.rejectedConstructors hc)
      exact congrArg₂ (fun (c : Class) rejected => { c with rejectedConstructors := rejected }) hc hall
  | destructor f =>
      have hf := Callable.bare_reflag_endow Callable.named_fqn (hm (f.fqn, f.id) List.mem_cons_self)
      exact congrArg₂ (fun (c : Class) f => { c with destructor := some f }) hc hf
  | method slot =>
      have hall := map_add_methods (congrArg Class.methods hc) hm
      exact congrArg₂ (fun (c : Class) methods => { c with methods := methods }) hc hall
  | hidden slot =>
      have hall := map_add_methods (congrArg Class.hiddenMethods hc) hm
      exact congrArg₂ (fun (c : Class) methods => { c with hiddenMethods := methods }) hc hall
  | «attribute» a =>
      have ha : (a.endow flags).reflag m fqn = a.endow flags' := by
        rw [← hm (fqn ++ "::" ++ a.name, a.id) List.mem_cons_self]
        rfl
      have hattributes : c.attributes.map (fun _ => Attribute.reflag m fqn) = c'.attributes :=
        congrArg Class.attributes hc
      have hall : (c.attributes.insert a.name (a.endow flags)).map (fun _ => Attribute.reflag m fqn) =
          c'.attributes.insert a.name (a.endow flags') := Dict.map_insert_of_eq hattributes ha
      exact congrArg₂ (fun (c : Class) attributes => { c with attributes := attributes }) hc hall
  | enumeration e => exact hc
  | typedef t => exact hc

section Database

variable {db db' : Database} {key : String}

theorem bare_reflag_insert_enum {e : Enumeration} (hdb : (db.reflag m).bare = db'.bare)
    (hm : m key e.id flags = flags') :
    (({ db with enums := db.enums.insert key (e.endow flags) } : Database).reflag m).bare =
      ({ db' with enums := db'.enums.insert key (e.endow flags') } : Database).bare := by
  have henums : db.enums.map (fun fqn e => e.endow (m fqn e.id e.flags)) = db'.enums :=
    congrArg Database.enums hdb
  have hall : (db.enums.insert key (e.endow flags)).map (fun fqn e => e.endow (m fqn e.id e.flags)) =
      db'.enums.insert key (e.endow flags') :=
    Dict.map_insert_of_eq henums (congrArg e.endow hm)
  exact congrArg₂ (fun (db : Database) enums => { db with enums := enums }) hdb hall

theorem bare_reflag_insert_typedef {t : Typedef} (hdb : (db.reflag m).bare = db'.bare)
    (hm : m key t.id flags = flags') :
    (({ db with typedefs := db.typedefs.insert key (t.endow flags) } : Database).reflag m).bare =
      ({ db' with typedefs := db'.typedefs.insert key (t.endow flags') } : Database).bare := by
  have htypedefs : db.typedefs.map (fun fqn t => t.endow (m fqn t.id t.flags)) = db'.typedefs :=
    congrArg Database.typedefs hdb
  have hall : (db.typedefs.insert key (t.endow flags)).map
      (fun fqn t => t.endow (m fqn t.id t.flags)) = db'.typedefs.insert key (t.endow flags') :=
    Dict.map_insert_of_eq htypedefs (congrArg t.endow hm)
  exact congrArg₂ (fun (db : Database) typedefs => { db with typedefs := typedefs }) hdb hall

theorem bare_reflag_insert_global {g : Global} (hdb : (db.reflag m).bare = db'.bare)
    (hm : m key g.id flags = flags') :
    (({ db with globals := db.globals.insert key (g.endow flags) } : Database).reflag m).bare =
      ({ db' with globals := db'.globals.insert key (g.endow flags') } : Database).bare := by
  have hglobals : db.globals.map (fun fqn g => g.endow (m fqn g.id g.flags)) = db'.globals :=
    congrArg Database.globals hdb
  have hall : (db.globals.insert key (g.endow flags)).map
      (fun fqn g => g.endow (m fqn g.id g.flags)) = db'.globals.insert key (g.endow flags') :=
    Dict.map_insert_of_eq hglobals (congrArg g.endow hm)
  exact congrArg₂ (fun (db : Database) globals => { db with globals := globals }) hdb hall

theorem bare_reflag_insert_namespace {n : NamespaceInfo} (hdb : (db.reflag m).bare = db'.bare)
    (hm : m key n.id flags = flags') :
    (({ db with namespaces := db.namespaces.insert key (n.endow flags) } : Database).reflag m).bare =
      ({ db' with namespaces := db'.namespaces.insert key (n.endow flags') } : Database).bare := by
  have hnamespaces : db.namespaces.map (fun fqn n => n.endow (m fqn n.id n.flags)) =
      db'.namespaces := congrArg Database.namespaces hdb
  have hall : (db.namespaces.insert key (n.endow flags)).map
      (fun fqn n => n.endow (m fqn n.id n.flags)) = db'.namespaces.insert key (n.endow flags') :=
    Dict.map_insert_of_eq hnamespaces (congrArg n.endow hm)
  exact congrArg₂ (fun (db : Database) namespaces => { db with namespaces := namespaces }) hdb hall

theorem bare_reflag_add_function {slot : Slot} (hdb : (db.reflag m).bare = db'.bare)
    (hm : ∀ p ∈ slot.symbols fun _ => key, m p.1 p.2 flags = flags') :
    (({ db with functions := db.functions.add key (slot.endow flags) } : Database).reflag m).bare =
      ({ db' with functions := db'.functions.add key (slot.endow flags') } : Database).bare := by
  have hfunctions : (db.functions.map fun fqn => Slot.reflag m fun _ => fqn).map (fun _ => Slot.bare) =
      db'.functions.map fun _ => Slot.bare := congrArg Database.functions hdb
  have hall : ((db.functions.add key (slot.endow flags)).map
      fun fqn => Slot.reflag m fun _ => fqn).map (fun _ => Slot.bare) =
        (db'.functions.add key (slot.endow flags')).map fun _ => Slot.bare := by
    rw [Dict.map_map] at hfunctions ⊢
    exact Slots.map_add_of_eq Callable.named_const hfunctions
      (Slot.bare_reflag_endow (Callable.named_const key) hm)
  exact congrArg₂ (fun (db : Database) functions => { db with functions := functions }) hdb hall

theorem bare_reflag_insert_class {c c' : Class} (hdb : (db.reflag m).bare = db'.bare)
    (hc : (c.reflag m key).bare = c'.bare) :
    (({ db with classes := db.classes.insert key c } : Database).reflag m).bare =
      ({ db' with classes := db'.classes.insert key c' } : Database).bare := by
  have hclasses : (db.classes.map (Class.reflag m)).map (fun _ => Class.bare) =
      db'.classes.map fun _ => Class.bare := congrArg Database.classes hdb
  have hall : ((db.classes.insert key c).map (Class.reflag m)).map (fun _ => Class.bare) =
      (db'.classes.insert key c').map fun _ => Class.bare := by
    rw [Dict.map_insert, Dict.map_insert, Dict.map_insert, hclasses, hc]
  exact congrArg₂ (fun (db : Database) classes => { db with classes := classes }) hdb hall

/-- An entity of a class that stands beside it. -/
theorem bare_reflag_addBesideClass {fqn : String} {x : ClassMember}
    (hdb : (db.reflag m).bare = db'.bare) (hm : ∀ p ∈ x.beside fqn, m p.1 p.2 flags = flags') :
    ((addBesideClass fqn db (x.endow flags)).reflag m).bare =
      (addBesideClass fqn db' (x.endow flags')).bare := by
  cases x with
  | enumeration e => exact bare_reflag_insert_enum hdb (hm _ List.mem_cons_self)
  | typedef t => exact bare_reflag_insert_typedef hdb (hm _ List.mem_cons_self)
  | _ => exact hdb

/-- A member of a namespace. -/
theorem bare_reflag_addNamespaceMember {name : String} {x : NamespaceMember}
    (hdb : (db.reflag m).bare = db'.bare) (hm : ∀ p ∈ x.symbols name, m p.1 p.2 flags = flags') :
    ((addNamespaceMember name db (x.endow flags)).reflag m).bare =
      (addNamespaceMember name db' (x.endow flags')).bare := by
  cases x with
  | function slot =>
      simp only [NamespaceMember.endow, addNamespaceMember, Slot.name_endow]
      exact bare_reflag_add_function hdb hm
  | enumeration e => exact bare_reflag_insert_enum hdb (hm _ List.mem_cons_self)
  | typedef t => exact bare_reflag_insert_typedef hdb (hm _ List.mem_cons_self)
  | «variable» g => exact bare_reflag_insert_global hdb (hm _ List.mem_cons_self)

end Database

/-! ## Documents -/

/-- Two members that are the same but for their flags, which settle to the same. -/
def ClassMember.Agree (m : FlagMap) (fqn : String) (x y : ClassMember) : Prop :=
  ∃ (z : ClassMember) (flags flags' : Flags), x = z.endow flags ∧ y = z.endow flags' ∧
    ∀ p ∈ z.inside fqn ++ z.beside fqn, m p.1 p.2 flags = flags'

/-- The same for members of a namespace. -/
def NamespaceMember.Agree (m : FlagMap) (name : String) (x y : NamespaceMember) : Prop :=
  ∃ (z : NamespaceMember) (flags flags' : Flags), x = z.endow flags ∧ y = z.endow flags' ∧
    ∀ p ∈ z.symbols name, m p.1 p.2 flags = flags'

variable {given final : Documented → Flags} {db db' : Database}

theorem ClassDraft.Faithful.forall₂_agree {d : ClassDraft} (h : d.Faithful)
    (hm : ∀ e ∈ d.documented, m e.fqn e.id (given e) = final e) :
    List.Forall₂ (ClassMember.Agree m d.header.fqn)
      (d.members.flatMap fun x => endowMembers (given x.toDocumented) x.content)
      (d.members.flatMap fun x => endowMembers (final x.toDocumented) x.content) := by
  refine List.rel_flatMap (R := fun x y => x = y ∧ x ∈ d.members)
    (List.forall₂_same.2 fun x hx => ⟨rfl, hx⟩) ?_
  rintro x y ⟨rfl, hx⟩
  refine List.forall₂_map_left_iff.2 (List.forall₂_map_right_iff.2 (List.forall₂_same.2 fun z hz => ?_))
  refine ⟨z, given x.toDocumented, final x.toDocumented, rfl, rfl, fun p hp => ?_⟩
  have hsymbol : p = symbolOf x.toDocumented :=
    List.mem_singleton.1 ((h.members x hx).subset (List.mem_flatMap.2 ⟨z, hz, hp⟩))
  rw [hsymbol]
  exact hm _ (List.mem_cons_of_mem _ (List.mem_map_of_mem hx))

theorem NamespaceDraft.Faithful.forall₂_agree {d : NamespaceDraft} (h : d.Faithful)
    (hm : ∀ e ∈ d.documented, m e.fqn e.id (given e) = final e) :
    List.Forall₂ (NamespaceMember.Agree m d.info.fqn)
      (d.members.map fun x => x.content.endow (given x.toDocumented))
      (d.members.map fun x => x.content.endow (final x.toDocumented)) := by
  refine List.forall₂_map_left_iff.2 (List.forall₂_map_right_iff.2 (List.forall₂_same.2 fun x hx => ?_))
  refine ⟨x.content, _, _, rfl, rfl, fun p hp => ?_⟩
  have hsymbol : p = symbolOf x.toDocumented :=
    List.mem_singleton.1 ((h.members x hx).subset hp)
  rw [hsymbol]
  exact hm _ (List.mem_cons_of_mem _ (List.mem_map_of_mem hx))

/-- Does one of the callables of a slot have to be implemented? -/
def isAbstractSlot (s : Slot) : Bool :=
  s.callables.any Callable.isAbstract

theorem isAbstractSlot_bare (s : Slot) : isAbstractSlot s.bare = isAbstractSlot s := by
  cases s with
  | concrete f => rfl
  | overload g =>
      simp only [isAbstractSlot, Slot.bare, Slot.callables, List.any_map]
      rfl
  | placeholder p => rfl

theorem isAbstractSlot_reflag (name : Callable → String) (s : Slot) :
    isAbstractSlot (s.reflag m name) = isAbstractSlot s := by
  cases s with
  | concrete f => rfl
  | overload g =>
      simp only [isAbstractSlot, Slot.reflag, Slot.mapCallables, Slot.callables, List.any_map]
      rfl
  | placeholder p => rfl

theorem any_isAbstractSlot_map {f : String → Slot → Slot}
    (hf : ∀ key s, isAbstractSlot (f key s) = isAbstractSlot s) (slots : Slots) :
    (Dict.map f slots).values.any isAbstractSlot = slots.values.any isAbstractSlot := by
  simp only [Dict.values, Dict.map, List.map_map, List.any_map, Function.comp_def, hf]

theorem hasAbstractMethod_bare (c : Class) : hasAbstractMethod c.bare = hasAbstractMethod c := by
  show (c.bare.methods.values ++ c.bare.hiddenMethods.values).any isAbstractSlot =
    (c.methods.values ++ c.hiddenMethods.values).any isAbstractSlot
  rw [List.any_append, List.any_append, Class.bare,
    any_isAbstractSlot_map fun _ => isAbstractSlot_bare,
    any_isAbstractSlot_map fun _ => isAbstractSlot_bare]

theorem hasAbstractMethod_reflag (fqn : String) (c : Class) :
    hasAbstractMethod (c.reflag m fqn) = hasAbstractMethod c := by
  show ((c.reflag m fqn).methods.values ++ (c.reflag m fqn).hiddenMethods.values).any isAbstractSlot =
    (c.methods.values ++ c.hiddenMethods.values).any isAbstractSlot
  rw [List.any_append, List.any_append, Class.reflag,
    any_isAbstractSlot_map fun _ => isAbstractSlot_reflag _,
    any_isAbstractSlot_map fun _ => isAbstractSlot_reflag _]

/-- Whether a class is abstract is neither frozen nor a matter of flags. -/
theorem hasAbstractMethod_of_bare {fqn : String} {c c' : Class} (hc : (c.reflag m fqn).bare = c'.bare) :
    hasAbstractMethod c = hasAbstractMethod c' := by
  rw [← hasAbstractMethod_reflag fqn, ← hasAbstractMethod_bare, hc, hasAbstractMethod_bare]

/-- A class that has no members yet only has flags of its own to settle. -/
theorem Memberless.reflag_endow {c : Class} (h : Memberless c) (fqn : String) :
    (c.endow flags).reflag m fqn = c.endow (m fqn c.id flags) := by
  simp only [Class.reflag, Class.endow, h.methods, h.hiddenMethods, h.constructors, h.destructor,
    h.attributes]
  rfl

theorem bare_reflag_assembleClass {fqn : String} {header header' : Class}
    {found found' : List ClassMember} (hheader : (header.reflag m fqn).bare = header'.bare)
    (hfound : List.Forall₂ (ClassMember.Agree m fqn) found found') :
    ((assembleClass header found).reflag m fqn).bare = (assembleClass header' found').bare := by
  have hclass : ((found.foldl addToClass header).reflag m fqn).bare =
      (found'.foldl addToClass header').bare := by
    refine List.rel_foldl (P := fun c c' => (Class.reflag m fqn c).bare = Class.bare c') ?_
      hheader hfound
    rintro c c' hc - - ⟨z, flags, flags', rfl, rfl, hz⟩
    exact bare_reflag_addToClass hc fun p hp => hz p (List.mem_append_left _ hp)
  exact congrArg₂ (fun (c : Class) isAbstract => { c with isAbstract := isAbstract }) hclass
    (hasAbstractMethod_of_bare hclass)

/-- A class can be added with the flags that its symbols are given, or with their final flags. -/
theorem ClassDraft.Faithful.bare_reflag_addTo {d : ClassDraft} (h : d.Faithful)
    (hdb : (db.reflag m).bare = db'.bare)
    (hm : ∀ e ∈ d.documented, m e.fqn e.id (given e) = final e) :
    ((d.addTo given db).reflag m).bare = (d.addTo final db').bare := by
  have hfound := h.forall₂_agree hm
  have hheader : ((d.header.content.endow (given d.header.toDocumented)).reflag m d.header.fqn).bare =
      (d.header.content.endow (final d.header.toDocumented)).bare := by
    have hflags := hm d.header.toDocumented List.mem_cons_self
    rw [← h.id] at hflags
    rw [h.memberless.reflag_endow, hflags]
  refine bare_reflag_insert_class ?_ (bare_reflag_assembleClass hheader hfound)
  refine List.rel_foldl (P := fun db db' => (Database.reflag m db).bare = Database.bare db')
    ?_ hdb hfound
  rintro db db' hdb - - ⟨z, flags, flags', rfl, rfl, hz⟩
  exact bare_reflag_addBesideClass hdb fun p hp => hz p (List.mem_append_right _ hp)

/-- And so can a namespace. -/
theorem NamespaceDraft.Faithful.bare_reflag_addTo {d : NamespaceDraft} (h : d.Faithful)
    (hdb : (db.reflag m).bare = db'.bare)
    (hm : ∀ e ∈ d.documented, m e.fqn e.id (given e) = final e) :
    ((d.addTo given db).reflag m).bare = (d.addTo final db').bare := by
  have hinfo : m d.info.fqn d.info.content.id (given d.info.toDocumented) =
      final d.info.toDocumented := by
    rw [h.info]
    exact hm _ List.mem_cons_self
  refine List.rel_foldl (P := fun db db' => (Database.reflag m db).bare = Database.bare db') ?_
    (bare_reflag_insert_namespace hdb hinfo) (h.forall₂_agree hm)
  rintro db db' hdb - - ⟨z, flags, flags', rfl, rfl, hz⟩
  exact bare_reflag_addNamespaceMember hdb hz

end Compound

end ScriptBindings
