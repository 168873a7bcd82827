import Mathlib
import ScriptBindings.Proofs.Compound.Alike
import ScriptBindings.Proofs.Compound.DocumentOrder
import ScriptBindings.Proofs.Compound.Shelves

/-!
# The flags of groups

A group copies the flags of its first callable when it comes into being.  Reading more documents does not
change the flags of callables, and a callable that joins a group does so behind its first one, so that the
copy is right as long as documents are read.  Finishing gives the callables the flags that still wait for them
and leaves the copy as it is.
-/

namespace ScriptBindings

/-! ## Groups that are aligned -/

/-- A group has the flags of its first callable. -/
def OverloadGroup.IsAligned (g : OverloadGroup) : Prop :=
  g.overloads.head?.map Callable.flags = some g.flags

instance (g : OverloadGroup) : Decidable g.IsAligned :=
  inferInstanceAs (Decidable (_ = _))

namespace Slot

/-- If the slot holds a group, the group has the flags of its first callable. -/
def IsAligned : Slot → Prop
  | .overload g => g.IsAligned
  | _ => True

variable {a b : Slot}

theorem IsSingle.isAligned (h : a.IsSingle) : a.IsAligned := by
  cases a with
  | concrete f => trivial
  | overload g => exact h.elim
  | placeholder p => trivial

/-- A slot stays aligned when what one member is read as joins it. -/
theorem IsAligned.join (h : a.IsAligned) (hb : b.IsSingle) : (a.join b).IsAligned := by
  cases a with
  | concrete first =>
      cases b with
      | concrete second => rfl
      | overload g => exact hb.elim
      | placeholder p => trivial
  | overload g =>
      cases b with
      | concrete next =>
          -- The group is not empty, so its first callable stays where it is.
          obtain ⟨first, hfirst, hflags⟩ := Option.map_eq_some_iff.1 h
          show ((g.overloads ++ [next]).head?.map Callable.flags) = some g.flags
          rw [List.head?_append, hfirst, Option.some_or, Option.map_some, hflags]
      | overload other => exact hb.elim
      | placeholder p => exact h
  | placeholder p =>
      cases b with
      | concrete f => trivial
      | overload g => exact hb.elim
      | placeholder q => trivial

end Slot

/-- All slots are aligned. -/
def Slots.Aligned (slots : Slots) : Prop :=
  ∀ key slot, slots.get? key = some slot → slot.IsAligned

namespace Slots

variable {slots : Slots} {key : String} {s : Slot}

theorem aligned_empty : Aligned .empty :=
  fun _ _ h => by cases h

theorem Aligned.insert (h : slots.Aligned) (hs : s.IsAligned) : Aligned (slots.insert key s) := by
  intro other slot hslot
  rw [Dict.get?_insert] at hslot
  split at hslot
  · exact Option.some.inj hslot ▸ hs
  · exact h other slot hslot

theorem Aligned.add (h : slots.Aligned) (hs : s.IsSingle) : (slots.add key s).Aligned := by
  unfold Slots.add
  cases hpresent : slots.get? key with
  | none => exact h.insert hs.isAligned
  | some present => exact h.insert ((h key present hpresent).join hs)

theorem Aligned.addAll (h : slots.Aligned) {l : List (String × Slot)} (hl : ∀ e ∈ l, e.2.IsSingle) :
    (slots.addAll l).Aligned := by
  induction l generalizing slots with
  | nil => exact h
  | cons e l ih =>
      obtain ⟨he, hl⟩ := List.forall_mem_cons.1 hl
      exact ih (h.add he) hl

end Slots

/-! ## Where slots are -/

/-- A place for a slot: a function's name, or a class and the name of a method, hidden or not. -/
inductive Site where
  | function (fqn : String)
  | method (cls name : String)
  | hidden (cls name : String)
deriving DecidableEq, Repr

/-- The name that flags wait under for a callable at a place. -/
def Site.target : Site → Callable → String
  | .function fqn, _ => fqn
  | .method _ _, f => f.fqn
  | .hidden _ _, f => f.fqn

/-- What a database has at a place. -/
def Database.slot? (db : Database) : Site → Option Slot
  | .function fqn => db.functions.get? fqn
  | .method cls name => (db.classes.get? cls).bind fun c => c.methods.get? name
  | .hidden cls name => (db.classes.get? cls).bind fun c => c.hiddenMethods.get? name

/-- All slots of a database are aligned. -/
structure Database.Aligned (db : Database) : Prop where
  functions : db.functions.Aligned
  methods : ∀ fqn c, db.classes.get? fqn = some c → c.methods.Aligned
  hidden : ∀ fqn c, db.classes.get? fqn = some c → c.hiddenMethods.Aligned

theorem Database.Aligned.isAligned {db : Database} {site : Site} {slot : Slot} (h : db.Aligned)
    (hslot : db.slot? site = some slot) : slot.IsAligned := by
  cases site with
  | function fqn => exact h.functions fqn slot hslot
  | method cls name =>
      obtain ⟨c, hc, hslot⟩ := Option.bind_eq_some_iff.1 hslot
      exact h.methods cls c hc name slot hslot
  | hidden cls name =>
      obtain ⟨c, hc, hslot⟩ := Option.bind_eq_some_iff.1 hslot
      exact h.hidden cls c hc name slot hslot

theorem Database.aligned_empty : Aligned {} where
  functions := Slots.aligned_empty
  methods _ _ hc := by cases hc
  hidden _ _ hc := by cases hc

namespace Compound

/-! ## What one document does -/

variable {s : Setting} {place : Place} {fqn : String} {ctx ctx' : FlagContext} {member : Xml.Element}

theorem isSingle_of_readCallable {slot : Slot} (h : readCallable s place ctx member = .ok (slot, ctx')) :
    slot.IsSingle := by
  obtain ⟨_, hslot, hpair⟩ := bind_eq_ok_iff.1 h
  cases pure_eq_ok_iff.1 hpair
  rcases callableSlot_inv hslot with ⟨result, parameters, location, rfl⟩ | ⟨reason, rfl⟩
  · trivial
  · trivial

/-- A callable that finds its place in a class adds no slot but its own. -/
theorem eq_of_mem_slots {short : String} {visibility : Visibility} {slot : Slot} {m : ClassMember}
    (hm : m ∈ placeCallable short visibility slot) {shelf : Shelf} {e : String × Slot}
    (he : e ∈ m.slots shelf) : e.2 = slot := by
  rcases placeCallable_inv hm with ⟨p, rfl⟩ | ⟨f, rfl⟩ | ⟨f, rfl⟩ | rfl | rfl
  · cases he
  · cases he
  · cases he
  all_goals
    simp only [ClassMember.slots] at he
    split at he
    · rw [List.mem_singleton.1 he]
    · cases he

theorem isSingle_of_readClassMembers {members : List Xml.Element} {found : List ClassMember}
    (h : readClassMembers s place fqn ctx members = .ok (found, ctx')) (shelf : Shelf) :
    ∀ e ∈ found.flatMap (ClassMember.slots shelf), e.2.IsSingle := by
  intro e he
  obtain ⟨m, hm, he⟩ := List.mem_flatMap.1 he
  obtain ⟨member, -, _, here, _, hread, hm⟩ := exists_of_mem_readClassMembers h hm
  rcases readClassMember_inv hread with ⟨-, slot, hslot, rfl⟩ | ⟨-, hother⟩
  · exact eq_of_mem_slots hm he ▸ isSingle_of_readCallable hslot
  · -- Entities of other kinds add no slots.
    rcases hother with rfl | ⟨a, rfl, -⟩ | ⟨e, rfl, -⟩ | ⟨t, rfl, -⟩
    · cases hm
    all_goals
      obtain rfl := List.mem_singleton.1 hm
      cases he

theorem exists_of_mem_readNamespaceMembers {name : String} {members : List Xml.Element}
    {found : List NamespaceMember} {m : NamespaceMember}
    (h : readNamespaceMembers s name ctx members = .ok (found, ctx')) (hm : m ∈ found) :
    ∃ member ∈ members, ∃ ctx after, readNamespaceMember s name ctx member = .ok (some m, after) := by
  induction members generalizing ctx found with
  | nil =>
      cases h
      cases hm
  | cons member rest ih =>
      simp only [readNamespaceMembers, bind_eq_ok_iff, pure_eq_ok_iff] at h
      obtain ⟨⟨here, after⟩, hhere, ⟨later, last⟩, hlater, hfound⟩ := h
      cases hfound
      rcases List.mem_append.1 hm with hm | hm
      · obtain rfl : here = some m := Option.mem_toList.1 hm
        exact ⟨member, List.mem_cons_self, ctx, after, hhere⟩
      · obtain ⟨other, hother, hread⟩ := ih hlater hm
        exact ⟨other, List.mem_cons_of_mem _ hother, hread⟩

/-- What a member of a namespace is read as: a callable, or an entity of another kind in the namespace. -/
theorem readNamespaceMember_inv {name : String} {m : NamespaceMember}
    (h : readNamespaceMember s name ctx member = .ok (some m, ctx')) :
    (∃ slot, m = .function slot ∧ readCallable s { scope := name } ctx member = .ok (slot, ctx')) ∨
      (∃ e, m = .enumeration e ∧ e.scope = name) ∨ (∃ t, m = .typedef t ∧ t.scope = name) ∨
      ∃ g, m = .variable g ∧ g.scope = name := by
  unfold readNamespaceMember at h
  dsimp only at h
  -- In the order of the reader: functions, enumerations, typedefs, variables, anything else.
  split at h
  · obtain ⟨⟨slot, after⟩, hread, h⟩ := bind_eq_ok_iff.1 h
    cases pure_eq_ok_iff.1 h
    exact .inl ⟨slot, rfl, hread⟩
  · obtain ⟨⟨e, after⟩, hread, h⟩ := bind_eq_ok_iff.1 h
    cases pure_eq_ok_iff.1 h
    exact .inr (.inl ⟨e, rfl, scope_of_readEnum hread⟩)
  · obtain ⟨⟨_ | t, after⟩, hread, h⟩ := bind_eq_ok_iff.1 h
    · cases pure_eq_ok_iff.1 h
    · cases pure_eq_ok_iff.1 h
      obtain ⟨ty, flags, location, -, rfl⟩ := readTyped_inv hread
      exact .inr (.inr (.inl ⟨_, rfl, context_namespace name⟩))
  · obtain ⟨⟨_ | g, after⟩, hread, h⟩ := bind_eq_ok_iff.1 h
    · cases pure_eq_ok_iff.1 h
    · cases pure_eq_ok_iff.1 h
      obtain ⟨ty, flags, location, -, rfl⟩ := readTyped_inv hread
      exact .inr (.inr (.inr ⟨_, rfl, rfl⟩))
  · cases pure_eq_ok_iff.1 h

/-- A namespace adds functions one by one. -/
theorem isSingle_of_readNamespaceMembers {name : String} {members : List Xml.Element}
    {found : List NamespaceMember} {slot : Slot}
    (h : readNamespaceMembers s name ctx members = .ok (found, ctx')) (hslot : .function slot ∈ found) :
    slot.IsSingle := by
  obtain ⟨member, -, _, _, hread⟩ := exists_of_mem_readNamespaceMembers h hslot
  rcases readNamespaceMember_inv hread with ⟨slot', heq, hcallable⟩ | ⟨e, heq, -⟩ | ⟨t, heq, -⟩ | ⟨g, heq, -⟩
  · cases heq
    exact isSingle_of_readCallable hcallable
  all_goals cases heq

/-! ## Every document keeps groups aligned -/

variable {db db' : Database} {compound root : Xml.Element}

/-- A class that is put together has aligned methods. -/
theorem aligned_slotsOn {c : Class} (hc : Memberless c) {members : List Xml.Element}
    {found : List ClassMember} (hfound : readClassMembers s place fqn ctx members = .ok (found, ctx'))
    (shelf : Shelf) : (slotsOn (assembleClass c found) shelf).Aligned := by
  have hstart : slotsOn c shelf = .empty := by
    cases shelf with
    | methods => exact hc.methods
    | hidden => exact hc.hiddenMethods
    | _ => rfl
  have hadded := Slots.aligned_empty.addAll (isSingle_of_readClassMembers hfound shelf)
  rw [← hstart, ← slotsOn_foldl] at hadded
  cases shelf <;> exact hadded

/-- What a class adds beside itself are no slots and no classes. -/
theorem functions_foldl_addBesideClass (fqn : String) (found : List ClassMember) (db : Database) :
    (found.foldl (addBesideClass fqn) db).functions = db.functions :=
  foldl_unchanged (fun _ m => by cases m <;> rfl) db found

theorem classes_foldl_addBesideClass (fqn : String) (found : List ClassMember) (db : Database) :
    (found.foldl (addBesideClass fqn) db).classes = db.classes :=
  foldl_unchanged (fun _ m => by cases m <;> rfl) db found

theorem aligned_addClass (hdb : db.Aligned) (h : addClass s db ctx compound = .ok (db', ctx')) :
    db'.Aligned := by
  unfold addClass at h
  split at h
  · cases h
    exact hdb
  obtain ⟨header, found, -, hmemberless, hfound, rfl⟩ := readClass_inv h
  -- A class takes the place of an earlier one as a whole, so no slot of it is old.
  have hclass : ∀ fqn c, ((found.foldl (addBesideClass (compound.childText "compoundname"))
      db).classes.insert (compound.childText "compoundname") (assembleClass header found)).get? fqn =
        some c → c = assembleClass header found ∨ db.classes.get? fqn = some c := by
    intro fqn c hc
    rw [classes_foldl_addBesideClass, Dict.get?_insert] at hc
    split at hc
    · exact Or.inl (Option.some.inj hc).symm
    · exact Or.inr hc
  refine ⟨?_, fun fqn c hc => ?_, fun fqn c hc => ?_⟩
  · exact functions_foldl_addBesideClass _ found db ▸ hdb.functions
  · rcases hclass fqn c hc with rfl | hold
    · exact aligned_slotsOn hmemberless hfound .methods
    · exact hdb.methods fqn c hold
  · rcases hclass fqn c hc with rfl | hold
    · exact aligned_slotsOn hmemberless hfound .hidden
    · exact hdb.hidden fqn c hold

theorem aligned_foldl_addNamespaceMember {name : String} {found : List NamespaceMember}
    (hdb : db.Aligned) (hfound : ∀ slot, NamespaceMember.function slot ∈ found → slot.IsSingle) :
    (found.foldl (addNamespaceMember name) db).Aligned := by
  induction found generalizing db with
  | nil => exact hdb
  | cons m found ih =>
      refine ih ?_ fun slot hslot => hfound slot (List.mem_cons_of_mem _ hslot)
      cases m with
      | function slot =>
          exact ⟨hdb.functions.add (hfound slot List.mem_cons_self), hdb.methods, hdb.hidden⟩
      | _ => exact ⟨hdb.functions, hdb.methods, hdb.hidden⟩

theorem aligned_addNamespace (hdb : db.Aligned) (h : addNamespace s db ctx compound = .ok (db', ctx')) :
    db'.Aligned := by
  simp only [addNamespace] at h
  split at h
  · cases pure_eq_ok_iff.1 h
    exact ⟨hdb.functions, hdb.methods, hdb.hidden⟩
  · obtain ⟨⟨found, after⟩, hfound, h⟩ := bind_eq_ok_iff.1 h
    cases pure_eq_ok_iff.1 h
    refine aligned_foldl_addNamespaceMember ⟨hdb.functions, hdb.methods, hdb.hidden⟩
      fun slot hslot => ?_
    exact isSingle_of_readNamespaceMembers hfound hslot

/-- A document that is accepted keeps all groups aligned. -/
theorem aligned_addRoot {x y : Extraction} (hx : x.db.Aligned) (h : x.addRoot s root = .ok y) :
    y.db.Aligned := by
  rcases addRoot_inv h with ⟨compound, -, -, hadd⟩ | ⟨compound, -, hadd⟩ | rfl
  · exact aligned_addNamespace hx hadd
  · exact aligned_addClass hx hadd
  · exact hx

/-- Any documents that are accepted one after the other do. -/
theorem aligned_foldlM {x y : Extraction} {roots : List Xml.Element} (hx : x.db.Aligned)
    (h : roots.foldlM (Extraction.addRoot s) x = .ok y) : y.db.Aligned :=
  of_foldlM_eq_ok (P := fun x : Extraction => x.db.Aligned) hx (fun _ _ _ _ => aligned_addRoot) h

/-! ## What finishing does to a group -/

/-- A change that hands a context on leaves waiting what waits. -/
def KeepsWaiting {α : Type} (f : FlagContext → α → α × FlagContext) : Prop :=
  ∀ ctx a, (f ctx a).2.waiting = ctx.waiting

section KeepsWaiting

variable {α : Type} {f : FlagContext → α → α × FlagContext}

theorem keepsWaiting_settleNamed (name : Callable → String) : KeepsWaiting (settleNamed name) :=
  fun _ _ => FlagContext.waiting_apply _ _ _ _

theorem KeepsWaiting.thread (h : KeepsWaiting f) : KeepsWaiting (Compound.thread f) := by
  intro ctx as
  induction as generalizing ctx with
  | nil => rfl
  | cons a as ih => exact (ih _).trans (h ctx a)

theorem KeepsWaiting.settleSlot {settle : FlagContext → Callable → Callable × FlagContext}
    (h : KeepsWaiting settle) : KeepsWaiting (settleSlot settle) := by
  intro ctx slot
  cases slot with
  | concrete f => exact h ctx f
  | overload g => exact h.thread ctx g.overloads
  | placeholder p => rfl

variable {f : FlagContext → String → α → α × FlagContext}

theorem KeepsWaiting.threadDict (h : ∀ key, KeepsWaiting (f · key)) :
    KeepsWaiting (Compound.threadDict f) := by
  have hentries : ∀ (l : List (String × α)) ctx, (threadEntries f ctx l).2.waiting = ctx.waiting := by
    intro l
    induction l with
    | nil => exact fun _ => rfl
    | cons e l ih => exact fun ctx => (ih _).trans (h e.1 ctx e.2)
  exact fun ctx d => hentries d.entries ctx

/-- What is found under a key is what was found there, changed in some context in which the same waits. -/
theorem exists_of_get?_threadDict (h : ∀ key, KeepsWaiting (f · key)) {d : Dict α} {key : String} {a' : α}
    (hget : (Compound.threadDict f ctx d).1.get? key = some a') :
    ∃ a ctx', d.get? key = some a ∧ ctx'.waiting = ctx.waiting ∧ a' = (f ctx' key a).1 := by
  have hentries : ∀ (l : List (String × α)) ctx, Dict.find? key (threadEntries f ctx l).1 = some a' →
      ∃ a ctx', Dict.find? key l = some a ∧ ctx'.waiting = ctx.waiting ∧ a' = (f ctx' key a).1 := by
    intro l
    induction l with
    | nil => exact fun _ hnone => by cases hnone
    | cons e l ih =>
        obtain ⟨k, a⟩ := e
        intro ctx hfound
        simp only [threadEntries, Dict.find?] at hfound ⊢
        by_cases hkey : key = k
        · rw [if_pos hkey] at hfound ⊢
          subst hkey
          exact ⟨a, ctx, rfl, rfl, (Option.some.inj hfound).symm⟩
        · rw [if_neg hkey] at hfound ⊢
          obtain ⟨a, ctx', ha, hwaiting, hchanged⟩ := ih _ hfound
          exact ⟨a, ctx', ha, hwaiting.trans (h k ctx _), hchanged⟩
  exact hentries d.entries ctx hget

end KeepsWaiting

theorem keepsWaiting_settleMethods : KeepsWaiting settleMethods :=
  KeepsWaiting.threadDict fun _ => (keepsWaiting_settleNamed Callable.fqn).settleSlot

theorem keepsWaiting_entries {α : Type} (name : String → α → String) (id : α → String)
    (flags : α → Flags) (set : Flags → α → α) :
    KeepsWaiting (Compound.threadDict fun ctx key a =>
      (set (ctx.apply (name key a) (id a) (flags a)).1 a,
        (ctx.apply (name key a) (id a) (flags a)).2)) :=
  KeepsWaiting.threadDict fun _ _ _ => FlagContext.waiting_apply _ _ _ _

/-- A part of a class that is settled as slots, in some context in which the same waits. -/
def SettledAsSlots (part : Class → Slots) : Prop :=
  ∀ ctx fqn c, ∃ ctx' : FlagContext, ctx'.waiting = ctx.waiting ∧
    part (settleClass ctx fqn c).1 = (settleMethods ctx' (part c)).1

theorem settledAsSlots_methods : SettledAsSlots Class.methods :=
  fun ctx fqn c => ⟨_, FlagContext.waiting_apply ctx fqn c.id c.flags, rfl⟩

theorem settledAsSlots_hiddenMethods : SettledAsSlots Class.hiddenMethods :=
  fun ctx fqn c => ⟨_, (keepsWaiting_settleMethods _ c.methods).trans
    (FlagContext.waiting_apply ctx fqn c.id c.flags), rfl⟩

theorem keepsWaiting_settleClass (fqn : String) : KeepsWaiting (settleClass · fqn) := by
  intro ctx c
  have hmethod := (keepsWaiting_settleNamed Callable.fqn).thread
  have hattributes := keepsWaiting_entries (fun _ (a : Attribute) => fqn ++ "::" ++ a.name)
    Attribute.id Attribute.flags fun flags a => { a with flags := flags }
  exact (hattributes _ c.attributes).trans <| (hmethod _ c.destructor.toList).trans <|
    (hmethod _ c.constructors).trans <| (keepsWaiting_settleMethods _ c.hiddenMethods).trans <|
    (keepsWaiting_settleMethods _ c.methods).trans (FlagContext.waiting_apply ctx fqn c.id c.flags)

/-- A slot of a settled class was there before, and is settled in a context in which the same waits. -/
theorem SettledAsSlots.exists_slot {part : Class → Slots} (hpart : SettledAsSlots part)
    {classes : Dict Class} {cls name : String} {slot' : Slot}
    (h : ((Compound.threadDict settleClass ctx classes).1.get? cls).bind (fun c => (part c).get? name) =
      some slot') :
    ∃ slot ctx', (classes.get? cls).bind (fun c => (part c).get? name) = some slot ∧
      ctx'.waiting = ctx.waiting ∧ slot' = (settleSlot (settleNamed Callable.fqn) ctx' slot).1 := by
  obtain ⟨c', hc', hslot'⟩ := Option.bind_eq_some_iff.1 h
  obtain ⟨c, ctx₁, hc, hctx₁, rfl⟩ := exists_of_get?_threadDict keepsWaiting_settleClass hc'
  obtain ⟨ctx₂, hctx₂, hsettled⟩ := hpart ctx₁ cls c
  rw [hsettled] at hslot'
  obtain ⟨slot, ctx₃, hslot, hctx₃, hslot'⟩ := exists_of_get?_threadDict
    (fun _ => (keepsWaiting_settleNamed Callable.fqn).settleSlot) hslot'
  exact ⟨slot, ctx₃, Option.bind_eq_some_iff.2 ⟨c, hc, hslot⟩, hctx₃.trans (hctx₂.trans hctx₁), hslot'⟩

/-- Every slot of a finished database was there before, and is settled in a context in which the same waits. -/
theorem exists_of_slot?_finish {x : Extraction} {site : Site} {slot' : Slot}
    (h : x.finish.db.slot? site = some slot') : ∃ slot ctx, x.db.slot? site = some slot ∧
      ctx.waiting = x.ctx.waiting ∧ slot' = (settleSlot (settleNamed site.target) ctx slot).1 := by
  -- Namespaces come first, then classes, then functions; the context that is handed on from one to the
  -- other counts what was received, but what waits in it stays.
  have hnamespaces := keepsWaiting_entries (fun fqn _ => fqn) NamespaceInfo.id NamespaceInfo.flags
    (fun flags n => { n with flags := flags }) x.ctx x.db.namespaces
  have hclasses := (KeepsWaiting.threadDict keepsWaiting_settleClass _ x.db.classes).trans hnamespaces
  cases site with
  | function fqn =>
      obtain ⟨slot, ctx, hslot, hctx, hslot'⟩ := exists_of_get?_threadDict
        (fun fqn => (keepsWaiting_settleNamed fun _ => fqn).settleSlot) h
      exact ⟨slot, ctx, hslot, hctx.trans hclasses, hslot'⟩
  | method cls name =>
      obtain ⟨slot, ctx, hslot, hctx, hslot'⟩ := settledAsSlots_methods.exists_slot h
      exact ⟨slot, ctx, hslot, hctx.trans hnamespaces, hslot'⟩
  | hidden cls name =>
      obtain ⟨slot, ctx, hslot, hctx, hslot'⟩ := settledAsSlots_hiddenMethods.exists_slot h
      exact ⟨slot, ctx, hslot, hctx.trans hnamespaces, hslot'⟩

theorem slot?_reflag (m : FlagMap) (db : Database) (site : Site) :
    (db.reflag m).slot? site = (db.slot? site).map (Slot.reflag m site.target) := by
  have hclasses : ∀ cls, (db.reflag m).classes.get? cls = (db.classes.get? cls).map (Class.reflag m cls) :=
    fun cls => Dict.get?_map (Class.reflag m) db.classes cls
  cases site with
  | function fqn => exact Dict.get?_map _ db.functions fqn
  | method cls name =>
      simp only [Database.slot?, hclasses]
      cases db.classes.get? cls with
      | none => rfl
      | some c => exact Dict.get?_map _ c.methods name
  | hidden cls name =>
      simp only [Database.slot?, hclasses]
      cases db.classes.get? cls with
      | none => rfl
      | some c => exact Dict.get?_map _ c.hiddenMethods name

/-- The first callable of a group is given what is outstanding for it in the context at hand, and the group
keeps its flags. -/
theorem settleSlot_overload (name : Callable → String) {g : OverloadGroup} {first : Callable}
    (hfirst : g.overloads.head? = some first) (ctx : FlagContext) :
    ∃ g', (settleSlot (settleNamed name) ctx (.overload g)).1 = .overload g' ∧ g'.flags = g.flags ∧
      g'.overloads.head? =
        some { first with flags := ctx.settled (name first) first.id first.flags } := by
  refine ⟨_, rfl, rfl, ?_⟩
  cases hoverloads : g.overloads with
  | nil =>
      rw [hoverloads] at hfirst
      cases hfirst
  | cons f rest =>
      rw [hoverloads] at hfirst
      obtain rfl := Option.some.inj hfirst
      exact congrArg (fun flags => some { f with flags := flags }) (FlagContext.apply_fst _ _ _ _)

/-- A group of a finished database keeps the flags that its first callable was read with.  The callable itself
is given some of the flags that wait for it, those that come last; where symbols are counted apart, these are
all that it has not received.  So the flags of the group are those of its first callable if and only if nothing
that came after the callable changes its flags. -/
theorem groupFlags_of_finish {s : Setting} {ctx₀ : FlagContext} {roots : List Xml.Element} {x : Extraction}
    {site : Site} {g' : OverloadGroup}
    (hrun : roots.foldlM (Extraction.addRoot s) { ctx := ctx₀ } = .ok x)
    (h : x.finish.db.slot? site = some (.overload g')) :
    ∃ g first late, x.db.slot? site = some (.overload g) ∧ g.overloads.head? = some first ∧
      g.flags = first.flags ∧ g'.flags = g.flags ∧
      g'.overloads.head? = some { first with flags := late.foldl Flags.merge first.flags } ∧
      late <:+ x.ctx.waitingFor (site.target first) ∧
      ((x.db.symbols.map symbolKey).Nodup → late.foldl Flags.merge first.flags =
        x.ctx.settled (site.target first) first.id first.flags) ∧
      (g'.IsAligned ↔ late.foldl Flags.merge first.flags = first.flags) := by
  have haligned : x.db.Aligned := aligned_foldlM Database.aligned_empty hrun
  obtain ⟨slot, ctx, hslot, hctx, hsettled⟩ := exists_of_slot?_finish h
  cases slot with
  | concrete f => cases hsettled
  | placeholder p => cases hsettled
  | overload g =>
      obtain ⟨first, hfirst, hflags⟩ := Option.map_eq_some_iff.1 (haligned.isAligned hslot)
      obtain ⟨_, hgroup, hkept, hhead⟩ := settleSlot_overload site.target hfirst ctx
      obtain rfl := Slot.overload.inj (hsettled.trans hgroup)
      refine ⟨g, first, ctx.outstanding (site.target first) first.id, hslot, hfirst, hflags.symm, hkept,
        hhead, ?_, fun hdistinct => ?_, ?_⟩
      · rw [← FlagContext.waitingFor_congr hctx]
        exact List.drop_suffix _ _
      · -- Finishing as a whole gives the callable what is outstanding at the beginning.
        rw [finish_db x hdistinct, slot?_reflag, hslot] at h
        obtain rfl := Slot.overload.inj (Option.some.inj h)
        rw [List.head?_map, hfirst] at hhead
        exact (congrArg Callable.flags (Option.some.inj hhead)).symm
      · rw [OverloadGroup.IsAligned, hhead, hkept, ← hflags, Option.map_some, Option.some.injEq]
        exact Iff.rfl

/-! ## A group that a surrogate carries flags to -/

/-- A namespace with two functions of one name. -/
def overloadedNamespace : Xml.Element :=
  ⟨"compounddef", [("id", "namespacens"), ("kind", "namespace")], [
    .element ⟨"compoundname", [], [.text "ns"]⟩,
    .element ⟨"sectiondef", [], [
      .element (functionElement "public" "f1" "void" "f"),
      .element (functionElement "public" "f2" "int" "f")]⟩]⟩

/-- The group that two documents leave behind for the functions of the namespace, with a test of what was
extracted. -/
def groupOf (roots : List Xml.Element) (test : Extraction → OverloadGroup → Bool) : Bool :=
  (roots.foldlM (Extraction.addRoot plainSetting) (.start .empty)).toOption.any fun x =>
    match x.finish.db.slot? (.function "ns::f") with
    | some (.overload g) => test x g
    | _ => false

theorem exists_of_groupOf (roots : List Xml.Element) (test : Extraction → OverloadGroup → Bool)
    (h : groupOf roots test = true) : ∃ x g,
      roots.foldlM (Extraction.addRoot plainSetting) (.start .empty) = .ok x ∧
        x.finish.db.slot? (.function "ns::f") = some (.overload g) ∧ test x g = true := by
  obtain ⟨x, hrun, h⟩ := exists_of_any_toOption h
  split at h
  · rename_i g hslot
    exact ⟨x, g, hrun, hslot, h⟩
  · cases h

/-- Nothing is outstanding for the functions of the namespace, and symbols are counted apart. -/
def isSettled (x : Extraction) : Bool :=
  decide (x.db.symbols.map symbolKey).Nodup &&
    (x.db.slot? (.function "ns::f")).all fun slot =>
      slot.callables.all fun f => x.ctx.settled "ns::f" f.id f.flags = f.flags

/-- The surrogate comes before its target, and the group has what it carries. -/
theorem groupFlags_of_finish_tagged : ∃ x g',
    [rootOf (tagClass "as_property"), rootOf overloadedNamespace].foldlM
        (Extraction.addRoot plainSetting) (.start .empty) = .ok x ∧
      x.finish.db.slot? (.function "ns::f") = some (.overload g') ∧ g'.flags.asProperty = true ∧
      g'.IsAligned := by
  obtain ⟨x, g', hrun, hslot, htest⟩ := exists_of_groupOf
    [rootOf (tagClass "as_property"), rootOf overloadedNamespace]
    (fun x g' => isSettled x && g'.flags.asProperty) (by decide +kernel)
  obtain ⟨hsettled, hproperty⟩ := Bool.and_eq_true_iff.1 htest
  obtain ⟨hdistinct, hnothing⟩ := Bool.and_eq_true_iff.1 hsettled
  obtain ⟨g, first, late, hbefore, hfirst, -, -, -, -, hlate, haligned⟩ :=
    groupFlags_of_finish hrun hslot
  refine ⟨x, g', hrun, hslot, hproperty, haligned.2 ?_⟩
  rw [hbefore, Option.all_some] at hnothing
  rw [hlate (of_decide_eq_true hdistinct)]
  exact of_decide_eq_true (List.all_eq_true.1 hnothing first (List.mem_of_head? hfirst))

/-- The flags that come late do not reach the group. -/
theorem not_isAligned_of_finish : ¬ ∀ (s : Setting) (ctx₀ : FlagContext) (roots : List Xml.Element)
    (x : Extraction) (site : Site) (g' : OverloadGroup),
      roots.foldlM (Extraction.addRoot s) { ctx := ctx₀ } = .ok x →
      x.finish.db.slot? site = some (.overload g') → g'.IsAligned := by
  intro hall
  obtain ⟨x, g', hrun, hslot, hdrifted⟩ := exists_of_groupOf
    [rootOf overloadedNamespace, rootOf (tagClass "as_property")]
    (fun _ g' => !decide g'.IsAligned) (by decide +kernel)
  rw [decide_eq_true (hall _ _ _ x _ g' hrun hslot)] at hdrifted
  cases hdrifted

end Compound

end ScriptBindings
