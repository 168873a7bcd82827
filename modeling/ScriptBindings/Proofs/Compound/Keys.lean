import Mathlib
import ScriptBindings.Proofs.Compound.GroupFlags
import ScriptBindings.Proofs.Name.Segments
import ScriptBindings.Proofs.Resolve.Idempotence

/-!
# Keys and entities

What is stored says itself what its key is: a class by its qualified name, other entities by their scope and their
name, and a function by its qualified name as well, whatever slot it shares.  The keys are made of the names of
compounds and members, the entities of the parts of these names.  Both agree as long as the names of classes can be
put together again from their parts, which is so for names that neither begin nor end with `::`.

Every document keeps keys and entities together, finishing changes no names, and replacing templates stores a class
under the name that it is given.
-/

namespace ScriptBindings

/-! ## What holds of every entry -/

namespace Dict

variable {α : Type} {P : String → α → Prop} {d : Dict α} {key : String} {a : α}

/-- The property holds of every value, together with its key. -/
def Every (P : String → α → Prop) (d : Dict α) : Prop :=
  ∀ key a, d.get? key = some a → P key a

theorem every_empty : Every P .empty :=
  fun _ _ h => by cases h

theorem Every.insert (h : d.Every P) (ha : P key a) : (d.insert key a).Every P := by
  intro other b hb
  rw [get?_insert] at hb
  split at hb
  · rename_i heq
    exact heq ▸ Option.some.inj hb ▸ ha
  · exact h other b hb

/-- It holds after changes that keep it, whatever state is handed on. -/
theorem Every.threadDict {σ : Type} {f : σ → String → α → α × σ} (h : d.Every P)
    (hf : ∀ s key a, P key a → P key (f s key a).1) (s : σ) :
    (Compound.threadDict f s d).1.Every P := by
  have hentries : ∀ (l : List (String × α)) s, (∀ e ∈ l, P e.1 e.2) →
      ∀ e ∈ (Compound.threadEntries f s l).1, P e.1 e.2 := by
    intro l
    induction l with
    | nil => exact fun _ h => h
    | cons e l ih =>
        intro s hl
        obtain ⟨he, hl⟩ := List.forall_mem_cons.1 hl
        exact List.forall_mem_cons.2 ⟨hf s e.1 e.2 he, ih _ hl⟩
  exact fun key a ha => hentries d.entries s (fun e he => h e.1 e.2 (get?_eq_some_iff.2 he)) _
    (get?_eq_some_iff.1 ha)

end Dict

/-! ## Functions under their qualified name -/

namespace Slot

variable {fqn : String} {a b : Slot}

/-- All callables in the slot are functions with a qualified name. -/
def Holds (fqn : String) (s : Slot) : Prop :=
  ∀ f ∈ s.callables, f.owner = none ∧ f.fqn = fqn

theorem holds_iff_held : a.Holds fqn ↔ ∀ f ∈ a.held, f.owner = none ∧ f.fqn = fqn := by
  rw [held, List.forall_mem_map]
  exact Iff.rfl

theorem Holds.join (ha : a.Holds fqn) (hb : b.Holds fqn) : (a.join b).Holds fqn := by
  rw [holds_iff_held] at *
  rw [held_join]
  exact List.forall_mem_append.2 ⟨ha, hb⟩

theorem every_holds_add {slots : Slots} (h : slots.Every Holds) (ha : a.Holds fqn) :
    (slots.add fqn a).Every Holds := by
  unfold Slots.add
  cases hpresent : slots.get? fqn with
  | none => exact h.insert ha
  | some present => exact h.insert ((h fqn present hpresent).join ha)

end Slot

/-! ## Entities under their names -/

/-- Everything is stored under its qualified name. -/
structure Database.Keyed (db : Database) : Prop where
  namespaces : db.namespaces.Every fun key n => n.name = key
  classes : db.Stored
  functions : db.functions.Every Slot.Holds
  enums : db.enums.Every fun key e => Name.qualify e.scope none e.name = key
  globals : db.globals.Every fun key g => Name.qualify g.scope none g.name = key
  typedefs : db.typedefs.Every fun key t => Name.qualify t.scope none t.name = key

theorem Database.keyed_empty : Database.Keyed {} where
  namespaces := Dict.every_empty
  classes := Dict.every_empty
  functions := Dict.every_empty
  enums := Dict.every_empty
  globals := Dict.every_empty
  typedefs := Dict.every_empty

namespace Compound

variable {s : Setting} {place : Place} {name fqn : String} {ctx ctx' : FlagContext}
  {db db' : Database} {member compound root : Xml.Element}

/-! ## Members of namespaces -/

/-- The member has been read in the namespace. -/
def NamespaceMember.DeclaredIn (name : String) : NamespaceMember → Prop
  | .function slot => slot.Holds (Name.qualify name none slot.name)
  | .enumeration e => e.scope = name
  | .typedef t => t.scope = name
  | .variable g => g.scope = name

theorem holds_of_readCallable {slot : Slot}
    (h : readCallable s { scope := name } ctx member = .ok (slot, ctx')) :
    slot.Holds (Name.qualify name none slot.name) := by
  obtain ⟨_, hslot, hpair⟩ := bind_eq_ok_iff.1 h
  cases pure_eq_ok_iff.1 hpair
  rcases callableSlot_inv hslot with ⟨result, parameters, location, rfl⟩ | ⟨reason, rfl⟩
  · intro f hf
    obtain rfl := List.mem_singleton.1 hf
    exact ⟨rfl, rfl⟩
  · exact fun f hf => by cases hf

theorem declaredIn_of_readNamespaceMember {m : NamespaceMember}
    (h : readNamespaceMember s name ctx member = .ok (some m, ctx')) : m.DeclaredIn name := by
  rcases readNamespaceMember_inv h with
    ⟨slot, rfl, hread⟩ | ⟨e, rfl, hscope⟩ | ⟨t, rfl, hscope⟩ | ⟨g, rfl, hscope⟩
  · exact holds_of_readCallable hread
  all_goals exact hscope

/-- A member is stored under the name that it has in the namespace. -/
theorem keyed_addNamespaceMember {m : NamespaceMember} (hdb : db.Keyed) (hm : m.DeclaredIn name) :
    (addNamespaceMember name db m).Keyed := by
  cases m with
  | function slot => exact { hdb with functions := Slot.every_holds_add hdb.functions hm }
  | enumeration e => exact { hdb with enums := hdb.enums.insert (by rw [hm]) }
  | typedef t => exact { hdb with typedefs := hdb.typedefs.insert (by rw [hm]) }
  | «variable» g => exact { hdb with globals := hdb.globals.insert (by rw [hm]) }

theorem keyed_addNamespace (hdb : db.Keyed) (h : addNamespace s db ctx compound = .ok (db', ctx')) :
    db'.Keyed := by
  simp only [addNamespace] at h
  have hinfo : ∀ key (info : NamespaceInfo), info.name = key →
      Database.Keyed { db with namespaces := db.namespaces.insert key info } := fun key info hname =>
    { hdb with namespaces := hdb.namespaces.insert hname }
  split at h
  · cases pure_eq_ok_iff.1 h
    exact hinfo _ _ rfl
  · obtain ⟨⟨found, after⟩, hfound, h⟩ := bind_eq_ok_iff.1 h
    cases pure_eq_ok_iff.1 h
    refine List.foldlRecOn found _ (hinfo _ _ rfl) fun db hdb m hm => ?_
    obtain ⟨member, -, _, _, hread⟩ := exists_of_mem_readNamespaceMembers hfound hm
    exact keyed_addNamespaceMember hdb (declaredIn_of_readNamespaceMember hread)

/-! ## Members of classes -/

/-- If the member is an entity of its own, it has been read in the class. -/
def ClassMember.DeclaredIn (fqn : String) : ClassMember → Prop
  | .enumeration e => e.scope = fqn
  | .typedef t => t.scope = fqn
  | _ => True

theorem declaredIn_of_readClassMember {here : List ClassMember} {m : ClassMember}
    (hcontext : place.context = fqn) (h : readClassMember s place fqn ctx member = .ok (here, ctx'))
    (hm : m ∈ here) : m.DeclaredIn fqn := by
  rcases readClassMember_inv h with ⟨-, slot, -, rfl⟩ | ⟨-, hother⟩
  · -- A callable finds its place inside of the class.
    rcases placeCallable_inv hm with ⟨p, rfl⟩ | ⟨f, rfl⟩ | ⟨f, rfl⟩ | rfl | rfl <;> trivial
  · rcases hother with rfl | ⟨a, rfl, -⟩ | ⟨e, rfl, hscope⟩ | ⟨t, rfl, hscope, -⟩
    · cases hm
    all_goals obtain rfl := List.mem_singleton.1 hm
    · trivial
    · exact hscope
    · exact hscope.trans hcontext

/-- What a class adds beside itself is stored under the name that it has in the class. -/
theorem keyed_addBesideClass {m : ClassMember} (hdb : db.Keyed) (hm : m.DeclaredIn fqn) :
    (addBesideClass fqn db m).Keyed := by
  cases m with
  | enumeration e => exact { hdb with enums := hdb.enums.insert (by rw [hm]) }
  | typedef t => exact { hdb with typedefs := hdb.typedefs.insert (by rw [hm]) }
  | _ => exact hdb

/-- A class is put together without a change to its qualified name. -/
theorem fqn_assembleClass (header : Class) (found : List ClassMember) :
    (assembleClass header found).fqn = header.fqn :=
  foldl_unchanged (f := Class.fqn) (by rintro c (_ | _ | _ | _ | _ | _ | _ | _) <;> rfl) header found

/-- The header of a class has the qualified name of the document, if the name can be put together again. -/
theorem fqn_of_readClassHeader {flags : Flags} {header : Class} (hfirm : Name.FirmEnds fqn)
    (h : readClassHeader s fqn flags compound = .ok header) : header.fqn = fqn := by
  obtain ⟨-, -, hplace⟩ := header_of_readClassHeader h
  have hscope : header.scope = Name.parentScope fqn := congrArg Place.scope hplace
  have hname : header.name = Name.lastSegment fqn := Option.some.inj (congrArg Place.owner hplace)
  rw [Class.fqn, hscope, hname, hfirm.qualify_parentScope_lastSegment]

theorem keyed_addClass (hdb : db.Keyed) (hfirm : Name.FirmEnds (compound.childText "compoundname"))
    (h : addClass s db ctx compound = .ok (db', ctx')) : db'.Keyed := by
  unfold addClass at h
  split at h
  · cases h
    exact hdb
  obtain ⟨header, found, hheader, -, hfound, rfl⟩ := readClass_inv h
  have hcontext := context_classPlace (templateParams compound) hfirm.qualify_parentScope_lastSegment
  have hbeside : (found.foldl (addBesideClass (compound.childText "compoundname")) db).Keyed := by
    refine List.foldlRecOn found _ hdb fun db hdb m hm => ?_
    obtain ⟨member, -, _, here, _, hread, hm⟩ := exists_of_mem_readClassMembers hfound hm
    exact keyed_addBesideClass hdb (declaredIn_of_readClassMember hcontext hread hm)
  have hfqn : (assembleClass header found).fqn = compound.childText "compoundname" :=
    (fqn_assembleClass header found).trans (fqn_of_readClassHeader hfirm hheader)
  exact { hbeside with classes := Dict.Every.insert hbeside.classes hfqn }

/-! ## Documents -/

/-- The class that a document is about, if it is about one, has a name with firm ends. -/
def HasFirmName (root : Xml.Element) : Prop :=
  ∀ compound ∈ documentedClass? root, Name.FirmEnds (compound.childText "compoundname")

instance (root : Xml.Element) : Decidable (HasFirmName root) :=
  inferInstanceAs (Decidable (∀ compound ∈ documentedClass? root, _))

/-- A document that is accepted keeps everything under its name. -/
theorem keyed_addRoot {x y : Extraction} (hx : x.db.Keyed) (hfirm : HasFirmName root)
    (h : x.addRoot s root = .ok y) : y.db.Keyed := by
  rcases addRoot_inv h with ⟨compound, -, -, hadd⟩ | ⟨compound, hcompound, hadd⟩ | rfl
  · exact keyed_addNamespace hx hadd
  · exact keyed_addClass hx (hfirm compound hcompound) hadd
  · exact hx

/-- Any documents that are accepted one after the other do. -/
theorem keyed_foldlM {x y : Extraction} {roots : List Xml.Element} (hx : x.db.Keyed)
    (hfirm : ∀ root ∈ roots, HasFirmName root) (h : roots.foldlM (Extraction.addRoot s) x = .ok y) :
    y.db.Keyed :=
  of_foldlM_eq_ok (P := fun x : Extraction => x.db.Keyed) hx
    (fun root hroot _ _ hx => keyed_addRoot hx (hfirm root hroot)) h

/-! ## Finishing -/

theorem holds_thread_settleFunction {key : String} {fs : List Callable}
    (h : ∀ f ∈ fs, f.owner = none ∧ f.fqn = key) (ctx : FlagContext) :
    ∀ f ∈ (thread (settleFunction fqn) ctx fs).1, f.owner = none ∧ f.fqn = key := by
  induction fs generalizing ctx with
  | nil => exact h
  | cons f fs ih =>
      obtain ⟨hf, hfs⟩ := List.forall_mem_cons.1 h
      exact List.forall_mem_cons.2 ⟨hf, ih hfs _⟩

/-- Functions are given flags, and keep their names. -/
theorem holds_settleSlot {key : String} {slot : Slot} (h : slot.Holds key) (ctx : FlagContext) :
    (settleSlot (settleFunction fqn) ctx slot).1.Holds key := by
  cases slot with
  | concrete f => exact holds_thread_settleFunction h ctx
  | overload g => exact holds_thread_settleFunction h ctx
  | placeholder p => exact h

theorem keyed_finish {x : Extraction} (h : x.db.Keyed) : x.finish.db.Keyed where
  namespaces := h.namespaces.threadDict (fun _ _ _ hn => hn) _
  classes := Dict.Every.threadDict h.classes (fun _ _ _ hc => hc) _
  functions := h.functions.threadDict (fun ctx _ _ hslot => holds_settleSlot hslot ctx) _
  enums := h.enums.threadDict (fun _ _ _ he => he) _
  globals := h.globals.threadDict (fun _ _ _ hg => hg) _
  typedefs := h.typedefs.threadDict (fun _ _ _ ht => ht) _

end Compound

/-! ## Resolving -/

namespace Resolve

variable {db : Database}

/-- A class that replaces a template is stored under the name that it is given. -/
theorem stored_specialise (hstored : db.Stored) : (specialise db).Stored := by
  intro key c hc
  rw [get?_classes_specialise] at hc
  obtain ⟨d, hd, rfl⟩ := Option.map_eq_some_iff.1 hc
  have hfqn : d.fqn = key := forall_specialiseClasses (P := fun key c => c.fqn = key) (fun _ _ h => h)
    (fun _ _ _ _ _ => rfl) hstored hd
  exact hfqn

/-- Classes that are stored under their names still are after resolving. -/
theorem stored_resolve (hstored : db.Stored) (namespaces : List String) : (db.resolve namespaces).Stored := by
  rw [resolve_eq]
  exact stored_inheritAll (stored_specialise hstored)

end Resolve

namespace Compound

/-- Keys and entities never drift apart.  After any documents that are accepted, with names of classes that neither
begin nor end with `::`, everything in the finished database is stored under its qualified name, and classes still
are after resolving. -/
theorem keyed_of_documents {s : Setting} {ctx₀ : FlagContext} {roots : List Xml.Element} {x : Extraction}
    (hfirm : ∀ root ∈ roots, HasFirmName root)
    (hrun : roots.foldlM (Extraction.addRoot s) { ctx := ctx₀ } = .ok x) :
    x.finish.db.Keyed ∧ ∀ namespaces, (x.finish.db.resolve namespaces).Stored := by
  have hkeyed := keyed_finish (keyed_foldlM Database.keyed_empty hfirm hrun)
  exact ⟨hkeyed, Resolve.stored_resolve hkeyed.classes⟩

/-- A class template that is bound for one type, with an enumeration and a type name in it. -/
def pooledClass (name : String) : Xml.Element :=
  ⟨"compounddef", [("id", "classPool"), ("kind", "class"), ("prot", "public")], [
    .element ⟨"compoundname", [], [.text name]⟩,
    .element ⟨"templateparamlist", [], [
      .element ⟨"param", [], [.element ⟨"type", [], [.text "typename T"]⟩]⟩]⟩,
    .element ⟨"detaileddescription", [], [
      .element ⟨"ulink", [("url", "obidog.template_hint:IntPool:T=int")], []⟩]⟩,
    .element ⟨"sectiondef", [], [
      .element ⟨"memberdef", [("kind", "enum"), ("id", "e1"), ("prot", "public")], [
        .element ⟨"name", [], [.text "Mode"]⟩,
        .element ⟨"location", [("file", "pool.h"), ("line", "2")], []⟩]⟩,
      .element ⟨"memberdef", [("kind", "typedef"), ("id", "t1"), ("prot", "public")], [
        .element ⟨"type", [], [.text "int"]⟩,
        .element ⟨"name", [], [.text "Index"]⟩,
        .element ⟨"location", [("file", "pool.h"), ("line", "3")], []⟩]⟩]⟩,
    .element ⟨"location", [("file", "pool.h"), ("line", "1")], []⟩]⟩

/-- Two functions share a key, and the template gives way to a class that is stored under its own name. -/
theorem keyed_of_documents_pooled : ∃ x,
    [rootOf overloadedNamespace, rootOf (pooledClass "ns::Pool")].foldlM
        (Extraction.addRoot plainSetting) (.start .empty) = .ok x ∧
      x.finish.db.Keyed ∧ (∀ namespaces, (x.finish.db.resolve namespaces).Stored) ∧
      x.finish.db.functions.keys = ["ns::f"] ∧ x.finish.db.enums.keys = ["ns::Pool::Mode"] ∧
      x.finish.db.typedefs.keys = ["ns::Pool::Index"] ∧
      (x.finish.db.resolve ["ns"]).classes.keys = ["ns::Pool<int>"] := by
  obtain ⟨x, hrun, hkeys⟩ := exists_of_any_toOption
    (x := [rootOf overloadedNamespace, rootOf (pooledClass "ns::Pool")].foldlM
      (Extraction.addRoot plainSetting) (.start .empty))
    (p := fun x => decide (x.finish.db.functions.keys = ["ns::f"] ∧
      x.finish.db.enums.keys = ["ns::Pool::Mode"] ∧ x.finish.db.typedefs.keys = ["ns::Pool::Index"] ∧
      (x.finish.db.resolve ["ns"]).classes.keys = ["ns::Pool<int>"])) (by decide +kernel)
  obtain ⟨hkeyed, hresolved⟩ := keyed_of_documents (by decide +kernel) hrun
  exact ⟨x, hrun, hkeyed, hresolved, of_decide_eq_true hkeys⟩

/-- A class whose name begins with `::` drifts away from its key. -/
example : ((Extraction.start .empty).addRoot plainSetting (rootOf (pooledClass "::Pool"))).toOption.any
    (fun x => x.finish.db.classes.entries.map (fun e => (e.1, e.2.fqn)) = [("::Pool", "Pool")]) := by
  decide +kernel

end Compound

end ScriptBindings
