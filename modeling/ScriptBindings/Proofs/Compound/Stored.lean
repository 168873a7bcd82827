import Mathlib
import ScriptBindings.Proofs.Compound.Draft
import ScriptBindings.Proofs.Compound.Settling
import ScriptBindings.Proofs.Dict

/-!
# Which symbols are stored

A document stores the symbols it declares, under the names it reads them under, and none of them twice: a
symbol may be left out, or lose its place to a later one of the same name.  So when the symbols of all
documents are counted apart, then so are the symbols of the database, and finishing is described by what is
outstanding for each of them.
-/

namespace ScriptBindings

/-- A name of callables that is not affected by how they are given. -/
def Callable.Named (name : Callable → String) : Prop :=
  ∀ f, name { f with forceCast := true } = name f ∧ ∀ flags, name (f.endow flags) = name f

theorem Callable.named_fqn : Callable.Named Callable.fqn :=
  fun _ => ⟨rfl, fun _ => rfl⟩

theorem Callable.named_const (fqn : String) : Callable.Named fun _ => fqn :=
  fun _ => ⟨rfl, fun _ => rfl⟩

namespace Slot

variable {name : Callable → String}

theorem symbols_setForceCast (hname : Callable.Named name) (s : Slot) :
    s.setForceCast.symbols name = s.symbols name := by
  cases s with
  | concrete f => simp [setForceCast, symbols, callables, (hname f).1]
  | overload g => rfl
  | placeholder p => rfl

/-- Joined slots have the symbols of both. -/
theorem symbols_join (hname : Callable.Named name) (a b : Slot) :
    (a.join b).symbols name = a.symbols name ++ b.symbols name := by
  cases a with
  | concrete f =>
      cases b with
      | concrete g => rfl
      | overload g => rfl
      | placeholder p =>
          exact (symbols_setForceCast hname (.concrete f)).trans (List.append_nil _).symm
  | overload g =>
      cases b with
      | concrete f => simp [join, symbols, callables]
      | overload h => simp [join, symbols, callables]
      | placeholder p =>
          exact (symbols_setForceCast hname (.overload g)).trans (List.append_nil _).symm
  | placeholder p =>
      cases b with
      | concrete f => exact symbols_setForceCast hname (.concrete f)
      | overload g => exact symbols_setForceCast hname (.overload g)
      | placeholder q => rfl

theorem symbols_endow (hname : Callable.Named name) (flags : Flags) (s : Slot) :
    (s.endow flags).symbols name = s.symbols name := by
  unfold symbols
  rw [callables_endow, List.map_map]
  exact List.map_congr_left fun f _ => congrArg (·, f.id) ((hname f).2 flags)

end Slot

/-- What is added to slots adds its own share. -/
theorem Slots.count_gather_add {name : String → Callable → String}
    (hname : ∀ key, Callable.Named (name key)) (p : String × String) (slots : Slots) (key : String)
    (s : Slot) : ((slots.add key s).gather fun key => Slot.symbols (name key)).count p =
      (s.symbols (name key)).count p + (slots.gather fun key => Slot.symbols (name key)).count p := by
  unfold Slots.add
  cases hget : slots.get? key with
  | none =>
      have hsum := Dict.count_gather_insert (fun key => Slot.symbols (name key)) p slots key s
      rw [hget] at hsum
      simpa using hsum
  | some present =>
      have hsum := Dict.count_gather_insert (fun key => Slot.symbols (name key)) p slots key
        (present.join s)
      rw [hget, Option.map_some, Option.getD_some, Slot.symbols_join (hname key),
        List.count_append] at hsum
      simp only
      omega

namespace Compound

/-! ## Members -/

/-- The symbols of a member that its class holds. -/
def ClassMember.inside (fqn : String) : ClassMember → List (String × String)
  | .constructor f => [(f.fqn, f.id)]
  | .rejected _ => []
  | .destructor f => [(f.fqn, f.id)]
  | .method slot => slot.symbols Callable.fqn
  | .hidden slot => slot.symbols Callable.fqn
  | .attribute a => [(fqn ++ "::" ++ a.name, a.id)]
  | .enumeration _ => []
  | .typedef _ => []

/-- The symbol of a member that is an entity of its own. -/
def ClassMember.beside (fqn : String) : ClassMember → List (String × String)
  | .enumeration e => [(Name.qualify fqn none e.name, e.id)]
  | .typedef t => [(Name.qualify fqn none t.name, t.id)]
  | _ => []

/-- The symbols of a member of a namespace. -/
def NamespaceMember.symbols (name : String) : NamespaceMember → List (String × String)
  | .function slot => slot.symbols fun _ => Name.qualify name none slot.name
  | .enumeration e => [(Name.qualify name none e.name, e.id)]
  | .typedef t => [(Name.qualify name none t.name, t.id)]
  | .variable g => [(Name.qualify name none g.name, g.id)]

theorem ClassMember.inside_endow (fqn : String) (flags : Flags) (x : ClassMember) :
    (x.endow flags).inside fqn = x.inside fqn := by
  cases x <;> first | rfl | exact Slot.symbols_endow Callable.named_fqn flags _

theorem ClassMember.beside_endow (fqn : String) (flags : Flags) (x : ClassMember) :
    (x.endow flags).beside fqn = x.beside fqn := by
  cases x <;> rfl

theorem NamespaceMember.symbols_endow (name : String) (flags : Flags) (x : NamespaceMember) :
    (x.endow flags).symbols name = x.symbols name := by
  cases x with
  | function slot =>
      simp only [endow, symbols, Slot.name_endow]
      exact Slot.symbols_endow (Callable.named_const _) flags slot
  | enumeration e => rfl
  | typedef t => rfl
  | «variable» g => rfl

/-! ## Adding members -/

theorem count_symbols_addToClass_le (fqn : String) (p : String × String) (c : Class)
    (x : ClassMember) : ((addToClass c x).symbols fqn).count p ≤
      (x.inside fqn).count p + (c.symbols fqn).count p := by
  simp only [Class.symbols, List.count_append]
  -- A bound only: a destructor or an attribute may replace another one.
  cases x with
  | constructor f =>
      simp only [addToClass, ClassMember.inside, List.map_append, List.map_cons, List.map_nil,
        List.count_append]
      omega
  | rejected q => simp [addToClass, ClassMember.inside]
  | destructor f =>
      simp only [addToClass, ClassMember.inside, Option.toList_some, List.map_cons, List.map_nil]
      omega
  | method slot =>
      have hadd := Slots.count_gather_add (fun _ => Callable.named_fqn) p c.methods slot.name slot
      simp only [addToClass, ClassMember.inside]
      omega
  | hidden slot =>
      have hadd :=
        Slots.count_gather_add (fun _ => Callable.named_fqn) p c.hiddenMethods slot.name slot
      simp only [addToClass, ClassMember.inside]
      omega
  | «attribute» a =>
      have hadd := Dict.count_gather_insert_le
        (fun _ (a : Attribute) => [(fqn ++ "::" ++ a.name, a.id)]) p c.attributes a.name a
      simp only [addToClass, ClassMember.inside]
      omega
  | enumeration e => simp [addToClass, ClassMember.inside]
  | typedef t => simp [addToClass, ClassMember.inside]

theorem count_symbols_addBesideClass_le (fqn : String) (p : String × String) (db : Database)
    (x : ClassMember) : (addBesideClass fqn db x).symbols.count p ≤
      (x.beside fqn).count p + db.symbols.count p := by
  simp only [Database.symbols, List.count_append]
  cases x with
  | enumeration e =>
      have hadd := Dict.count_gather_insert_le (fun fqn (e : Enumeration) => [(fqn, e.id)]) p db.enums
        (Name.qualify fqn none e.name) e
      simp only [addBesideClass, ClassMember.beside]
      omega
  | typedef t =>
      have hadd := Dict.count_gather_insert_le (fun fqn (t : Typedef) => [(fqn, t.id)]) p db.typedefs
        (Name.qualify fqn none t.name) t
      simp only [addBesideClass, ClassMember.beside]
      omega
  | _ => simp [addBesideClass, ClassMember.beside]

theorem count_symbols_addNamespaceMember_le (name : String) (p : String × String) (db : Database)
    (x : NamespaceMember) : (addNamespaceMember name db x).symbols.count p ≤
      (x.symbols name).count p + db.symbols.count p := by
  simp only [Database.symbols, List.count_append]
  -- A bound only: everything but a function may replace what has its key.
  cases x with
  | function slot =>
      have hadd := Slots.count_gather_add (fun key => Callable.named_const key) p db.functions
        (Name.qualify name none slot.name) slot
      simp only [addNamespaceMember, NamespaceMember.symbols]
      omega
  | enumeration e =>
      have hadd := Dict.count_gather_insert_le (fun fqn (e : Enumeration) => [(fqn, e.id)]) p db.enums
        (Name.qualify name none e.name) e
      simp only [addNamespaceMember, NamespaceMember.symbols]
      omega
  | typedef t =>
      have hadd := Dict.count_gather_insert_le (fun fqn (t : Typedef) => [(fqn, t.id)]) p db.typedefs
        (Name.qualify name none t.name) t
      simp only [addNamespaceMember, NamespaceMember.symbols]
      omega
  | «variable» g =>
      have hadd := Dict.count_gather_insert_le (fun fqn (g : Global) => [(fqn, g.id)]) p db.globals
        (Name.qualify name none g.name) g
      simp only [addNamespaceMember, NamespaceMember.symbols]
      omega

/-- When every member adds at most its own share, then so do all members together. -/
theorem count_foldl_le {σ α : Type} {symbols : σ → List (String × String)}
    {share : α → List (String × String)} {add : σ → α → σ} {p : String × String}
    (h : ∀ s a, (symbols (add s a)).count p ≤ (share a).count p + (symbols s).count p)
    (s : σ) (as : List α) : (symbols (as.foldl add s)).count p ≤
      (as.flatMap share).count p + (symbols s).count p := by
  induction as generalizing s with
  | nil => simp
  | cons a as ih =>
      have hrest := ih (add s a)
      have hfirst := h s a
      rw [List.foldl_cons, List.flatMap_cons, List.count_append]
      omega

/-- What no step changes is not changed by all steps together. -/
theorem foldl_unchanged {σ α β : Type} {f : σ → β} {add : σ → α → σ}
    (h : ∀ s a, f (add s a) = f s) (s : σ) (as : List α) : f (as.foldl add s) = f s := by
  induction as generalizing s with
  | nil => rfl
  | cons a as ih => rw [List.foldl_cons, ih, h]

/-- What is there after all steps was there before, if no step added it. -/
theorem mem_of_foldl {σ α β : Type} {f : σ → Option β} {inject : β → α} {add : σ → α → σ}
    (h : ∀ s a b, f (add s a) = some b → f s = some b ∨ a = inject b) {s : σ} {as : List α} {b : β}
    (hb : f (as.foldl add s) = some b) : f s = some b ∨ inject b ∈ as := by
  induction as generalizing s with
  | nil => exact Or.inl hb
  | cons a as ih =>
      rcases ih hb with hfirst | hlater
      · rcases h s a b hfirst with hold | rfl
        · exact Or.inl hold
        · exact Or.inr List.mem_cons_self
      · exact Or.inr (List.mem_cons_of_mem _ hlater)

/-! ## Adding documents -/

/-- A symbol by its name and its identifier. -/
def symbolOf (d : Documented) : String × String :=
  (d.fqn, d.id)

/-- A class without members, apart from constructors that were rejected. -/
structure Memberless (c : Class) : Prop where
  methods : c.methods = .empty
  hiddenMethods : c.hiddenMethods = .empty
  constructors : c.constructors = []
  destructor : c.destructor = none
  attributes : c.attributes = .empty

theorem Memberless.symbols {c : Class} (h : Memberless c) (fqn : String) :
    c.symbols fqn = [(fqn, c.id)] := by
  rw [Class.symbols, h.methods, h.hiddenMethods, h.constructors, h.destructor, h.attributes]
  rfl

/-- A draft whose members are stored under the names they are read under, if at all. -/
structure ClassDraft.Faithful (d : ClassDraft) : Prop where
  id : d.header.content.id = d.header.id
  memberless : Memberless d.header.content
  members : ∀ m ∈ d.members,
    (m.content.flatMap fun x => x.inside d.header.fqn ++ x.beside d.header.fqn).Sublist
      [symbolOf m.toDocumented]

/-- The same for a namespace. -/
structure NamespaceDraft.Faithful (d : NamespaceDraft) : Prop where
  info : d.info.content.id = d.info.id
  members : ∀ m ∈ d.members,
    (m.content.symbols d.info.fqn).Sublist [symbolOf m.toDocumented]

theorem count_flatMap_endowMembers (fqn : String) (flags : Flags) (p : String × String)
    (content : List ClassMember) :
    ((endowMembers flags content).flatMap (ClassMember.inside fqn)).count p +
        ((endowMembers flags content).flatMap (ClassMember.beside fqn)).count p =
      (content.flatMap fun x => x.inside fqn ++ x.beside fqn).count p := by
  induction content with
  | nil => rfl
  | cons x content ih =>
      simp only [endowMembers, List.map_cons, List.flatMap_cons, List.count_append,
        ClassMember.inside_endow, ClassMember.beside_endow] at ih ⊢
      omega

/-- The members of a class store each of their symbols at most once. -/
theorem ClassDraft.Faithful.count_members_le {d : ClassDraft} (h : d.Faithful)
    (given : Documented → Flags) (p : String × String) :
    let found := d.members.flatMap fun m => endowMembers (given m.toDocumented) m.content
    (found.flatMap (ClassMember.inside d.header.fqn)).count p +
        (found.flatMap (ClassMember.beside d.header.fqn)).count p ≤
      ((d.members.map Draft.toDocumented).map symbolOf).count p := by
  have hmembers := h.members
  generalize d.header.fqn = fqn at hmembers ⊢
  generalize d.members = members at hmembers ⊢
  induction members with
  | nil => exact Nat.le_refl 0
  | cons m members ih =>
      have hrest := ih fun m' hm' => hmembers m' (List.mem_cons_of_mem _ hm')
      have hfirst := (hmembers m List.mem_cons_self).count_le p
      rw [← count_flatMap_endowMembers fqn (given m.toDocumented)] at hfirst
      simp only [List.flatMap_cons, List.flatMap_append, List.count_append, List.map_cons] at hrest ⊢
      rw [List.count_cons, ← List.count_singleton]
      omega

/-- A class stores each of its symbols at most once. -/
theorem ClassDraft.Faithful.count_addTo_le {d : ClassDraft} (h : d.Faithful)
    (given : Documented → Flags) (p : String × String) (db : Database) :
    (d.addTo given db).symbols.count p ≤
      (d.documented.map symbolOf).count p + db.symbols.count p := by
  have hmembers := h.count_members_le given p
  obtain ⟨found, hfound⟩ : ∃ found, found =
      d.members.flatMap fun m => endowMembers (given m.toDocumented) m.content := ⟨_, rfl⟩
  obtain ⟨header, hheader⟩ : ∃ header, header =
      d.header.content.endow (given d.header.toDocumented) := ⟨_, rfl⟩
  simp only [← hfound] at hmembers
  have hsymbols : header.symbols d.header.fqn = [symbolOf d.header.toDocumented] := by
    rw [hheader, symbolOf, ← h.id]
    exact h.memberless.symbols _
  -- A member has one share inside of the class and one beside it.
  have hclass := count_foldl_le (count_symbols_addToClass_le d.header.fqn p) header found
  have hbeside := count_foldl_le (count_symbols_addBesideClass_le d.header.fqn p) db found
  have hinsert := Dict.count_gather_insert_le Class.symbols p
    (found.foldl (addBesideClass d.header.fqn) db).classes d.header.fqn (assembleClass header found)
  have hassemble : (assembleClass header found).symbols d.header.fqn =
    (found.foldl addToClass header).symbols d.header.fqn := rfl
  rw [hassemble] at hinsert
  rw [hsymbols] at hclass
  simp only [ClassDraft.addTo, ← hfound, ← hheader, addFound, ClassDraft.documented, List.map_cons,
    Database.symbols, List.count_append] at hbeside hinsert ⊢
  rw [List.count_cons, ← List.count_singleton]
  omega

/-- The members of a namespace store each of their symbols at most once. -/
theorem NamespaceDraft.Faithful.count_members_le {d : NamespaceDraft} (h : d.Faithful)
    (given : Documented → Flags) (p : String × String) :
    ((d.members.map fun m => m.content.endow (given m.toDocumented)).flatMap
        (NamespaceMember.symbols d.info.fqn)).count p ≤
      ((d.members.map Draft.toDocumented).map symbolOf).count p := by
  have hmembers := h.members
  generalize d.info.fqn = fqn at hmembers ⊢
  generalize d.members = members at hmembers ⊢
  induction members with
  | nil => exact Nat.le_refl 0
  | cons m members ih =>
      have hrest := ih fun m' hm' => hmembers m' (List.mem_cons_of_mem _ hm')
      have hfirst := (hmembers m List.mem_cons_self).count_le p
      simp only [List.map_cons, List.flatMap_cons, List.count_append,
        NamespaceMember.symbols_endow] at hrest ⊢
      rw [List.count_cons, ← List.count_singleton]
      omega

/-- A namespace stores each of its symbols at most once. -/
theorem NamespaceDraft.Faithful.count_addTo_le {d : NamespaceDraft} (h : d.Faithful)
    (given : Documented → Flags) (p : String × String) (db : Database) :
    (d.addTo given db).symbols.count p ≤
      (d.documented.map symbolOf).count p + db.symbols.count p := by
  have hmembers := h.count_members_le given p
  obtain ⟨info, hinfo⟩ : ∃ info, info = d.info.content.endow (given d.info.toDocumented) := ⟨_, rfl⟩
  have hid : info.id = d.info.id := by
    rw [hinfo]
    exact h.info
  have hfold := count_foldl_le (count_symbols_addNamespaceMember_le d.info.fqn p)
    { db with namespaces := db.namespaces.insert d.info.fqn info }
    (d.members.map fun m => m.content.endow (given m.toDocumented))
  have hinsert := Dict.count_gather_insert_le (fun fqn (n : NamespaceInfo) => [(fqn, n.id)]) p
    db.namespaces d.info.fqn info
  rw [hid] at hinsert
  simp only [NamespaceDraft.addTo, NamespaceDraft.addInfo, ← hinfo, NamespaceDraft.documented,
    List.map_cons]
  simp only [Database.symbols, List.count_append] at hfold ⊢
  rw [List.count_cons, ← List.count_singleton]
  simp only [symbolOf]
  omega

/-- Where the symbols of two documents are counted apart, so are the symbols that they store. -/
theorem nodup_symbolKey {as bs : List Documented} {db : Database}
    (hkeys : ((as ++ bs).map Documented.key).Nodup)
    (hdb : ∀ p, db.symbols.count p ≤ (as.map symbolOf).count p + (bs.map symbolOf).count p) :
    (db.symbols.map symbolKey).Nodup := by
  obtain ⟨stored, hperm, hsub⟩ : List.Subperm db.symbols ((as ++ bs).map symbolOf) := by
    refine List.subperm_ext_iff.2 fun p _ => ?_
    rw [List.map_append, List.count_append]
    exact hdb p
  have hall : (((as ++ bs).map symbolOf).map symbolKey).Nodup := by
    rw [List.map_map]
    exact hkeys
  exact (hperm.map symbolKey).nodup_iff.1 (hall.sublist (hsub.map symbolKey))

/-! ## Reading is faithful -/

/-- The callable that a member declares, once its result, its parameters and its location are read. -/
def callableOf (place : Place) (member : Xml.Element) (flags : Flags) (result : Option CppType)
    (parameters : List Parameter) (location : Location) : Callable where
  id := member.attr "id"
  name := member.childText "name"
  scope := place.scope
  owner := place.owner
  definition := member.childText "definition"
  params := renameParameters parameters flags.renameParameters
  result := result
  isTemplate := !(templateParams member).isEmpty
  templateParams := templateParams member
  quals := memberQuals member
  flags := flags
  description := member.childText "briefdescription"
  deleted := isDeleted member
  isAbstract := member.attr? "virt" = some "pure-virtual"
  visibility := callableVisibility flags member
  location := location

/-- A member that is read as a callable declares one, or is replaced by a placeholder. -/
theorem callableSlot_inv {s : Setting} {place : Place} {member : Xml.Element} {flags : Flags}
    {slot : Slot} (h : callableSlot s place member flags = .ok slot) :
    (∃ result parameters location,
        slot = .concrete (callableOf place member flags result parameters location)) ∨
      ∃ reason, slot = .placeholder (placeholderFor place member flags reason) := by
  obtain ⟨inner, hinner⟩ : ∃ inner : Place, inner =
    { place with templateParams := place.templateParams ++ templateParams member } := ⟨_, rfl⟩
  simp only [callableSlot, ← hinner] at h
  split at h
  · exact Or.inr ⟨_, (pure_eq_ok_iff.1 h).symm⟩
  split at h
  · exact Or.inr ⟨_, (pure_eq_ok_iff.1 h).symm⟩
  obtain ⟨result, -, h⟩ := bind_eq_ok_iff.1 h
  rcases result with ⟨result⟩ | ⟨reason⟩
  · obtain ⟨parameters, -, h⟩ := bind_eq_ok_iff.1 h
    rcases parameters with ⟨parameters⟩ | ⟨reason⟩
    · obtain ⟨location, -, h⟩ := bind_eq_ok_iff.1 h
      exact Or.inl ⟨result, parameters, location, (pure_eq_ok_iff.1 h).symm⟩
    · exact Or.inr ⟨_, (pure_eq_ok_iff.1 h).symm⟩
  · exact Or.inr ⟨_, (pure_eq_ok_iff.1 h).symm⟩

/-- A member that is read as a callable is a callable of its name and identifier, or a placeholder. -/
theorem callableSlot_cases {s : Setting} {place : Place} {member : Xml.Element} {flags : Flags}
    {slot : Slot} (h : callableSlot s place member flags = .ok slot) :
    (∃ f, slot = .concrete f ∧ f.name = member.childText "name" ∧
        f.fqn = place.fqn (member.childText "name") ∧ f.id = member.attr "id") ∨
      ∃ p, slot = .placeholder p ∧ p.name = member.childText "name" := by
  rcases callableSlot_inv h with ⟨result, parameters, location, rfl⟩ | ⟨reason, rfl⟩
  · exact Or.inl ⟨_, rfl, rfl, rfl, rfl⟩
  · exact Or.inr ⟨_, rfl, rfl⟩

/-- The members of a class that a slot stands for have no symbols but those of the slot. -/
theorem flatMap_placeCallable_sublist (fqn shortName : String) (visibility : Visibility) {slot : Slot}
    {p : String × String} (h : (slot.symbols Callable.fqn).Sublist [p]) :
    ((placeCallable shortName visibility slot).flatMap fun x =>
      x.inside fqn ++ x.beside fqn).Sublist [p] := by
  unfold placeCallable
  split
  · cases slot with
    | concrete f =>
        simpa [Slot.symbols, Slot.callables, ClassMember.inside, ClassMember.beside] using h
    | overload g =>
        simpa [Slot.symbols, Slot.callables, ClassMember.inside, ClassMember.beside, List.flatMap_map,
          ← List.map_eq_flatMap] using h
    | placeholder q => exact List.nil_sublist _
  · split
    · cases slot with
      | concrete f =>
          simpa [Slot.symbols, Slot.callables, ClassMember.inside, ClassMember.beside] using h
      | overload g => exact List.nil_sublist _
      | placeholder q => exact List.nil_sublist _
    · split <;> simpa [ClassMember.inside, ClassMember.beside] using h

section Members

variable {β : Type} {s : Setting} {place : Place} {member : Xml.Element} {d : Draft β}

theorem exists_callableSlot {f : Slot → β}
    (h : (draftCallable s place member >>= fun d => pure (some (d.map f))) = .ok (some d)) :
    ∃ slot, callableSlot s place member {} = .ok slot ∧
      d = ⟨⟨place.fqn (member.childText "name"), member⟩, f slot⟩ := by
  simp only [draftCallable, bind_eq_ok_iff, pure_eq_ok_iff] at h
  obtain ⟨_, ⟨slot, hslot, rfl⟩, hd⟩ := h
  exact ⟨slot, hslot, (Option.some.inj hd).symm⟩

theorem exists_enumerationOf {scope : String} {f : Enumeration → β}
    (h : (draftEnum s scope member >>= fun d => pure (some (d.map f))) = .ok (some d)) :
    ∃ location, d = ⟨⟨Name.qualify scope none (member.childText "name"), member⟩,
      f (enumerationOf scope member {} location)⟩ := by
  simp only [draftEnum, bind_eq_ok_iff, pure_eq_ok_iff] at h
  obtain ⟨_, ⟨location, -, rfl⟩, hd⟩ := h
  exact ⟨location, (Option.some.inj hd).symm⟩

theorem exists_made {α : Type} {fqn : String} {make : CppType → Flags → Location → α} {f : α → β}
    (h : (draftTyped s place member fqn make >>= fun d => pure (d.map (Draft.map f))) =
      .ok (some d)) :
    ∃ ty location, d = ⟨⟨fqn, member⟩, f (make ty {} location)⟩ := by
  simp only [draftTyped, bind_eq_ok_iff, pure_eq_ok_iff] at h
  obtain ⟨_, ⟨type, -, htype⟩, hd⟩ := h
  -- A symbol with no type, or with one that cannot be read, is left out.
  rcases type with _ | ⟨ty⟩ | ⟨reason⟩
  · cases htype
    cases hd
  · simp only [bind_eq_ok_iff, pure_eq_ok_iff] at htype
    obtain ⟨location, -, rfl⟩ := htype
    exact ⟨ty, location, (Option.some.inj hd).symm⟩
  · cases htype
    cases hd

end Members

/-- The names in a class document are written in one way only: the qualified name of the class can be put
together again from its parts, and its data members have names. -/
@[mk_iff]
structure WellNamed (compound : Xml.Element) : Prop where
  named : compound.childText "compoundname" ≠ ""
  rejoined : Name.qualify (Name.parentScope (compound.childText "compoundname")) none
    (Name.lastSegment (compound.childText "compoundname")) = compound.childText "compoundname"
  attributes : ∀ member ∈ members compound, member.attr? "kind" = some "variable" →
    member.childText "name" ≠ ""

instance (compound : Xml.Element) : Decidable (WellNamed compound) :=
  decidable_of_iff' _ (wellNamed_iff compound)

/-- The place of a class, by its qualified name. -/
def classPlace (fqn : String) (params : List String) : Place :=
  ⟨Name.parentScope fqn, some (Name.lastSegment fqn), params⟩

theorem fqn_classPlace {fqn name : String} (params : List String) (hfqn : fqn ≠ "")
    (hrejoined : Name.qualify (Name.parentScope fqn) none (Name.lastSegment fqn) = fqn)
    (hname : name ≠ "") : (classPlace fqn params).fqn name = fqn ++ "::" ++ name := by
  obtain ⟨parts, hparts⟩ : ∃ parts, parts =
    [Name.parentScope fqn, Name.lastSegment fqn].filter (· ≠ "") := ⟨_, rfl⟩
  have hjoined : Name.joinScopes parts = fqn := by
    rw [hparts]
    exact hrejoined
  have hne : parts ≠ [] := by
    rintro rfl
    exact hfqn hjoined.symm
  have hfilter : [name].filter (· ≠ "") = [name] := by simp [hname]
  calc (classPlace fqn params).fqn name
      = Name.joinScopes
          (([Name.parentScope fqn, Name.lastSegment fqn] ++ [name]).filter (· ≠ "")) := rfl
    _ = Name.joinScopes (parts ++ [name]) := by rw [List.filter_append, hfilter, hparts]
    _ = Name.joinScopes parts ++ "::" ++ Name.joinScopes [name] :=
        String.intercalate_append_of_ne_nil hne (by simp)
    _ = fqn ++ "::" ++ name := by rw [hjoined, Name.joinScopes, String.intercalate_singleton]

theorem context_classPlace {fqn : String} (params : List String)
    (hrejoined : Name.qualify (Name.parentScope fqn) none (Name.lastSegment fqn) = fqn) :
    (classPlace fqn params).context = fqn :=
  hrejoined

/-- The context of a namespace is its name. -/
theorem context_namespace (name : String) : ({ scope := name } : Place).context = name := by
  by_cases h : name = ""
  · rw [h]
    rfl
  · have hfilter : [name, ""].filter (· ≠ "") = [name] := by simp [h]
    show Name.joinScopes ([name, ""].filter (· ≠ "")) = name
    rw [hfilter, Name.joinScopes, String.intercalate_singleton]

/-- What a member of a class declares is stored under the name that the member is read under. -/
theorem draftClassMember_sublist {s : Setting} {fqn : String} {params : List String}
    {member : Xml.Element} {d : Draft (List ClassMember)} (hfqn : fqn ≠ "")
    (hrejoined : Name.qualify (Name.parentScope fqn) none (Name.lastSegment fqn) = fqn)
    (hname : member.attr? "kind" = some "variable" → member.childText "name" ≠ "")
    (h : draftClassMember s (classPlace fqn params) fqn member = .ok (some d)) :
    (d.content.flatMap fun x => x.inside fqn ++ x.beside fqn).Sublist
      [symbolOf d.toDocumented] := by
  simp only [draftClassMember] at h
  cases hkind : member.attr? "kind" with
  | none =>
      rw [hkind] at h
      cases h
  | some kind =>
      rw [hkind] at h hname
      by_cases hfunction : kind = "function"
      · subst hfunction
        obtain ⟨slot, hslot, rfl⟩ := exists_callableSlot h
        dsimp only
        refine flatMap_placeCallable_sublist fqn _ _ ?_
        rcases callableSlot_cases hslot with ⟨f, rfl, -, hf, hid⟩ | ⟨q, rfl, -⟩
        · simp only [Slot.symbols, Slot.callables, List.map_cons, List.map_nil, hf, hid]
          exact List.Sublist.refl _
        · exact List.nil_sublist _
      -- In the order of the reader: hidden members, variables, enumerations, typedefs, anything else.
      · simp only at h
        split at h
        · cases h
        split at h
        · rename_i hvariable
          obtain ⟨ty, location, rfl⟩ := exists_made h
          have hattribute := fqn_classPlace params hfqn hrejoined (hname (by rw [hvariable]))
          simp [ClassMember.inside, ClassMember.beside, symbolOf, attributeOf, Documented.id,
            hattribute]
        split at h
        · obtain ⟨location, rfl⟩ := exists_enumerationOf h
          exact List.Sublist.refl _
        split at h
        · obtain ⟨ty, location, rfl⟩ := exists_made h
          rw [context_classPlace params hrejoined]
          exact List.Sublist.refl _
        · cases h

theorem draftNamespaceMember_sublist {s : Setting} {name : String} {member : Xml.Element}
    {d : Draft NamespaceMember} (h : draftNamespaceMember s name member = .ok (some d)) :
    (d.content.symbols name).Sublist [symbolOf d.toDocumented] := by
  simp only [draftNamespaceMember] at h
  split at h
  · obtain ⟨slot, hslot, rfl⟩ := exists_callableSlot h
    rcases callableSlot_cases hslot with ⟨f, rfl, hname, hf, hid⟩ | ⟨q, rfl, -⟩
    · simp only [NamespaceMember.symbols, Slot.symbols, Slot.callables, Slot.name, List.map_cons,
        List.map_nil, hname, hid]
      exact List.Sublist.refl _
    · exact List.nil_sublist _
  · obtain ⟨location, rfl⟩ := exists_enumerationOf h
    exact List.Sublist.refl _
  · obtain ⟨ty, location, rfl⟩ := exists_made h
    rw [context_namespace]
    exact List.Sublist.refl _
  · obtain ⟨ty, location, rfl⟩ := exists_made h
    exact List.Sublist.refl _
  · cases h

/-- A class as its document describes it, apart from its members. -/
theorem header_of_readClassHeader {s : Setting} {fqn : String} {flags : Flags} {compound : Xml.Element}
    {header : Class} (h : readClassHeader s fqn flags compound = .ok header) :
    header.id = compound.attr "id" ∧ Memberless header ∧
      memberPlace header = classPlace fqn (templateParams compound) := by
  simp only [readClassHeader, bind_eq_ok_iff, pure_eq_ok_iff] at h
  obtain ⟨location, -, bases, -, rfl⟩ := h
  exact ⟨rfl, ⟨rfl, rfl, rfl, rfl, rfl⟩, rfl⟩

/-- The draft of a well-named class is faithful. -/
theorem faithful_of_draftClass {s : Setting} {compound : Xml.Element} {d : ClassDraft}
    (hnamed : WellNamed compound) (h : draftClass s compound = .ok d) : d.Faithful := by
  simp only [draftClass, bind_eq_ok_iff, pure_eq_ok_iff] at h
  obtain ⟨header, hheader, found, hmembers, rfl⟩ := h
  obtain ⟨hid, hmemberless, hplace⟩ := header_of_readClassHeader hheader
  refine ⟨hid, hmemberless, fun m hm => ?_⟩
  obtain ⟨member, hmember, hdraft⟩ := exists_of_mem_draftAll hmembers hm
  rw [hplace] at hdraft
  exact draftClassMember_sublist hnamed.named hnamed.rejoined (hnamed.attributes member hmember)
    hdraft

/-- The draft of a namespace is faithful, whatever its name. -/
theorem faithful_of_draftNamespace {s : Setting} {compound : Xml.Element} {d : NamespaceDraft}
    (h : draftNamespace s compound = .ok d) : d.Faithful := by
  simp only [draftNamespace, bind_eq_ok_iff, pure_eq_ok_iff] at h
  obtain ⟨found, hmembers, rfl⟩ := h
  refine ⟨rfl, fun m hm => ?_⟩
  obtain ⟨member, -, hdraft⟩ := exists_of_mem_draftAll hmembers hm
  exact draftNamespaceMember_sublist hdraft

end Compound

end ScriptBindings
