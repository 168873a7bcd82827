import Mathlib
import ScriptBindings.Proofs.Compound.Stored
import ScriptBindings.Proofs.Entity.Slots

/-!
# Where the callables of a class are kept

Every function member that is read as a callable is kept on one shelf of its class, chosen by its name and its
declared protection: among the constructors, among the methods or among the hidden methods.  On each shelf the
callables stand in the order of the document, those of one name together; there are no others, and none is
kept twice.  Only the destructor, of which there is one, may give way to a later one.

Placeholders join the slots as well.  They hold no callables, so they do not show here.
-/

namespace ScriptBindings.Compound

/-! ## Members that are read as callables -/

/-- A function member, with the callable that it is read as. -/
structure Declared where
  element : Xml.Element
  callable : Callable

/-- The callable of a member, if the member is a function and is read as one. -/
def declared? (s : Setting) (place : Place) (ctx : FlagContext) (member : Xml.Element) :
    Option Declared :=
  if member.attr? "kind" = some "function" then
    match readCallable s place ctx member with
    | .ok (.concrete f, _) => some ⟨member, f⟩
    | _ => none
  else none

/-- All callables among some members of a class, each read in the context that the members in front of it
leave behind. -/
def declaredIn (s : Setting) (place : Place) (fqn : String) :
    FlagContext → List Xml.Element → List Declared
  | _, [] => []
  | ctx, member :: rest =>
      (declared? s place ctx member).toList ++
        match readClassMember s place fqn ctx member with
        | .ok (_, ctx) => declaredIn s place fqn ctx rest
        | .error _ => []

/-- All callables of a class document that is added to an extraction. -/
def declaredCallables (s : Setting) (x : Extraction) (compound : Xml.Element) : List Declared :=
  let fqn := compound.childText "compoundname"
  declaredIn s (classPlace fqn (templateParams compound)) fqn (x.ctx.flagsOf compound fqn).2
    (members compound)

section Declared

variable {s : Setting} {place : Place} {fqn : String} {ctx : FlagContext} {member : Xml.Element}
  {d : Declared}

/-- What is declared by a member is a callable that the member is read as. -/
theorem declared?_inv (h : declared? s place ctx member = some d) :
    d.element = member ∧ member.attr? "kind" = some "function" ∧
      callableSlot s place member d.callable.flags = .ok (.concrete d.callable) ∧
      ∃ result parameters location,
        d.callable = callableOf place member d.callable.flags result parameters location := by
  unfold declared? at h
  split at h
  · rename_i hfunction
    cases hread : readCallable s place ctx member with
    | error fault =>
        rw [hread] at h
        cases h
    | ok r =>
        rw [hread] at h
        obtain ⟨slot, hslot, hr⟩ := bind_eq_ok_iff.1 hread
        cases pure_eq_ok_iff.1 hr
        rcases callableSlot_inv hslot with ⟨result, parameters, location, rfl⟩ | ⟨reason, rfl⟩
        · cases h
          exact ⟨rfl, hfunction, hslot, result, parameters, location, rfl⟩
        · cases h
  · cases h

/-- Every declared callable is declared by a member. -/
theorem exists_of_mem_declaredIn {members : List Xml.Element}
    (h : d ∈ declaredIn s place fqn ctx members) :
    ∃ member ∈ members, ∃ ctx, declared? s place ctx member = some d := by
  induction members generalizing ctx with
  | nil => cases h
  | cons member rest ih =>
      rw [declaredIn] at h
      rcases List.mem_append.1 h with hhere | hlater
      · exact ⟨member, List.mem_cons_self, ctx, Option.mem_toList.1 hhere⟩
      · split at hlater
        · obtain ⟨other, hother, hdeclared⟩ := ih hlater
          exact ⟨other, List.mem_cons_of_mem _ hother, hdeclared⟩
        · cases hlater

end Declared

/-- The name of a class without its scope and its template arguments. -/
def shortName (compound : Xml.Element) : String :=
  Name.withoutTemplateArgs (Name.lastSegment (compound.childText "compoundname"))

/-- Where a class keeps a callable. -/
inductive Shelf where
  | constructors
  | destructor
  | methods
  | hidden
deriving DecidableEq, Repr

/-- The member is declared neither protected nor private. -/
def Declared.IsExposed (d : Declared) : Prop :=
  d.element.attr? "prot" ≠ some "protected" ∧ d.element.attr? "prot" ≠ some "private"

instance (d : Declared) : Decidable d.IsExposed :=
  inferInstanceAs (Decidable (_ ∧ _))

theorem Declared.isExposed_iff (d : Declared) :
    d.IsExposed ↔ visibilityOf (d.element.attr? "prot") = .pub := by
  unfold IsExposed visibilityOf
  split <;> simp_all

/-- The shelf of a callable of the class with a short name. -/
def Declared.shelf (short : String) (d : Declared) : Shelf :=
  if d.callable.name = short ∧ d.IsExposed then .constructors
  else if d.callable.name = "~" ++ short then .destructor
  else if d.IsExposed then .methods
  else .hidden

/-- What belongs on a shelf, in document order. -/
def shelved (short : String) (shelf : Shelf) (ds : List Declared) : List Callable :=
  (ds.filter fun d => d.shelf short = shelf).map (·.callable)

/-- No class has the name of its destructor. -/
theorem ne_destructorName (short : String) : short ≠ "~" ++ short := by
  intro h
  have hlength : short.length = "~".length + short.length :=
    (congrArg String.length h).trans (String.length_append _ _)
  have hone : "~".length = 1 := by decide
  omega

/-- The destructor's shelf is for callables of its name, and for no others. -/
theorem Declared.shelf_eq_destructor_iff {short : String} {d : Declared} :
    d.shelf short = .destructor ↔ d.callable.name = "~" ++ short := by
  unfold shelf
  split
  · rename_i h
    exact iff_of_false Shelf.noConfusion fun heq => ne_destructorName short (h.1.symm.trans heq)
  · split
    · rename_i h
      exact iff_of_true rfl h
    · rename_i h
      split
      · exact iff_of_false Shelf.noConfusion h
      · exact iff_of_false Shelf.noConfusion h

/-- The shelves but for the destructor's are filled with all other callables. -/
theorem perm_shelved (short : String) (ds : List Declared) :
    (shelved short .constructors ds ++ (shelved short .methods ds ++ shelved short .hidden ds)).Perm
      ((ds.filter fun d => d.callable.name ≠ "~" ++ short).map (·.callable)) := by
  induction ds with
  | nil => exact List.Perm.nil
  | cons d ds ih =>
      have hdestructor : d.shelf short = .destructor ↔ d.callable.name = "~" ++ short :=
        Declared.shelf_eq_destructor_iff
      simp only [shelved] at ih ⊢
      -- A callable is moved to the front of its shelf, past the shelves in front of it.
      cases hshelf : d.shelf short with
      | constructors =>
          rw [hshelf] at hdestructor
          simpa [hshelf, ← hdestructor] using ih
      | destructor => simpa [hshelf, hdestructor.1 hshelf] using ih
      | methods =>
          rw [hshelf] at hdestructor
          simpa [hshelf, ← hdestructor] using List.perm_middle.trans (ih.cons d.callable)
      | hidden =>
          rw [hshelf] at hdestructor
          rw [← List.append_assoc] at ih
          simpa [hshelf, ← hdestructor] using List.perm_middle.trans (ih.cons d.callable)

/-! ## Adding members to a class -/

/-- The slots that a member adds to a shelf, with their keys. -/
def ClassMember.slots (shelf : Shelf) : ClassMember → List (String × Slot)
  | .method slot => if shelf = .methods then [(slot.name, slot)] else []
  | .hidden slot => if shelf = .hidden then [(slot.name, slot)] else []
  | _ => []

/-- The callables in some slots, each with the key of its slot. -/
def keyed (l : List (String × Slot)) : List (String × Callable) :=
  l.flatMap fun e => e.2.callables.map (e.1, ·)

/-- The callables that a member adds to a shelf, each with the name that it is kept under. -/
def ClassMember.brings (shelf : Shelf) : ClassMember → List (String × Callable)
  | .constructor f => if shelf = .constructors then [(f.name, f)] else []
  | .destructor f => if shelf = .destructor then [(f.name, f)] else []
  | m => keyed (m.slots shelf)

/-- The slots on a shelf; constructors and destructors are not kept in slots. -/
def slotsOn (c : Class) : Shelf → Slots
  | .methods => c.methods
  | .hidden => c.hiddenMethods
  | _ => .empty

variable {c : Class} {found : List ClassMember} {short name : String} {shelf : Shelf}

theorem constructors_foldl (c : Class) (found : List ClassMember) :
    (found.foldl addToClass c).constructors =
      c.constructors ++ (found.flatMap (ClassMember.brings .constructors)).map (·.2) := by
  induction found generalizing c with
  | nil => exact (List.append_nil _).symm
  | cons m found ih =>
      have hfirst : (addToClass c m).constructors =
          c.constructors ++ (m.brings .constructors).map (·.2) := by
        cases m with
        | constructor f => rfl
        | _ => exact (List.append_nil _).symm
      rw [List.foldl_cons, ih, hfirst, List.flatMap_cons, List.map_append, List.append_assoc]

/-- The destructor is the last one that is brought. -/
theorem destructor_foldl (c : Class) (found : List ClassMember) :
    (found.foldl addToClass c).destructor =
      ((found.flatMap (ClassMember.brings .destructor)).map (·.2)).getLast?.or c.destructor := by
  induction found generalizing c with
  | nil => rfl
  | cons m found ih =>
      rw [List.foldl_cons, ih, List.flatMap_cons, List.map_append, List.getLast?_append, Option.or_assoc]
      cases m <;> rfl

/-- The slots on a shelf are those that members add to it, one after the other. -/
theorem slotsOn_foldl (c : Class) (found : List ClassMember) (shelf : Shelf) :
    slotsOn (found.foldl addToClass c) shelf =
      (slotsOn c shelf).addAll (found.flatMap (ClassMember.slots shelf)) := by
  induction found generalizing c with
  | nil => rfl
  | cons m found ih =>
      rw [List.foldl_cons, ih, List.flatMap_cons]
      cases m <;> cases shelf <;> rfl

theorem flatMap_brings (hshelf : shelf = .methods ∨ shelf = .hidden) (found : List ClassMember) :
    found.flatMap (ClassMember.brings shelf) = keyed (found.flatMap (ClassMember.slots shelf)) := by
  rw [keyed, List.flatMap_assoc]
  refine List.flatMap_congr fun m _ => ?_
  rcases hshelf with rfl | rfl
  · cases m <;> rfl
  · cases m <;> rfl

/-- The callables in slots are what the slots hold. -/
theorem map_keyed (l : List (String × Slot)) :
    (keyed l).map (·.2.uncast) = l.flatMap fun e => e.2.held := by
  rw [keyed, List.map_flatMap]
  refine List.flatMap_congr fun e _ => ?_
  rw [List.map_map]
  rfl

theorem keyed_cons (e : String × Slot) (l : List (String × Slot)) :
    keyed (e :: l) = e.2.callables.map (e.1, ·) ++ keyed l :=
  List.flatMap_cons

/-- The callables with a key are those in the slots with the key. -/
theorem filter_keyed (l : List (String × Slot)) (name : String) :
    (keyed l).filter (fun e => e.1 = name) = keyed (l.filter fun e => e.1 = name) := by
  induction l with
  | nil => rfl
  | cons e l ih =>
      rw [keyed_cons, List.filter_append, ih]
      by_cases hkey : e.1 = name
      · rw [List.filter_cons_of_pos (by simpa using hkey), keyed_cons, List.filter_eq_self.2]
        intro f hf
        obtain ⟨g, -, rfl⟩ := List.mem_map.1 hf
        exact decide_eq_true hkey
      · rw [List.filter_cons_of_neg (by simpa using hkey), List.filter_eq_nil_iff.2, List.nil_append]
        intro f hf
        obtain ⟨g, -, rfl⟩ := List.mem_map.1 hf
        simpa using hkey

/-! ## Reading members -/

variable {s : Setting} {place : Place} {fqn : String} {ctx ctx' : FlagContext}

/-- Some members bring the callables that are declared, to the shelves of these. -/
def Bring (short : String) (found : List ClassMember) (ds : List Declared) : Prop :=
  ∀ shelf, found.flatMap (ClassMember.brings shelf) =
    (ds.filter fun d => d.shelf short = shelf).map fun d => (d.callable.name, d.callable)

theorem Bring.append {found found' : List ClassMember} {ds ds' : List Declared}
    (h : Bring short found ds) (h' : Bring short found' ds') : Bring short (found ++ found') (ds ++ ds') :=
  fun shelf => by rw [List.flatMap_append, List.filter_append, List.map_append, h shelf, h' shelf]

/-- What a slot stands for in its class: constructors, the destructor or the slot as it is. -/
theorem placeCallable_inv {visibility : Visibility} {slot : Slot} {m : ClassMember}
    (hm : m ∈ placeCallable short visibility slot) :
    (∃ p, m = .rejected p) ∨ (∃ f, m = .constructor f) ∨ (∃ f, m = .destructor f) ∨
      m = .method slot ∨ m = .hidden slot := by
  unfold placeCallable at hm
  split at hm
  · split at hm
    · exact Or.inl ⟨_, List.mem_singleton.1 hm⟩
    · obtain ⟨f, -, rfl⟩ := List.mem_map.1 hm
      exact Or.inr (Or.inl ⟨f, rfl⟩)
  split at hm
  · split at hm
    · exact Or.inr (Or.inr (Or.inl ⟨_, List.mem_singleton.1 hm⟩))
    · cases hm
  split at hm
  · exact Or.inr (Or.inr (Or.inr (Or.inl (List.mem_singleton.1 hm))))
  · exact Or.inr (Or.inr (Or.inr (Or.inr (List.mem_singleton.1 hm))))

/-- A callable is brought to its shelf. -/
theorem bring_placeCallable (short : String) (d : Declared) :
    Bring short (placeCallable short (visibilityOf (d.element.attr? "prot")) (.concrete d.callable))
      [d] := by
  intro shelf
  have hexposed := d.isExposed_iff
  -- The cases are those by which the member finds its place, in the same order.
  unfold placeCallable
  simp only [Slot.name, ← hexposed]
  by_cases hconstructor : d.callable.name = short ∧ d.IsExposed
  · have hshelf : d.shelf short = .constructors := if_pos hconstructor
    rw [if_pos hconstructor]
    cases shelf <;> simp [hshelf, ClassMember.brings, Slot.callables]
  rw [if_neg hconstructor]
  by_cases hdestructor : d.callable.name = "~" ++ short
  · have hshelf : d.shelf short = .destructor := Declared.shelf_eq_destructor_iff.2 hdestructor
    rw [if_pos hdestructor]
    cases shelf <;> simp [hshelf, ClassMember.brings]
  rw [if_neg hdestructor]
  by_cases hvisible : d.IsExposed
  · have hshelf : d.shelf short = .methods := by
      rw [Declared.shelf, if_neg hconstructor, if_neg hdestructor, if_pos hvisible]
    rw [if_pos hvisible]
    cases shelf <;> simp [hshelf, ClassMember.brings, ClassMember.slots, keyed, Slot.callables, Slot.name]
  · have hshelf : d.shelf short = .hidden := by
      rw [Declared.shelf, if_neg hconstructor, if_neg hdestructor, if_neg hvisible]
    rw [if_neg hvisible]
    cases shelf <;> simp [hshelf, ClassMember.brings, ClassMember.slots, keyed, Slot.callables, Slot.name]

/-- A placeholder brings nothing. -/
theorem bring_placeholder (short : String) (visibility : Visibility) (p : Placeholder) :
    Bring short (placeCallable short visibility (.placeholder p)) [] := by
  intro shelf
  unfold placeCallable
  split
  · rfl
  · split
    · rfl
    · split
      · cases shelf <;> rfl
      · cases shelf <;> rfl

/-- A symbol that has a type is made from the type that is read. -/
theorem readTyped_inv {α : Type} {member : Xml.Element} {make : CppType → Flags → Location → α} {a : α}
    (h : readTyped s place ctx member name make = .ok (some a, ctx')) :
    ∃ ty flags location, memberType s place member = .ok (some (.read ty)) ∧ a = make ty flags location := by
  obtain ⟨type, htype, h⟩ := bind_eq_ok_iff.1 h
  rcases type with _ | ⟨ty⟩ | ⟨reason⟩
  · cases h
  · simp only [bind_eq_ok_iff, pure_eq_ok_iff] at h
    obtain ⟨location, -, h⟩ := h
    cases h
    exact ⟨ty, _, location, htype, rfl⟩
  · cases h

theorem scope_of_readEnum {member : Xml.Element} {e : Enumeration}
    (h : readEnum s fqn ctx member = .ok (e, ctx')) : e.scope = fqn := by
  obtain ⟨location, -, he⟩ := bind_eq_ok_iff.1 h
  cases pure_eq_ok_iff.1 he
  rfl

/-- What a member of a class is read as: a callable that finds its place, or an entity of another kind. -/
theorem readClassMember_inv {member : Xml.Element} {here : List ClassMember}
    (h : readClassMember s place fqn ctx member = .ok (here, ctx')) :
    (member.attr? "kind" = some "function" ∧ ∃ slot,
      readCallable s place ctx member = .ok (slot, ctx') ∧
        here = placeCallable (Name.withoutTemplateArgs (place.owner.getD ""))
          (visibilityOf (member.attr? "prot")) slot) ∨
      member.attr? "kind" ≠ some "function" ∧ (here = [] ∨
        (∃ a, here = [.attribute a] ∧ memberType s place member = .ok (some (.read a.ty))) ∨
        (∃ e, here = [.enumeration e] ∧ e.scope = fqn) ∨
        ∃ t, here = [.typedef t] ∧ t.scope = place.context ∧
          memberType s place member = .ok (some (.read t.ty))) := by
  simp only [readClassMember] at h
  split at h
  · rename_i hfunction
    obtain ⟨⟨slot, after⟩, hread, h⟩ := bind_eq_ok_iff.1 h
    cases pure_eq_ok_iff.1 h
    exact Or.inl ⟨hfunction, slot, hread, rfl⟩
  -- In the order of the reader: hidden members, variables, enumerations, typedefs, anything else.
  · rename_i kind hfunction hkind
    refine Or.inr ⟨fun heq => hfunction (Option.some.inj (hkind.symm.trans heq)), ?_⟩
    split at h
    · cases pure_eq_ok_iff.1 h
      exact Or.inl rfl
    split at h
    · obtain ⟨⟨_ | a, after⟩, hread, h⟩ := bind_eq_ok_iff.1 h
      · cases pure_eq_ok_iff.1 h
        exact Or.inl rfl
      · cases pure_eq_ok_iff.1 h
        obtain ⟨ty, flags, location, htype, rfl⟩ := readTyped_inv hread
        exact Or.inr (Or.inl ⟨_, rfl, htype⟩)
    split at h
    · obtain ⟨⟨e, after⟩, hread, h⟩ := bind_eq_ok_iff.1 h
      cases pure_eq_ok_iff.1 h
      exact Or.inr (Or.inr (Or.inl ⟨e, rfl, scope_of_readEnum hread⟩))
    split at h
    · obtain ⟨⟨_ | t, after⟩, hread, h⟩ := bind_eq_ok_iff.1 h
      · cases pure_eq_ok_iff.1 h
        exact Or.inl rfl
      · cases pure_eq_ok_iff.1 h
        obtain ⟨ty, flags, location, htype, rfl⟩ := readTyped_inv hread
        exact Or.inr (Or.inr (Or.inr ⟨_, rfl, rfl, htype⟩))
    · cases pure_eq_ok_iff.1 h
      exact Or.inl rfl
  · rename_i hkind
    cases pure_eq_ok_iff.1 h
    refine Or.inr ⟨fun heq => ?_, Or.inl rfl⟩
    cases hkind.symm.trans heq

/-- Reading a member brings its callable, if it is read as one, and nothing else. -/
theorem bring_readClassMember {member : Xml.Element} {here : List ClassMember}
    (h : readClassMember s place fqn ctx member = .ok (here, ctx')) :
    Bring (Name.withoutTemplateArgs (place.owner.getD "")) here (declared? s place ctx member).toList := by
  rcases readClassMember_inv h with ⟨hfunction, slot, hread, rfl⟩ | ⟨hfunction, hother⟩
  · rw [declared?, if_pos hfunction, hread]
    obtain ⟨_, hslot, hpair⟩ := bind_eq_ok_iff.1 hread
    obtain ⟨rfl, -⟩ := Prod.mk.inj (pure_eq_ok_iff.1 hpair)
    rcases callableSlot_inv hslot with ⟨result, parameters, location, rfl⟩ | ⟨reason, rfl⟩
    · exact bring_placeCallable _ ⟨member, _⟩
    · exact bring_placeholder _ _ _
  · -- Any other member is nothing, or an entity that is no callable.
    rw [declared?, if_neg hfunction]
    intro shelf
    rcases hother with rfl | ⟨a, rfl, -⟩ | ⟨e, rfl, -⟩ | ⟨t, rfl, -⟩
    · rfl
    · cases shelf <;> rfl
    · cases shelf <;> rfl
    · cases shelf <;> rfl

/-- Reading members one by one: what the first one is read as comes in front. -/
theorem readClassMembers_cons_eq_ok_iff {member : Xml.Element} {rest : List Xml.Element} :
    readClassMembers s place fqn ctx (member :: rest) = .ok (found, ctx') ↔ ∃ here after later,
      readClassMember s place fqn ctx member = .ok (here, after) ∧
        readClassMembers s place fqn after rest = .ok (later, ctx') ∧ found = here ++ later := by
  simp only [readClassMembers, bind_eq_ok_iff, pure_eq_ok_iff]
  constructor
  · rintro ⟨⟨here, after⟩, hhere, ⟨later, last⟩, hlater, hfound⟩
    cases hfound
    exact ⟨here, after, later, hhere, hlater, rfl⟩
  · rintro ⟨here, after, later, hhere, hlater, rfl⟩
    exact ⟨(here, after), hhere, (later, ctx'), hlater, rfl⟩

/-- What is found is found at a member. -/
theorem exists_of_mem_readClassMembers {members : List Xml.Element} {m : ClassMember}
    (h : readClassMembers s place fqn ctx members = .ok (found, ctx')) (hm : m ∈ found) :
    ∃ member ∈ members, ∃ ctx here after,
      readClassMember s place fqn ctx member = .ok (here, after) ∧ m ∈ here := by
  induction members generalizing ctx found with
  | nil =>
      cases h
      cases hm
  | cons member rest ih =>
      obtain ⟨here, after, later, hhere, hlater, rfl⟩ := readClassMembers_cons_eq_ok_iff.1 h
      rcases List.mem_append.1 hm with hm | hm
      · exact ⟨member, List.mem_cons_self, ctx, here, after, hhere, hm⟩
      · obtain ⟨other, hother, hread⟩ := ih hlater hm
        exact ⟨other, List.mem_cons_of_mem _ hother, hread⟩

/-- Reading all members brings all callables. -/
theorem bring_readClassMembers {members : List Xml.Element}
    (h : readClassMembers s place fqn ctx members = .ok (found, ctx')) :
    Bring (Name.withoutTemplateArgs (place.owner.getD "")) found
      (declaredIn s place fqn ctx members) := by
  induction members generalizing ctx found with
  | nil =>
      cases h
      exact fun _ => rfl
  | cons member rest ih =>
      obtain ⟨here, after, later, hhere, hlater, rfl⟩ := readClassMembers_cons_eq_ok_iff.1 h
      rw [declaredIn, hhere]
      exact (bring_readClassMember hhere).append (ih hlater)

/-! ## Classes that are put together -/

/-- A class keeps the callables that are declared, each on its shelf, in document order and under its own
name; and all of them once, but for destructors, of which only the last one is kept. -/
structure Shelves (c : Class) (short : String) (ds : List Declared) : Prop where
  constructors : c.constructors = shelved short .constructors ds
  destructor : c.destructor = (shelved short .destructor ds).getLast?
  methods : ∀ name, c.methods.heldAt name =
    ((shelved short .methods ds).filter fun f => f.name = name).map Callable.uncast
  hidden : ∀ name, c.hiddenMethods.heldAt name =
    ((shelved short .hidden ds).filter fun f => f.name = name).map Callable.uncast
  once : (c.constructors.map Callable.uncast ++ (c.methods.held ++ c.hiddenMethods.held)).Perm
    ((ds.filter fun d => d.callable.name ≠ "~" ++ short).map (·.callable.uncast))

section Assembling

variable {ds : List Declared}

/-- What members bring to a shelf is what belongs on it. -/
theorem Bring.map_eq_shelved (h : Bring short found ds) (shelf : Shelf) :
    (found.flatMap (ClassMember.brings shelf)).map (·.2) = shelved short shelf ds := by
  rw [h shelf, List.map_map]
  rfl

theorem Bring.filter_eq_shelved (h : Bring short found ds) (shelf : Shelf) (name : String) :
    ((found.flatMap (ClassMember.brings shelf)).filter fun e => e.1 = name).map (·.2.uncast) =
      ((shelved short shelf ds).filter fun f => f.name = name).map Callable.uncast := by
  rw [h shelf, shelved, List.filter_map, List.filter_map, List.map_map, List.map_map]
  rfl

/-- The slots on a shelf hold what members have brought, under each name in the order of the members. -/
theorem Bring.heldAt (h : Bring short found ds) (hshelf : shelf = .methods ∨ shelf = .hidden)
    (hempty : slotsOn c shelf = .empty) (name : String) :
    (slotsOn (found.foldl addToClass c) shelf).heldAt name =
      ((shelved short shelf ds).filter fun f => f.name = name).map Callable.uncast := by
  rw [slotsOn_foldl, hempty, Slots.heldAt_addAll, ← map_keyed, ← filter_keyed, ← flatMap_brings hshelf,
    h.filter_eq_shelved]
  rfl

/-- The slots on a shelf hold what members have brought, and nothing more. -/
theorem Bring.held_perm (h : Bring short found ds) (hshelf : shelf = .methods ∨ shelf = .hidden)
    (hempty : slotsOn c shelf = .empty) :
    (slotsOn (found.foldl addToClass c) shelf).held.Perm
      ((shelved short shelf ds).map Callable.uncast) := by
  refine List.perm_iff_count.2 fun f => ?_
  rw [slotsOn_foldl, hempty, Slots.count_held_addAll, ← map_keyed, ← flatMap_brings hshelf,
    ← h.map_eq_shelved, List.map_map]
  rfl

theorem Bring.constructors (h : Bring short found ds) (hc : Memberless c) :
    (assembleClass c found).constructors = shelved short .constructors ds := by
  show (found.foldl addToClass c).constructors = _
  rw [constructors_foldl, hc.constructors, List.nil_append, h.map_eq_shelved]

/-- A class that is put together from members keeps what they bring. -/
theorem Bring.shelves (h : Bring short found ds) (hc : Memberless c) :
    Shelves (assembleClass c found) short ds where
  constructors := h.constructors hc
  destructor := by
    show (found.foldl addToClass c).destructor = _
    rw [destructor_foldl, hc.destructor, Option.or_none, h.map_eq_shelved]
  methods := h.heldAt (.inl rfl) hc.methods
  hidden := h.heldAt (.inr rfl) hc.hiddenMethods
  once := by
    have hmethods := h.held_perm (.inl rfl) hc.methods
    have hhidden := h.held_perm (.inr rfl) hc.hiddenMethods
    have hall := (perm_shelved short ds).map Callable.uncast
    rw [List.map_append, List.map_append, List.map_map, ← h.constructors hc] at hall
    exact ((hmethods.append hhidden).append_left _).trans hall

end Assembling

/-! ## Documents of classes -/

/-- The class that a document is about. -/
def documentedClass? (root : Xml.Element) : Option Xml.Element :=
  (root.child? "compounddef").filter fun compound =>
    compound.attr? "kind" = some "class" ∨ compound.attr? "kind" = some "struct"

/-- What a document that is accepted does: it adds a namespace or a class, or nothing. -/
theorem addRoot_inv {x y : Extraction} {root : Xml.Element} (h : x.addRoot s root = .ok y) :
    (∃ compound, root.child? "compounddef" = some compound ∧ compound.attr? "kind" = some "namespace" ∧
        addNamespace s x.db x.ctx compound = .ok (y.db, y.ctx)) ∨
      (∃ compound, documentedClass? root = some compound ∧
        addClass s x.db x.ctx compound = .ok (y.db, y.ctx)) ∨
      y = x := by
  unfold Extraction.addRoot at h
  split at h
  · cases h
  rename_i compound hchild
  have hdocumented : compound.attr? "kind" = some "class" ∨ compound.attr? "kind" = some "struct" →
      documentedClass? root = some compound := fun hkind =>
    Option.filter_eq_some_iff.2 ⟨hchild, decide_eq_true hkind⟩
  unfold Extraction.addCompound at h
  split at h
  · rename_i hkind
    obtain ⟨⟨db, ctx⟩, hadd, h⟩ := bind_eq_ok_iff.1 h
    cases pure_eq_ok_iff.1 h
    exact .inl ⟨compound, hchild, hkind, hadd⟩
  · rename_i hkind
    obtain ⟨⟨db, ctx⟩, hadd, h⟩ := bind_eq_ok_iff.1 h
    cases pure_eq_ok_iff.1 h
    exact .inr (.inl ⟨compound, hdocumented (.inl hkind), hadd⟩)
  · rename_i hkind
    obtain ⟨⟨db, ctx⟩, hadd, h⟩ := bind_eq_ok_iff.1 h
    cases pure_eq_ok_iff.1 h
    exact .inr (.inl ⟨compound, hdocumented (.inr hkind), hadd⟩)
  · exact .inr (.inr (pure_eq_ok_iff.1 h).symm)

/-- A class document that is not skipped is read as a class. -/
theorem addRoot_eq_readClass {x : Extraction} {root compound : Xml.Element}
    (hcompound : documentedClass? root = some compound)
    (hread : isSkippedClass x.db compound = false) :
    x.addRoot s root = (readClass s x.db x.ctx compound).map fun r => ⟨r.1, r.2⟩ := by
  obtain ⟨hchild, hkind⟩ := Option.filter_eq_some_iff.1 hcompound
  simp only [Extraction.addRoot, hchild]
  rw [addCompound_class (of_decide_eq_true hkind), addClass, if_neg (ne_true_of_eq_false hread)]

theorem readClass_of_addRoot {x y : Extraction} {root compound : Xml.Element}
    (hcompound : documentedClass? root = some compound)
    (hread : isSkippedClass x.db compound = false) (h : x.addRoot s root = .ok y) :
    readClass s x.db x.ctx compound = .ok (y.db, y.ctx) := by
  rw [addRoot_eq_readClass hcompound hread, map_eq_ok_iff] at h
  obtain ⟨r, hclass, rfl⟩ := h
  exact hclass

/-- A class that is read is put together from a header without members and from the members that are read
behind it. -/
theorem readClass_inv {db db' : Database} {compound : Xml.Element}
    (h : readClass s db ctx compound = .ok (db', ctx')) :
    ∃ header found, readClassHeader s (compound.childText "compoundname")
        (ctx.flagsOf compound (compound.childText "compoundname")).1 compound = .ok header ∧
      Memberless header ∧
      readClassMembers s
        (classPlace (compound.childText "compoundname") (templateParams compound))
        (compound.childText "compoundname")
        (ctx.flagsOf compound (compound.childText "compoundname")).2 (members compound) =
          .ok (found, ctx') ∧
      db' = { found.foldl (addBesideClass (compound.childText "compoundname")) db with
        classes := (found.foldl (addBesideClass (compound.childText "compoundname")) db).classes.insert
          (compound.childText "compoundname") (assembleClass header found) } := by
  obtain ⟨fqn, hfqn⟩ : ∃ fqn, fqn = compound.childText "compoundname" := ⟨_, rfl⟩
  simp only [readClass, ← hfqn, bind_eq_ok_iff, pure_eq_ok_iff] at h ⊢
  obtain ⟨header, hheader, ⟨found, after⟩, hfound, hdb⟩ := h
  obtain ⟨-, hmemberless, hplace⟩ := header_of_readClassHeader hheader
  obtain ⟨rfl, rfl⟩ := Prod.mk.inj hdb
  have hplaced : (⟨header.scope, some header.name, header.templateParams⟩ : Place) =
      classPlace fqn (templateParams compound) := hplace
  rw [hplaced] at hfound
  exact ⟨header, found, hheader, hmemberless, hfound, rfl⟩

/-- A class document that is read leaves a class that keeps its callables. -/
theorem shelves_of_readClass {db db' : Database} {compound : Xml.Element}
    (h : readClass s db ctx compound = .ok (db', ctx')) :
    ∃ c, db'.classes.get? (compound.childText "compoundname") = some c ∧
      Shelves c (shortName compound) (declaredCallables s ⟨db, ctx⟩ compound) := by
  obtain ⟨header, found, -, hmemberless, hfound, rfl⟩ := readClass_inv h
  refine ⟨assembleClass header found, ?_, (bring_readClassMembers hfound).shelves hmemberless⟩
  rw [Dict.get?_insert, if_pos rfl]

/-- A class document that is accepted and not skipped leaves a class that keeps its callables. -/
theorem shelves_of_addRoot {x y : Extraction} {root compound : Xml.Element}
    (hcompound : documentedClass? root = some compound)
    (hread : isSkippedClass x.db compound = false) (h : x.addRoot s root = .ok y) :
    ∃ c, y.db.classes.get? (compound.childText "compoundname") = some c ∧
      Shelves c (shortName compound) (declaredCallables s x compound) :=
  shelves_of_readClass (readClass_of_addRoot hcompound hread h)

/-! ## A crowded class -/

/-- A function member. -/
def functionElement (prot id type name : String) : Xml.Element :=
  ⟨"memberdef", [("kind", "function"), ("id", id), ("prot", prot)], [
    .element ⟨"type", [], [.text type]⟩,
    .element ⟨"name", [], [.text name]⟩,
    .element ⟨"location", [("file", "shape.h"), ("line", "2")], []⟩]⟩

/-- The document of a class with some members. -/
def shapeDocument (members : List Xml.Element) : Xml.Element :=
  ⟨"doxygen", [], [
    .element ⟨"compounddef", [("id", "classShape"), ("kind", "class"), ("prot", "public")], [
      .element ⟨"compoundname", [], [.text "ns::Shape"]⟩,
      .element ⟨"sectiondef", [], members.map .element⟩,
      .element ⟨"location", [("file", "shape.h"), ("line", "1")], []⟩]⟩]⟩

/-- A class with overloads on two shelves, one of which cannot be read, and with two destructors. -/
def crowdedDocument : Xml.Element :=
  shapeDocument [
    functionElement "public" "s1" "" "Shape",
    functionElement "private" "s2" "void" "scale",
    functionElement "public" "s3" "void" "scale",
    functionElement "public" "s4" "std::enable_if_t< N > 0, int >" "scale",
    functionElement "public" "s5" "" "~Shape",
    functionElement "public" "s6" "int" "scale",
    functionElement "protected" "s7" "" "Shape",
    functionElement "public" "s8" "" "~Shape"]

theorem shelves_of_addRoot_crowded : ∃ compound y c,
    documentedClass? crowdedDocument = some compound ∧
      (Extraction.start .empty).addRoot ⟨.empty, "/project"⟩ crowdedDocument = .ok y ∧
      y.db.classes.get? (compound.childText "compoundname") = some c ∧
      Shelves c (shortName compound)
        (declaredCallables ⟨.empty, "/project"⟩ (.start .empty) compound) ∧
      (declaredCallables ⟨.empty, "/project"⟩ (.start .empty) compound).map (fun d =>
          (d.callable.id, d.shelf (shortName compound))) =
        [("s1", .constructors), ("s2", .hidden), ("s3", .methods), ("s5", .destructor), ("s6", .methods),
          ("s7", .hidden), ("s8", .destructor)] ∧
      c.constructors.map (·.id) = ["s1"] ∧ c.destructor.map (·.id) = some "s8" ∧
      (c.methods.heldAt "scale").map (·.id) = ["s3", "s6"] ∧
      (c.hiddenMethods.heldAt "scale").map (·.id) = ["s2"] ∧
      (c.hiddenMethods.heldAt "Shape").map (·.id) = ["s7"] := by
  obtain ⟨y, hread, hids⟩ := exists_of_any_toOption
    (x := (Extraction.start .empty).addRoot ⟨.empty, "/project"⟩ crowdedDocument)
    (p := fun y => (y.db.classes.get? "ns::Shape").any fun c =>
      (c.constructors.map (·.id), c.destructor.map (·.id), (c.methods.heldAt "scale").map (·.id),
        (c.hiddenMethods.heldAt "scale").map (·.id), (c.hiddenMethods.heldAt "Shape").map (·.id)) =
          (["s1"], some "s8", ["s3", "s6"], ["s2"], ["s7"])) (by decide +kernel)
  obtain ⟨c, hc, hshelves⟩ := shelves_of_addRoot rfl (by decide +kernel) hread
  have hname : y.db.classes.get? "ns::Shape" = some c := hc
  rw [hname, Option.any_some, decide_eq_true_eq] at hids
  simp only [Prod.mk.injEq] at hids
  exact ⟨_, y, c, rfl, hread, hc, hshelves, by decide +kernel, hids⟩

end ScriptBindings.Compound
