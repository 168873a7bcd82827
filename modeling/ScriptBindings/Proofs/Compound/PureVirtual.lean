import Mathlib
import ScriptBindings.Proofs.Compound.Callables
import ScriptBindings.Proofs.Compound.Visibility

/-!
# Pure virtual members

A class is abstract if one of its methods must be implemented.  The methods are asked after the members have
found their places, so a member has to be read as a callable and to be kept among the methods, hidden or not,
to be asked: a pure virtual member that cannot be read does not make its class abstract, and neither does a
pure virtual destructor.
-/

namespace ScriptBindings

/-- Whether it has to be cast does not matter to whether a callable must be implemented. -/
theorem Callable.isAbstract_eq_of_uncast_eq {f g : Callable} (h : f.uncast = g.uncast) :
    f.isAbstract = g.isAbstract :=
  (congrArg Callable.isAbstract h : f.uncast.isAbstract = g.uncast.isAbstract)

namespace Compound

/-- A function that is declared as pure virtual. -/
def IsPureVirtual (member : Xml.Element) : Prop :=
  member.attr? "kind" = some "function" ∧ member.attr? "virt" = some "pure-virtual"

/-- A member that a class with a short name keeps among its methods: neither a public constructor nor the
destructor. -/
def IsMethod (short : String) (member : Xml.Element) : Prop :=
  member.childText "name" ≠ "~" ++ short ∧
    ¬ (member.childText "name" = short ∧ visibilityOf (member.attr? "prot") = .pub)

/-! ## Methods that must be implemented -/

variable {c : Class} {short : String} {ds : List Declared}

theorem hasAbstractMethod_iff (c : Class) : hasAbstractMethod c = true ↔
    (∃ f, c.methods.Holds f ∧ f.isAbstract = true) ∨
      ∃ f, c.hiddenMethods.Holds f ∧ f.isAbstract = true := by
  have hside : ∀ slots : Slots, (∃ slot ∈ slots.values, ∃ f ∈ slot.callables, f.isAbstract = true) ↔
      ∃ f, slots.Holds f ∧ f.isAbstract = true := by
    intro slots
    simp only [Dict.mem_values_iff]
    constructor
    · rintro ⟨slot, ⟨name, hslot⟩, f, hf, habstract⟩
      exact ⟨f, ⟨name, slot, hslot, hf⟩, habstract⟩
    · rintro ⟨f, ⟨name, slot, hslot, hf⟩, habstract⟩
      exact ⟨slot, ⟨name, hslot⟩, f, hf, habstract⟩
  unfold hasAbstractMethod Class.allMethods
  rw [List.any_append, Bool.or_eq_true]
  simp only [List.any_eq_true, hside]

/-- What slots hold under each name says what is in them, but for casts. -/
theorem exists_holds_iff {slots : Slots} {l : List Callable}
    (h : ∀ name, slots.heldAt name = (l.filter fun f => f.name = name).map Callable.uncast) :
    (∃ f, slots.Holds f ∧ f.isAbstract = true) ↔ ∃ f ∈ l, f.isAbstract = true := by
  -- What is said of all callables, but for casts, is said of none that it is abstract.
  have hall : (∀ f, slots.Holds f → ¬ f.isAbstract = true) ↔ ∀ f ∈ l, ¬ f.isAbstract = true :=
    forall_holds_iff (fun _ _ heq hf hg => hf ((Callable.isAbstract_eq_of_uncast_eq heq).trans hg)) h
  simpa only [not_forall, not_not, exists_prop] using not_congr hall

/-- The shelves of methods are for all callables but the public constructors and the destructor. -/
theorem Declared.shelf_eq_methods_or_hidden_iff {d : Declared} :
    d.shelf short = .methods ∨ d.shelf short = .hidden ↔
      d.callable.name ≠ "~" ++ short ∧ ¬ (d.callable.name = short ∧ d.IsExposed) := by
  unfold shelf
  by_cases hconstructor : d.callable.name = short ∧ d.IsExposed
  · rw [if_pos hconstructor]
    exact iff_of_false (by rintro (h | h) <;> cases h) fun h => h.2 hconstructor
  rw [if_neg hconstructor]
  by_cases hdestructor : d.callable.name = "~" ++ short
  · rw [if_pos hdestructor]
    exact iff_of_false (by rintro (h | h) <;> cases h) fun h => h.1 hdestructor
  rw [if_neg hdestructor]
  refine iff_of_true ?_ ⟨hdestructor, hconstructor⟩
  split
  · exact Or.inl rfl
  · exact Or.inr rfl

/-- The methods that a class keeps are asked, and no other callables. -/
theorem Shelves.hasAbstractMethod_iff (h : Shelves c short ds) : hasAbstractMethod c = true ↔
    ∃ d ∈ ds, d.callable.isAbstract = true ∧ d.callable.name ≠ "~" ++ short ∧
      ¬ (d.callable.name = short ∧ d.IsExposed) := by
  have hshelf : ∀ shelf, (∃ f ∈ shelved short shelf ds, f.isAbstract = true) ↔
      ∃ d ∈ ds, d.callable.isAbstract = true ∧ d.shelf short = shelf := by
    intro shelf
    constructor
    · rintro ⟨f, hf, habstract⟩
      obtain ⟨d, hd, rfl⟩ := List.mem_map.1 hf
      obtain ⟨hd, hplace⟩ := List.mem_filter.1 hd
      exact ⟨d, hd, habstract, of_decide_eq_true hplace⟩
    · rintro ⟨d, hd, habstract, hplace⟩
      exact ⟨d.callable, List.mem_map_of_mem (List.mem_filter.2 ⟨hd, decide_eq_true hplace⟩), habstract⟩
  rw [Compound.hasAbstractMethod_iff, exists_holds_iff h.methods, exists_holds_iff h.hidden, hshelf,
    hshelf, ← exists_or]
  refine exists_congr fun d => ?_
  rw [← and_or_left, ← and_or_left, Declared.shelf_eq_methods_or_hidden_iff]

/-! ## Members that are declared -/

section Members

variable {s : Setting} {place : Place} {fqn : String} {ctx ctx' : FlagContext} {d : Declared}
  {member : Xml.Element}

/-- A declared callable is named and marked as its member is, and its member can be read. -/
theorem declared?_faithful (h : declared? s place ctx member = some d) :
    d.element = member ∧ member.attr? "kind" = some "function" ∧ IsReadable s place member ∧
      d.callable.name = member.childText "name" ∧
      (d.callable.isAbstract = true ↔ member.attr? "virt" = some "pure-virtual") := by
  obtain ⟨helement, hfunction, hslot, result, parameters, location, hcallable⟩ := declared?_inv h
  refine ⟨helement, hfunction, (exists_concrete_iff hslot).1 ⟨_, rfl⟩, ?_, ?_⟩
  · rw [hcallable]
    rfl
  · rw [hcallable]
    exact decide_eq_true_iff

/-- A function member that is read, and that can be, declares a callable. -/
theorem exists_declared? {here : List ClassMember}
    (hread : readClassMember s place fqn ctx member = .ok (here, ctx'))
    (hfunction : member.attr? "kind" = some "function") (hreadable : IsReadable s place member) :
    ∃ d, declared? s place ctx member = some d := by
  simp only [readClassMember, hfunction] at hread
  obtain ⟨⟨slot, after⟩, hcallable, -⟩ := bind_eq_ok_iff.1 hread
  obtain ⟨_, hslot, hpair⟩ := bind_eq_ok_iff.1 hcallable
  obtain ⟨rfl, -⟩ := Prod.mk.inj (pure_eq_ok_iff.1 hpair)
  obtain ⟨f, rfl⟩ := (exists_concrete_iff hslot).2 hreadable
  refine ⟨⟨member, f⟩, ?_⟩
  rw [declared?, if_pos hfunction, hcallable]

theorem exists_mem_declaredIn {members : List Xml.Element} {found : List ClassMember}
    (hread : readClassMembers s place fqn ctx members = .ok (found, ctx')) (hmember : member ∈ members)
    (hfunction : member.attr? "kind" = some "function") (hreadable : IsReadable s place member) :
    ∃ d ∈ declaredIn s place fqn ctx members, d.element = member := by
  induction members generalizing ctx found with
  | nil => cases hmember
  | cons first rest ih =>
      obtain ⟨here, after, later, hhere, hlater, rfl⟩ := readClassMembers_cons_eq_ok_iff.1 hread
      rw [declaredIn, hhere]
      rcases List.mem_cons.1 hmember with rfl | hmember
      · obtain ⟨d, hd⟩ := exists_declared? hhere hfunction hreadable
        refine ⟨d, List.mem_append_left _ (Option.mem_toList.2 hd), (declared?_faithful hd).1⟩
      · obtain ⟨d, hd, helement⟩ := ih hlater hmember
        exact ⟨d, List.mem_append_right _ hd, helement⟩

end Members

/-! ## Documents of classes -/

/-- A class that is read is abstract if and only if it has a pure virtual member that can be read and that is
kept among the methods. -/
theorem isAbstract_iff_of_addRoot {s : Setting} {x y : Extraction} {root compound : Xml.Element}
    (hcompound : documentedClass? root = some compound)
    (hskipped : isSkippedClass x.db compound = false) (h : x.addRoot s root = .ok y) :
    ∃ c, y.db.classes.get? (compound.childText "compoundname") = some c ∧
      (c.isAbstract = true ↔ ∃ member ∈ members compound, IsPureVirtual member ∧
        IsReadable s (classPlace (compound.childText "compoundname") (templateParams compound)) member ∧
        IsMethod (shortName compound) member) := by
  have hread := readClass_of_addRoot hcompound hskipped h
  obtain ⟨header, found, -, hmemberless, hfound, hdb⟩ := readClass_inv hread
  refine ⟨assembleClass header found, ?_, ?_⟩
  · rw [hdb, Dict.get?_insert, if_pos rfl]
  have hshelves : Shelves (assembleClass header found) (shortName compound)
      (declaredCallables s x compound) := (bring_readClassMembers hfound).shelves hmemberless
  -- The mark is set last, when every member has found its shelf.
  have hmark : (assembleClass header found).isAbstract = hasAbstractMethod (assembleClass header found) :=
    rfl
  rw [hmark, hshelves.hasAbstractMethod_iff]
  constructor
  · rintro ⟨d, hd, habstract, hdestructor, hconstructor⟩
    obtain ⟨member, hmember, ctx, hdeclared⟩ := exists_of_mem_declaredIn hd
    obtain ⟨rfl, hfunction, hreadable, hname, hvirtual⟩ := declared?_faithful hdeclared
    rw [hname] at hdestructor hconstructor
    rw [d.isExposed_iff] at hconstructor
    exact ⟨d.element, hmember, ⟨hfunction, hvirtual.1 habstract⟩, hreadable, hdestructor, hconstructor⟩
  · rintro ⟨member, hmember, ⟨hfunction, hvirtual⟩, hreadable, hdestructor, hconstructor⟩
    obtain ⟨d, hd, rfl⟩ := exists_mem_declaredIn hfound hmember hfunction hreadable
    obtain ⟨_, -, ctx, hdeclared⟩ := exists_of_mem_declaredIn hd
    obtain ⟨rfl, -, -, hname, hmarked⟩ := declared?_faithful hdeclared
    refine ⟨d, hd, hmarked.2 hvirtual, ?_, ?_⟩
    · rwa [hname]
    · rwa [hname, d.isExposed_iff]

/-- A member that is declared as pure virtual. -/
def pureVirtualElement (member : Xml.Element) : Xml.Element :=
  { member with attrs := member.attrs ++ [("virt", "pure-virtual")] }

/-- A class with a pure virtual method that is protected. -/
def drawableDocument : Xml.Element :=
  shapeDocument [
    functionElement "public" "s1" "" "~Shape",
    pureVirtualElement (functionElement "protected" "s2" "void" "draw")]

theorem isAbstract_iff_of_addRoot_drawable : ∃ y c,
    (Extraction.start .empty).addRoot ⟨.empty, "/project"⟩ drawableDocument = .ok y ∧
      y.db.classes.get? "ns::Shape" = some c ∧ c.isAbstract = true := by
  obtain ⟨y, hread⟩ := exists_of_isOk
    (x := (Extraction.start .empty).addRoot ⟨.empty, "/project"⟩ drawableDocument) (by decide +kernel)
  obtain ⟨c, hc, habstract⟩ := isAbstract_iff_of_addRoot rfl (by decide +kernel) hread
  refine ⟨y, c, hread, hc, habstract.2 ⟨_, List.mem_cons_of_mem _ List.mem_cons_self, ?_, ?_, ?_⟩⟩
  · exact ⟨rfl, rfl⟩
  · exact ⟨by decide +kernel, by decide +kernel, .inl (by decide +kernel), by decide +kernel⟩
  · exact ⟨by decide +kernel, by decide +kernel⟩

/-- A class with a pure virtual destructor. -/
def destroyedDocument : Xml.Element :=
  shapeDocument [pureVirtualElement (functionElement "public" "s1" "" "~Shape")]

/-- The destructor does not make its class abstract. -/
theorem not_isAbstract_of_isPureVirtual : ¬ ∀ (s : Setting) (x y : Extraction)
    (root compound : Xml.Element) (c : Class), documentedClass? root = some compound →
      isSkippedClass x.db compound = false → x.addRoot s root = .ok y →
      y.db.classes.get? (compound.childText "compoundname") = some c →
      (∃ member ∈ members compound, IsPureVirtual member) → c.isAbstract = true := by
  intro hall
  obtain ⟨y, hread, hconcrete⟩ := exists_of_any_toOption
    (x := (Extraction.start .empty).addRoot ⟨.empty, "/project"⟩ destroyedDocument)
    (p := fun y => (y.db.classes.get? "ns::Shape").any fun c => !c.isAbstract) (by decide +kernel)
  obtain ⟨c, hc, hmark⟩ := (Option.any_eq_true _ _).1 hconcrete
  have habstract := hall _ _ y destroyedDocument _ c rfl (by decide +kernel) hread hc
    ⟨_, List.mem_cons_self, rfl, rfl⟩
  rw [habstract] at hmark
  cases hmark

end Compound

end ScriptBindings
