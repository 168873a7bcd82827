import Mathlib
import ScriptBindings.Proofs.Binding.Legality

/-!
# Construction

The constructors of a class are bound in two ways: a class lists the signatures that it can be constructed
with, and a constructor can be bound on its own, through wrappers.  For a class whose objects scripts may make
the two agree: the signatures are what the wrappers of its constructors take, constructor by constructor.  A
class is constructed without any signature, by default, exactly if it declares no constructor at all.
-/

namespace ScriptBindings

namespace Strategy

/-- A wrapper, if the strategy is one. -/
def wrapper? : Strategy → Option CallWrapper
  | .wrapper w => some w
  | _ => none

/-- What the wrappers of a strategy take, by type. -/
def parameterTypes (s : Strategy) : List (List String) :=
  (s.leaves.filterMap wrapper?).map fun w => w.parameters.map (·.1)

theorem filterMap_wrapper? (ws : List CallWrapper) : (ws.map Strategy.wrapper).filterMap wrapper? = ws := by
  rw [List.filterMap_map]
  exact List.filterMap_some

end Strategy

namespace Binding

variable {db : Database} {c : Class} {f : Callable} {overloaded : Bool}

/-- Scripts may make and destroy objects of the class. -/
structure Creatable (c : Class) : Prop where
  notAbstract : c.isAbstract = false
  notExcluded : c.flags.noConstructor = false
  destructor : ∀ d, c.destructor = some d → d.deleted = false ∧ d.visibility = .pub

/-- A constructor of the class that is bound itself unless it is deleted. -/
structure ConstructorOf (c : Class) (f : Callable) : Prop where
  owner : f.owner = some c.name
  name : f.name = Name.withoutTemplateArgs c.name
  notExcluded : f.flags.noBind = false
  noProxy : f.flags.proxy = none
  noCode : f.flags.bindCode = none

/-- The constructor can be bound without adapting a parameter. -/
def IsOffered (db : Database) (f : Callable) : Prop :=
  f.deleted = false ∧ f.isTemplate = false ∧ ∀ p ∈ f.params, ¬ NeedsAdapting db p.ty

instance (db : Database) (f : Callable) : Decidable (IsOffered db f) :=
  inferInstanceAs (Decidable (_ ∧ _))

theorem requiresProxy_iff : requiresProxy db f = true ↔ ∃ p ∈ f.params, NeedsAdapting db p.ty := by
  simp only [requiresProxy, List.any_eq_true, isSome_reason_iff]

theorem isSkippedConstructor_eq (db : Database) (f : Callable) :
    isSkippedConstructor db f = !decide (IsOffered db f) := by
  rw [Bool.eq_iff_iff, Bool.not_eq_true', decide_eq_false_iff_not, isSkippedConstructor, Bool.or_eq_true,
    Bool.or_eq_true, requiresProxy_iff, IsOffered]
  simp only [not_and_or, Bool.not_eq_false, not_forall, not_not, or_assoc, exists_prop]

theorem creatable_iff :
    (c.isAbstract || c.flags.noConstructor || !isDestructible c) = false ↔ Creatable c := by
  have hdestructor : isDestructible c = true ↔
      ∀ d, c.destructor = some d → d.deleted = false ∧ d.visibility = .pub := by
    simp [isDestructible, Option.all_eq_true]
  rw [Bool.or_eq_false_iff, Bool.or_eq_false_iff, Bool.not_eq_false', hdestructor]
  exact ⟨fun ⟨⟨h, h'⟩, h''⟩ => ⟨h, h', h''⟩, fun ⟨h, h', h''⟩ => ⟨⟨h, h'⟩, h''⟩⟩

instance (c : Class) : Decidable (Creatable c) :=
  decidable_of_iff _ creatable_iff

/-- A class that is not creatable has no plan. -/
theorem planConstructors_of_not_creatable (db : Database) (h : ¬ Creatable c) :
    planConstructors db c = {} := by
  rw [planConstructors, if_pos (Bool.of_not_eq_false (mt creatable_iff.1 h))]

/-- The constructors whose signatures are planned. -/
def planned (db : Database) (c : Class) : List Callable :=
  c.constructors.filter fun f => IsOffered db f

theorem signatures_planConstructors (db : Database) (h : Creatable c) :
    (planConstructors db c).signatures = (planned db c).flatMap signaturesOf := by
  rw [planConstructors, creatable_iff.2 h, if_neg Bool.false_ne_true]
  simp only [isSkippedConstructor_eq, Bool.not_not]
  rfl

/-- A creatable class can be constructed if it hides no constructor, and no constructor is missing or there is
a signature. -/
theorem constructible_planConstructors_iff (db : Database) (h : Creatable c) :
    (planConstructors db c).constructible = true ↔
      (∀ slot ∈ c.hiddenMethods.values, slot.name ≠ Name.withoutTemplateArgs c.name) ∧
        ((c.rejectedConstructors = [] ∧ ∀ f ∈ c.constructors, IsOffered db f) ∨
          (planConstructors db c).signatures ≠ []) := by
  rw [signatures_planConstructors db h, planConstructors, creatable_iff.2 h, if_neg Bool.false_ne_true]
  simp [isSkippedConstructor_eq, hasHiddenConstructor, planned]

/-- A constructor can be called with some number of arguments. -/
theorem signaturesOf_ne_nil (f : Callable) : signaturesOf f ≠ [] :=
  fun h => arities_ne_nil f (List.map_eq_nil_iff.1 h)

/-! ## Signatures and wrappers -/

/-- What needs no adapting is taken as it is declared. -/
theorem ty_adaptParameter_of_not_needsAdapting {p : Parameter} (h : ¬ NeedsAdapting db p.ty) :
    (adaptParameter db p).ty = p.ty.text := by
  generalize hadapted : adaptParameter db p = a
  cases adapts_iff.2 hadapted.symm with
  | pointer habstract _ => exact absurd (.inl habstract) h
  | moved hmarks => exact absurd (.inr (.inl (CppType.outermost_iff.2 ⟨_, hmarks⟩))) h
  | value _ hvalue => exact absurd (.inr (.inr hvalue)) h
  | declared _ => rfl

/-- The wrapper of a constructor takes the declared types of the first parameters, and no object. -/
theorem parameterTypes_wrap (hconstructs : Constructs f) (hoffered : IsOffered db f) (arity : Nat)
    (reason : WrapperReason) : (wrap db f arity none reason).parameters.map (·.1) =
      (f.params.map fun p => p.ty.text).take arity := by
  have hobject : receiverParameters f = [] :=
    (receiver_iff.1 (.absent (.inr (.inr hconstructs)))).symm
  rw [parameters_wrap, hobject, List.nil_append, List.map_map, List.map_take]
  refine congrArg (List.take arity) (List.map_congr_left fun p hp => ?_)
  exact ty_adaptParameter_of_not_needsAdapting (hoffered.2.2 p hp)

/-- A constructor that is bound itself is bound through wrappers that take its signatures. -/
theorem strategyOf_of_constructs (hself : BoundItself f) (hconstructs : Constructs f)
    (hoffered : IsOffered db f) (overloaded : Bool) :
    (strategyOf db f overloaded).parameterTypes = signaturesOf f ∧
      ∀ s ∈ (strategyOf db f overloaded).leaves, ∃ w, s = .wrapper w := by
  rcases strategyOf_cases db hself overloaded with ⟨hlegal, -⟩ | ⟨-, reason, hleaves⟩
  · exact absurd hconstructs hlegal.notConstructor
  · have hwraps : (strategyOf db f overloaded).leaves =
        ((arities f).map fun n => wrap db f n none reason).map .wrapper := by
      rw [hleaves, List.map_map]
      rfl
    constructor
    · rw [Strategy.parameterTypes, hwraps, Strategy.filterMap_wrapper?, List.map_map, signaturesOf]
      exact List.map_congr_left fun n _ => parameterTypes_wrap hconstructs hoffered n reason
    · rw [hwraps]
      intro s hs
      obtain ⟨w, -, rfl⟩ := List.mem_map.1 hs
      exact ⟨w, rfl⟩

/-! ## Construction by default -/

/-- A class is constructed without a signature exactly if it has no constructors of any kind. -/
theorem constructible_without_signatures_iff (db : Database) (c : Class) :
    (planConstructors db c).constructible = true ∧ (planConstructors db c).signatures = [] ↔
      Creatable c ∧ c.constructors = [] ∧ c.rejectedConstructors = [] ∧
        ∀ slot ∈ c.hiddenMethods.values, slot.name ≠ Name.withoutTemplateArgs c.name := by
  by_cases hcreatable : Creatable c
  · rw [constructible_planConstructors_iff db hcreatable, signatures_planConstructors db hcreatable]
    constructor
    · rintro ⟨⟨hhidden, hall⟩, hnone⟩
      obtain ⟨hrejected, hoffered⟩ := hall.resolve_right (not_not_intro hnone)
      refine ⟨hcreatable, List.eq_nil_iff_forall_not_mem.2 fun f hf => ?_, hrejected, hhidden⟩
      -- Each constructor is offered, so it would have a signature.
      refine signaturesOf_ne_nil f (List.flatMap_eq_nil_iff.1 hnone f ?_)
      exact List.mem_filter.2 ⟨hf, decide_eq_true (hoffered f hf)⟩
    · rintro ⟨-, hconstructors, hrejected, hhidden⟩
      have hplanned : planned db c = [] := by rw [planned, hconstructors, List.filter_nil]
      rw [hplanned, hconstructors]
      exact ⟨⟨hhidden, Or.inl ⟨hrejected, List.forall_mem_nil _⟩⟩, rfl⟩
  · rw [planConstructors_of_not_creatable db hcreatable]
    simp [hcreatable]

/-- The two ways to bind constructors agree.  If the constructors of a creatable class are all bound
themselves, the signatures of the class are what their wrappers take: constructor by constructor in the order
of declaration, where the ones that are deleted, templates or in need of adapting are left out; and a
constructor is bound through wrappers alone.  Of any class: it is constructed without a signature exactly if it
is creatable and has no constructor, be it public, rejected or hidden. -/
theorem planConstructors_agrees (db : Database) (c : Class) :
    (Creatable c → (∀ f ∈ c.constructors, ConstructorOf c f) → ∀ overloaded,
      (planConstructors db c).signatures =
          (c.constructors.filter fun f => IsOffered db f).flatMap
            (fun f => (strategyOf db f overloaded).parameterTypes) ∧
        ∀ f ∈ c.constructors, IsOffered db f →
          ∀ s ∈ (strategyOf db f overloaded).leaves, ∃ w, s = .wrapper w) ∧
    ((planConstructors db c).constructible = true ∧ (planConstructors db c).signatures = [] ↔
      Creatable c ∧ c.constructors = [] ∧ c.rejectedConstructors = [] ∧
        ∀ slot ∈ c.hiddenMethods.values, slot.name ≠ Name.withoutTemplateArgs c.name) := by
  refine ⟨fun hcreatable hconstructors overloaded => ?_, constructible_without_signatures_iff db c⟩
  have hwraps : ∀ f ∈ c.constructors, IsOffered db f →
      (strategyOf db f overloaded).parameterTypes = signaturesOf f ∧
        ∀ s ∈ (strategyOf db f overloaded).leaves, ∃ w, s = .wrapper w := by
    intro f hf hoffered
    have hown := hconstructors f hf
    exact strategyOf_of_constructs ⟨hoffered.1, hown.notExcluded, hown.noProxy, hown.noCode⟩
      ⟨c.name, hown.owner, hown.name.symm⟩ hoffered overloaded
  refine ⟨?_, fun f hf hoffered => (hwraps f hf hoffered).2⟩
  rw [signatures_planConstructors db hcreatable, planned]
  refine List.flatMap_congr fun f hf => ?_
  obtain ⟨hf, hoffered⟩ := List.mem_filter.1 hf
  exact (hwraps f hf (of_decide_eq_true hoffered)).1.symm

/-- A class with a constructor of each kind: one with a default, one that is deleted, one that takes a
reference to a temporary, and one without parameters. -/
def bufferClass : Class where
  name := "Buffer<int>"
  scope := "ns"
  constructors :=
    [{ name := "Buffer", scope := "ns", owner := some "Buffer<int>"
       params := [{ name := "size", ty := .named "int" },
         { name := "fill", ty := .base "std::string" ⟨["const"], ["&"]⟩, default := some "{}" }] },
      { name := "Buffer", scope := "ns", owner := some "Buffer<int>", deleted := true },
      { name := "Buffer", scope := "ns", owner := some "Buffer<int>"
        params := [{ name := "other", ty := .base "ns::Buffer<int>" ⟨[], ["&&"]⟩ }] },
      { name := "Buffer", scope := "ns", owner := some "Buffer<int>" }]

theorem planConstructors_agrees_buffer : Creatable bufferClass ∧
    (∀ f ∈ bufferClass.constructors, ConstructorOf bufferClass f) ∧
      (planConstructors {} bufferClass).signatures = [["int"], ["int", "const std::string&"], []] ∧
      (bufferClass.constructors.filter fun f => IsOffered {} f).flatMap
        (fun f => (strategyOf {} f true).parameterTypes) =
          [["int"], ["int", "const std::string&"], []] := by
  have hcreatable : Creatable bufferClass := by decide
  have hconstructors : ∀ f ∈ bufferClass.constructors, ConstructorOf bufferClass f := by
    have hown : ∀ f ∈ bufferClass.constructors, f.owner = some bufferClass.name ∧
        f.name = Name.withoutTemplateArgs bufferClass.name ∧ f.flags.noBind = false ∧
          f.flags.proxy = none ∧ f.flags.bindCode = none := by decide
    intro f hf
    obtain ⟨howner, hname, hexcluded, hproxy, hcode⟩ := hown f hf
    exact ⟨howner, hname, hexcluded, hproxy, hcode⟩
  have hsignatures : (planConstructors {} bufferClass).signatures =
      [["int"], ["int", "const std::string&"], []] := by decide
  obtain ⟨hagree, -⟩ := (planConstructors_agrees {} bufferClass).1 hcreatable hconstructors true
  exact ⟨hcreatable, hconstructors, hsignatures, hagree.symm.trans hsignatures⟩

end Binding

end ScriptBindings
