import Mathlib
import ScriptBindings.Resolve.Template
import ScriptBindings.Proofs.CppType.Identifiers

/-!
# What specialised classes still say of parameters

A template parameter that is a name of its own gives way to the type that is bound to it, wherever it stands
in the types of a specialised class.  A parameter inside of a longer name does not, since the name as a whole
is not bound: a member of a type that depends on the parameter is such a name, and so is every base.  Where
no bound type mentions a parameter, these names, and the words and names of arguments around them, are all
that mentions it in the specialised class.
-/

namespace ScriptBindings

/-- The types of a callable: those of its parameters, and its result. -/
def Callable.types (f : Callable) : List CppType :=
  f.params.map (·.ty) ++ f.result.toList

/-- The types of all members that a class can be used by: constructors, methods of every visibility and
attributes. -/
def Class.memberTypes (c : Class) : List CppType :=
  (c.constructors ++ c.allMethods.flatMap Slot.callables).flatMap Callable.types ++
    c.attributes.values.map (·.ty)

namespace Resolve

open CppType

/-- The text has the word as one of its identifiers. -/
def Mentions (word text : String) : Prop :=
  word.toList ∈ identifiers text.toList

instance (word text : String) : Decidable (Mentions word text) :=
  inferInstanceAs (Decidable (_ ∈ _))

/-- A member type or a base of the class mentions the word. -/
def ClassMentions (word : String) (c : Class) : Prop :=
  (∃ ty ∈ c.memberTypes, Mentions word ty.text) ∨ ∃ base ∈ c.bases, Mentions word base

instance (word : String) (c : Class) : Decidable (ClassMentions word c) :=
  inferInstanceAs (Decidable (_ ∨ _))

/-- The type mentions the word in what a combination leaves as it is: in a word, a mark or the name of an
argument, or in a name that is not bound. -/
def Lingers (word : String) (b : Combination) (ty : CppType) : Prop :=
  (∃ text ∈ ty.decorations, Mentions word text) ∨
    ∃ name ∈ ty.names, Bindings.get? b name = none ∧ Mentions word name

instance (word : String) (b : Combination) (ty : CppType) : Decidable (Lingers word b ty) :=
  inferInstanceAs (Decidable (_ ∨ _))

variable {word : String} {b : Combination} {t : Class} {ty : CppType}

/-- Types that do not mention a word leave of it what lingers. -/
theorem mentions_substitute_iff (h : ∀ e ∈ b, ¬ Mentions word e.2) :
    Mentions word (ty.substitute b).text ↔ Lingers word b ty := by
  -- A name that is bound gives way to a type that does not mention the word.
  have hname (name : String) : Mentions word (replacement b name) ↔
      Bindings.get? b name = none ∧ Mentions word name := by
    unfold replacement
    cases hget : Bindings.get? b name with
    | none => simp
    | some concrete =>
        obtain ⟨e, he, rfl⟩ := Option.map_eq_some_iff.1 hget
        simpa using h e (List.mem_of_find?_eq_some he)
  rw [Mentions, text, String.toList_ofList, mem_identifiers_substitute, Lingers]
  simp only [identifiersOf, List.mem_flatMap, List.mem_map, exists_exists_and_eq_and]
  exact or_congr Iff.rfl (exists_congr fun name => and_congr_right fun _ => hname name)

/-! ## The types of a specialised class -/

/-- A constructor, with the class as its result if it has none. -/
def returning (fqn : String) (f : Callable) : Callable :=
  { f with result := some (f.result.getD (.named fqn)) }

theorem types_specialiseMethod (owner : String) (b : Combination) (f : Callable) :
    (specialiseMethod owner b f).types = f.types.map (·.substitute b) := by
  simp only [Callable.types, specialiseMethod, List.map_append, List.map_map, Option.toList_map]
  rfl

theorem types_specialiseConstructor (owner fqn : String) (b : Combination) (f : Callable) :
    (specialiseConstructor owner fqn b f).types = (returning fqn f).types.map (·.substitute b) :=
  types_specialiseMethod owner b (returning fqn f)

theorem callables_specialiseSlot (owner : String) (b : Combination) (s : Slot) :
    (specialiseSlot owner b s).callables = s.callables.map (specialiseMethod owner b) := by
  cases s <;> rfl

/-- A specialised class has the types of the template, and those of its constructors' results, with the
types of the combination in place of the parameters. -/
theorem memberTypes_specialiseClass (t : Class) (bindName : String) (shared : Bool) (b : Combination) :
    (specialiseClass t bindName shared b).memberTypes =
      ((t.constructors.map (returning (specialiseClass t bindName shared b).fqn) ++
          t.allMethods.flatMap Slot.callables).flatMap Callable.types ++
        t.attributes.values.map (·.ty)).map (·.substitute b) := by
  have hslots (slots : Slots) (owner : String) :
      (slots.map fun _ s => specialiseSlot owner b s).values = slots.values.map (specialiseSlot owner b) := by
    simp only [Dict.values, Dict.map, List.map_map]
    rfl
  have hmethods : (specialiseClass t bindName shared b).allMethods =
      t.allMethods.map (specialiseSlot (specialiseClass t bindName shared b).name b) := by
    rw [Class.allMethods, Class.allMethods, List.map_append, ← hslots, ← hslots]
    rfl
  have hattributes : (specialiseClass t bindName shared b).attributes.values.map (·.ty) =
      (t.attributes.values.map (·.ty)).map (·.substitute b) := by
    simp only [specialiseClass, Dict.values, Dict.map, List.map_map]
    rfl
  have hconstructors : (specialiseClass t bindName shared b).constructors =
      t.constructors.map (specialiseConstructor (specialiseClass t bindName shared b).name
        (specialiseClass t bindName shared b).fqn b) := rfl
  rw [Class.memberTypes, hmethods, hattributes, hconstructors]
  simp only [List.flatMap_append, List.map_append, List.flatMap_map, List.map_flatMap,
    types_specialiseConstructor, callables_specialiseSlot, types_specialiseMethod, List.flatMap_assoc]

theorem mem_types_returning_iff {fqn : String} {f : Callable} :
    ty ∈ (returning fqn f).types ↔ ty ∈ f.types ∨ f.result = none ∧ ty = .named fqn := by
  simp only [Callable.types, returning, List.mem_append, Option.mem_toList, or_assoc]
  refine or_congr_right ?_
  cases f.result with
  | none => simp [eq_comm]
  | some result => simp

/-- Up to the bound types, the types of a specialised class are those of the template, and the class itself
if a constructor of the template has no result. -/
theorem mem_memberTypes_specialiseClass_iff {bindName : String} {shared : Bool} {ty' : CppType} :
    ty' ∈ (specialiseClass t bindName shared b).memberTypes ↔ ∃ ty, ty.substitute b = ty' ∧
      (ty ∈ t.memberTypes ∨ (∃ f ∈ t.constructors, f.result = none) ∧
        ty = .named (specialiseClass t bindName shared b).fqn) := by
  rw [memberTypes_specialiseClass, List.mem_map]
  refine exists_congr fun ty => and_comm.trans (and_congr_right fun _ => ?_)
  simp only [Class.memberTypes, List.flatMap_append, List.flatMap_map, List.mem_append, List.mem_flatMap,
    mem_types_returning_iff, and_or_left, exists_or, ← and_assoc, exists_and_right]
  simp only [or_assoc, or_comm, or_left_comm]

/-- Where no type of a combination mentions a word, a specialised class mentions it if and only if a base of
the template does, if it lingers in a type of the template, or if the name of the class itself mentions it, is
not bound, and a constructor returns the class. -/
theorem classMentions_specialiseClass_iff (t : Class) (bindName : String) (shared : Bool) {b : Combination}
    {word : String} (h : ∀ e ∈ b, ¬ Mentions word e.2) :
    ClassMentions word (specialiseClass t bindName shared b) ↔
      (∃ base ∈ t.bases, Mentions word base) ∨ (∃ ty ∈ t.memberTypes, Lingers word b ty) ∨
        (∃ f ∈ t.constructors, f.result = none) ∧
          Bindings.get? b (specialiseClass t bindName shared b).fqn = none ∧
          Mentions word (specialiseClass t bindName shared b).fqn := by
  -- The result that constructors are given is no type of the template, but is substituted as one.
  have hclass (fqn : String) :
      Lingers word b (.named fqn) ↔ Bindings.get? b fqn = none ∧ Mentions word fqn := by
    simp [Lingers, CppType.named, decorations, names]
  have htypes : (∃ ty ∈ (specialiseClass t bindName shared b).memberTypes, Mentions word ty.text) ↔
      ∃ ty, Lingers word b ty ∧ (ty ∈ t.memberTypes ∨ (∃ f ∈ t.constructors, f.result = none) ∧
        ty = .named (specialiseClass t bindName shared b).fqn) := by
    simp only [mem_memberTypes_specialiseClass_iff, ← mentions_substitute_iff h]
    constructor
    · rintro ⟨_, ⟨ty, rfl, hty⟩, hmentions⟩
      exact ⟨ty, hmentions, hty⟩
    · rintro ⟨ty, hmentions, hty⟩
      exact ⟨_, ⟨ty, rfl, hty⟩, hmentions⟩
  have hbases : (specialiseClass t bindName shared b).bases = t.bases := rfl
  rw [ClassMentions, htypes, hbases, or_comm, ← hclass]
  refine or_congr_right ?_
  constructor
  · rintro ⟨ty, hlingers, hmem | ⟨hconstructor, rfl⟩⟩
    · exact .inl ⟨ty, hmem, hlingers⟩
    · exact .inr ⟨hconstructor, hlingers⟩
  · rintro (⟨ty, hmem, hlingers⟩ | ⟨hconstructor, hlingers⟩)
    · exact ⟨ty, hlingers, .inl hmem⟩
    · exact ⟨_, hlingers, .inr ⟨hconstructor, rfl⟩⟩

/-- A template whose members use its parameter by itself, in another type, and in a member of such a type. -/
def walkTemplate : Class where
  name := "Walk"
  scope := "ns"
  isTemplate := true
  templateParams := ["T"]
  constructors := [{
    name := "Walk", scope := "ns", owner := some "Walk"
    params := [⟨"first", .base "T" ⟨["const"], ["&"]⟩, none, ""⟩] }]
  methods := .ofList [("begin", .concrete {
    name := "begin", scope := "ns", owner := some "Walk"
    result := some (.named "std::vector<T>::iterator") })]
  attributes := .ofList [("seen", {
    name := "seen", scope := "ns", owner := "Walk", ty := .template "std::vector" {} [.named "T"] })]
  flags := { templateHints := [⟨"IntWalk", [[("T", "int")]]⟩] }

/-- Only the member of the dependent type is left of the parameter. -/
theorem classMentions_specialiseClass_iff_walk : (∀ e ∈ [("T", "int")], ¬ Mentions "T" e.2) ∧
    (ClassMentions "T" (specialiseClass walkTemplate "IntWalk" false [("T", "int")]) ↔
      Lingers "T" [("T", "int")] (.named "std::vector<T>::iterator")) := by
  have hfree : ∀ e ∈ [("T", "int")], ¬ Mentions "T" e.2 := by decide +kernel
  refine ⟨hfree, (classMentions_specialiseClass_iff walkTemplate "IntWalk" false hfree).trans ?_⟩
  decide +kernel

/-- A member of a dependent type still has the parameter in its name. -/
theorem not_forgets_parameters : ¬ ∀ (t : Class) (hint : TemplateHint) (b : Combination) (word : String),
    t.isTemplate = true → hint ∈ t.flags.templateHints → b ∈ hint.combinations → word ∈ b.map Prod.fst →
      (∀ e ∈ b, ∀ e' ∈ b, ¬ Mentions e.1 e'.2) →
        ¬ ClassMentions word (specialiseClass t hint.bindName (1 < hint.combinations.length) b) := by
  intro h
  refine h walkTemplate ⟨"IntWalk", [[("T", "int")]]⟩ [("T", "int")] "T" rfl ?_ ?_ ?_ ?_ ?_ <;> decide +kernel

end Resolve

end ScriptBindings
