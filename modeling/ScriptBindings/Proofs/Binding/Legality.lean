import Mathlib
import ScriptBindings.Proofs.Binding.Adaptation
import ScriptBindings.Proofs.Binding.Planning

/-!
# Binding by address

The address of a callable is bound exactly if scripts can call it as it is declared: every argument has to be
given, no parameter has to be adapted, the result can be copied if it has to be, and the callable is not a
constructor, which has no address.  Otherwise there is a wrapper for each number of arguments that a call may
give, and it adapts those of its parameters that need it and no others.
-/

namespace ScriptBindings

/-- A callable is bound by its address, be it cast. -/
def Strategy.BindsAddress (s : Strategy) : Prop :=
  (∃ target, s = .direct target) ∨ ∃ c, s = .cast c

namespace Binding

open CppType

variable {db : Database} {f : Callable} {arity : Nat} {self : List (String × String)} {overloaded : Bool}

/-! ## What decides -/

/-- A callable that is bound itself: it is not left out, nothing replaces it, and its author gives no code for
it. -/
structure BoundItself (f : Callable) : Prop where
  notDeleted : f.deleted = false
  notExcluded : f.flags.noBind = false
  noProxy : f.flags.proxy = none
  noCode : f.flags.bindCode = none

instance (f : Callable) : Decidable (BoundItself f) :=
  decidable_of_iff (f.deleted = false ∧ f.flags.noBind = false ∧ f.flags.proxy = none ∧
      f.flags.bindCode = none)
    ⟨fun ⟨hdeleted, hexcluded, hproxy, hcode⟩ => ⟨hdeleted, hexcluded, hproxy, hcode⟩,
      fun h => ⟨h.notDeleted, h.notExcluded, h.noProxy, h.noCode⟩⟩

/-- A constructor has the name of its class, without template arguments. -/
def Constructs (f : Callable) : Prop :=
  ∃ c, f.owner = some c ∧ Name.withoutTemplateArgs c = f.name

/-- Scripts can call a callable through its address. -/
structure AddressLegal (db : Database) (f : Callable) : Prop where
  noDefault : ∀ p ∈ f.params, p.default = none
  notConstructor : ¬ Constructs f
  noAbstractReference : ∀ p ∈ f.params, ¬ AbstractReference db p.ty
  noRvalueReference : ∀ p ∈ f.params, ¬ p.ty.RvalueReference
  noPrimitiveReference : ∀ p ∈ f.params, ¬ PrimitiveReference p.ty
  noNonCopyableResult : ∀ t, f.result = some t → ¬ NonCopyableReference db t

/-! ## What a wrapper is -/

/-- The parameter that stands in front of the declared ones: the object, for a method that is called on
one. -/
inductive Receiver (f : Callable) : List (String × String) → Prop
  | object {c : String} (howner : f.owner = some c) (hstatic : f.quals.isStatic = false)
      (hconstructs : ¬ Constructs f) :
      Receiver f [((if f.quals.isConst then "const " else "") ++ Name.qualify f.scope none c ++ "*",
        "self")]
  | absent (h : f.owner = none ∨ f.quals.isStatic = true ∨ Constructs f) : Receiver f []

/-- What a wrapper calls: a method on its object, the class for a constructor, and any other callable by its
name. -/
inductive Calls (f : Callable) : String → Prop
  | method {c : String} (howner : f.owner = some c) (hstatic : f.quals.isStatic = false)
      (hconstructs : ¬ Constructs f) : Calls f ("self->" ++ f.name ++ argumentList f)
  | construction (h : Constructs f) : Calls f (returnText f)
  | function (h : f.owner = none ∨ f.quals.isStatic = true) (hconstructs : ¬ Constructs f) :
      Calls f (callee f)

/-- The type that a wrapper returns, and what it puts in front of the call: the address is taken of what
cannot be copied.  A constructor returns its class. -/
inductive Returns (db : Database) (f : Callable) : String → String → Prop
  | pointer {t : CppType} (hresult : f.result = some t) (h : NonCopyableReference db t) :
      Returns db f (t.withQuals ⟨["const"], ["*"]⟩).text "&"
  | declared {t : CppType} (hresult : f.result = some t) (h : ¬ NonCopyableReference db t) :
      Returns db f t.text ""
  | without (hresult : f.result = none) : Returns db f (f.classFqn.getD "void") ""

/-- A wrapper takes the first parameters of a callable, behind the object if there is one, and calls it with as
many arguments; each parameter is adapted by its kind. -/
structure Wraps (db : Database) (f : Callable) (arity : Nat) (w : CallWrapper) : Prop where
  arity_le : arity ≤ f.params.length
  takes : ∃ self passed, Receiver f self ∧ List.Forall₂ (Adapts db) (f.params.take arity) passed ∧
    w.parameters = self ++ passed.map (fun a => (a.ty, a.name)) ∧
      w.arguments = passed.map (·.argument)
  calls : Calls f w.call
  returns : Returns db f w.returnType w.callLead

/-- What a wrapper takes in front of the declared parameters. -/
def receiverParameters (f : Callable) : List (String × String) :=
  ((receiver? f).map (receiverParameter f)).toList

theorem isConstructor_iff : isConstructor f = true ↔ Constructs f := by
  rw [isConstructor, Option.any_eq_true]
  simp only [decide_eq_true_eq]
  rfl

instance (f : Callable) : Decidable (Constructs f) :=
  decidable_of_iff _ isConstructor_iff

theorem isMember_iff :
    isMember f = true ↔ ∃ c, f.owner = some c ∧ f.quals.isStatic = false ∧ ¬ Constructs f := by
  rw [isMember, Bool.and_eq_true, Bool.and_eq_true, Option.isSome_iff_exists, Bool.not_eq_true',
    Bool.not_eq_true', ← Bool.not_eq_true, ← Bool.not_eq_true, isConstructor_iff, and_assoc,
    exists_and_right]

theorem not_isMember_iff :
    ¬ isMember f = true ↔ f.owner = none ∨ f.quals.isStatic = true ∨ Constructs f := by
  rw [isMember, Bool.and_eq_true, Bool.and_eq_true, not_and_or, not_and_or, Bool.not_eq_true',
    Bool.not_eq_true', Bool.not_eq_false, Bool.not_eq_false, isConstructor_iff,
    Option.not_isSome_iff_eq_none, or_assoc]

theorem receiver_iff : Receiver f self ↔ self = receiverParameters f := by
  have hreceiver : Receiver f (receiverParameters f) := by
    unfold receiverParameters receiver?
    split
    · rename_i hmember
      obtain ⟨c, howner, hstatic, hconstructs⟩ := isMember_iff.1 hmember
      rw [Callable.classFqn, howner]
      exact .object howner hstatic hconstructs
    · rename_i hmember
      exact .absent (not_isMember_iff.1 hmember)
  refine ⟨fun h => ?_, fun h => h ▸ hreceiver⟩
  -- A method is called on an object or not, but not both.
  generalize receiverParameters f = other at hreceiver
  cases h with
  | object howner hstatic hconstructs =>
      cases hreceiver with
      | object howner' _ _ =>
          obtain rfl := Option.some.inj (howner.symm.trans howner')
          rfl
      | absent h => simp [howner, hstatic, hconstructs] at h
  | absent h =>
      cases hreceiver with
      | object howner hstatic hconstructs => simp [howner, hstatic, hconstructs] at h
      | absent _ => rfl

/-! ## Wrappers -/

theorem parameters_wrap (db : Database) (f : Callable) (arity : Nat) (reason : WrapperReason) :
    (wrap db f arity none reason).parameters = receiverParameters f ++
      (f.params.take arity).map fun p => ((adaptParameter db p).ty, (adaptParameter db p).name) := by
  simp only [wrap, List.map_map]
  rfl

theorem arguments_wrap (db : Database) (f : Callable) (arity : Nat) (reason : WrapperReason) :
    (wrap db f arity none reason).arguments =
      (f.params.take arity).map fun p => (adaptParameter db p).argument := by
  simp only [wrap, List.map_map]
  rfl

theorem calls_wrap (db : Database) (f : Callable) (arity : Nat) (reason : WrapperReason) :
    Calls f (wrap db f arity none reason).call := by
  simp only [wrap, calledText, receiver?]
  by_cases hmember : isMember f = true
  · obtain ⟨c, howner, hstatic, hconstructs⟩ := isMember_iff.1 hmember
    rw [if_pos hmember, Callable.classFqn, howner]
    exact .method howner hstatic hconstructs
  · rw [if_neg hmember]
    simp only [isConstructor_iff]
    split
    · rename_i hconstructs
      exact .construction hconstructs
    · rename_i hconstructs
      -- What is called on no object and does not construct one has no class or is static.
      rw [not_isMember_iff, ← or_assoc] at hmember
      exact .function (hmember.resolve_right hconstructs) hconstructs

theorem returns_wrap (db : Database) (f : Callable) (arity : Nat) (reason : WrapperReason) :
    Returns db f (wrap db f arity none reason).returnType (wrap db f arity none reason).callLead := by
  simp only [wrap]
  split
  · rename_i hpointer
    obtain ⟨t, hresult, h⟩ := returnsByPointer_iff.1 hpointer
    rw [hresult]
    exact .pointer hresult h
  · rename_i hpointer
    cases hresult : f.result with
    | none =>
        rw [returnText, hresult]
        exact .without hresult
    | some t =>
        rw [returnText, hresult]
        exact .declared hresult fun h => hpointer (returnsByPointer_iff.2 ⟨t, hresult, h⟩)

theorem wraps_wrap (db : Database) (reason : WrapperReason) (harity : arity ≤ f.params.length) :
    Wraps db f arity (wrap db f arity none reason) where
  arity_le := harity
  takes := by
    refine ⟨receiverParameters f, (f.params.take arity).map (adaptParameter db), receiver_iff.2 rfl,
      ?_, ?_, ?_⟩
    · rw [List.forall₂_map_right_iff, List.forall₂_same]
      exact fun p _ => adapts_adaptParameter db p
    · rw [parameters_wrap, List.map_map]
      rfl
    · rw [arguments_wrap, List.map_map]
      rfl
  calls := calls_wrap db f arity reason
  returns := returns_wrap db f arity reason

/-! ## The decision -/

theorem strategyOf_eq_boundStrategy (hself : BoundItself f) :
    strategyOf db f overloaded = boundStrategy db f overloaded := by
  simp [strategyOf, hself.notDeleted, hself.notExcluded, hself.noProxy, hself.noCode]

/-- With defaults there is one wrapper for each number of arguments. -/
theorem strategyOf_of_defaults (db : Database) (hself : BoundItself f)
    (hdefault : hasDefaults f = true) (overloaded : Bool) : strategyOf db f overloaded =
      .overload (((arities f).map fun n => wrap db f n none .defaultParameters).map .wrapper) := by
  rw [strategyOf_eq_boundStrategy hself, boundStrategy, if_pos hdefault, List.map_map]
  rfl

theorem hasDefaults_iff : hasDefaults f = true ↔ ∃ p ∈ f.params, p.default ≠ none := by
  simp only [hasDefaults, List.any_eq_true, Option.isSome_iff_ne_none]

/-- Nothing is in the way of a callable without reasons to wrap it. -/
theorem wrapperReason?_eq_none_iff : wrapperReason? db f = none ↔
    (∀ p ∈ f.params, ¬ NeedsAdapting db p.ty) ∧
      ∀ t, f.result = some t → ¬ NonCopyableReference db t := by
  rw [wrapperReason?, Option.or_eq_none_iff, List.findSome?_eq_none_iff]
  refine and_congr (forall₂_congr fun p _ => ?_) ?_
  · rw [← isSome_reason_iff, Option.not_isSome_iff_eq_none]
  · rw [ite_eq_right_iff, returnsByPointer_iff]
    simp

theorem addressLegal_iff : AddressLegal db f ↔
    hasDefaults f = false ∧ wrapperReason? db f = none ∧ isConstructor f = false := by
  rw [← Bool.not_eq_true, hasDefaults_iff, wrapperReason?_eq_none_iff, ← Bool.not_eq_true,
    isConstructor_iff]
  push Not
  constructor
  · intro h
    refine ⟨h.noDefault, ⟨fun p hp hneeds => ?_, h.noNonCopyableResult⟩, h.notConstructor⟩
    rcases hneeds with habstract | hmoved | hvalue
    · exact h.noAbstractReference p hp habstract
    · exact h.noRvalueReference p hp hmoved
    · exact h.noPrimitiveReference p hp hvalue
  · rintro ⟨hdefault, ⟨hparams, hresult⟩, hconstructs⟩
    exact ⟨hdefault, hconstructs, fun p hp h => hparams p hp (.inl h),
      fun p hp h => hparams p hp (.inr (.inl h)), fun p hp h => hparams p hp (.inr (.inr h)), hresult⟩

instance (db : Database) (f : Callable) : Decidable (AddressLegal db f) :=
  decidable_of_iff _ addressLegal_iff.symm

/-- Without defaults a callable is called with all of its arguments. -/
theorem arities_of_not_hasDefaults (h : hasDefaults f = false) : arities f = [f.params.length] := by
  have hmandatory : mandatory f = f.params.length := by
    rw [hasDefaults, List.any_eq_false] at h
    rw [mandatory, List.takeWhile_eq_self_iff.2 fun p hp => by simpa using h p hp]
  rw [arities, hmandatory, Nat.sub_self]
  rfl

theorem le_of_mem_arities (h : arity ∈ arities f) : arity ≤ f.params.length := by
  obtain ⟨n, hn, rfl⟩ := List.mem_map.1 h
  rw [List.mem_range] at hn
  have hmandatory : mandatory f ≤ f.params.length := (List.takeWhile_prefix _).length_le
  omega

/-- A callable is bound by its address, cast where it shares its name, if that is legal, and otherwise through
a wrapper for each number of arguments. -/
theorem strategyOf_cases (db : Database) (hself : BoundItself f) (overloaded : Bool) :
    (AddressLegal db f ∧ strategyOf db f overloaded =
        if overloaded || f.forceCast then .cast (castTo f) else .direct ("&" ++ callee f)) ∨
      (¬ AddressLegal db f ∧ ∃ reason, (strategyOf db f overloaded).leaves =
        (arities f).map fun n => .wrapper (wrap db f n none reason)) := by
  rw [addressLegal_iff]
  -- The rules in their order: defaults, what has to be wrapped, constructors, and what is left.
  by_cases hdefault : hasDefaults f = true
  · refine Or.inr ⟨by simp [hdefault], .defaultParameters, ?_⟩
    rw [strategyOf_of_defaults db hself hdefault, Strategy.leaves_overload_wrappers, List.map_map]
    rfl
  · rw [strategyOf_eq_boundStrategy hself, boundStrategy, if_neg hdefault]
    rw [Bool.not_eq_true] at hdefault
    rw [arities_of_not_hasDefaults hdefault]
    cases hreason : wrapperReason? db f with
    | some reason => exact Or.inr ⟨by simp, reason, rfl⟩
    | none =>
        by_cases hconstructor : isConstructor f = true
        · refine Or.inr ⟨by simp [hconstructor], .constructor, ?_⟩
          simp only [if_pos hconstructor]
          rfl
        · rw [Bool.not_eq_true] at hconstructor
          refine Or.inl ⟨⟨hdefault, rfl, hconstructor⟩, ?_⟩
          simp [hconstructor]

theorem length_mem_arities (f : Callable) : f.params.length ∈ arities f := by
  have hmandatory : mandatory f ≤ f.params.length := (List.takeWhile_prefix _).length_le
  exact List.mem_map.2 ⟨f.params.length - mandatory f, List.mem_range.2 (by omega), by omega⟩

theorem bindsAddress_strategyOf_iff (db : Database) (hself : BoundItself f) (overloaded : Bool) :
    (strategyOf db f overloaded).BindsAddress ↔ AddressLegal db f := by
  rcases strategyOf_cases db hself overloaded with ⟨hlegal, hstrategy⟩ | ⟨hlegal, reason, hleaves⟩
  · refine iff_of_true ?_ hlegal
    rw [hstrategy]
    split
    · exact Or.inr ⟨_, rfl⟩
    · exact Or.inl ⟨_, rfl⟩
  · refine iff_of_false (fun haddress => ?_) hlegal
    -- What binds an address is its own only variant, and no wrapper.
    have hwrapped : ∀ s ∈ (strategyOf db f overloaded).leaves, ∃ w, s = .wrapper w := by
      rw [hleaves]
      intro s hs
      obtain ⟨n, -, rfl⟩ := List.mem_map.1 hs
      exact ⟨_, rfl⟩
    rcases haddress with ⟨target, h⟩ | ⟨c, h⟩
    · rw [h] at hwrapped
      obtain ⟨w, hw⟩ := hwrapped (.direct target) (List.mem_singleton_self _)
      cases hw
    · rw [h] at hwrapped
      obtain ⟨w, hw⟩ := hwrapped (.cast c) (List.mem_singleton_self _)
      cases hw

/-- A callable that is bound itself is bound by its address exactly if that is legal, and then the address is
cast exactly if the callable shares its slot or must be cast.  Otherwise there is one wrapper for each number
of arguments, and each of them takes that many of the declared parameters. -/
theorem strategyOf_legality (db : Database) (hself : BoundItself f) (overloaded : Bool) :
    ((strategyOf db f overloaded).BindsAddress ↔ AddressLegal db f) ∧
      (AddressLegal db f →
        ((∃ c, strategyOf db f overloaded = .cast c) ↔ overloaded = true ∨ f.forceCast = true)) ∧
      (¬ AddressLegal db f →
        List.Forall₂ (fun arity s => ∃ w, s = .wrapper w ∧ Wraps db f arity w) (arities f)
          (strategyOf db f overloaded).leaves) := by
  refine ⟨bindsAddress_strategyOf_iff db hself overloaded, fun hlegal => ?_, fun hlegal => ?_⟩
  · rcases strategyOf_cases db hself overloaded with ⟨-, hstrategy⟩ | ⟨hnot, -⟩
    · rw [hstrategy, ← Bool.or_eq_true]
      split
      · rename_i hcast
        exact iff_of_true ⟨_, rfl⟩ hcast
      · rename_i hcast
        exact iff_of_false (fun ⟨_, h⟩ => by cases h) hcast
    · exact absurd hlegal hnot
  · rcases strategyOf_cases db hself overloaded with ⟨hnot, -⟩ | ⟨-, reason, hleaves⟩
    · exact absurd hnot hlegal
    · rw [hleaves, List.forall₂_map_right_iff, List.forall₂_same]
      exact fun n hn => ⟨_, rfl, wraps_wrap db reason (le_of_mem_arities hn)⟩

/-- A database with an abstract class. -/
def shapeOnly : Database where
  classes := .ofList [("ns::Shape", { name := "Shape", scope := "ns", isAbstract := true })]

/-- A method with a parameter of each kind, the last of which may be left out. -/
def drawMethod : Callable where
  name := "draw"
  scope := "ns"
  owner := some "Canvas"
  quals := { isConst := true }
  params := [
    { name := "shape", ty := .base "ns::Shape" ⟨["const"], ["&"]⟩ },
    { name := "label", ty := .base "std::string" ⟨[], ["&&"]⟩ },
    { name := "count", ty := .base "int" ⟨[], ["&"]⟩ },
    { name := "scale", ty := .base "float" ⟨["const"], ["&"]⟩, default := some "1.f" }]
  result := some (.named "void")

theorem strategyOf_legality_draw : BoundItself drawMethod ∧ ¬ AddressLegal shapeOnly drawMethod ∧
    arities drawMethod = [3, 4] ∧ ¬ (strategyOf shapeOnly drawMethod false).BindsAddress ∧
      List.Forall₂ (fun arity s => ∃ w, s = .wrapper w ∧ Wraps shapeOnly drawMethod arity w)
        (arities drawMethod) (strategyOf shapeOnly drawMethod false).leaves := by
  have hself : BoundItself drawMethod := by decide
  have hlegal : ¬ AddressLegal shapeOnly drawMethod := by decide +kernel
  obtain ⟨haddress, -, hwrapped⟩ := strategyOf_legality shapeOnly hself false
  exact ⟨hself, hlegal, by decide, fun h => hlegal (haddress.1 h), hwrapped hlegal⟩

end Binding

end ScriptBindings
