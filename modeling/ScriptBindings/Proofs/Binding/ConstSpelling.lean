import Mathlib
import ScriptBindings.Proofs.Binding.Legality
import ScriptBindings.Proofs.CppType.ConstSpelling

/-!
# Spelling and decisions

How a reference to a constant is spelled decides nothing.  A callable whose parameters or result are spelled
differently is bound in the same way: through its address, or through wrappers that are made for the same
reason, take parameters of the same names, and make the same call.  What differs are texts of types, and of a
result that is returned through a pointer not even these.
-/

namespace ScriptBindings

/-- Two types that are the same, or references to one constant that are spelled differently. -/
inductive CppType.SpelledAlike : CppType → CppType → Prop
  | same (t : CppType) : SpelledAlike t t
  | spelled {text : String} {core t u : CppType} {sp sp' : ConstSpelling} (hcore : parse text = .ok core)
      (hbare : core.quals = {}) (ht : parse (sp.spell text) = .ok t) (hu : parse (sp'.spell text) = .ok u) :
      SpelledAlike t u

/-- Two parameters that differ at most in the spelling of their types. -/
def Parameter.SpelledAlike (p p' : Parameter) : Prop :=
  ∃ ty, p' = { p with ty } ∧ p.ty.SpelledAlike ty

/-- Two callables that differ at most in the spelling of what they take and return; a constructor has no result
of its own to spell. -/
structure Callable.SpelledAlike (f g : Callable) : Prop where
  only : ∃ params result, g = { f with params, result }
  params : List.Forall₂ Parameter.SpelledAlike f.params g.params
  result : Option.Rel CppType.SpelledAlike f.result g.result
  constructor : Binding.Constructs f → g.result = f.result

/-- Two wrappers that make the same call for the same reason, with parameters of the same names; they return the
same type if they return a pointer. -/
structure CallWrapper.Alike (w w' : CallWrapper) : Prop where
  reason : w.reason = w'.reason
  call : w.call = w'.call
  callLead : w.callLead = w'.callLead
  arguments : w.arguments = w'.arguments
  names : w.parameters.map (·.2) = w'.parameters.map (·.2)
  returnType : w.callLead = "&" → w.returnType = w'.returnType

/-- Two strategies of one kind, up to the texts of types. -/
inductive Strategy.Alike : Strategy → Strategy → Prop
  | deleted (reason : String) : Alike (.deleted reason) (.deleted reason)
  | direct (target : String) : Alike (.direct target) (.direct target)
  | verbatim (code : String) : Alike (.verbatim code) (.verbatim code)
  | cast {c c' : AddressCast} (howner : c.owner = c'.owner) (hqualifiers : c.qualifiers = c'.qualifiers)
      (htarget : c.target = c'.target) : Alike (.cast c) (.cast c')
  | wrapper {w w' : CallWrapper} (h : w.Alike w') : Alike (.wrapper w) (.wrapper w')
  | overload {ws ws' : List CallWrapper} (h : List.Forall₂ CallWrapper.Alike ws ws') :
      Alike (.overload (ws.map .wrapper)) (.overload (ws'.map .wrapper))

namespace CppType

variable {t u : CppType}

/-- What is read from different spellings are the words and marks of these, around one type. -/
theorem SpelledAlike.cases (h : t.SpelledAlike u) :
    t = u ∨ ∃ (core : CppType) (sp sp' : ConstSpelling), t = core.withQuals sp.quals ∧
      u = core.withQuals sp'.quals := by
  cases h with
  | same => exact .inl rfl
  | @spelled _ core _ _ sp sp' hcore hbare ht hu =>
      exact .inr ⟨core, sp, sp', parse_spell hcore hbare ht, parse_spell hcore hbare hu⟩

end CppType

/-- Every spelling is that of a reference to a constant. -/
theorem ConstSpelling.isConstRef_quals (sp : ConstSpelling) : sp.quals.isConstRef = true ∧
    sp.quals.isLvalueRef = true ∧ sp.quals.isRvalueRef = false ∧ sp.quals.isConst = true := by
  cases sp <;> decide

namespace Binding

open CppType (baseName_withQuals withQuals_withQuals quals_withQuals)

variable {db : Database} {t u : CppType} {p p' : Parameter} {f g : Callable}

theorem isAbstractType_withQuals (db : Database) (t : CppType) (q : Qualifiers) :
    isAbstractType db (t.withQuals q) = isAbstractType db t := by
  rw [isAbstractType, isAbstractType, baseName_withQuals]

theorem isNonCopyableType_withQuals (db : Database) (t : CppType) (q : Qualifiers) :
    isNonCopyableType db (t.withQuals q) = isNonCopyableType db t := by
  rw [isNonCopyableType, isNonCopyableType, baseName_withQuals]

/-! ## What a spelling leaves open -/

/-- What becomes of a parameter, apart from its type. -/
structure Passing where
  name : String
  argument : String
  reason : Option WrapperReason
  default : Option String

/-- How a parameter is passed on. -/
def passing (db : Database) (p : Parameter) : Passing :=
  let a := adaptParameter db p
  ⟨a.name, a.argument, a.reason, p.default⟩

/-- A reference to a constant is adapted if it refers to an abstract class, and then in one way. -/
theorem adapt_spelled (db : Database) (core : CppType) (sp : ConstSpelling) (name : String) :
    (adapt db (core.withQuals sp.quals) name).name = name ∧
      (adapt db (core.withQuals sp.quals) name).argument =
        (if isAbstractType db core then "*" ++ name else name) ∧
      (adapt db (core.withQuals sp.quals) name).reason =
        (if isAbstractType db core then some .abstractReference else none) := by
  obtain ⟨-, hlvalue, hrvalue, hconst⟩ := sp.isConstRef_quals
  unfold adapt
  simp only [quals_withQuals, isAbstractType_withQuals, hlvalue, hrvalue, hconst]
  cases isAbstractType db core <;> simp

theorem passing_eq (db : Database) (h : p.SpelledAlike p') : passing db p = passing db p' := by
  obtain ⟨ty, rfl, htypes⟩ := h
  rcases htypes.cases with rfl | ⟨core, sp, sp', hty, rfl⟩
  · rfl
  · obtain ⟨hname, hargument, hreason⟩ := adapt_spelled db core sp p.name
    obtain ⟨hname', hargument', hreason'⟩ := adapt_spelled db core sp' p.name
    simp only [passing, adaptParameter, hty, hname, hargument, hreason, hname', hargument', hreason']

theorem map_passing_eq (db : Database) (h : f.SpelledAlike g) :
    f.params.map (passing db) = g.params.map (passing db) := by
  have hpassing := h.params
  generalize f.params = ps at hpassing
  generalize g.params = ps' at hpassing
  induction hpassing with
  | nil => rfl
  | cons hp _ ih => rw [List.map_cons, List.map_cons, passing_eq db hp, ih]

/-- Whether a pointer is returned, and which one, does not depend on the spelling. -/
theorem result_eq (db : Database) (h : f.SpelledAlike g) :
    f.result.map constPointerText = g.result.map constPointerText ∧
      returnsByPointer db f = returnsByPointer db g := by
  have hresult := h.result
  unfold returnsByPointer
  generalize f.result = r at hresult ⊢
  generalize g.result = r' at hresult ⊢
  cases hresult with
  | none => exact ⟨rfl, rfl⟩
  | some htypes =>
      rcases htypes.cases with rfl | ⟨core, sp, sp', rfl, rfl⟩
      · exact ⟨rfl, rfl⟩
      · simp only [Option.map_some, Option.any_some, constPointerText, withQuals_withQuals, quals_withQuals,
          isNonCopyableType_withQuals, sp.isConstRef_quals.1, sp'.isConstRef_quals.1, and_self]

/-! ## Decisions by what is passed on -/

theorem requiresProxy_eq_passing (db : Database) (f : Callable) :
    requiresProxy db f = (f.params.map (passing db)).any (·.reason.isSome) := by
  rw [List.any_map]
  rfl

theorem hasDefaults_eq_passing (db : Database) (f : Callable) :
    hasDefaults f = (f.params.map (passing db)).any (·.default.isSome) := by
  rw [List.any_map]
  rfl

theorem arities_eq_passing (db : Database) (f : Callable) :
    arities f = (List.range ((f.params.map (passing db)).length -
        ((f.params.map (passing db)).takeWhile (·.default.isNone)).length + 1)).map
      (((f.params.map (passing db)).takeWhile (·.default.isNone)).length + ·) := by
  rw [List.takeWhile_map, List.length_map, List.length_map]
  rfl

theorem wrapperReason?_eq_passing (db : Database) (f : Callable) :
    wrapperReason? db f = ((f.params.map (passing db)).findSome? (·.reason)).or
      (if returnsByPointer db f then some .nonCopyableReturn else none) := by
  rw [List.findSome?_map]
  rfl

theorem arguments_wrap_eq_passing (db : Database) (f : Callable) (arity : Nat) (replacement : Option String)
    (reason : WrapperReason) : (wrap db f arity replacement reason).arguments =
      (if replacement.isSome && (receiver? f).isSome then ["self"] else []) ++
        ((f.params.map (passing db)).take arity).map (·.argument) := by
  rw [← List.map_take, List.map_map]
  simp only [wrap, List.map_map]
  rfl

theorem names_wrap_eq_passing (db : Database) (f : Callable) (arity : Nat) (replacement : Option String)
    (reason : WrapperReason) : (wrap db f arity replacement reason).parameters.map (·.2) =
      (receiverParameters f).map (·.2) ++
        ((f.params.map (passing db)).take arity).map (·.name) := by
  rw [← List.map_take, List.map_map, wrap, List.map_append, List.map_map, List.map_map]
  rfl

/-! ## Callables that are spelled alike -/

section Alike

variable (h : f.SpelledAlike g)

include h

theorem receiver_eq : receiver? f = receiver? g ∧ receiverParameters f = receiverParameters g := by
  obtain ⟨params, result, rfl⟩ := h.only
  exact ⟨rfl, rfl⟩

theorem calledText_eq (replacement : Option String) :
    calledText f replacement = calledText g replacement := by
  -- Only a constructor is called by the text of what it returns, and its result is spelled alike.
  have hconstructed : isConstructor f = true → returnText f = returnText g := by
    intro hconstructor
    have hresult := h.constructor (isConstructor_iff.1 hconstructor)
    obtain ⟨params, result, rfl⟩ := h.only
    rw [returnText, returnText, hresult]
    rfl
  have hreceiver := (receiver_eq h).1
  obtain ⟨params, result, rfl⟩ := h.only
  unfold calledText
  rw [← hreceiver]
  split
  · rfl
  · rfl
  · show (if isConstructor f then _ else callee f) = if isConstructor f then _ else callee f
    split
    · rename_i hconstructor
      exact hconstructed hconstructor
    · rfl

theorem wrap_alike (db : Database) (arity : Nat) (replacement : Option String) (reason : WrapperReason) :
    (wrap db f arity replacement reason).Alike (wrap db g arity replacement reason) := by
  obtain ⟨hreceiver, hself⟩ := receiver_eq h
  obtain ⟨hpointer, hby⟩ := result_eq db h
  refine ⟨rfl, calledText_eq h replacement, ?_, ?_, ?_, fun hlead => ?_⟩
  · rw [wrap, wrap, hby]
  · rw [arguments_wrap_eq_passing, arguments_wrap_eq_passing, map_passing_eq db h, hreceiver]
  · rw [names_wrap_eq_passing, names_wrap_eq_passing, map_passing_eq db h, hself]
  · have hreturns : returnsByPointer db f = true := by
      by_contra hnot
      have hempty : (if returnsByPointer db f then "&" else "") = "&" := hlead
      rw [if_neg hnot] at hempty
      exact absurd hempty (by decide)
    show (if returnsByPointer db f then _ else _) = if returnsByPointer db g then _ else _
    rw [if_pos hreturns, if_pos (hby ▸ hreturns), hpointer]

theorem wrapAll_alike (db : Database) (replacement : Option String) (reason : WrapperReason) :
    (wrapAll db f replacement reason).Alike (wrapAll db g replacement reason) := by
  rw [wrapAll, wrapAll, ← h.params.length_eq]
  exact .wrapper (wrap_alike h db f.params.length replacement reason)

theorem boundStrategy_alike (db : Database) (overloaded : Bool) :
    (boundStrategy db f overloaded).Alike (boundStrategy db g overloaded) := by
  have hpassing := map_passing_eq db h
  have hdefaults : hasDefaults f = hasDefaults g := by
    rw [hasDefaults_eq_passing db, hasDefaults_eq_passing db, hpassing]
  have harities : arities f = arities g := by
    rw [arities_eq_passing db, arities_eq_passing db, hpassing]
  have hreason : wrapperReason? db f = wrapperReason? db g := by
    rw [wrapperReason?_eq_passing, wrapperReason?_eq_passing, hpassing, (result_eq db h).2]
  -- The rest that the strategy depends on are fields in which the callables do not differ.
  have hown : isConstructor f = isConstructor g ∧ f.forceCast = g.forceCast ∧ callee f = callee g ∧
      (castTo f).owner = (castTo g).owner ∧ (castTo f).qualifiers = (castTo g).qualifiers := by
    obtain ⟨params, result, rfl⟩ := h.only
    exact ⟨rfl, rfl, rfl, rfl, rfl⟩
  obtain ⟨hconstructor, hforce, hcallee, howner, hqualifiers⟩ := hown
  unfold boundStrategy
  rw [← hdefaults, ← harities, ← hreason, ← hconstructor, ← hforce, ← hcallee]
  split
  · have hwraps : ∀ k, ((arities f).map fun n => Strategy.wrapper (wrap db k n none .defaultParameters)) =
        ((arities f).map fun n => wrap db k n none .defaultParameters).map .wrapper := by
      intro k
      rw [List.map_map]
      rfl
    rw [hwraps f, hwraps g]
    refine .overload ?_
    rw [List.forall₂_map_left_iff, List.forall₂_map_right_iff, List.forall₂_same]
    exact fun n _ => wrap_alike h db n none .defaultParameters
  · split
    · exact wrapAll_alike h db none _
    · split
      · exact wrapAll_alike h db none .constructor
      · split
        · exact .cast howner hqualifiers (congrArg ("&" ++ ·) hcallee)
        · exact .direct _

/-- The spelling of references to constants decides nothing: callables that differ only in it are bound in the
same way, with the same flag for overloads, in every database. -/
theorem strategyOf_spelledAlike (db : Database) (overloaded : Bool) :
    (strategyOf db f overloaded).Alike (strategyOf db g overloaded) := by
  have hproxy : requiresProxy db f = requiresProxy db g := by
    rw [requiresProxy_eq_passing, requiresProxy_eq_passing, map_passing_eq db h]
  have hown : f.deleted = g.deleted ∧ f.flags = g.flags := by
    obtain ⟨params, result, rfl⟩ := h.only
    exact ⟨rfl, rfl⟩
  unfold strategyOf
  rw [← hown.1, ← hown.2, ← hproxy]
  split
  · exact .deleted "deleted"
  split
  · exact .deleted "nobind"
  split
  · split
    · exact wrapAll_alike h db _ .proxy
    · exact .direct _
  · exact .verbatim _
  · exact boundStrategy_alike h db overloaded

end Alike

/-- A class that is abstract and one whose objects cannot be copied. -/
def shapesAndPools : Database where
  classes := (Dict.empty.insert "ns::Shape" { name := "Shape", scope := "ns", isAbstract := true }).insert
    "ns::Pool" { name := "Pool", scope := "ns", flags := { nonCopyable := true } }

/-- A function that takes numbers, a function and a shape, and returns a pool, with some qualifiers for each of
these references. -/
def pickFunction (numbers function shape pool : Qualifiers) : Callable where
  name := "pick"
  scope := "ns"
  params :=
    [{ name := "numbers", ty := .template "std::vector" numbers [.named "int"] },
      { name := "function", ty := .function (.named "int") function [⟨.named "int", {}, "p0", true⟩] },
      { name := "shape", ty := .base "ns::Shape" shape }]
  result := some (.base "ns::Pool" pool)

theorem strategyOf_spelledAlike_pick :
    (pickFunction ⟨["const"], ["&"]⟩ ⟨["const"], ["&"]⟩ ⟨[], ["const&"]⟩ ⟨["const"], ["&"]⟩).SpelledAlike
        (pickFunction ⟨[], ["const&"]⟩ ⟨[], ["const", "&"]⟩ ⟨[], ["const", "&"]⟩ ⟨[], ["const&"]⟩) ∧
      ∃ w w', strategyOf shapesAndPools (pickFunction ⟨["const"], ["&"]⟩ ⟨["const"], ["&"]⟩
          ⟨[], ["const&"]⟩ ⟨["const"], ["&"]⟩) true = .wrapper w ∧
        strategyOf shapesAndPools (pickFunction ⟨[], ["const&"]⟩ ⟨[], ["const", "&"]⟩
          ⟨[], ["const", "&"]⟩ ⟨[], ["const&"]⟩) true = .wrapper w' ∧
        w.reason = .abstractReference ∧ w.returnType = "const ns::Pool*" ∧ w.Alike w' ∧ w ≠ w' := by
  have halike : (pickFunction ⟨["const"], ["&"]⟩ ⟨["const"], ["&"]⟩ ⟨[], ["const&"]⟩
      ⟨["const"], ["&"]⟩).SpelledAlike (pickFunction ⟨[], ["const&"]⟩ ⟨[], ["const", "&"]⟩
        ⟨[], ["const", "&"]⟩ ⟨[], ["const&"]⟩) := by
    refine ⟨⟨_, _, rfl⟩, ?_, .some ?_, fun h => absurd h (by decide)⟩
    · refine .cons ⟨_, rfl, ?_⟩ (.cons ⟨_, rfl, ?_⟩ (.cons ⟨_, rfl, ?_⟩ .nil))
      · exact @CppType.SpelledAlike.spelled "std::vector<int>" _ _ _ .leading .attached rfl rfl rfl rfl
      · exact @CppType.SpelledAlike.spelled "int(int)" _ _ _ .leading .apart rfl rfl rfl rfl
      · exact @CppType.SpelledAlike.spelled "ns::Shape" _ _ _ .attached .apart rfl rfl rfl rfl
    · exact @CppType.SpelledAlike.spelled "ns::Pool" _ _ _ .leading .attached rfl rfl rfl rfl
  refine ⟨halike, _, _, rfl, rfl, by decide, by decide, ?_, by decide⟩
  cases strategyOf_spelledAlike halike shapesAndPools true with
  | wrapper h => exact h

end Binding

end ScriptBindings
