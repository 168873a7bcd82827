import Mathlib
import ScriptBindings.Resolve.Template
import ScriptBindings.Proofs.Binding.Legality
import ScriptBindings.Proofs.CppType.Legible
import ScriptBindings.Proofs.Resolve.Bases

/-!
# Classes that a decision finds

A class is stored under its qualified name, which for a specialisation is written with its arguments.  A decision
looks a type up by its outermost name, without arguments.  So it finds the class that is stored under the
written type exactly if that type is a bare name.  For any other type it finds another class or none, and the
class that is stored under the written type plays no part: references to an abstract specialisation are bound
as they are, and those to one that cannot be copied are returned.
-/

namespace ScriptBindings

namespace Qualifiers

variable {q : Qualifiers} {marks : List String} {mark : String} {core : List Char}

/-- The outermost mark is written last. -/
theorem getLast?_wrap (h : q.trailing = marks ++ [mark]) (hmark : mark ∈ CppType.trailingMarks) :
    (q.wrap core).getLast? = mark.toList.getLast? := by
  have hlast : ∀ m ∈ CppType.trailingMarks, (attached m).getLast? = m.toList.getLast? := by decide
  rw [wrap_eq, h, written_append, written_singleton, ← List.append_assoc, ← List.append_assoc,
    List.getLast?_append_of_ne_nil _ (attached_ne_nil hmark), hlast mark hmark]

/-- What is marked is written longer than its core. -/
theorem length_lt_wrap (h : q.trailing = marks ++ [mark]) (hmark : mark ∈ CppType.trailingMarks) :
    core.length < (q.wrap core).length := by
  have hattached := List.length_pos_of_ne_nil (attached_ne_nil hmark)
  rw [wrap_eq, h, written_append, written_singleton]
  simp only [List.length_append]
  omega

end Qualifiers

namespace CppType

variable {t u : CppType}

/-- A type that is a bare name, however it is qualified. -/
def IsName (t : CppType) : Prop :=
  ∃ n q, t = .base n q

/-! ## The text of a reference and the text of a pointer -/

theorem LvalueReference.getLast?_chars (h : t.LvalueReference) : t.chars.getLast? = some '&' := by
  rw [chars_eq]
  rcases h with h | h
  · obtain ⟨marks, hmarks⟩ := outermost_iff.1 h
    rw [Qualifiers.getLast?_wrap hmarks (by decide)]
    rfl
  · obtain ⟨marks, hmarks⟩ := outermost_iff.1 h
    rw [Qualifiers.getLast?_wrap hmarks (by decide)]
    rfl

theorem ConstReference.lvalueReference (h : t.ConstReference) : t.LvalueReference := by
  rcases h with ⟨h, -⟩ | h | h
  · exact Or.inl (by rw [Outermost, h]; rfl)
  · exact Or.inr (by rw [Outermost, h]; rfl)
  · exact Or.inl (by rw [Outermost, h]; rfl)

theorem PointerFor.getLast?_chars (h : t.PointerFor u) : u.chars.getLast? = some '*' := by
  rw [chars_eq]
  cases h with
  | plain h =>
      rw [quals_withQuals, Qualifiers.getLast?_wrap rfl (by decide)]
      rfl
  | constant h =>
      rw [quals_withQuals, Qualifiers.getLast?_wrap rfl (by decide)]
      rfl

/-- A pointer is written longer than what it points to. -/
theorem PointerFor.length_lt (h : t.PointerFor u) : t.unqualified.chars.length < u.chars.length := by
  rw [chars_unqualified, chars_eq u]
  cases h with
  | plain h =>
      rw [quals_withQuals, core_withQuals]
      exact Qualifiers.length_lt_wrap rfl (by decide)
  | constant h =>
      rw [quals_withQuals, core_withQuals]
      exact Qualifiers.length_lt_wrap rfl (by decide)

/-- A pointer to a constant is written around the unqualified type. -/
theorem text_constPointer (t : CppType) :
    (t.withQuals ⟨["const"], ["*"]⟩).text = "const " ++ t.unqualified.text ++ "*" := by
  rw [text, text, chars_unqualified, chars_eq, quals_withQuals, core_withQuals, ← String.toList_inj]
  simp [Qualifiers.wrap, Qualifiers.attached, isIdentChar]

/-! ## The outermost name and the text -/

theorem length_baseName_le (t : CppType) : t.baseName.toList.length ≤ t.chars.length := by
  rw [chars_eq]
  refine le_trans ?_ (length_le_wrap t.quals t.core)
  fun_induction baseName t with
  | case1 n q => exact le_rfl
  | case2 n q args =>
      simp only [core, List.length_append]
      omega
  | case3 r q args ih =>
      -- The name of the result is written in the result, which stands in front of the arguments.
      have hresult := length_le_wrap r.quals r.core
      rw [← chars_eq] at hresult
      simp only [core, List.length_append]
      omega

/-- What is no bare name is written with more than its outermost name. -/
theorem length_baseName_lt (h : ¬ t.IsName) :
    t.baseName.toList.length < t.unqualified.text.toList.length := by
  rw [text, String.toList_ofList, chars_unqualified]
  cases t with
  | base n q => exact absurd ⟨n, q, rfl⟩ h
  | template n q args =>
      simp only [core, baseName, List.length_append, List.length_cons]
      omega
  | function r q args =>
      have hresult := length_baseName_le r
      simp only [core, baseName, List.length_append, List.length_cons]
      omega

theorem IsName.text_unqualified (h : t.IsName) : t.unqualified.text = t.baseName := by
  obtain ⟨n, q, rfl⟩ := h
  rw [text, chars_unqualified]
  exact String.ofList_toList

/-- Looking a type up by its outermost name leads to the class that is stored under the unqualified type exactly
if the type is a bare name. -/
theorem findClass?_baseName_iff {db : Database} {key : String} {c : Class}
    (hc : db.classes.get? key = some c) (ht : t.unqualified.text = key) :
    db.findClass? t.baseName = some (key, c) ↔ t.IsName := by
  constructor
  · intro hfind
    by_contra hname
    have hlonger := length_baseName_lt hname
    rw [ht] at hlonger
    obtain ⟨-, hkey⟩ := Database.findClass?_eq_some hfind
    rcases hkey with hkey | hkey
    · rw [hkey] at hlonger
      exact absurd hlonger (lt_irrefl _)
    · have hprefix := (Name.withoutTemplateArgs_isPrefix_toList t.baseName).length_le
      rw [hkey] at hlonger
      omega
  · intro hname
    rw [hname.text_unqualified] at ht
    unfold Database.findClass?
    rw [ht, hc]

end CppType

namespace Binding

open CppType

variable {db : Database} {f : Callable} {p : Parameter} {t : CppType} {i : Nat}

/-! ## What becomes of a parameter -/

/-- A wrapper takes the parameter at a position, if it takes it, as a pointer. -/
def TakesByPointer (f : Callable) (i : Nat) (t : CppType) (w : CallWrapper) : Prop :=
  ∀ self, Receiver f self → ∀ ty name, w.parameters[self.length + i]? = some (ty, name) →
    ∃ u, t.PointerFor u ∧ ty = u.text

/-- Scripts pass a pointer for the parameter at a position, in whichever way they call. -/
structure PassedByPointer (f : Callable) (i : Nat) (t : CppType) (s : Strategy) : Prop where
  notAddress : ¬ s.BindsAddress
  pointer : ∀ w, .wrapper w ∈ s.leaves → TakesByPointer f i t w

/-- A reference is taken as a pointer exactly if the class found for it is abstract. -/
theorem pointerFor_adaptParameter_iff (hreference : p.ty.LvalueReference) :
    (∃ u, p.ty.PointerFor u ∧ (adaptParameter db p).ty = u.text) ↔ AbstractReference db p.ty := by
  generalize hadapted : adaptParameter db p = a
  cases adapts_iff.2 hadapted.symm with
  | pointer h hpointer => exact iff_of_true ⟨_, hpointer, rfl⟩ h
  | moved h => exact absurd (outermost_iff.2 ⟨_, h⟩) hreference.not_rvalueReference
  | value habstract h =>
      refine iff_of_false (fun ⟨u, hpointer, htext⟩ => ?_) habstract
      have hlonger := hpointer.length_lt
      rw [String.ofList_injective htext] at hlonger
      exact lt_irrefl _ hlonger
  | declared h =>
      refine iff_of_false (fun ⟨u, hpointer, htext⟩ => ?_) fun habstract => h (.inl habstract)
      have hlast := hreference.getLast?_chars
      rw [String.ofList_injective htext, hpointer.getLast?_chars] at hlast
      cases hlast

theorem getElem?_parameters_wrap (hp : f.params[i]? = some p) (n : Nat) (reason : WrapperReason) :
    (wrap db f n none reason).parameters[(receiverParameters f).length + i]? =
      if i < n then some ((adaptParameter db p).ty, (adaptParameter db p).name) else none := by
  rw [parameters_wrap, List.getElem?_append_right (Nat.le_add_right _ _), Nat.add_sub_cancel_left,
    List.getElem?_map, List.getElem?_take]
  split
  · rw [hp]
    rfl
  · rfl

/-- A reference is passed by pointer exactly if the class found for it is abstract. -/
theorem passedByPointer_iff (db : Database) (hself : BoundItself f) (hp : f.params[i]? = some p)
    (hreference : p.ty.LvalueReference) (overloaded : Bool) :
    PassedByPointer f i p.ty (strategyOf db f overloaded) ↔ AbstractReference db p.ty := by
  have hmem := List.mem_of_getElem? hp
  have haddress := bindsAddress_strategyOf_iff db hself overloaded
  rcases strategyOf_cases db hself overloaded with ⟨hlegal, -⟩ | ⟨hlegal, reason, hleaves⟩
  · exact iff_of_false (fun h => h.notAddress (haddress.2 hlegal)) (hlegal.noAbstractReference p hmem)
  · rw [← pointerFor_adaptParameter_iff hreference]
    constructor
    · intro h
      -- The wrapper for all arguments takes the parameter.
      have hall : .wrapper (wrap db f f.params.length none reason) ∈ (strategyOf db f overloaded).leaves := by
        rw [hleaves]
        exact List.mem_map_of_mem (length_mem_arities f)
      obtain ⟨hi, -⟩ := List.getElem?_eq_some_iff.1 hp
      exact h.pointer _ hall _ (receiver_iff.2 rfl) _ _
        ((getElem?_parameters_wrap hp _ _).trans (if_pos hi))
    · refine fun h => ⟨fun haddr => hlegal (haddress.1 haddr), fun w hw self hreceiver ty name htaken => ?_⟩
      rw [hleaves] at hw
      obtain ⟨n, -, hw⟩ := List.mem_map.1 hw
      obtain rfl := Strategy.wrapper.inj hw
      obtain rfl := receiver_iff.1 hreceiver
      rw [getElem?_parameters_wrap hp] at htaken
      split at htaken
      · obtain ⟨rfl, -⟩ := Prod.mk.inj (Option.some.inj htaken)
        exact h
      · cases htaken

/-! ## What becomes of the result -/

/-- The type that a variant returns: wrappers and casts say it, an address returns what is declared. -/
def returnedBy (f : Callable) : Strategy → String
  | .wrapper w => w.returnType
  | .cast c => c.returnType
  | _ => returnText f

/-- The text of a reference is not that of a pointer. -/
theorem text_ne_of_constReference (h : t.ConstReference) :
    t.text ≠ "const " ++ t.unqualified.text ++ "*" := by
  intro htext
  have hlast := h.lvalueReference.getLast?_chars
  have hmarks : (⟨["const"], ["*"]⟩ : Qualifiers).trailing = [] ++ ["*"] := rfl
  rw [← text_constPointer] at htext
  rw [String.ofList_injective htext, chars_eq, quals_withQuals,
    Qualifiers.getLast?_wrap hmarks (by decide)] at hlast
  cases hlast

theorem Returns.eq_constPointer_iff {returned lead : String} (h : Returns db f returned lead)
    (hresult : f.result = some t) (hreference : t.ConstReference) :
    returned = "const " ++ t.unqualified.text ++ "*" ↔ NonCopyableReference db t := by
  cases h with
  | pointer hresult' h =>
      obtain rfl := Option.some.inj (hresult.symm.trans hresult')
      exact iff_of_true (text_constPointer t) h
  | declared hresult' h =>
      obtain rfl := Option.some.inj (hresult.symm.trans hresult')
      exact iff_of_false (text_ne_of_constReference hreference) h
  | without hresult' => cases hresult.symm.trans hresult'

/-- A reference is returned as a pointer exactly if the class found for it cannot be copied. -/
theorem returnedBy_iff (db : Database) (hself : BoundItself f) (hresult : f.result = some t)
    (hreference : t.ConstReference) (overloaded : Bool) :
    (∀ s ∈ (strategyOf db f overloaded).leaves,
        returnedBy f s = "const " ++ t.unqualified.text ++ "*") ↔ NonCopyableReference db t := by
  rcases strategyOf_cases db hself overloaded with ⟨hlegal, hstrategy⟩ | ⟨-, reason, hleaves⟩
  · -- An address and a cast return what is declared.
    refine iff_of_false (fun h => ?_) (hlegal.noNonCopyableResult t hresult)
    have hdeclared : ∃ s ∈ (strategyOf db f overloaded).leaves, returnedBy f s = returnText f := by
      rw [hstrategy]
      split
      · exact ⟨_, List.mem_singleton_self _, rfl⟩
      · exact ⟨_, List.mem_singleton_self _, rfl⟩
    obtain ⟨s, hs, htext⟩ := hdeclared
    rw [h s hs, returnText, hresult] at htext
    exact text_ne_of_constReference hreference htext.symm
  · rw [hleaves]
    -- All wrappers return the same, and the one with all parameters is among them.
    constructor
    · intro h
      exact ((returns_wrap db f _ reason).eq_constPointer_iff hresult hreference).1
        (h _ (List.mem_map_of_mem (length_mem_arities f)))
    · intro h s hs
      obtain ⟨n, -, rfl⟩ := List.mem_map.1 hs
      exact ((returns_wrap db f n reason).eq_constPointer_iff hresult hreference).2 h

/-! ## Specialisations -/

/-- Of a class that is stored under a key, and of a callable that is bound itself, one of whose types is written
like the key: the class is found for the type exactly if the type is a bare name.  A parameter that is a
reference of that type is passed by pointer exactly if the class that is found for it is abstract, and a result
that is a reference to a constant of that type is returned as a pointer exactly if the class that is found for
it cannot be copied. -/
theorem strategyOf_follows_found {key : String} {c : Class} (hc : db.classes.get? key = some c)
    (hself : BoundItself f) (overloaded : Bool) :
    (∀ t : CppType, t.unqualified.text = key →
        (db.findClass? t.baseName = some (key, c) ↔ t.IsName)) ∧
      (∀ i p, f.params[i]? = some p → p.ty.LvalueReference → p.ty.unqualified.text = key →
        (PassedByPointer f i p.ty (strategyOf db f overloaded) ↔
          ∃ d, db.class? p.ty.baseName = some d ∧ d.isAbstract = true)) ∧
      ∀ t, f.result = some t → t.ConstReference → t.unqualified.text = key →
        ((∀ s ∈ (strategyOf db f overloaded).leaves, returnedBy f s = "const " ++ key ++ "*") ↔
          ∃ d, db.class? t.baseName = some d ∧ d.flags.nonCopyable = true) := by
  refine ⟨fun t ht => findClass?_baseName_iff hc ht, fun i p hp hreference _ => ?_,
    fun t hresult hreference ht => ?_⟩
  · rw [passedByPointer_iff db hself hp hreference]
    exact and_iff_right hreference
  · rw [← ht, returnedBy_iff db hself hresult hreference]
    exact and_iff_right hreference

/-- A class template whose objects can be neither made nor copied, replaced by its specialisation. -/
def specialisedPool : Database :=
  Resolve.specialiseClasses
    { classes := .ofList [
        ("ns::Pool", {
          name := "Pool", scope := "ns", isAbstract := true, isTemplate := true, templateParams := ["T"]
          flags := { nonCopyable := true, templateHints := [⟨"IntPool", [[("T", "int")]]⟩] } })] }

/-- A function that takes and returns a reference to the specialisation. -/
def shareFunction : Callable where
  name := "share"
  scope := "ns"
  params := [{ name := "pool", ty := .template "ns::Pool" ⟨[], ["&"]⟩ [.named "int"] }]
  result := some (.template "ns::Pool" ⟨["const"], ["&"]⟩ [.named "int"])

theorem get?_specialisedPool : ∃ c, specialisedPool.classes.get? "ns::Pool<int>" = some c ∧
    c.isAbstract = true ∧ c.flags.nonCopyable = true := by
  have hget : (specialisedPool.classes.get? "ns::Pool<int>").any
      (fun c => c.isAbstract && c.flags.nonCopyable) = true := by decide +kernel
  obtain ⟨c, hc, h⟩ := (Option.any_eq_true _ _).1 hget
  exact ⟨c, hc, Bool.and_eq_true_iff.1 h⟩

/-- A reference to a specialisation that is abstract is not passed by pointer. -/
theorem not_passedByPointer_specialised : ¬ ∀ (db : Database) (key : String) (c : Class) (f : Callable)
    (i : Nat) (p : Parameter) (overloaded : Bool),
    db.classes.get? key = some c → c.isAbstract = true → BoundItself f → f.params[i]? = some p →
      p.ty.LvalueReference → p.ty.unqualified.text = key →
        PassedByPointer f i p.ty (strategyOf db f overloaded) := by
  intro h
  obtain ⟨c, hc, habstract, -⟩ := get?_specialisedPool
  have hself : BoundItself shareFunction := by decide
  have hpointer := h specialisedPool "ns::Pool<int>" c shareFunction 0 _ false hc habstract hself rfl
    (by decide) (by decide)
  rw [passedByPointer_iff specialisedPool hself rfl (by decide)] at hpointer
  exact absurd hpointer (by decide +kernel)

theorem strategyOf_follows_found_pool : ∃ c, specialisedPool.classes.get? "ns::Pool<int>" = some c ∧
    BoundItself shareFunction ∧
      (∀ t : CppType, t.unqualified.text = "ns::Pool<int>" →
        (specialisedPool.findClass? t.baseName = some ("ns::Pool<int>", c) ↔ t.IsName)) ∧
      ¬ PassedByPointer shareFunction 0 (.template "ns::Pool" ⟨[], ["&"]⟩ [.named "int"])
        (strategyOf specialisedPool shareFunction false) ∧
      ¬ ∀ s ∈ (strategyOf specialisedPool shareFunction false).leaves,
        returnedBy shareFunction s = "const ns::Pool<int>*" := by
  obtain ⟨c, hc, -⟩ := get?_specialisedPool
  have hself : BoundItself shareFunction := by decide
  have hnone : specialisedPool.class? "ns::Pool" = none := by
    rw [← Option.isNone_iff_eq_none]
    decide +kernel
  have hfound : ∀ P : Class → Prop, ¬ ∃ d, specialisedPool.class? "ns::Pool" = some d ∧ P d := by
    rintro P ⟨d, hd, -⟩
    rw [hnone] at hd
    cases hd
  obtain ⟨hfind, hparameter, hresult⟩ := strategyOf_follows_found hc hself false
  refine ⟨c, hc, hself, hfind, fun h => ?_, fun h => ?_⟩
  · exact hfound _ ((hparameter 0 _ rfl (by decide) (by decide)).1 h)
  · exact hfound _ ((hresult _ rfl (by decide) (by decide)).1 h)

end Binding

end ScriptBindings
