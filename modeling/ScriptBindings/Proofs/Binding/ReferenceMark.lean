import Mathlib
import ScriptBindings.Proofs.Binding.Adaptation
import ScriptBindings.Proofs.CppType.Legible

/-!
# What adapting does to a written type

A reference mark is written last, so a wrapper can take what the reference refers to, or a pointer to it, by
changing the end of the written type and nothing else.  A pointer and a value that is moved are made in this
way.  A reference to a variable of a built-in type is taken as the bare name: that is the type it refers to
exactly if nothing but the reference is written around the name.  Pointers to built-in types and `volatile` are
lost.
-/

namespace ScriptBindings

namespace CppType

variable {t u : CppType} {marks : List String} {mark : String}

/-- The outermost mark is written behind everything else. -/
theorem chars_withQuals_concat (t : CppType) (words marks : List String) (mark : String) :
    (t.withQuals ⟨words, marks ++ [mark]⟩).chars =
      (t.withQuals ⟨words, marks⟩).chars ++ Qualifiers.attached mark := by
  simp only [chars_eq, quals_withQuals, core_withQuals, Qualifiers.wrap_eq, Qualifiers.written_append,
    Qualifiers.written_singleton, List.append_assoc]

/-- A type is written as the type without its outermost mark, and the mark. -/
theorem chars_of_trailing (h : t.quals.trailing = marks ++ [mark]) :
    t.chars = (t.withQuals ⟨t.quals.leading, marks⟩).chars ++ Qualifiers.attached mark := by
  rw [← chars_withQuals_concat, ← h]
  exact congrArg chars (withQuals_quals t).symm

/-- A reference is written with `&` at its end. -/
theorem LvalueReference.exists_chars (h : t.LvalueReference) : ∃ front, t.chars = front ++ ['&'] := by
  rcases h with h | h
  · obtain ⟨marks, hmarks⟩ := outermost_iff.1 h
    exact ⟨_, chars_of_trailing hmarks⟩
  · obtain ⟨marks, hmarks⟩ := outermost_iff.1 h
    refine ⟨(t.withQuals ⟨t.quals.leading, marks⟩).chars ++ " const".toList, ?_⟩
    rw [chars_of_trailing hmarks, List.append_assoc]
    rfl

/-- A pointer is written like the reference that it is passed for, with `*` in place of the last `&`. -/
theorem PointerFor.exists_chars (h : t.PointerFor u) :
    ∃ front, t.chars = front ++ ['&'] ∧ u.chars = front ++ ['*'] := by
  cases h with
  | @plain marks hmarks =>
      exact ⟨_, chars_of_trailing hmarks, chars_withQuals_concat t t.quals.leading marks "*"⟩
  | @constant marks hmarks =>
      refine ⟨(t.withQuals ⟨t.quals.leading, marks⟩).chars ++ " const".toList, ?_, ?_⟩
      · rw [chars_of_trailing hmarks, List.append_assoc]
        rfl
      · rw [chars_withQuals_concat, List.append_assoc]
        rfl

/-- Behind the name of a reference there is at least its mark. -/
theorem LvalueReference.exists_written (h : t.LvalueReference) :
    ∃ back, Qualifiers.written t.quals.trailing = back ++ ['&'] := by
  rcases h with h | h
  · obtain ⟨marks, hmarks⟩ := outermost_iff.1 h
    exact ⟨Qualifiers.written marks, by rw [hmarks, Qualifiers.written_append]; rfl⟩
  · obtain ⟨marks, hmarks⟩ := outermost_iff.1 h
    refine ⟨Qualifiers.written marks ++ " const".toList, ?_⟩
    rw [hmarks, Qualifiers.written_append, List.append_assoc]
    rfl

/-- A reference is written as its name and `&` exactly if nothing else is written around the name. -/
theorem LvalueReference.chars_eq_core_concat_iff (h : t.LvalueReference) :
    t.chars = t.core ++ ['&'] ↔ t.quals.wrap [] = ['&'] := by
  obtain ⟨back, hback⟩ := h.exists_written
  -- The mark is there in any case, so by length there is no room for anything else.
  have hroom : ∀ core : List Char, t.quals.wrap core = core ++ ['&'] ↔
      Qualifiers.writtenWords t.quals.leading = [] ∧ back = [] := by
    intro core
    rw [Qualifiers.wrap_eq, hback]
    constructor
    · intro htext
      have hlength := congrArg List.length htext
      simp only [List.length_append, List.length_singleton] at hlength
      exact ⟨List.length_eq_zero_iff.1 (by omega), List.length_eq_zero_iff.1 (by omega)⟩
    · rintro ⟨hwords, rfl⟩
      rw [hwords]
      rfl
  rw [chars_eq, hroom, ← hroom []]
  rfl

end CppType

namespace Binding

open CppType

variable {db : Database} {t : CppType} {name : String}

/-- The text that a wrapper takes for a type differs from the printed type in the reference at its end and in
nothing else: a pointer stands in place of the reference, or the reference is gone. -/
def OnlyReferenceChanged (t : CppType) : Option WrapperReason → String → Prop
  | none, taken => taken = t.text
  | some .abstractReference, taken => ∃ front, t.text = front ++ "&" ∧ taken = front ++ "*"
  | some .rvalueReference, taken => t.text = taken ++ "&&"
  | some .primitiveReference, taken => t.text = taken ++ "&"
  | some _, _ => False

/-- Only a reference to a built-in type can lose more than its mark, and it is taken as a bare name. -/
theorem Adapts.onlyReferenceChanged_iff {p : Parameter} {a : Adapted} (h : Adapts db p a) :
    (OnlyReferenceChanged p.ty a.reason a.ty ↔
      (a.reason = some .primitiveReference → p.ty.quals.format "" = "&")) ∧
    (a.reason = some .primitiveReference →
      a.ty = p.ty.unqualified.text ∧ ∃ front, p.ty.text = front ++ "&") := by
  -- Texts with a known end, by their characters.
  have hchars : ∀ front back : List Char, String.ofList (front ++ back) =
      String.ofList front ++ String.ofList back := fun _ _ => String.ofList_append
  cases h with
  | pointer h hpointer =>
      obtain ⟨front, hreference, hpointed⟩ := hpointer.exists_chars
      have hother : some WrapperReason.abstractReference ≠ some .primitiveReference := by decide
      refine ⟨iff_of_true ⟨String.ofList front, ?_, ?_⟩ fun h => absurd h hother, fun h => absurd h hother⟩
      · rw [text, hreference, hchars]
      · rw [text, hpointed, hchars]
  | moved hmarks =>
      have hother : some WrapperReason.rvalueReference ≠ some .primitiveReference := by decide
      refine ⟨iff_of_true ?_ fun h => absurd h hother, fun h => absurd h hother⟩
      show p.ty.text = _ ++ "&&"
      rw [text, chars_of_trailing hmarks, hchars]
      rfl
  | value habstract h =>
      obtain ⟨front, hfront⟩ := h.1.exists_chars
      refine ⟨?_, fun _ => ⟨rfl, String.ofList front, by rw [text, hfront, hchars]⟩⟩
      show p.ty.text = p.ty.unqualified.text ++ String.ofList ['&'] ↔
        (some WrapperReason.primitiveReference = some .primitiveReference → _)
      rw [text, text, ← hchars, String.ofList_inj, chars_unqualified, h.1.chars_eq_core_concat_iff,
        Qualifiers.format, ← String.toList_inj, String.toList_ofList]
      simp
  | declared h =>
      have hother : none ≠ some WrapperReason.primitiveReference := by decide
      exact ⟨iff_of_true rfl fun h => absurd h hother, fun h => absurd h hother⟩

/-- Adapting changes the reference at the end of the printed type and nothing else, except that a reference to
a built-in type is taken as the bare name of the type; this comes to the same exactly if nothing but the
reference is written around the name. -/
theorem adapt_onlyReferenceChanged_iff (db : Database) (t : CppType) (name : String) :
    (OnlyReferenceChanged t (adapt db t name).reason (adapt db t name).ty ↔
      ((adapt db t name).reason = some .primitiveReference → t.quals.format "" = "&")) ∧
    ((adapt db t name).reason = some .primitiveReference →
      (adapt db t name).ty = t.unqualified.text ∧ ∃ front, t.text = front ++ "&") :=
  (adapts_adaptParameter db ⟨name, t, none, ""⟩).onlyReferenceChanged_iff

/-- A reference to a pointer to a number. -/
def pointerReference : CppType := .base "int" ⟨[], ["*", "&"]⟩

/-- What a reference to a pointer refers to is not what is taken for it. -/
theorem not_onlyReferenceChanged : ¬ ∀ (db : Database) (t : CppType) (name : String),
    OnlyReferenceChanged t (adapt db t name).reason (adapt db t name).ty := by
  intro h
  have htext : pointerReference.text = "int" ++ "&" := h {} pointerReference "p"
  exact absurd htext (by decide)

theorem adapt_onlyReferenceChanged_iff_volatile :
    (adapt {} (.base "unsigned int" ⟨["volatile"], ["&"]⟩) "n").reason = some .primitiveReference ∧
      (adapt {} (.base "unsigned int" ⟨["volatile"], ["&"]⟩) "n").ty = "unsigned int" ∧
      ¬ OnlyReferenceChanged (.base "unsigned int" ⟨["volatile"], ["&"]⟩) (some .primitiveReference)
        (adapt {} (.base "unsigned int" ⟨["volatile"], ["&"]⟩) "n").ty := by
  have hreason : (adapt {} (.base "unsigned int" ⟨["volatile"], ["&"]⟩) "n").reason =
      some .primitiveReference := by decide
  obtain ⟨honly, hbare⟩ :=
    adapt_onlyReferenceChanged_iff {} (.base "unsigned int" ⟨["volatile"], ["&"]⟩) "n"
  refine ⟨hreason, (hbare hreason).1.trans (by decide), fun h => ?_⟩
  rw [hreason] at honly
  exact absurd (honly.1 h rfl) (by decide)

end Binding

end ScriptBindings
