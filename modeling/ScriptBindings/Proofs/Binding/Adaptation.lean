import Mathlib
import ScriptBindings.Binding.Adapt

/-!
# What is adapted, and how

Which parameters cannot be passed as they are declared is read off the marks of their types and the classes
that their names lead to.  There are three kinds, and a parameter of each kind is taken and passed on in one
way: a reference to an abstract class as a pointer, a reference to a temporary as a value that is moved, and a
reference to a variable of a built-in type as a value.  Any other parameter stays as it is.
-/

namespace ScriptBindings

namespace CppType

variable {t u : CppType} {marks : List String} {mark : String}

/-- The outermost mark of a type. -/
def Outermost (t : CppType) (mark : String) : Prop :=
  t.quals.trailing.getLast? = some mark

/-- A reference, the outermost mark of a type. -/
def LvalueReference (t : CppType) : Prop :=
  t.Outermost "&" ∨ t.Outermost "const&"

/-- A reference to a temporary. -/
def RvalueReference (t : CppType) : Prop :=
  t.Outermost "&&"

/-- There is a `const` among the qualifiers of a type, be it in front of another mark. -/
def MentionsConst (t : CppType) : Prop :=
  "const" ∈ t.quals.leading ∨ ∃ mark ∈ t.quals.trailing, "const".toList <+: mark.toList

/-- A reference, and no other mark, to a constant; `const` may stand on both sides of the name. -/
def ConstReference (t : CppType) : Prop :=
  (t.quals.trailing = ["&"] ∧ "const" ∈ t.quals.leading) ∨ t.quals.trailing = ["const&"] ∨
    t.quals.trailing = ["const", "&"]

/-- The pointer that can be passed for a reference: the outermost mark is that of a pointer, to a constant if
it is that of a reference to a constant. -/
inductive PointerFor (t : CppType) : CppType → Prop
  | plain {marks : List String} (h : t.quals.trailing = marks ++ ["&"]) :
      PointerFor t (t.withQuals ⟨t.quals.leading, marks ++ ["*"]⟩)
  | constant {marks : List String} (h : t.quals.trailing = marks ++ ["const&"]) :
      PointerFor t (t.withQuals ⟨t.quals.leading, marks ++ ["const*"]⟩)

instance (t : CppType) (mark : String) : Decidable (t.Outermost mark) :=
  inferInstanceAs (Decidable (_ = _))

instance (t : CppType) : Decidable t.LvalueReference :=
  inferInstanceAs (Decidable (_ ∨ _))

instance (t : CppType) : Decidable t.RvalueReference :=
  inferInstanceAs (Decidable (t.Outermost "&&"))

instance (t : CppType) : Decidable t.ConstReference :=
  inferInstanceAs (Decidable (_ ∨ _))

/-! ## Marks -/

theorem outermost_iff : t.Outermost mark ↔ ∃ marks, t.quals.trailing = marks ++ [mark] := by
  rw [Outermost, List.getLast?_eq_some_iff]

theorem isLvalueRef_iff : t.quals.isLvalueRef = true ↔ t.LvalueReference := by
  simp only [Qualifiers.isLvalueRef, LvalueReference, Outermost, Option.any_eq_true, Bool.or_eq_true,
    decide_eq_true_eq]
  constructor
  · rintro ⟨mark, hmark, rfl | rfl⟩
    · exact Or.inl hmark
    · exact Or.inr hmark
  · rintro (hmark | hmark)
    · exact ⟨_, hmark, Or.inl rfl⟩
    · exact ⟨_, hmark, Or.inr rfl⟩

theorem isRvalueRef_iff : t.quals.isRvalueRef = true ↔ t.RvalueReference := by
  simp [Qualifiers.isRvalueRef, RvalueReference, Outermost, Option.any_eq_true]

theorem isConst_iff : t.quals.isConst = true ↔ t.MentionsConst := by
  simp only [Qualifiers.isConst, Qualifiers.leadsConst, MentionsConst, Bool.or_eq_true,
    List.contains_iff_mem, List.any_eq_true, List.isPrefixOf_iff_prefix]

theorem isConstRef_iff : t.quals.isConstRef = true ↔ t.ConstReference := by
  unfold Qualifiers.isConstRef ConstReference
  split
  · rename_i h
    simp [h, Qualifiers.leadsConst]
  · rename_i h
    simp [h]
  · rename_i h
    simp [h]
  · rename_i hplain hattached hapart
    refine iff_of_false Bool.false_ne_true ?_
    rintro (⟨h, -⟩ | h | h)
    · exact hplain h
    · exact hattached h
    · exact hapart h

/-- A mark is either that of a reference to a temporary or that of another reference. -/
theorem LvalueReference.not_rvalueReference (h : t.LvalueReference) : ¬ t.RvalueReference := by
  unfold RvalueReference Outermost
  rcases h with h | h
  · rw [h]
    decide
  · rw [h]
    decide

theorem mapOutermost_eq (f : String → List String) (h : t.quals.trailing = marks ++ [mark]) :
    Binding.mapOutermost f t = t.withQuals ⟨t.quals.leading, marks ++ f mark⟩ := by
  unfold Binding.mapOutermost
  simp only [h, List.getLast?_concat, List.dropLast_concat]

/-- Every reference can be passed as one pointer. -/
theorem LvalueReference.pointerFor_iff (h : t.LvalueReference) :
    t.PointerFor u ↔ u = Binding.mapOutermost (fun mark => [Binding.pointerMark mark]) t := by
  constructor
  · rintro (hmarks | hmarks)
    · rw [mapOutermost_eq _ hmarks]
      rfl
    · rw [mapOutermost_eq _ hmarks]
      rfl
  · rintro rfl
    rcases h with h | h
    · obtain ⟨marks, hmarks⟩ := outermost_iff.1 h
      rw [mapOutermost_eq _ hmarks]
      exact .plain hmarks
    · obtain ⟨marks, hmarks⟩ := outermost_iff.1 h
      rw [mapOutermost_eq _ hmarks]
      exact .constant hmarks

end CppType

namespace Binding

open CppType

variable {db : Database} {t : CppType} {p : Parameter} {f : Callable} {a : Adapted}

/-! ## Three kinds of parameters -/

/-- A reference to an abstract class, found under the name of the type. -/
def AbstractReference (db : Database) (t : CppType) : Prop :=
  t.LvalueReference ∧ ∃ c, db.class? t.baseName = some c ∧ c.isAbstract = true

/-- A reference, without any `const`, to a built-in type. -/
def PrimitiveReference (t : CppType) : Prop :=
  t.LvalueReference ∧ ¬ t.MentionsConst ∧ t.isPrimitive = true

/-- A type of which a parameter cannot be passed as declared. -/
def NeedsAdapting (db : Database) (t : CppType) : Prop :=
  AbstractReference db t ∨ t.RvalueReference ∨ PrimitiveReference t

/-- A reference to a constant of a class whose objects cannot be copied. -/
def NonCopyableReference (db : Database) (t : CppType) : Prop :=
  t.ConstReference ∧ ∃ c, db.class? t.baseName = some c ∧ c.flags.nonCopyable = true

/-- How a parameter is taken and passed on, by its kind. -/
inductive Adapts (db : Database) (p : Parameter) : Adapted → Prop
  | pointer {u : CppType} (h : AbstractReference db p.ty) (hpointer : p.ty.PointerFor u) :
      Adapts db p ⟨u.text, p.name, "*" ++ p.name, some .abstractReference⟩
  | moved {marks : List String} (h : p.ty.quals.trailing = marks ++ ["&&"]) :
      Adapts db p ⟨(p.ty.withQuals ⟨p.ty.quals.leading, marks⟩).text, p.name,
        "std::move(" ++ p.name ++ ")", some .rvalueReference⟩
  | value (habstract : ¬ AbstractReference db p.ty) (h : PrimitiveReference p.ty) :
      Adapts db p ⟨p.ty.unqualified.text, p.name, p.name, some .primitiveReference⟩
  | declared (h : ¬ NeedsAdapting db p.ty) : Adapts db p ⟨p.ty.text, p.name, p.name, none⟩

theorem abstractReference_iff :
    (t.quals.isLvalueRef && isAbstractType db t) = true ↔ AbstractReference db t := by
  rw [Bool.and_eq_true, isLvalueRef_iff, isAbstractType, Option.any_eq_true]
  rfl

theorem primitiveReference_iff :
    (t.quals.isLvalueRef && !t.quals.isConst && t.isPrimitive) = true ↔ PrimitiveReference t := by
  rw [Bool.and_eq_true, Bool.and_eq_true, isLvalueRef_iff, Bool.not_eq_true', ← Bool.not_eq_true,
    isConst_iff, and_assoc]
  rfl

theorem nonCopyableReference_iff :
    (t.quals.isConstRef && isNonCopyableType db t) = true ↔ NonCopyableReference db t := by
  rw [Bool.and_eq_true, isConstRef_iff, isNonCopyableType, Option.any_eq_true]
  rfl

instance (db : Database) (t : CppType) : Decidable (AbstractReference db t) :=
  decidable_of_iff _ abstractReference_iff

instance (t : CppType) : Decidable (PrimitiveReference t) :=
  decidable_of_iff _ primitiveReference_iff

instance (db : Database) (t : CppType) : Decidable (NeedsAdapting db t) :=
  inferInstanceAs (Decidable (_ ∨ _))

/-- Each parameter is adapted in the way of its kind. -/
theorem adapts_adaptParameter (db : Database) (p : Parameter) : Adapts db p (adaptParameter db p) := by
  -- The tests are those of the three kinds, in the order in which the kinds are tried.
  unfold adaptParameter adapt
  simp only [abstractReference_iff, primitiveReference_iff, isRvalueRef_iff]
  split
  · rename_i habstract
    exact .pointer habstract (habstract.1.pointerFor_iff.2 rfl)
  · rename_i habstract
    split
    · rename_i hmoved
      obtain ⟨marks, hmarks⟩ := outermost_iff.1 hmoved
      rw [mapOutermost_eq _ hmarks, List.append_nil]
      exact .moved hmarks
    · rename_i hmoved
      split
      · rename_i hvalue
        exact .value habstract hvalue
      · rename_i hvalue
        exact .declared fun h => h.elim habstract (Or.rec hmoved hvalue)

/-- There is one way to adapt a parameter. -/
theorem adapts_iff : Adapts db p a ↔ a = adaptParameter db p := by
  refine ⟨fun h => ?_, fun h => h ▸ adapts_adaptParameter db p⟩
  unfold adaptParameter adapt
  simp only [abstractReference_iff, primitiveReference_iff, isRvalueRef_iff]
  cases h with
  | pointer h hpointer => rw [if_pos h, h.1.pointerFor_iff.1 hpointer]
  | moved hmarks =>
      have hmoved : p.ty.RvalueReference := outermost_iff.2 ⟨_, hmarks⟩
      rw [if_neg fun h => h.1.not_rvalueReference hmoved, if_pos hmoved, mapOutermost_eq _ hmarks,
        List.append_nil]
  | value habstract h =>
      rw [if_neg habstract, if_neg h.1.not_rvalueReference, if_pos h]
  | declared h =>
      rw [if_neg fun h' => h (.inl h'), if_neg fun h' => h (.inr (.inl h')),
        if_neg fun h' => h (.inr (.inr h'))]

/-- A parameter has a reason to be adapted if it is of one of the kinds. -/
theorem isSome_reason_iff : (adaptParameter db p).reason.isSome = true ↔ NeedsAdapting db p.ty := by
  generalize hadapted : adaptParameter db p = a
  cases adapts_iff.2 hadapted.symm with
  | pointer h _ => exact iff_of_true rfl (.inl h)
  | moved h => exact iff_of_true rfl (.inr (.inl (outermost_iff.2 ⟨_, h⟩)))
  | value _ h => exact iff_of_true rfl (.inr (.inr h))
  | declared h => exact iff_of_false Bool.false_ne_true h

theorem returnsByPointer_iff :
    returnsByPointer db f = true ↔ ∃ t, f.result = some t ∧ NonCopyableReference db t := by
  rw [returnsByPointer, Option.any_eq_true]
  simp only [nonCopyableReference_iff]

end Binding

end ScriptBindings
