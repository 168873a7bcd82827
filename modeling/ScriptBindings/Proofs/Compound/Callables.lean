import Mathlib
import ScriptBindings.Proofs.Compound.Unreadable

/-!
# Members that are read as callables

A function member is read as a callable exactly if its name can be bound and its result and all its parameters
have types that can be read, where its own template parameters are in scope as well.
-/

namespace ScriptBindings.Compound

/-- The place of the types that a member mentions: its own template parameters are in scope as well. -/
def Place.within (place : Place) (member : Xml.Element) : Place :=
  { place with templateParams := place.templateParams ++ Compound.templateParams member }

/-- An element has a type, and one that can be read. -/
def HasReadableType (s : Setting) (place : Place) (e : Xml.Element) : Prop :=
  ∃ t, memberType s place e = .ok (some (.read t))

instance (s : Setting) (place : Place) (e : Xml.Element) : Decidable (HasReadableType s place e) :=
  match h : memberType s place e with
  | .ok (some (.read t)) => isTrue ⟨t, h⟩
  | .ok (some (.unreadable _)) => isFalse fun ⟨_, ht⟩ => by cases h.symm.trans ht
  | .ok none => isFalse fun ⟨_, ht⟩ => by cases h.symm.trans ht
  | .error _ => isFalse fun ⟨_, ht⟩ => by cases h.symm.trans ht

/-- What it takes for a function member to be read as a callable. -/
@[mk_iff]
structure IsReadable (s : Setting) (place : Place) (member : Xml.Element) : Prop where
  unspecialised : isSpecialisationName (member.childText "name") = false
  owned : Text.startsWith "operator" (member.childText "name") = true → place.owner ≠ none
  result : HasReadableType s (place.within member) member ∨
    memberType s (place.within member) member = .ok none ∧
      isSpecialName place (member.childText "name") = true
  params : ∀ param ∈ member.children "param", HasReadableType s (place.within member) param

variable {s : Setting} {place : Place} {member : Xml.Element}

/-! ## Results and parameters -/

/-- A result is read from the type of the member; only constructors and destructors may have none. -/
theorem readResult_eq_read_iff {special : Bool} {result : Option CppType} :
    readResult s place member special = .ok (.read result) ↔
      memberType s place member = .ok (result.map .read) ∧ (result = none → special = true) := by
  unfold readResult
  rcases memberType s place member with fault | _ | ⟨t⟩ | ⟨reason⟩ <;> cases special <;>
    cases result <;> simp [bind, Except.bind, pure, Except.pure]

theorem exists_readResult_iff {special : Bool} :
    (∃ result, readResult s place member special = .ok (.read result)) ↔
      HasReadableType s place member ∨ memberType s place member = .ok none ∧ special = true := by
  simp only [readResult_eq_read_iff]
  constructor
  · rintro ⟨_ | t, htype, hspecial⟩
    · exact Or.inr ⟨htype, hspecial rfl⟩
    · exact Or.inl ⟨t, htype⟩
  · rintro (⟨t, htype⟩ | ⟨htype, hspecial⟩)
    · exact ⟨some t, htype, fun h => by cases h⟩
    · exact ⟨none, htype, fun _ => hspecial⟩

/-- A parameter is read from its type. -/
theorem type_of_readParameter {param : Xml.Element} {position : Nat} {p : Parameter}
    (h : readParameter s place member param position = .ok (.read p)) :
    memberType s place param = .ok (some (.read p.ty)) := by
  obtain ⟨type, htype, h⟩ := bind_eq_ok_iff.1 h
  rcases type with _ | ⟨t⟩ | ⟨reason⟩
  · cases h
  · cases h
    exact htype
  · cases h

theorem exists_readParameter {param : Xml.Element} (h : HasReadableType s place param)
    (member : Xml.Element) (position : Nat) :
    ∃ p, readParameter s place member param position = .ok (.read p) := by
  obtain ⟨t, ht⟩ := h
  unfold readParameter
  rw [ht]
  exact ⟨_, rfl⟩

/-- Parameters are read one by one. -/
theorem readParameters_eq_read_iff {params : List (Xml.Element × Nat)} {ps : List Parameter} :
    readParameters s place member params = .ok (.read ps) ↔
      List.Forall₂ (fun param p => readParameter s place member param.1 param.2 = .ok (.read p))
        params ps := by
  induction params generalizing ps with
  | nil => simp [readParameters, List.forall₂_nil_left_iff, eq_comm]
  | cons param rest ih =>
      simp only [readParameters, List.forall₂_cons_left_iff, ← ih, bind_eq_ok_iff]
      constructor
      · -- The first parameter that cannot be read is the answer for all of them.
        rintro ⟨⟨p⟩ | ⟨reason⟩, hp, h⟩
        · obtain ⟨⟨later⟩ | ⟨reason⟩, hlater, h⟩ := bind_eq_ok_iff.1 h
          · cases h
            exact ⟨p, later, hp, hlater, rfl⟩
          · cases h
        · cases h
      · rintro ⟨p, later, hp, hlater, rfl⟩
        refine ⟨.read p, hp, ?_⟩
        rw [hlater]
        rfl

/-- All parameters are read if each of them has a type that can be read. -/
theorem exists_readParameters_iff {params : List (Xml.Element × Nat)} :
    (∃ ps, readParameters s place member params = .ok (.read ps)) ↔
      ∀ param ∈ params, HasReadableType s place param.1 := by
  simp only [readParameters_eq_read_iff]
  induction params with
  | nil => exact iff_of_true ⟨[], .nil⟩ (List.forall_mem_nil _)
  | cons param rest ih =>
      rw [List.forall_mem_cons, ← ih]
      constructor
      · rintro ⟨_, h⟩
        obtain ⟨p, later, hp, hlater, -⟩ := List.forall₂_cons_left_iff.1 h
        exact ⟨⟨p.ty, type_of_readParameter hp⟩, later, hlater⟩
      · rintro ⟨hparam, later, hlater⟩
        obtain ⟨p, hp⟩ := exists_readParameter hparam member param.2
        exact ⟨p :: later, .cons hp hlater⟩

/-! ## Callables -/

variable {flags : Flags} {f : Callable}

/-- A member with a proper name whose types are read is a callable, if it has a location. -/
theorem callableSlot_of_read {result : Option CppType} {parameters : List Parameter}
    (hname : isSpecialisationName (member.childText "name") = false)
    (howned : Text.startsWith "operator" (member.childText "name") = true → place.owner ≠ none)
    (hresult : readResult s (place.within member) member
      (isSpecialName place (member.childText "name")) = .ok (.read result))
    (hparameters : readParameters s (place.within member) member (member.children "param").zipIdx =
      .ok (.read parameters)) (flags : Flags) :
    callableSlot s place member flags =
      (Location.ofElement member (place.fqn (member.childText "name")) s.root).map fun location =>
        .concrete (callableOf place member flags result parameters location) := by
  have hfree : ¬ (Text.startsWith "operator" (member.childText "name") && place.owner.isNone) = true := by
    intro hboth
    obtain ⟨hoperator, hnone⟩ := Bool.and_eq_true_iff.1 hboth
    exact howned hoperator (Option.isNone_iff_eq_none.1 hnone)
  have hinner : ({ place with templateParams := place.templateParams ++ templateParams member } : Place) =
      place.within member := rfl
  simp only [callableSlot, hinner]
  rw [if_neg (Bool.eq_false_iff.1 hname), if_neg hfree, hresult]
  simp only [hparameters, bind, Except.bind]
  cases Location.ofElement member (place.fqn (member.childText "name")) s.root <;> rfl

/-- What a callable is read from. -/
theorem read_of_callableSlot (h : callableSlot s place member flags = .ok (.concrete f)) :
    isSpecialisationName (member.childText "name") = false ∧
      (Text.startsWith "operator" (member.childText "name") = true → place.owner ≠ none) ∧
      ∃ result parameters location,
        readResult s (place.within member) member
          (isSpecialName place (member.childText "name")) = .ok (.read result) ∧
        readParameters s (place.within member) member (member.children "param").zipIdx =
          .ok (.read parameters) ∧
        f = callableOf place member flags result parameters location := by
  have hinner : ({ place with templateParams := place.templateParams ++ templateParams member } : Place) =
      place.within member := rfl
  simp only [callableSlot, hinner] at h
  split at h
  · cases h
  rename_i hname
  split at h
  · cases h
  rename_i hfree
  obtain ⟨⟨result⟩ | ⟨reason⟩, hresult, h⟩ := bind_eq_ok_iff.1 h
  · obtain ⟨⟨parameters⟩ | ⟨reason⟩, hparameters, h⟩ := bind_eq_ok_iff.1 h
    · obtain ⟨location, -, h⟩ := bind_eq_ok_iff.1 h
      cases h
      refine ⟨Bool.eq_false_iff.2 hname, fun hoperator hnone => hfree ?_,
        result, parameters, location, hresult, hparameters, rfl⟩
      rw [hoperator, hnone]
      rfl
    · cases h
  · cases h

/-- A member that is read at all is read as a callable if and only if it is readable. -/
theorem exists_concrete_iff {slot : Slot} (h : callableSlot s place member flags = .ok slot) :
    (∃ f, slot = .concrete f) ↔ IsReadable s place member := by
  -- Parameters are numbered, but their numbers do not matter to whether they can be read.
  have hparams : (∀ param ∈ member.children "param", HasReadableType s (place.within member) param) ↔
      ∀ entry ∈ (member.children "param").zipIdx, HasReadableType s (place.within member) entry.1 := by
    conv_lhs => rw [← List.zipIdx_map_fst 0 (member.children "param"), List.forall_mem_map]
  rw [isReadable_iff, hparams, ← exists_readResult_iff, ← exists_readParameters_iff]
  constructor
  · rintro ⟨f, rfl⟩
    obtain ⟨hname, howned, result, parameters, location, hresult, hparameters, -⟩ :=
      read_of_callableSlot h
    exact ⟨hname, howned, ⟨result, hresult⟩, parameters, hparameters⟩
  · rintro ⟨hname, howned, ⟨result, hresult⟩, parameters, hparameters⟩
    rw [callableSlot_of_read hname howned hresult hparameters, map_eq_ok_iff] at h
    obtain ⟨location, -, rfl⟩ := h
    exact ⟨_, rfl⟩

end ScriptBindings.Compound
