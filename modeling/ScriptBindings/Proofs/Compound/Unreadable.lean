import Mathlib
import ScriptBindings.Proofs.Compound.Stored

/-!
# Members that cannot be read

A type whose text is no type spoils the member that has it.  A variable or a type name is left out then, and
a callable leaves a placeholder behind; this is so wherever the type stands among the types of the member's
parameters, provided that reading does not stop at an ambiguous name.
-/

namespace ScriptBindings.Compound

/-- The place of the members of a compound. -/
def placeOf (compound : Xml.Element) : Place :=
  if compound.attr? "kind" = some "namespace" then { scope := compound.childText "compoundname" }
  else classPlace (compound.childText "compoundname") (templateParams compound)

/-- An element has a type with a text that is no type. -/
def HasRejectedType (index : SymbolIndex) (e : Xml.Element) : Prop :=
  ∃ t cause, e.child? "type" = some t ∧ CppType.parse (typeText index t) = .error cause

/-- Constructors and destructors have an empty type, which is no type but is not read either. -/
def IsTypeless (s : Setting) (place : Place) (member : Xml.Element) : Prop :=
  member.attr? "kind" = some "function" ∧ isSpecialName place (member.childText "name") = true ∧
    ∀ t, member.child? "type" = some t → typeText s.index t = ""

/-- A member whose own type is rejected, or a callable with a parameter whose type is. -/
inductive Unreadable (s : Setting) (place : Place) (member : Xml.Element) : Prop
  | ownType (hrejected : HasRejectedType s.index member) (htyped : ¬ IsTypeless s place member)
  | paramType (hfunction : member.attr? "kind" = some "function") {param : Xml.Element}
      (hparam : param ∈ member.children "param") (hrejected : HasRejectedType s.index param)

variable {s : Setting} {place : Place} {member : Xml.Element}

/-! ## Types -/

theorem readType_of_parse (s : Setting) (place : Place) {text : String} {cause : CppType.SyntaxError}
    (h : CppType.parse text = .error cause) :
    ∃ reason, readType s place text = .ok (.unreadable reason) := by
  unfold readType
  rw [h]
  exact ⟨_, rfl⟩

/-- A type that is rejected is blank or cannot be read. -/
theorem memberType_of_rejected (place : Place) {e : Xml.Element}
    (h : HasRejectedType s.index e) :
    (memberType s place e = .ok none ∧ ∀ t, e.child? "type" = some t → typeText s.index t = "") ∨
      ∃ reason, memberType s place e = .ok (some (.unreadable reason)) := by
  obtain ⟨t, cause, htype, hparse⟩ := h
  obtain ⟨reason, hread⟩ := readType_of_parse s place hparse
  unfold memberType
  rw [htype]
  by_cases hblank : typeText s.index t = ""
  · refine Or.inl ⟨if_pos hblank, fun t' ht' => ?_⟩
    rw [← Option.some.inj ht', hblank]
  · refine Or.inr ⟨reason, ?_⟩
    simp only [if_neg hblank, hread]
    rfl

/-- A symbol that must have a type is left out. -/
theorem draftTyped_of_rejected {α : Type} {fqn : String} {make : CppType → Flags → Location → α}
    (h : HasRejectedType s.index member) : draftTyped s place member fqn make = .ok none := by
  unfold draftTyped
  rcases memberType_of_rejected place h with ⟨hnone, -⟩ | ⟨reason, hreason⟩
  · rw [hnone]
    rfl
  · rw [hreason]
    rfl

/-! ## Callables -/

/-- The result of a callable cannot be read if its type is rejected. -/
theorem readResult_of_rejected (place : Place) {special : Bool}
    (h : HasRejectedType s.index member)
    (hspecial : special = true → ∃ t, member.child? "type" = some t ∧ typeText s.index t ≠ "") :
    ∃ reason, readResult s place member special = .ok (.unreadable reason) := by
  unfold readResult
  rcases memberType_of_rejected place h with ⟨hnone, hblank⟩ | ⟨reason, hreason⟩
  · rw [hnone]
    cases special with
    | false => exact ⟨_, rfl⟩
    | true =>
        obtain ⟨t, htype, htext⟩ := hspecial rfl
        exact absurd (hblank t htype) htext
  · rw [hreason]
    exact ⟨reason, rfl⟩

theorem readParameter_of_rejected (place : Place) (member : Xml.Element) {param : Xml.Element}
    (h : HasRejectedType s.index param) (position : Nat) :
    ∃ reason, readParameter s place member param position = .ok (.unreadable reason) := by
  unfold readParameter
  rcases memberType_of_rejected place h with ⟨hnone, -⟩ | ⟨reason, hreason⟩
  · rw [hnone]
    exact ⟨_, rfl⟩
  · rw [hreason]
    exact ⟨reason, rfl⟩

/-- Parameters cannot be read if the type of one of them is rejected. -/
theorem readParameters_of_rejected {params : List (Xml.Element × Nat)}
    {reading : Reading (List Parameter)} (h : ∃ p ∈ params, HasRejectedType s.index p.1)
    (hread : readParameters s place member params = .ok reading) :
    ∃ reason, reading = .unreadable reason := by
  induction params generalizing reading with
  | nil => simp at h
  | cons p rest ih =>
      obtain ⟨param, position⟩ := p
      obtain ⟨first, hfirst, hread⟩ := bind_eq_ok_iff.1 hread
      rcases first with ⟨first⟩ | ⟨reason⟩
      · obtain ⟨others, hothers, hread⟩ := bind_eq_ok_iff.1 hread
        obtain ⟨q, hq, hrejected⟩ := h
        rcases List.mem_cons.1 hq with rfl | hq
        · obtain ⟨reason, hreason⟩ := readParameter_of_rejected place member hrejected position
          cases hfirst.symm.trans hreason
        · obtain ⟨reason, rfl⟩ := ih ⟨q, hq, hrejected⟩ hothers
          exact ⟨reason, (pure_eq_ok_iff.1 hread).symm⟩
      · exact ⟨reason, (pure_eq_ok_iff.1 hread).symm⟩

/-- A callable that cannot be read leaves a placeholder behind. -/
theorem exists_placeholder_of_unreadable (hfunction : member.attr? "kind" = some "function")
    (h : Unreadable s place member) {slot : Slot} (hslot : callableSlot s place member {} = .ok slot) :
    ∃ reason, slot = .placeholder (placeholderFor place member {} reason) := by
  obtain ⟨inner, hinner⟩ : ∃ inner : Place, inner =
    { place with templateParams := place.templateParams ++ templateParams member } := ⟨_, rfl⟩
  simp only [callableSlot, ← hinner] at hslot
  split at hslot
  · exact ⟨_, (pure_eq_ok_iff.1 hslot).symm⟩
  split at hslot
  · exact ⟨_, (pure_eq_ok_iff.1 hslot).symm⟩
  -- The name can be read, so it is the result or a parameter that cannot.
  obtain ⟨result, hresult, hslot⟩ := bind_eq_ok_iff.1 hslot
  rcases result with ⟨result⟩ | ⟨reason⟩
  · cases h with
    | ownType hrejected htyped =>
        have hspecial : isSpecialName place (member.childText "name") = true →
            ∃ t, member.child? "type" = some t ∧ typeText s.index t ≠ "" := by
          intro hname
          by_contra hnone
          exact htyped ⟨hfunction, hname, fun t ht => by_contra fun htext => hnone ⟨t, ht, htext⟩⟩
        obtain ⟨reason, hreason⟩ := readResult_of_rejected inner hrejected hspecial
        cases hresult.symm.trans hreason
    | paramType _ hparam hrejected =>
        rename_i param
        obtain ⟨parameters, hparameters, hslot⟩ := bind_eq_ok_iff.1 hslot
        obtain ⟨p, hp, rfl⟩ : ∃ p ∈ (member.children "param").zipIdx, p.1 = param := by
          rwa [← List.zipIdx_map_fst 0 (member.children "param"), List.mem_map] at hparam
        obtain ⟨reason, rfl⟩ := readParameters_of_rejected ⟨p, hp, hrejected⟩ hparameters
        exact ⟨reason, (pure_eq_ok_iff.1 hslot).symm⟩
  · exact ⟨reason, (pure_eq_ok_iff.1 hslot).symm⟩

/-! ## Members -/

/-- The kinds of members that have a type. -/
def typedKinds : List String :=
  ["function", "variable", "typedef"]

/-- A member that cannot be read is a function, or has a type of its own that is rejected. -/
theorem Unreadable.kind_cases (h : Unreadable s place member)
    (hkind : ∃ kind ∈ typedKinds, member.attr? "kind" = some kind) :
    member.attr? "kind" = some "function" ∨
      ∃ kind, member.attr? "kind" = some kind ∧ kind ≠ "function" ∧
        (kind = "variable" ∨ kind = "typedef") ∧ HasRejectedType s.index member := by
  obtain ⟨kind, hmem, hkind⟩ := hkind
  by_cases hfunction : kind = "function"
  · exact Or.inl (hfunction ▸ hkind)
  · refine Or.inr ⟨kind, hkind, hfunction, by simpa [typedKinds, hfunction] using hmem, ?_⟩
    cases h with
    | ownType hrejected _ => exact hrejected
    | paramType h _ _ => exact absurd (Option.some.inj (hkind.symm.trans h)) hfunction

/-- A member of a class that cannot be read is left out, or stands for a placeholder. -/
theorem draftClassMember_of_unreadable {fqn : String} {here : Option (Draft (List ClassMember))}
    (hkind : ∃ kind ∈ typedKinds, member.attr? "kind" = some kind) (h : Unreadable s place member)
    (hdraft : draftClassMember s place fqn member = .ok here) :
    here = none ∨ member.attr? "kind" = some "function" ∧ ∃ reason, here = some
      ⟨⟨place.fqn (member.childText "name"), member⟩,
        placeCallable (Name.withoutTemplateArgs (place.owner.getD ""))
          (visibilityOf (member.attr? "prot")) (.placeholder (placeholderFor place member {} reason))⟩ := by
  rcases h.kind_cases hkind with hfunction | ⟨kind, hkind, hfunction, hvariable, hrejected⟩
  · simp only [draftClassMember, hfunction, draftCallable, bind_eq_ok_iff, pure_eq_ok_iff] at hdraft
    obtain ⟨_, ⟨slot, hslot, rfl⟩, rfl⟩ := hdraft
    obtain ⟨reason, rfl⟩ := exists_placeholder_of_unreadable hfunction h hslot
    exact Or.inr ⟨hfunction, reason, rfl⟩
  · refine Or.inl ?_
    simp only [draftClassMember, hkind] at hdraft
    -- Members that are no functions are left out if they are not public, and otherwise for their type.
    split at hdraft
    · exact (pure_eq_ok_iff.1 hdraft).symm
    · rcases hvariable with rfl | rfl
      · simp only [draftTyped_of_rejected hrejected] at hdraft
        exact (Except.ok.inj hdraft).symm
      · simp only [draftTyped_of_rejected hrejected] at hdraft
        exact (Except.ok.inj hdraft).symm

/-- The same for a member of a namespace. -/
theorem draftNamespaceMember_of_unreadable {name : String} {here : Option (Draft NamespaceMember)}
    (hkind : ∃ kind ∈ typedKinds, member.attr? "kind" = some kind)
    (h : Unreadable s { scope := name } member)
    (hdraft : draftNamespaceMember s name member = .ok here) :
    here = none ∨ member.attr? "kind" = some "function" ∧ ∃ reason, here = some
      ⟨⟨Name.qualify name none (member.childText "name"), member⟩,
        .function (.placeholder (placeholderFor { scope := name } member {} reason))⟩ := by
  rcases h.kind_cases hkind with hfunction | ⟨kind, hkind, -, hvariable, hrejected⟩
  · simp only [draftNamespaceMember, hfunction, draftCallable, bind_eq_ok_iff, pure_eq_ok_iff] at hdraft
    obtain ⟨_, ⟨slot, hslot, rfl⟩, rfl⟩ := hdraft
    obtain ⟨reason, rfl⟩ := exists_placeholder_of_unreadable hfunction h hslot
    exact Or.inr ⟨hfunction, reason, rfl⟩
  · refine Or.inl ?_
    rcases hvariable with rfl | rfl
    · simp only [draftNamespaceMember, hkind, draftTyped_of_rejected hrejected] at hdraft
      exact (Except.ok.inj hdraft).symm
    · simp only [draftNamespaceMember, hkind, draftTyped_of_rejected hrejected] at hdraft
      exact (Except.ok.inj hdraft).symm

end ScriptBindings.Compound
