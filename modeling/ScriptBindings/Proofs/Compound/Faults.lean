import Mathlib
import ScriptBindings.Compound.Extraction
import ScriptBindings.Proofs.Compound.Draft

/-!
# Faults of extraction

Reading stops only where a type or a location is read, so a kind of fault that neither is the cause of never
stops a document.  The syntax of a type is such a kind: where a type is read, a text that is no type is a
reading like others.  The documents that are refused are malformed, lack a node, or have an ambiguous name.
-/

namespace ScriptBindings

/-- No result, or a fault that is none of the bad ones. -/
def Avoids {α : Type} (bad : Fault → Prop) (r : Except Fault α) : Prop :=
  ∀ fault, bad fault → r ≠ .error fault

namespace Avoids

variable {α β : Type} {bad : Fault → Prop}

theorem ok (a : α) : Avoids bad (.ok a : Except Fault α) := by
  intro fault _ h
  cases h

theorem bind {r : Except Fault α} {f : α → Except Fault β} (hr : Avoids bad r)
    (hf : ∀ a, Avoids bad (f a)) : Avoids bad (r >>= f) := by
  cases r with
  | error fault =>
      intro fault' hbad h
      cases h
      exact hr fault hbad rfl
  | ok a => exact hf a

theorem map {r : Except Fault α} (hr : Avoids bad r) (f : α → β) : Avoids bad (r.map f) := by
  cases r with
  | error fault =>
      intro fault' hbad h
      cases h
      exact hr fault hbad rfl
  | ok a => exact ok (f a)

theorem mapM {f : α → Except Fault β} (hf : ∀ a, Avoids bad (f a)) (as : List α) :
    Avoids bad (as.mapM f) := by
  induction as with
  | nil => exact ok []
  | cons a as ih =>
      rw [List.mapM_cons]
      exact (hf a).bind fun b => ih.bind fun bs => ok (b :: bs)

end Avoids

namespace Compound

open Avoids (ok)

/-- Faults that are never found in some places: no type that is read there is the cause of one, and neither is a
missing node.  More template parameters do not lead out of these places. -/
structure Harmless (s : Setting) (bad : Fault → Prop) (known : Place → Prop) : Prop where
  readType : ∀ place, known place → ∀ text, Avoids bad (readType s place text)
  missing : ∀ tag context, ¬ bad (.missingNode tag context)
  within : ∀ place params, known place →
    known { place with templateParams := place.templateParams ++ params }

namespace Harmless

variable {s : Setting} {bad : Fault → Prop} {known : Place → Prop} {place : Place}

/-! ## Types and what has one -/

theorem memberType (h : Harmless s bad known) (hplace : known place) (e : Xml.Element) :
    Avoids bad (memberType s place e) := by
  unfold Compound.memberType
  split
  · exact ok _
  · simp only
    split
    · exact ok _
    · exact (h.readType place hplace _).map _

theorem location (h : Harmless s bad known) (e : Xml.Element) (context root : String) :
    Avoids bad (Location.ofElement e context root) := by
  unfold Location.ofElement
  split
  · intro fault hbad heq
    cases heq
    exact h.missing _ _ hbad
  · exact ok _

theorem readParameter (h : Harmless s bad known) (hplace : known place) (member param : Xml.Element)
    (position : Nat) : Avoids bad (readParameter s place member param position) := by
  unfold Compound.readParameter
  refine (h.memberType hplace param).bind fun type => ?_
  rcases type with _ | ⟨_⟩ | ⟨_⟩ <;> exact ok _

theorem readParameters (h : Harmless s bad known) (hplace : known place) (member : Xml.Element)
    (params : List (Xml.Element × Nat)) : Avoids bad (readParameters s place member params) := by
  induction params with
  | nil => exact ok _
  | cons param rest ih =>
      obtain ⟨param, position⟩ := param
      unfold Compound.readParameters
      refine (h.readParameter hplace member param position).bind fun first => ?_
      rcases first with _ | _
      · refine ih.bind fun others => ?_
        rcases others with _ | _ <;> exact ok _
      · exact ok _

theorem readResult (h : Harmless s bad known) (hplace : known place) (member : Xml.Element)
    (special : Bool) : Avoids bad (readResult s place member special) := by
  unfold Compound.readResult
  refine (h.memberType hplace member).bind fun type => ?_
  rcases type with _ | ⟨_⟩ | ⟨_⟩
  · cases special <;> exact ok _
  · exact ok _
  · exact ok _

theorem callableSlot (h : Harmless s bad known) (hplace : known place) (member : Xml.Element)
    (flags : Flags) : Avoids bad (callableSlot s place member flags) := by
  have hinner := h.within place (templateParams member) hplace
  unfold Compound.callableSlot
  simp only
  split
  · exact ok _
  · split
    · exact ok _
    · refine (h.readResult hinner member _).bind fun result => ?_
      rcases result with _ | _
      · refine (h.readParameters hinner member _).bind fun parameters => ?_
        rcases parameters with _ | _
        · exact (h.location member _ _).bind fun location => ok _
        · exact ok _
      · exact ok _

/-! ## Members -/

theorem draftCallable (h : Harmless s bad known) (hplace : known place) (member : Xml.Element) :
    Avoids bad (draftCallable s place member) :=
  (h.callableSlot hplace member {}).bind fun _ => ok _

theorem draftTyped (h : Harmless s bad known) (hplace : known place) {α : Type} (member : Xml.Element)
    (fqn : String) (make : CppType → Flags → Location → α) :
    Avoids bad (draftTyped s place member fqn make) := by
  unfold Compound.draftTyped
  refine (h.memberType hplace member).bind fun type => ?_
  rcases type with _ | ⟨_⟩ | ⟨_⟩
  · exact ok _
  · exact (h.location member _ _).bind fun location => ok _
  · exact ok _

theorem draftEnum (h : Harmless s bad known) (scope : String) (member : Xml.Element) :
    Avoids bad (draftEnum s scope member) :=
  (h.location member _ _).bind fun _ => ok _

theorem draftClassMember (h : Harmless s bad known) (hplace : known place) (fqn : String)
    (member : Xml.Element) : Avoids bad (draftClassMember s place fqn member) := by
  unfold Compound.draftClassMember
  simp only
  split
  · exact (h.draftCallable hplace member).bind fun _ => ok _
  · split
    · exact ok _
    · split
      · exact (h.draftTyped hplace member _ _).bind fun _ => ok _
      · split
        · exact (h.draftEnum fqn member).bind fun _ => ok _
        · split
          · exact (h.draftTyped hplace member _ _).bind fun _ => ok _
          · exact ok _
  · exact ok _

theorem draftNamespaceMember (h : Harmless s bad known) {name : String} (hplace : known { scope := name })
    (member : Xml.Element) : Avoids bad (draftNamespaceMember s name member) := by
  unfold Compound.draftNamespaceMember
  simp only
  split
  · exact (h.draftCallable hplace member).bind fun _ => ok _
  · exact (h.draftEnum name member).bind fun _ => ok _
  · exact (h.draftTyped hplace member _ _).bind fun _ => ok _
  · exact (h.draftTyped hplace member _ _).bind fun _ => ok _
  · exact ok _

theorem readBase (h : Harmless s bad known) {scope : String} (hplace : known { scope := scope })
    (e : Xml.Element) : Avoids bad (readBase s scope e) := by
  unfold Compound.readBase
  split
  · exact ok _
  · refine (h.readType _ hplace _).bind fun type => ?_
    rcases type with _ | _ <;> exact ok _

end Harmless

theorem avoids_draftAll {α : Type} {bad : Fault → Prop}
    {draft : Xml.Element → Except Fault (Option (Draft α))}
    (h : ∀ member, Avoids bad (draft member)) (members : List Xml.Element) :
    Avoids bad (draftAll draft members) := by
  induction members with
  | nil => exact ok _
  | cons member rest ih => exact (h member).bind fun _ => ih.bind fun _ => ok _

/-! ## Documents -/

/-- A fault that is the syntax of a type. -/
def IsTypeSyntax (fault : Fault) : Prop :=
  ∃ cause, fault = .typeSyntax cause

theorem harmless_isTypeSyntax (s : Setting) : Harmless s IsTypeSyntax fun _ => True where
  readType place _ text := by
    unfold readType
    split
    · exact ok _
    · split
      · exact ok _
      · exact ok _
      -- The syntax of a type has been made a reading in the case before.
      · rename_i fault hother _
        rintro _ ⟨cause, rfl⟩ h
        exact hother cause (Except.error.inj h)
  missing _ _ := by
    rintro ⟨cause, h⟩
    cases h
  within _ _ h := h

variable (s : Setting)

theorem avoids_draftClass (compound : Xml.Element) : Avoids IsTypeSyntax (draftClass s compound) := by
  have h := harmless_isTypeSyntax s
  unfold draftClass readClassHeader
  refine Avoids.bind ?_ fun header => ?_
  · refine (h.location compound _ _).bind fun location => ?_
    exact (Avoids.mapM (h.readBase trivial) _).bind fun bases => ok _
  · exact (avoids_draftAll (h.draftClassMember trivial _) _).bind fun _ => ok _

theorem avoids_addNamespace (db : Database) (ctx : FlagContext) (compound : Xml.Element) :
    Avoids IsTypeSyntax (addNamespace s db ctx compound) := by
  unfold addNamespace
  simp only
  split
  · exact ok _
  · rw [readNamespaceMembers_eq]
    refine Avoids.bind (Avoids.map ?_ _) fun _ => ok _
    exact avoids_draftAll ((harmless_isTypeSyntax s).draftNamespaceMember trivial) _

theorem avoids_addClass (db : Database) (ctx : FlagContext) (compound : Xml.Element) :
    Avoids IsTypeSyntax (addClass s db ctx compound) := by
  unfold addClass
  split
  · exact ok _
  · rw [readClass_eq]
    exact (avoids_draftClass s compound).map _

theorem avoids_addCompound (x : Extraction) (compound : Xml.Element) :
    Avoids IsTypeSyntax (x.addCompound s compound) := by
  unfold Extraction.addCompound
  split
  · exact (avoids_addNamespace s _ _ _).bind fun _ => ok _
  · exact (avoids_addClass s _ _ _).bind fun _ => ok _
  · exact (avoids_addClass s _ _ _).bind fun _ => ok _
  · exact ok _

/-- No document is refused for the syntax of a type. -/
theorem avoids_addText (x : Extraction) (text : String) : Avoids IsTypeSyntax (x.addText s text) := by
  unfold Extraction.addText Extraction.addRoot
  split
  · rintro _ ⟨cause, rfl⟩ h
    cases h
  · split
    · rintro _ ⟨cause, rfl⟩ h
      cases h
    · exact avoids_addCompound s x _

end Compound

end ScriptBindings
