import Mathlib
import ScriptBindings.Proofs.Compound.Shelves

/-!
# Visible callables among hidden ones

A callable has the visibility that a directive asks for, or else the one it is declared with.  Its shelf is
chosen by the declaration alone.  So the shelves of a class tell visible from hidden callables if and only if no
directive moves a callable, other than the destructor, from one side to the other.
-/

namespace ScriptBindings

/-- Whether it has to be cast does not matter to the visibility of a callable. -/
theorem Callable.visibility_eq_of_uncast_eq {f g : Callable} (h : f.uncast = g.uncast) :
    f.visibility = g.visibility :=
  (congrArg Callable.visibility h : f.uncast.visibility = g.uncast.visibility)

/-- A callable is in one of the slots. -/
def Slots.Holds (slots : Slots) (f : Callable) : Prop :=
  ∃ name slot, slots.get? name = some slot ∧ f ∈ slot.callables

namespace Compound

/-- The constructors and the methods of a class are public, and its hidden methods are not. -/
structure PlacedByVisibility (c : Class) : Prop where
  constructors : ∀ f ∈ c.constructors, f.visibility = .pub
  methods : ∀ f, c.methods.Holds f → f.visibility = .pub
  hidden : ∀ f, c.hiddenMethods.Holds f → f.visibility ≠ .pub

/-- A directive asks for a visibility on the other side than the declared one. -/
def Declared.IsMoved (d : Declared) : Prop :=
  ∃ v ∈ d.callable.flags.visibility, ¬ (v = .pub ↔ d.IsExposed)

instance (d : Declared) : Decidable d.IsMoved :=
  inferInstanceAs (Decidable (∃ v ∈ d.callable.flags.visibility, _))

/-! ## The visibility that a callable is read with -/

section Reading

variable {s : Setting} {place : Place} {fqn : String} {ctx : FlagContext} {d : Declared}

/-- A directive, if there is one, decides on the visibility. -/
theorem visibility_of_mem_declaredIn {members : List Xml.Element}
    (h : d ∈ declaredIn s place fqn ctx members) :
    d.callable.visibility =
      d.callable.flags.visibility.getD (visibilityOf (d.element.attr? "prot")) := by
  obtain ⟨member, -, ctx, hdeclared⟩ := exists_of_mem_declaredIn h
  obtain ⟨rfl, -, -, result, parameters, location, hcallable⟩ := declared?_inv hdeclared
  exact congrArg Callable.visibility hcallable

/-- A callable is public as it is declared, unless a directive moves it. -/
theorem visibility_eq_pub_iff (h : d.callable.visibility =
    d.callable.flags.visibility.getD (visibilityOf (d.element.attr? "prot"))) :
    (d.callable.visibility = .pub ↔ d.IsExposed) ↔ ¬ d.IsMoved := by
  unfold Declared.IsMoved
  rw [h]
  cases d.callable.flags.visibility with
  | none => simp [d.isExposed_iff]
  | some v => simp

end Reading

/-! ## Shelves and sides -/

variable {short : String} {ds : List Declared} {c : Class}

/-- The hidden shelf is for the callables that are not exposed. -/
theorem Declared.shelf_eq_hidden_iff {d : Declared} (h : d.callable.name ≠ "~" ++ short) :
    d.shelf short = .hidden ↔ ¬ d.IsExposed := by
  unfold shelf
  by_cases hexposed : d.IsExposed
  · rw [if_neg h, if_pos hexposed]
    refine iff_of_false ?_ (not_not_intro hexposed)
    split <;> exact Shelf.noConfusion
  · rw [if_neg fun hconstructor => hexposed hconstructor.2, if_neg h, if_neg hexposed]
    exact iff_of_true rfl hexposed

theorem forall_mem_shelved {shelf : Shelf} {P : Callable → Prop} :
    (∀ f ∈ shelved short shelf ds, P f) ↔ ∀ d ∈ ds, d.shelf short = shelf → P d.callable := by
  rw [shelved, List.forall_mem_map]
  simp only [List.mem_filter, decide_eq_true_eq, and_imp]

/-- What slots hold under each name says which callables are in them, but for casts. -/
theorem forall_holds_iff {slots : Slots} {l : List Callable} {P : Callable → Prop}
    (hP : ∀ f g : Callable, f.uncast = g.uncast → P f → P g)
    (h : ∀ name, slots.heldAt name = (l.filter fun f => f.name = name).map Callable.uncast) :
    (∀ f, slots.Holds f → P f) ↔ ∀ f ∈ l, P f := by
  constructor
  · intro hall f hf
    have hheld : f.uncast ∈ slots.heldAt f.name := by
      rw [h]
      exact List.mem_map_of_mem (List.mem_filter.2 ⟨hf, decide_eq_true rfl⟩)
    cases hslot : slots.get? f.name with
    | none =>
        rw [Slots.heldAt, hslot] at hheld
        cases hheld
    | some slot =>
        -- The slot may hold the callable with another cast.
        rw [Slots.heldAt_of_get?_eq_some hslot] at hheld
        obtain ⟨g, hg, hgf⟩ := List.mem_map.1 hheld
        exact hP g f hgf (hall g ⟨f.name, slot, hslot, hg⟩)
  · rintro hall f ⟨name, slot, hslot, hf⟩
    have hheld : f.uncast ∈ slots.heldAt name := by
      rw [Slots.heldAt_of_get?_eq_some hslot]
      exact List.mem_map_of_mem hf
    rw [h] at hheld
    obtain ⟨g, hg, hgf⟩ := List.mem_map.1 hheld
    exact hP g f hgf (hall g (List.mem_filter.1 hg).1)

/-- The shelves tell visible from hidden callables if every callable is visible as it is declared. -/
theorem Shelves.placedByVisibility_iff (h : Shelves c short ds) :
    PlacedByVisibility c ↔ ∀ d ∈ ds, d.callable.name ≠ "~" ++ short →
      (d.callable.visibility = .pub ↔ d.IsExposed) := by
  have hsides : PlacedByVisibility c ↔
      (∀ f ∈ shelved short .constructors ds, f.visibility = .pub) ∧
        (∀ f ∈ shelved short .methods ds, f.visibility = .pub) ∧
          ∀ f ∈ shelved short .hidden ds, f.visibility ≠ .pub := by
    rw [← h.constructors,
      ← forall_holds_iff (fun _ _ heq hf => (Callable.visibility_eq_of_uncast_eq heq).symm.trans hf)
        h.methods,
      ← forall_holds_iff (fun _ _ heq hf hg => hf ((Callable.visibility_eq_of_uncast_eq heq).trans hg))
        h.hidden]
    exact ⟨fun hc => ⟨hc.constructors, hc.methods, hc.hidden⟩, fun hc => ⟨hc.1, hc.2.1, hc.2.2⟩⟩
  -- Whether a callable is exposed can be read off its shelf, unless it is the destructor.
  have hshelves : (∀ d ∈ ds, d.callable.name ≠ "~" ++ short →
      (d.callable.visibility = .pub ↔ d.IsExposed)) ↔
        ∀ d ∈ ds, d.shelf short ≠ .destructor →
          (d.callable.visibility = .pub ↔ d.shelf short ≠ .hidden) := by
    refine forall₂_congr fun d _ => ?_
    rw [ne_eq, ne_eq, Declared.shelf_eq_destructor_iff]
    refine imp_congr_right fun hname => ?_
    rw [ne_eq, Declared.shelf_eq_hidden_iff hname, not_not]
  rw [hsides, hshelves, forall_mem_shelved, forall_mem_shelved, forall_mem_shelved]
  constructor
  · rintro ⟨hconstructors, hmethods, hhidden⟩ d hd hdestructor
    cases hshelf : d.shelf short with
    | constructors => simpa using hconstructors d hd hshelf
    | destructor => exact absurd hshelf hdestructor
    | methods => simpa using hmethods d hd hshelf
    | hidden => simpa using hhidden d hd hshelf
  · intro hall
    refine ⟨fun d hd hshelf => ?_, fun d hd hshelf => ?_, fun d hd hshelf => ?_⟩ <;>
      simpa [hshelf] using hall d hd

/-! ## Documents of classes -/

/-- The shelves of a class that is read tell visible from hidden callables if and only if no directive that is
known when a callable is read moves it from one side to the other. -/
theorem placedByVisibility_iff_of_addRoot {s : Setting} {x y : Extraction} {root compound : Xml.Element}
    (hcompound : documentedClass? root = some compound)
    (hread : isSkippedClass x.db compound = false) (h : x.addRoot s root = .ok y) :
    (∀ d ∈ declaredCallables s x compound, d.callable.visibility =
        d.callable.flags.visibility.getD (visibilityOf (d.element.attr? "prot"))) ∧
      ∃ c, y.db.classes.get? (compound.childText "compoundname") = some c ∧
        (PlacedByVisibility c ↔ ∀ d ∈ declaredCallables s x compound,
          d.callable.name ≠ "~" ++ shortName compound → ¬ d.IsMoved) := by
  have hvisibility : ∀ d ∈ declaredCallables s x compound, d.callable.visibility =
      d.callable.flags.visibility.getD (visibilityOf (d.element.attr? "prot")) :=
    fun d hd => visibility_of_mem_declaredIn hd
  refine ⟨hvisibility, ?_⟩
  obtain ⟨c, hc, hshelves⟩ := shelves_of_readClass (readClass_of_addRoot hcompound hread h)
  refine ⟨c, hc, ?_⟩
  rw [hshelves.placedByVisibility_iff]
  refine forall₂_congr fun d hd => imp_congr_right fun _ => ?_
  exact visibility_eq_pub_iff (hvisibility d hd)

/-- A member that carries a directive. -/
def taggedElement (directive : String) (member : Xml.Element) : Xml.Element :=
  { member with content := member.content ++ [.element ⟨"detaileddescription", [], [
      .element ⟨"ulink", [("url", "obidog." ++ directive)], []⟩]⟩] }

/-- A class with a private method that a directive makes protected, and with a public one. -/
def sortedDocument : Xml.Element :=
  shapeDocument [
    taggedElement "visibility:protected" (functionElement "private" "s1" "void" "scale"),
    functionElement "public" "s2" "void" "draw"]

theorem placedByVisibility_of_addRoot_sorted : ∃ y c,
    (Extraction.start .empty).addRoot ⟨.empty, "/project"⟩ sortedDocument = .ok y ∧
      y.db.classes.get? "ns::Shape" = some c ∧ PlacedByVisibility c := by
  have haccepted : ((Extraction.start .empty).addRoot ⟨.empty, "/project"⟩ sortedDocument).isOk =
      true := by decide +kernel
  cases hread : (Extraction.start .empty).addRoot ⟨.empty, "/project"⟩ sortedDocument with
  | error fault =>
      rw [hread] at haccepted
      cases haccepted
  | ok y =>
      obtain ⟨-, c, hc, hplaced⟩ :=
        placedByVisibility_iff_of_addRoot rfl (by decide +kernel) hread
      exact ⟨y, c, rfl, hc, hplaced.2 (by decide +kernel)⟩

/-- A class with a public method that a directive makes private. -/
def movedDocument : Xml.Element :=
  shapeDocument [taggedElement "visibility:private" (functionElement "public" "s1" "void" "hide")]

/-- The method stays among the public ones. -/
theorem not_placedByVisibility : ¬ ∀ (s : Setting) (x y : Extraction) (root compound : Xml.Element)
    (c : Class), documentedClass? root = some compound → isSkippedClass x.db compound = false →
      x.addRoot s root = .ok y →
      y.db.classes.get? (compound.childText "compoundname") = some c → PlacedByVisibility c := by
  intro hall
  have hmoved : (((Extraction.start .empty).addRoot ⟨.empty, "/project"⟩ movedDocument).toOption.bind
      fun y => y.db.classes.get? "ns::Shape").any (fun c => (c.methods.get? "hide").any fun slot =>
        slot.callables.any fun f => f.visibility ≠ .pub) = true := by decide +kernel
  cases hread : (Extraction.start .empty).addRoot ⟨.empty, "/project"⟩ movedDocument with
  | error fault =>
      rw [hread] at hmoved
      cases hmoved
  | ok y =>
      rw [hread] at hmoved
      obtain ⟨c, hc, hslot⟩ := (Option.any_eq_true _ _).1 hmoved
      obtain ⟨slot, hget, hcallable⟩ := (Option.any_eq_true _ _).1 hslot
      obtain ⟨f, hf, hhidden⟩ := List.any_eq_true.1 hcallable
      have hplaced := hall _ _ y movedDocument _ c rfl (by decide +kernel) hread hc
      exact of_decide_eq_true hhidden (hplaced.methods f ⟨"hide", slot, hget, hf⟩)

end Compound

end ScriptBindings
