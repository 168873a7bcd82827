import Mathlib
import ScriptBindings.Resolve.Template
import ScriptBindings.Proofs.Resolve.Specialisation

/-!
# Where templates have been replaced

The template passes leave class templates without hints only, which are marked as not to be bound, and
slots without templates.  Where nothing else is found, the passes have nothing to do.
-/

namespace ScriptBindings

namespace Resolve

variable {db : Database} {key : String} {c t : Class} {slots : Slots} {s : Slot}
  {keyFor : Callable → String → String}

/-! ## Slots -/

/-- No slot holds a template. -/
def NoTemplates (slots : Slots) : Prop :=
  ∀ key s, slots.get? key = some s → hasTemplate s = false

theorem hasTemplate_eq_held (s : Slot) : hasTemplate s = s.held.any (·.isTemplate) := by
  rw [hasTemplate, Slot.held, List.any_map]
  rfl

theorem hasTemplate_join (a b : Slot) : hasTemplate (a.join b) = (hasTemplate a || hasTemplate b) := by
  rw [hasTemplate_eq_held, Slot.held_join, List.any_append, ← hasTemplate_eq_held, ← hasTemplate_eq_held]

theorem noTemplates_empty : NoTemplates .empty := by
  intro key s h
  rw [Dict.get?_empty] at h
  cases h

theorem NoTemplates.insert (h : NoTemplates slots) (key : String) (hs : hasTemplate s = false) :
    NoTemplates (slots.insert key s) := by
  intro other s' hget
  rw [Dict.get?_insert] at hget
  split at hget
  · rw [← Option.some.inj hget]
    exact hs
  · exact h other s' hget

theorem NoTemplates.add (h : NoTemplates slots) (key : String) (hs : hasTemplate s = false) :
    NoTemplates (slots.add key s) := by
  unfold Slots.add
  cases hget : slots.get? key with
  | none => exact h.insert key hs
  | some present => exact h.insert key (by rw [hasTemplate_join, h key present hget, hs]; rfl)

theorem NoTemplates.addAll {l : List (String × Slot)} (h : NoTemplates slots)
    (hl : ∀ e ∈ l, hasTemplate e.2 = false) : NoTemplates (slots.addAll l) := by
  induction l generalizing slots with
  | nil => exact h
  | cons e l ih =>
      exact ih (h.add e.1 (hl e List.mem_cons_self)) fun d hd => hl d (List.mem_cons_of_mem _ hd)

/-- What replaces a callable is no template. -/
theorem hasTemplate_expandCallable {forceCast : Bool} {f : Callable} {e : String × Slot}
    (he : e ∈ expandCallable keyFor key forceCast f) : hasTemplate e.2 = false := by
  unfold expandCallable at he
  split at he
  · rename_i hplain
    obtain rfl := List.mem_singleton.1 he
    simpa [hasTemplate, Slot.callables] using hplain
  · split at he
    · obtain rfl := List.mem_singleton.1 he
      rfl
    · obtain ⟨hint, -, he⟩ := List.mem_flatMap.1 he
      obtain ⟨b, -, rfl⟩ := List.mem_map.1 he
      rfl

theorem NoTemplates.rebuildSlot (h : NoTemplates slots) (e : String × Slot) :
    NoTemplates (rebuildSlot keyFor slots e) := by
  obtain ⟨key, s⟩ := e
  cases hs : hasTemplate s with
  | false =>
      rw [rebuildSlot_of_not_hasTemplate hs]
      exact h.insert key hs
  | true =>
      rw [rebuildSlot_of_hasTemplate hs]
      refine h.addAll fun e he => ?_
      obtain ⟨f, -, he⟩ := List.mem_flatMap.1 he
      exact hasTemplate_expandCallable he

theorem noTemplates_specialiseSlots (keyFor : Callable → String → String) (slots : Slots) :
    NoTemplates (specialiseSlots keyFor slots) := by
  have hfold : ∀ (l : List (String × Slot)) (out : Slots), NoTemplates out →
      NoTemplates (l.foldl (rebuildSlot keyFor) out) := by
    intro l
    induction l with
    | nil => exact fun _ h => h
    | cons e l ih => exact fun out h => ih _ (h.rebuildSlot e)
  exact hfold slots.entries .empty noTemplates_empty

/-- Slots without templates are taken over as they are. -/
theorem specialiseSlots_of_noTemplates (h : NoTemplates slots) : specialiseSlots keyFor slots = slots := by
  have hfold : ∀ (l : List (String × Slot)) (out : Slots), (∀ e ∈ l, hasTemplate e.2 = false) →
      l.foldl (rebuildSlot keyFor) out = out.insertAll l := by
    intro l
    induction l with
    | nil => exact fun _ _ => rfl
    | cons e l ih =>
        intro out hl
        rw [List.foldl_cons, rebuildSlot_of_not_hasTemplate (hl e List.mem_cons_self),
          ih _ fun d hd => hl d (List.mem_cons_of_mem _ hd)]
        rfl
  rw [specialiseSlots, hfold _ _ fun e he => h e.1 e.2 (Dict.get?_eq_some_iff.2 he)]
  exact Dict.ofList_entries slots

/-! ## Classes -/

/-- What holds of all classes of a database, does not depend on whether a template is bound, and passes
from a template to its specialisations holds once class templates are replaced. -/
theorem forall_specialiseClasses {P : String → Class → Prop}
    (hunbound : ∀ key t, P key t → P key (unboundTemplate t))
    (hspec : ∀ key t c, P key t → c ∈ specialisations t → P c.fqn c)
    (h : ∀ key c, db.classes.get? key = some c → P key c)
    (hc : (specialiseClasses db).classes.get? key = some c) : P key c := by
  have hfold : ∀ (l : List String) (state : Dict Class × Merges),
      (∀ key c, state.1.get? key = some c → P key c) →
        ∀ key c, (l.foldl replaceTemplate state).1.get? key = some c → P key c := by
    intro l
    induction l with
    | nil => exact fun _ h => h
    | cons other l ih =>
        intro state hstate
        refine ih _ fun key c hc => ?_
        rcases get?_replaceTemplate hc with ⟨-, hkept⟩ | ⟨t, ht, ⟨-, rfl, rfl⟩ | ⟨hmem, rfl⟩⟩
        · exact hstate key c hkept
        · exact hunbound key t (hstate key t ht)
        · exact hspec other t c (hstate other t ht) hmem
  exact hfold (templateKeys db) (db.classes, .empty) h key c hc

/-- No template, or one without hints that is not bound. -/
def Exhausted (c : Class) : Prop :=
  c.isTemplate = true → c.flags.templateHints = [] ∧ c.flags.noBind = true

theorem isTemplate_of_mem_specialisations (h : c ∈ specialisations t) : c.isTemplate = false := by
  obtain ⟨hint, -, hc⟩ := List.mem_flatMap.1 h
  obtain ⟨b, -, rfl⟩ := List.mem_map.1 hc
  rfl

theorem mem_templateKeys_iff : key ∈ templateKeys db ↔
    ∃ t, db.classes.get? key = some t ∧ t.isTemplate = true := by
  refine ⟨fun h => ?_, fun ⟨t, ht, htemplate⟩ => ?_⟩
  · obtain ⟨e, he, rfl⟩ := List.mem_map.1 h
    obtain ⟨hmem, htemplate⟩ := List.mem_filter.1 he
    exact ⟨e.2, Dict.get?_eq_some_iff.2 hmem, htemplate⟩
  · exact List.mem_map.2 ⟨(key, t), List.mem_filter.2 ⟨Dict.get?_eq_some_iff.1 ht, htemplate⟩, rfl⟩

/-- The replacement of class templates leaves none with hints. -/
theorem exhausted_specialiseClasses (hc : (specialiseClasses db).classes.get? key = some c) :
    Exhausted c := by
  -- Templates that are not exhausted are still to come.
  have hfold : ∀ (l : List String) (state : Dict Class × Merges),
      (∀ key c, state.1.get? key = some c → key ∈ l ∨ Exhausted c) →
        ∀ key c, (l.foldl replaceTemplate state).1.get? key = some c → Exhausted c := by
    intro l
    induction l with
    | nil => exact fun _ h key c hc => (h key c hc).resolve_left List.not_mem_nil
    | cons other l ih =>
        intro state hstate
        refine ih _ fun key c hc => ?_
        rcases get?_replaceTemplate hc with ⟨hne, hkept⟩ | ⟨t, -, ⟨hnone, -, rfl⟩ | ⟨hmem, -⟩⟩
        · rcases hstate key c hkept with hmem | hdone
          · exact Or.inl ((List.mem_cons.1 hmem).resolve_left hne)
          · exact Or.inr hdone
        · exact Or.inr fun _ => ⟨hnone, rfl⟩
        · refine Or.inr fun htemplate => ?_
          rw [isTemplate_of_mem_specialisations hmem] at htemplate
          cases htemplate
  refine hfold (templateKeys db) (db.classes, .empty) (fun key c hget => ?_) key c hc
  cases htemplate : c.isTemplate with
  | true => exact Or.inl (mem_templateKeys_iff.2 ⟨c, hget, htemplate⟩)
  | false => exact Or.inr fun h => absurd (htemplate.symm.trans h) Bool.false_ne_true

theorem unboundTemplate_eq_self (h : t.flags.noBind = true) : unboundTemplate t = t := by
  unfold unboundTemplate
  rw [← h]

theorem replaceTemplate_of_exhausted {state : Dict Class × Merges}
    (h : ∀ t, state.1.get? key = some t → t.flags.templateHints = [] ∧ t.flags.noBind = true) :
    replaceTemplate state key = state := by
  unfold replaceTemplate
  cases hget : state.1.get? key with
  | none => rfl
  | some t =>
      obtain ⟨hnone, hbind⟩ := h t hget
      have hsame : (state.1.erase key).insert key t = state.1 := by
        ext1 other
        rw [Dict.get?_insert, Dict.get?_erase]
        split
        · rename_i heq
          rw [heq, hget]
        · rfl
      simp only
      rw [if_pos hnone, unboundTemplate_eq_self hbind, hsame]

/-- Where every class is exhausted no class template is replaced. -/
theorem specialiseClasses_of_exhausted (h : ∀ key c, db.classes.get? key = some c → Exhausted c) :
    specialiseClasses db = db := by
  have hfold : ∀ l : List String, (∀ key ∈ l, key ∈ templateKeys db) →
      l.foldl replaceTemplate (db.classes, .empty) = (db.classes, .empty) := by
    intro l
    induction l with
    | nil => exact fun _ => rfl
    | cons key l ih =>
        intro hl
        rw [List.foldl_cons, replaceTemplate_of_exhausted fun t ht =>
            h key t ht (isTemplate_of_mem_templateKeys (hl key List.mem_cons_self) ht)]
        exact ih fun k hk => hl k (List.mem_cons_of_mem _ hk)
  have hstate := hfold (templateKeys db) fun _ h => h
  rw [specialiseClasses_eq, mergedFunctions, hstate]
  rfl

/-! ## Both passes -/

/-- Nothing in the database is left for the template passes to do. -/
structure Untemplated (db : Database) : Prop where
  classes : ∀ key c, db.classes.get? key = some c → Exhausted c
  functions : NoTemplates db.functions
  methods : ∀ key c, db.classes.get? key = some c → NoTemplates c.methods

theorem untemplated_specialise (db : Database) : Untemplated (specialise db) where
  classes := by
    intro key c hc
    rw [get?_classes_specialise] at hc
    obtain ⟨d, hd, rfl⟩ := Option.map_eq_some_iff.1 hc
    have hexhausted : Exhausted d := exhausted_specialiseClasses hd
    exact hexhausted
  functions := noTemplates_specialiseSlots functionKey _
  methods := by
    intro key c hc
    rw [get?_classes_specialise] at hc
    obtain ⟨d, -, rfl⟩ := Option.map_eq_some_iff.1 hc
    exact noTemplates_specialiseSlots methodKey d.methods

/-- The template passes leave a database alone in which they have nothing to do. -/
theorem Untemplated.specialise_eq_self (h : Untemplated db) : specialise db = db := by
  have hclasses : (db.classes.map fun _ c =>
      { c with methods := specialiseSlots methodKey c.methods }) = db.classes := by
    ext1 key
    rw [Dict.get?_map]
    cases hget : db.classes.get? key with
    | none => rfl
    | some c =>
        rw [Option.map_some, specialiseSlots_of_noTemplates (h.methods key c hget)]
  have hfunctions : specialiseSlots functionKey db.functions = db.functions :=
    specialiseSlots_of_noTemplates h.functions
  unfold specialise
  rw [specialiseClasses_of_exhausted h.classes]
  exact (congrArg₂ (fun functions classes => { db with functions := functions, classes := classes })
    hfunctions hclasses)

end Resolve

end ScriptBindings
