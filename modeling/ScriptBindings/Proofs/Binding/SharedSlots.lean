import Mathlib
import ScriptBindings.Proofs.Binding.Planning
import ScriptBindings.Proofs.Entity.Grouping

/-!
# Callables that share a slot

How a callable is bound depends on the others of its slot in one way only: where there are others, its address
is cast.  So it does not matter for a plan which of the callables of a group the need of a cast is noted in, and
a placeholder does the same to the plan wherever it comes in.
-/

namespace ScriptBindings

open Slot

namespace Binding

variable {db : Database} {slot slot' : Slot} {items moved : List Slot}

/-! ## What a plan depends on -/

/-- That a callable has to be cast and that it shares its slot come to the same. -/
theorem strategyOf_uncast (db : Database) (f : Callable) (overloaded : Bool) :
    strategyOf db f overloaded = strategyOf db f.uncast (overloaded || f.forceCast) := by
  unfold strategyOf boundStrategy
  simp only [Callable.uncast, Bool.or_false]
  rfl

/-- The callables of a slot count for as much as the slot itself: it is cast where one of them has to be. -/
def CastsAll (slot : Slot) : Prop :=
  ∀ f ∈ slot.callables, f.forceCast = true → isOverloaded slot = true

theorem boundCallables_eq_held (db : Database) (h : CastsAll slot) : boundCallables db slot =
    slot.held.filterMap fun f => (BindKey.ofCallable? f).bind fun key =>
      if (strategyOf db f (isOverloaded slot)).isDeleted then none
      else some (key, strategyOf db f (isOverloaded slot)) := by
  have hstrategy : ∀ f ∈ slot.callables,
      strategyOf db f (isOverloaded slot) = strategyOf db f.uncast (isOverloaded slot) := by
    intro f hf
    rw [strategyOf_uncast]
    cases hcast : f.forceCast with
    | false => rw [Bool.or_false]
    | true => rw [h f hf hcast, Bool.or_true]
  rw [Slot.held, List.filterMap_map]
  refine List.filterMap_congr fun f hf => ?_
  rw [Function.comp_apply, ← hstrategy f hf]
  rfl

/-- Slots that hold the same callables, are cast alike and are properties alike have the same plan. -/
theorem planSlot_congr (db : Database) (h : CastsAll slot) (h' : CastsAll slot')
    (hheld : slot'.held = slot.held) (hcast : isOverloaded slot' = isOverloaded slot)
    (hproperty : slot'.flags?.any (·.asProperty) = slot.flags?.any (·.asProperty)) :
    planSlot db slot' = planSlot db slot := by
  have hbound : boundCallables db slot' = boundCallables db slot := by
    rw [boundCallables_eq_held db h, boundCallables_eq_held db h', hheld, hcast]
  unfold planSlot
  rw [hbound, hproperty]

/-! ## Grouped slots -/

theorem isOverloaded_overload {g : OverloadGroup} (h : 1 < g.overloads.length) :
    isOverloaded (.overload g) = true := by
  rw [isOverloaded, Bool.or_eq_true]
  exact Or.inl (decide_eq_true h)

theorem isOverloaded_concrete (f : Callable) : isOverloaded (.concrete f) = f.forceCast := by
  rw [isOverloaded]
  rfl

/-- Grouped slots have the same plan if they are made of the same callables, and of placeholders or not. -/
theorem planSlot_eq_of_grouped (db : Database) (h : Grouped items slot) (h' : Grouped moved slot')
    (hcallables : callablesOf moved = callablesOf items)
    (hany : moved.any isPlaceholder = items.any isPlaceholder) :
    planSlot db slot' = planSlot db slot := by
  have hheld : slot'.held = slot.held := by rw [h.held_eq, h'.held_eq, hcallables]
  cases h with
  | placeholder hnone hfirst =>
      cases h' with
      | placeholder _ _ => rfl
      | concrete hone => simp [hcallables, hnone] at hone
      | overload hmany _ _ _ _ _ _ => simp [hcallables, hnone] at hmany
  | @concrete f hone =>
      cases h' with
      | placeholder hnone _ => simp [hcallables, hone] at hnone
      | @concrete f' hone' =>
          obtain rfl : f = f' := by simpa [hcallables, hone] using hone'
          rw [hany]
      | overload hmany _ _ _ _ _ _ => simp [hcallables, hone] at hmany
  | @overload first second rest g hmany hgroup _ _ _ hflags _ =>
      cases h' with
      | placeholder hnone _ => simp [hcallables, hmany] at hnone
      | concrete hone => simp [hcallables, hmany] at hone
      | @overload first' second' rest' g' hmany' hgroup' _ _ _ hflags' _ =>
          -- There are several callables in both groups, so that all of them are cast.
          have hlength := congrArg List.length hgroup
          have hlength' := congrArg List.length hgroup'
          rw [List.length_map, List.length_map, hmany] at hlength
          rw [List.length_map, List.length_map, hmany'] at hlength'
          have hcast := isOverloaded_overload (g := g) (by rw [hlength]; simp)
          have hcast' := isOverloaded_overload (g := g') (by rw [hlength']; simp)
          obtain ⟨rfl, -⟩ := List.cons.inj (hmany'.symm.trans (hcallables.trans hmany))
          refine planSlot_congr db (fun _ _ _ => hcast) (fun _ _ _ => hcast') hheld
            (hcast'.trans hcast.symm) ?_
          simp only [Slot.flags?, hflags, hflags']

/-- A grouped slot that holds a callable is not cast if and only if it is made of that callable alone. -/
theorem isOverloaded_eq_false_iff (h : Grouped items slot) (hsingle : ∀ t ∈ items, t.IsSingle)
    (hsome : callablesOf items ≠ []) :
    isOverloaded slot = false ↔ ∃ g, items = [.concrete g] ∧ g.forceCast = false := by
  cases h with
  | placeholder hnone _ => exact absurd hnone hsome
  | @concrete f hone =>
      rw [isOverloaded_concrete, Bool.or_eq_false_iff]
      constructor
      -- Without placeholders there is nothing but callables, and this is the only one.
      · rintro ⟨hcast, hany⟩
        have hitems := eq_map_concrete hsingle hany
        rw [hone, List.map_singleton] at hitems
        exact ⟨f, hitems, hcast⟩
      · rintro ⟨g, rfl, hcast⟩
        obtain rfl : g = f := by simpa [callablesOf, callables] using hone
        exact ⟨hcast, rfl⟩
  | @overload first second rest g hmany hheld _ _ _ _ _ =>
      have hlength := congrArg List.length hheld
      rw [List.length_map, List.length_map, hmany] at hlength
      refine iff_of_false ?_ ?_
      · rw [isOverloaded_overload (by rw [hlength]; simp)]
        exact Bool.true_eq_false.mp
      · rintro ⟨g', rfl, -⟩
        simp [callablesOf, callables] at hmany

end Binding

namespace Slots

open Binding

variable {slots : Slots} {key : String} {items : List Slot}

theorem get?_addAll_same (slots : Slots) (key : String) (items : List Slot) (hfree : slots.get? key = none) :
    (slots.addAll (items.map fun s => (key, s))).get? key = joined? items := by
  have hall : (items.map fun s => (key, s)).filter (fun e => e.1 = key) = items.map fun s => (key, s) :=
    List.filter_eq_self.2 fun e he => by
      obtain ⟨s, -, rfl⟩ := List.mem_map.1 he
      exact decide_eq_true rfl
  rw [get?_addAll, hfree, hall, List.map_map]
  exact congrArg joined? (List.map_id _)

theorem get?_addAll_other {other : String} (hne : other ≠ key) (slots : Slots) (items : List Slot) :
    (slots.addAll (items.map fun s => (key, s))).get? other = slots.get? other := by
  have hnone : (items.map fun s => (key, s)).filter (fun e => e.1 = other) = [] :=
    List.filter_eq_nil_iff.2 fun e he => by
      obtain ⟨s, -, rfl⟩ := List.mem_map.1 he
      simpa using Ne.symm hne
  rw [get?_addAll, hnone, List.map_nil, List.append_nil, joined?_toList]

/-- Slots that are no groups and need no cast of their own are added under a free key.  The slot holds their
callables in their order, and it is the first placeholder, the callable, or a group with the data of the first
callable.  It has to be cast exactly if there are callables as well as placeholders, no other key is touched, and
where the placeholders stand among the callables makes no difference to the plan. -/
theorem addAll_grouped (slots : Slots) (key : String) (items : List Slot) (hfree : slots.get? key = none)
    (hsingle : ∀ s ∈ items, s.IsSingle) (hunset : ∀ s ∈ items, s.forceCast = false) :
    (∀ other, other ≠ key →
        (slots.addAll (items.map fun s => (key, s))).get? other = slots.get? other) ∧
      (items = [] → (slots.addAll (items.map fun s => (key, s))).get? key = none) ∧
      (items ≠ [] → ∃ s, (slots.addAll (items.map fun s => (key, s))).get? key = some s ∧
        s.held = (callablesOf items).map Callable.uncast ∧ Grouped items s ∧
          (s.forceCast = true ↔
            (∃ p, Slot.placeholder p ∈ items) ∧ ∃ f, Slot.concrete f ∈ items)) ∧
      ∀ moved : List Slot, moved.Perm items → callablesOf moved = callablesOf items → ∀ db,
        ((slots.addAll (moved.map fun s => (key, s))).get? key).map (planSlot db) =
          ((slots.addAll (items.map fun s => (key, s))).get? key).map (planSlot db) := by
  refine ⟨fun other hne => get?_addAll_other hne slots items, ?_, fun hsome => ?_,
    fun moved hperm hcallables db => ?_⟩
  · rintro rfl
    exact hfree
  · obtain ⟨s, hs⟩ := exists_joined? hsome
    have hgrouped := grouped_of_joined? hsingle hs
    exact ⟨s, (get?_addAll_same slots key items hfree).trans hs, hgrouped.held_eq, hgrouped,
      hgrouped.forceCast_iff hsingle hunset⟩
  · rw [get?_addAll_same slots key moved hfree, get?_addAll_same slots key items hfree]
    rcases eq_or_ne items [] with rfl | hsome
    · rw [hperm.eq_nil]
    · have hmoved : moved ≠ [] := fun hnil => hsome (hnil ▸ hperm).symm.eq_nil
      obtain ⟨s, hs⟩ := exists_joined? hsome
      obtain ⟨s', hs'⟩ := exists_joined? hmoved
      have hgrouped := grouped_of_joined? hsingle hs
      have hgrouped' := grouped_of_joined? (fun t ht => hsingle t (hperm.mem_iff.1 ht)) hs'
      have hany : moved.any isPlaceholder = items.any isPlaceholder := hperm.any_eq
      rw [hs, hs', Option.map_some, Option.map_some,
        planSlot_eq_of_grouped db hgrouped hgrouped' hcallables hany]

/-- A declaration that could not be read. -/
def unreadScale : Slot :=
  .placeholder { name := "scale", scope := "ns", reason := "brackets" }

/-- The same name with one parameter of a type. -/
def scaleOf (type : String) : Slot :=
  .concrete { name := "scale", scope := "ns", params := [{ name := "x", ty := .named type }] }

theorem addAll_grouped_scale : (∀ s ∈ [scaleOf "int", unreadScale, scaleOf "float"], s.IsSingle) ∧
    ∃ s, (addAll .empty ([scaleOf "int", unreadScale, scaleOf "float"].map fun s =>
        ("ns::scale", s))).get? "ns::scale" = some s ∧
      s.forceCast = true ∧ s.held.length = 2 ∧ ∀ db,
        ((addAll .empty ([scaleOf "int", scaleOf "float", unreadScale].map fun s =>
            ("ns::scale", s))).get? "ns::scale").map (planSlot db) = some (planSlot db s) := by
  have hsingle : ∀ s ∈ [scaleOf "int", unreadScale, scaleOf "float"], s.IsSingle := by
    simp [scaleOf, unreadScale, IsSingle]
  have hunset : ∀ s ∈ [scaleOf "int", unreadScale, scaleOf "float"], s.forceCast = false := by
    simp [scaleOf, unreadScale, Slot.forceCast]
  obtain ⟨-, -, hslot, hmoved⟩ := addAll_grouped .empty "ns::scale" _ rfl hsingle hunset
  obtain ⟨s, hs, hheld, -, hcast⟩ := hslot (List.cons_ne_nil _ _)
  refine ⟨hsingle, s, hs, hcast.2 ⟨⟨_, List.mem_cons_of_mem _ List.mem_cons_self⟩, _,
    List.mem_cons_self⟩, by rw [hheld]; rfl, fun db => ?_⟩
  have hplan := hmoved [scaleOf "int", scaleOf "float", unreadScale] (.cons _ (.swap _ _ _)) rfl db
  rw [hs] at hplan
  exact hplan

end Slots

end ScriptBindings
