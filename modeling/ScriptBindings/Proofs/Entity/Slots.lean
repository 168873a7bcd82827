import Mathlib
import ScriptBindings.Entity.Slot
import ScriptBindings.Proofs.Dict

/-!
# What slots hold

A joined slot holds the callables of both slots, in their order; all that joining changes about a callable
is whether it has to be cast.  So adding to slots loses nothing, while inserting loses what the key held.
-/

namespace ScriptBindings

/-- A callable, regardless of whether it has to be cast. -/
def Callable.uncast (f : Callable) : Callable :=
  { f with forceCast := false }

namespace Slot

/-- A slot as it is read from one member: no group. -/
def IsSingle : Slot → Prop
  | .overload _ => False
  | _ => True

/-- The callables of a slot, regardless of whether they have to be cast. -/
def held (s : Slot) : List Callable :=
  s.callables.map Callable.uncast

/-- A joined slot holds the callables of both. -/
@[simp]
theorem held_join (a b : Slot) : (a.join b).held = a.held ++ b.held := by
  cases a with
  | concrete f =>
      cases b with
      | concrete g => rfl
      | overload g => rfl
      | placeholder p => rfl
  | overload g =>
      cases b with
      | concrete f => simp [join, held, callables]
      | overload h => simp [join, held, callables]
      | placeholder p => exact (List.append_nil _).symm
  | placeholder p =>
      cases b with
      | concrete f => rfl
      | overload g => rfl
      | placeholder q => rfl

end Slot

namespace Slots

variable {slots : Slots} {key other : String} {s : Slot}

/-- The callables that are held under a key. -/
def heldAt (slots : Slots) (key : String) : List Callable :=
  ((slots.get? key).map Slot.held).getD []

/-- All callables that are held, key by key. -/
def held (slots : Slots) : List Callable :=
  slots.gather fun _ => Slot.held

theorem heldAt_of_get?_eq_some (h : slots.get? key = some s) : slots.heldAt key = s.held := by
  rw [heldAt, h]
  rfl

theorem heldAt_insert (slots : Slots) (key other : String) (s : Slot) :
    heldAt (slots.insert key s) other = if other = key then s.held else slots.heldAt other := by
  unfold heldAt
  rw [Dict.get?_insert]
  split <;> rfl

theorem heldAt_add (slots : Slots) (key other : String) (s : Slot) :
    (slots.add key s).heldAt other = slots.heldAt other ++ if other = key then s.held else [] := by
  unfold Slots.add
  cases hget : slots.get? key with
  | none =>
      rw [heldAt_insert]
      split
      · rename_i heq
        rw [heq, heldAt, hget]
        rfl
      · rw [List.append_nil]
  | some present =>
      rw [heldAt_insert]
      split
      · rename_i heq
        rw [heq, heldAt_of_get?_eq_some hget, Slot.held_join]
      · rw [List.append_nil]

/-- An insertion loses what the key held. -/
theorem count_held_insert (slots : Slots) (key : String) (s : Slot) (f : Callable) :
    (held (slots.insert key s)).count f + (slots.heldAt key).count f =
      s.held.count f + slots.held.count f := by
  have hsum := Dict.count_gather_insert (fun _ => Slot.held) f slots key s
  unfold held heldAt
  rw [← hsum]
  cases slots.get? key <;> rfl

/-- An addition loses nothing. -/
theorem count_held_add (slots : Slots) (key : String) (s : Slot) (f : Callable) :
    (slots.add key s).held.count f = s.held.count f + slots.held.count f := by
  unfold Slots.add
  cases hget : slots.get? key with
  | none =>
      have hsum := count_held_insert slots key s f
      rw [heldAt, hget] at hsum
      exact hsum
  | some present =>
      have hsum := count_held_insert slots key (present.join s) f
      rw [heldAt_of_get?_eq_some hget, Slot.held_join, List.count_append] at hsum
      simp only
      omega

/-! ## Adding several slots -/

/-- Add slots under their keys, from left to right. -/
def addAll (slots : Slots) (l : List (String × Slot)) : Slots :=
  l.foldl (fun slots e => slots.add e.1 e.2) slots

theorem count_held_addAll (slots : Slots) (l : List (String × Slot)) (f : Callable) :
    (slots.addAll l).held.count f = (l.flatMap fun e => e.2.held).count f + slots.held.count f := by
  induction l generalizing slots with
  | nil => simp [addAll]
  | cons e l ih =>
      have hrest := ih (slots.add e.1 e.2)
      rw [count_held_add] at hrest
      rw [List.flatMap_cons, List.count_append]
      exact hrest.trans (by omega)

theorem heldAt_addAll (slots : Slots) (l : List (String × Slot)) (key : String) :
    (slots.addAll l).heldAt key =
      slots.heldAt key ++ (l.filter fun e => e.1 = key).flatMap fun e => e.2.held := by
  induction l generalizing slots with
  | nil => simp [addAll]
  | cons e l ih =>
      have hrest := ih (slots.add e.1 e.2)
      rw [heldAt_add, List.append_assoc] at hrest
      refine hrest.trans ?_
      by_cases heq : e.1 = key
      · rw [if_pos heq.symm, List.filter_cons_of_pos (by simpa using heq), List.flatMap_cons]
      · rw [if_neg fun h => heq h.symm, List.filter_cons_of_neg (by simpa using heq),
          List.nil_append]

end Slots

end ScriptBindings
