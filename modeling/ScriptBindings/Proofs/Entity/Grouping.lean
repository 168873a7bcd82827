import Mathlib
import ScriptBindings.Proofs.Entity.Slots

/-!
# Slots joined in a row

What members are read as joins the slot of its name one after the other.  The callables stay in the order in
which they come, and the first of them gives a group its name, its place and its flags.  A placeholder leaves
nothing behind but the need of a cast, wherever it stands.  The need is noted in the callable as long as there
is only one, and moves into the group with the second one.
-/

namespace ScriptBindings

namespace Slot

variable {items : List Slot} {s t : Slot}

/-- What slots make if each of them joins those in front of it. -/
def joined? : List Slot → Option Slot
  | [] => none
  | first :: rest => some (rest.foldl join first)

/-- The callables of some slots, from the first slot to the last. -/
def callablesOf (items : List Slot) : List Callable :=
  items.flatMap callables

/-- No callable could be read. -/
def isPlaceholder : Slot → Bool
  | .placeholder _ => true
  | _ => false

/-- What slots that are no groups make in a row: the first placeholder if there is no callable, a single
callable, or a group with the data of its first callable.  It has to be cast if its first callable has to be,
or if there is a placeholder among the slots. -/
inductive Grouped (items : List Slot) : Slot → Prop
  | placeholder {p : Placeholder} (hnone : callablesOf items = [])
      (hfirst : items.head? = some (.placeholder p)) : Grouped items (.placeholder p)
  | concrete {f : Callable} (hone : callablesOf items = [f]) :
      Grouped items (.concrete { f with forceCast := f.forceCast || items.any isPlaceholder })
  | overload {first second : Callable} {rest : List Callable} {g : OverloadGroup}
      (hmany : callablesOf items = first :: second :: rest)
      (hheld : g.overloads.map Callable.uncast = (callablesOf items).map Callable.uncast)
      (hname : g.name = first.name) (hscope : g.scope = first.scope) (howner : g.owner = first.owner)
      (hflags : g.flags = first.flags)
      (hcast : g.forceCast = (first.forceCast || items.any isPlaceholder)) : Grouped items (.overload g)

/-! ## Joining one more slot -/

theorem joined?_toList (o : Option Slot) : joined? o.toList = o := by
  cases o <;> rfl

/-- What was joined before counts as one slot. -/
theorem joined?_joined?_append (items more : List Slot) :
    joined? ((joined? items).toList ++ more) = joined? (items ++ more) := by
  cases items with
  | nil => rfl
  | cons first rest =>
      rw [List.cons_append, joined?, joined?, List.foldl_append]
      rfl

theorem joined?_concat (items : List Slot) (s : Slot) :
    joined? (items ++ [s]) = some (((joined? items).map fun present => present.join s).getD s) := by
  cases items with
  | nil => rfl
  | cons first rest =>
      rw [List.cons_append, joined?, List.foldl_append]
      rfl

@[simp]
theorem callablesOf_concat (items : List Slot) (s : Slot) :
    callablesOf (items ++ [s]) = callablesOf items ++ s.callables := by
  rw [callablesOf, List.flatMap_append, List.flatMap_singleton]
  rfl

@[simp]
theorem any_isPlaceholder_concat (items : List Slot) (s : Slot) :
    (items ++ [s]).any isPlaceholder = (items.any isPlaceholder || s.isPlaceholder) := by
  rw [List.any_append, List.any_cons, List.any_nil, Bool.or_false]

theorem grouped_singleton (hs : s.IsSingle) : Grouped [s] s := by
  cases s with
  | concrete f =>
      have hgrouped := Grouped.concrete (rfl : callablesOf [.concrete f] = [f])
      have hnone : [Slot.concrete f].any isPlaceholder = false := rfl
      rw [hnone, Bool.or_false] at hgrouped
      exact hgrouped
  | overload g => exact hs.elim
  | placeholder p => exact .placeholder rfl rfl

/-- One more callable goes to the end. -/
theorem Grouped.join_concrete (h : Grouped items s) (next : Callable) :
    Grouped (items ++ [.concrete next]) (s.join (.concrete next)) := by
  cases h with
  | placeholder hnone hfirst =>
      -- A placeholder is among the slots, so the callable has to be cast.
      have hany : items.any isPlaceholder = true :=
        List.any_eq_true.2 ⟨_, List.mem_of_mem_head? hfirst, rfl⟩
      have hone : callablesOf (items ++ [.concrete next]) = [next] := by
        rw [callablesOf_concat, hnone]
        rfl
      have hgrouped := Grouped.concrete hone
      rw [any_isPlaceholder_concat, hany, Bool.true_or, Bool.or_true] at hgrouped
      exact hgrouped
  | @concrete f hone =>
      have hmany : callablesOf (items ++ [.concrete next]) = [f, next] := by
        rw [callablesOf_concat, hone]
        rfl
      refine .overload hmany (by rw [hmany]; rfl) rfl rfl rfl rfl ?_
      rw [any_isPlaceholder_concat]
      simp [pair, isPlaceholder]
  | @overload first second rest g hmany hheld hname hscope howner hflags hcast =>
      have hmore : callablesOf (items ++ [.concrete next]) = first :: second :: (rest ++ [next]) := by
        rw [callablesOf_concat, hmany]
        rfl
      refine .overload hmore ?_ hname hscope howner hflags ?_
      · rw [callablesOf_concat, List.map_append, List.map_append, hheld]
        rfl
      · rw [any_isPlaceholder_concat]
        simp [hcast, isPlaceholder]

/-- One more placeholder adds no callable, and asks for a cast. -/
theorem Grouped.join_placeholder (h : Grouped items s) (q : Placeholder) :
    Grouped (items ++ [.placeholder q]) (s.join (.placeholder q)) := by
  have hsame : callablesOf (items ++ [.placeholder q]) = callablesOf items := by
    rw [callablesOf_concat]
    exact List.append_nil _
  have hany : (items ++ [Slot.placeholder q]).any isPlaceholder = true := by
    rw [any_isPlaceholder_concat]
    exact Bool.or_true _
  cases h with
  | placeholder hnone hfirst =>
      refine .placeholder (hsame.trans hnone) ?_
      rw [List.head?_append, hfirst]
      rfl
  | concrete hone =>
      have hgrouped := Grouped.concrete (hsame.trans hone)
      rw [hany, Bool.or_true] at hgrouped
      exact hgrouped
  | overload hmany hheld hname hscope howner hflags hcast =>
      refine .overload (hsame.trans hmany) (by rw [hsame]; exact hheld) hname hscope howner hflags ?_
      rw [hany, Bool.or_true]

theorem Grouped.join (h : Grouped items s) (ht : t.IsSingle) : Grouped (items ++ [t]) (s.join t) := by
  cases t with
  | concrete next => exact h.join_concrete next
  | overload g => exact ht.elim
  | placeholder q => exact h.join_placeholder q

/-- What single slots make in a row is grouped. -/
theorem grouped_of_joined? (hsingle : ∀ t ∈ items, t.IsSingle) (h : joined? items = some s) :
    Grouped items s := by
  induction items using List.reverseRecOn generalizing s with
  | nil => cases h
  | append_singleton items t ih =>
      have ht : t.IsSingle := hsingle t (by simp)
      rw [joined?_concat] at h
      obtain rfl := Option.some.inj h
      cases hfront : joined? items with
      | none =>
          obtain rfl : items = [] := by
            cases items with
            | nil => rfl
            | cons first rest => cases hfront
          exact grouped_singleton ht
      | some present => exact (ih (fun u hu => hsingle u (List.mem_append_left _ hu)) hfront).join ht

theorem exists_joined? (h : items ≠ []) : ∃ s, joined? items = some s := by
  cases items with
  | nil => exact absurd rfl h
  | cons first rest => exact ⟨_, rfl⟩

/-! ## What is grouped -/

/-- A grouped slot holds the callables in their order. -/
theorem Grouped.held_eq (h : Grouped items s) : s.held = (callablesOf items).map Callable.uncast := by
  cases h with
  | placeholder hnone _ =>
      rw [hnone]
      rfl
  | concrete hone =>
      rw [hone]
      rfl
  | overload _ hheld _ _ _ _ _ => exact hheld

theorem any_isPlaceholder_iff : items.any isPlaceholder = true ↔ ∃ p, .placeholder p ∈ items := by
  rw [List.any_eq_true]
  constructor
  · rintro ⟨t, ht, hplaceholder⟩
    cases t with
    | concrete f => cases hplaceholder
    | overload g => cases hplaceholder
    | placeholder p => exact ⟨p, ht⟩
  · exact fun ⟨p, hp⟩ => ⟨.placeholder p, hp, rfl⟩

theorem mem_callablesOf_iff (hsingle : ∀ t ∈ items, t.IsSingle) {f : Callable} :
    f ∈ callablesOf items ↔ .concrete f ∈ items := by
  rw [callablesOf, List.mem_flatMap]
  constructor
  · rintro ⟨t, ht, hf⟩
    cases t with
    | concrete g => exact List.mem_singleton.1 hf ▸ ht
    | overload g => exact (hsingle _ ht).elim
    | placeholder p => cases hf
  · exact fun hf => ⟨_, hf, List.mem_singleton_self f⟩

/-- Slots that need no cast of their own need one together exactly if a callable meets a placeholder. -/
theorem Grouped.forceCast_iff (h : Grouped items s) (hsingle : ∀ t ∈ items, t.IsSingle)
    (hunset : ∀ t ∈ items, t.forceCast = false) :
    s.forceCast = true ↔ (∃ p, .placeholder p ∈ items) ∧ ∃ f, .concrete f ∈ items := by
  have hcallables : ∀ f ∈ callablesOf items, f.forceCast = false := fun f hf =>
    hunset (.concrete f) ((mem_callablesOf_iff hsingle).1 hf)
  simp only [← any_isPlaceholder_iff, ← mem_callablesOf_iff hsingle]
  cases h with
  | placeholder hnone _ => simp [hnone, forceCast]
  | @concrete f hone =>
      have hf := hcallables f (by simp [hone])
      simp [hone, forceCast, hf]
  | @overload first second rest g hmany _ _ _ _ _ hcast =>
      have hfirst := hcallables first (by simp [hmany])
      simp [hmany, forceCast, hcast, hfirst]

/-- Slots without a placeholder and without a group are their callables. -/
theorem eq_map_concrete (hsingle : ∀ t ∈ items, t.IsSingle) (hnone : items.any isPlaceholder = false) :
    items = (callablesOf items).map .concrete := by
  induction items with
  | nil => rfl
  | cons t items ih =>
      obtain ⟨ht, hrest⟩ := List.forall_mem_cons.1 hsingle
      rw [List.any_cons, Bool.or_eq_false_iff] at hnone
      cases t with
      | concrete f => exact congrArg (Slot.concrete f :: ·) (ih hrest hnone.2)
      | overload g => exact ht.elim
      | placeholder p => cases hnone.1

end Slot

/-! ## Slots under their keys -/

namespace Slots

open Slot

theorem get?_add (slots : Slots) (key other : String) (s : Slot) : (slots.add key s).get? other =
    if other = key then some (((slots.get? key).map fun present => present.join s).getD s)
    else slots.get? other := by
  unfold Slots.add
  cases slots.get? key with
  | none => exact Dict.get?_insert slots key other s
  | some present => exact Dict.get?_insert slots key other (present.join s)

/-- Under a key, what was there and what is added for the key join in their order. -/
theorem get?_addAll (slots : Slots) (l : List (String × Slot)) (key : String) :
    (slots.addAll l).get? key =
      joined? ((slots.get? key).toList ++ (l.filter fun e => e.1 = key).map (·.2)) := by
  induction l using List.reverseRecOn with
  | nil =>
      rw [List.filter_nil, List.map_nil, List.append_nil, joined?_toList]
      rfl
  | append_singleton l e ih =>
      have hstep : slots.addAll (l ++ [e]) = (slots.addAll l).add e.1 e.2 := by
        rw [addAll, List.foldl_append]
        rfl
      rw [hstep, get?_add, List.filter_append, List.map_append, ← List.append_assoc]
      by_cases hkey : e.1 = key
      · rw [if_pos hkey.symm, hkey, ih, List.filter_cons_of_pos (by simpa using hkey), List.filter_nil,
          List.map_singleton, joined?_concat]
      · rw [if_neg fun h => hkey h.symm, ih, List.filter_cons_of_neg (by simpa using hkey),
          List.filter_nil, List.map_nil, List.append_nil]

end Slots

end ScriptBindings
