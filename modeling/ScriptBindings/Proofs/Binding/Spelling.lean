import ScriptBindings.Binding.Plan
import ScriptBindings.Flavour

/-!
# What is planned is spelled

Variants are flattened before they are planned: a strategy that binds nothing has no variants, and what is
left is either one variant or a choice among several.  Each of these has an expression in every flavour, so
that no entry of a plan is dropped where it is written.
-/

namespace ScriptBindings

namespace Strategy

/-- A strategy that binds one thing. -/
def IsLeaf (s : Strategy) : Prop :=
  s.isDeleted = false ∧ s.isOverload = false

mutual

theorem isLeaf_of_mem_leaves {t : Strategy} : (s : Strategy) → t ∈ s.leaves → t.IsLeaf
  | .deleted _, h => by
      rw [leaves] at h
      cases h
  | .overload variants, h => by
      rw [leaves] at h
      exact isLeaf_of_mem_leavesOfList variants h
  | .direct _, h => by
      rw [leaves, List.mem_singleton] at h
      exact h ▸ ⟨rfl, rfl⟩
  | .cast _, h => by
      rw [leaves, List.mem_singleton] at h
      exact h ▸ ⟨rfl, rfl⟩
  | .wrapper _, h => by
      rw [leaves, List.mem_singleton] at h
      exact h ▸ ⟨rfl, rfl⟩
  | .verbatim _, h => by
      rw [leaves, List.mem_singleton] at h
      exact h ▸ ⟨rfl, rfl⟩

theorem isLeaf_of_mem_leavesOfList {t : Strategy} :
    (ss : List Strategy) → t ∈ leavesOfList ss → t.IsLeaf
  | [], h => by
      rw [leavesOfList] at h
      cases h
  | s :: ss, h => by
      rw [leavesOfList, List.mem_append] at h
      rcases h with h | h
      · exact isLeaf_of_mem_leaves s h
      · exact isLeaf_of_mem_leavesOfList ss h

end

end Strategy

namespace Flavour

variable {s : Strategy} {ss : List Strategy}

theorem isSome_expression_of_isLeaf (f : Flavour) (h : s.IsLeaf) : (f.expression? s).isSome = true := by
  cases s with
  | deleted reason => cases h.1
  | overload variants => cases h.2
  | direct target => rfl
  | cast c => rfl
  | wrapper w => rfl
  | verbatim code => rfl

/-- A choice is spelled if one of its variants is. -/
theorem isSome_expression_overload (f : Flavour) (hs : s.IsLeaf) :
    (f.expression? (.overload (s :: ss))).isSome = true := by
  obtain ⟨text, htext⟩ := Option.isSome_iff_exists.1 (f.isSome_expression_of_isLeaf hs)
  rw [expression?, expressions, htext]
  rfl

end Flavour

namespace Binding

/-- All variants together are spelled. -/
theorem isSome_expression_of_gather? (f : Flavour) {ss : List Strategy} {s : Strategy}
    (h : gather? ss = some s) : (f.expression? s).isSome = true := by
  unfold gather? at h
  split at h
  · cases h
  · rename_i leaf hleaves
    obtain rfl := Option.some.inj h
    exact f.isSome_expression_of_isLeaf
      (Strategy.isLeaf_of_mem_leavesOfList ss (by rw [hleaves]; exact List.mem_singleton_self _))
  · rename_i variants hnil hsingle
    obtain rfl := Option.some.inj h
    cases hvariants : Strategy.leavesOfList ss with
    | nil => exact absurd hvariants hnil
    | cons first rest =>
        exact f.isSome_expression_overload
          (Strategy.isLeaf_of_mem_leavesOfList ss (by rw [hvariants]; exact List.mem_cons_self))

/-- Every entry of a plan is spelled. -/
theorem isSome_expression_of_mem_planSlot (f : Flavour) {db : Database} {slot : Slot} {e : Entry}
    (he : e ∈ planSlot db slot) : (f.expression? e.strategy).isSome = true := by
  obtain ⟨⟨key, ss⟩, -, hgather⟩ := List.mem_filterMap.1 he
  obtain ⟨s, hs, rfl⟩ := Option.map_eq_some_iff.1 hgather
  exact isSome_expression_of_gather? f hs

end Binding

end ScriptBindings
