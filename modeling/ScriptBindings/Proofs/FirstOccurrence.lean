import Mathlib

/-!
# First occurrences

Of the elements that a list repeats the first occurrences stay.  So there is nothing twice in what is left,
and a list adds to one in front of it only what is new.
-/

namespace ScriptBindings

namespace FirstOccurrence

variable {α β : Type} [DecidableEq α] [DecidableEq β] {l l' m m' : List α} {a : α}

theorem eraseDups_concat (l : List α) (a : α) :
    (l ++ [a]).eraseDups = if a ∈ l then l.eraseDups else l.eraseDups ++ [a] := by
  rw [List.eraseDups_append]
  split
  · rename_i h
    have hnone : [a].removeAll l = [] := by simp [List.removeAll, h]
    rw [hnone, List.eraseDups_nil, List.append_nil]
  · rename_i h
    have hsingle : [a].removeAll l = [a] := by simp [List.removeAll, h]
    rw [hsingle]
    rfl

theorem nodup_eraseDups (l : List α) : l.eraseDups.Nodup := by
  induction l using List.reverseRecOn with
  | nil => exact .nil
  | append_singleton l a ih =>
      rw [eraseDups_concat]
      split
      · exact ih
      · rename_i h
        refine List.nodup_append.2 ⟨ih, List.nodup_singleton a, fun b hb c hc heq => h ?_⟩
        rw [← List.mem_eraseDups, ← List.mem_singleton.1 hc, ← heq]
        exact hb

/-- What follows a list adds its own first occurrences, without what the list has. -/
theorem eraseDups_append_eq (l m : List α) :
    (l ++ m).eraseDups = l.eraseDups ++ m.eraseDups.filter fun a => a ∉ l := by
  induction m using List.reverseRecOn with
  | nil => simp
  | append_singleton m a ih =>
      rw [← List.append_assoc, eraseDups_concat, eraseDups_concat]
      by_cases hm : a ∈ m
      · rw [if_pos (List.mem_append_right l hm), if_pos hm, ih]
      · by_cases hl : a ∈ l
        · rw [if_pos (List.mem_append_left m hl), if_neg hm, ih, List.filter_append,
            List.filter_cons_of_neg (by simpa using hl), List.filter_nil, List.append_nil]
        · rw [if_neg (by simp [hl, hm]), if_neg hm, ih, List.filter_append,
            List.filter_cons_of_pos (by simpa using hl), List.filter_nil, List.append_assoc]

/-- Lists with the same first occurrences can stand for each other in front of others and behind them. -/
theorem eraseDups_append_congr (hl : l.eraseDups = l'.eraseDups) (hm : m.eraseDups = m'.eraseDups) :
    (l ++ m).eraseDups = (l' ++ m').eraseDups := by
  have hmem : ∀ a, a ∈ l ↔ a ∈ l' := fun a => by
    rw [← List.mem_eraseDups, hl, List.mem_eraseDups]
  rw [eraseDups_append_eq, eraseDups_append_eq, hl, hm]
  simp only [hmem]

/-- Nothing new adds nothing. -/
theorem eraseDups_append_of_subset (h : m ⊆ l) : (l ++ m).eraseDups = l.eraseDups := by
  rw [eraseDups_append_eq, List.filter_eq_nil_iff.2, List.append_nil]
  intro a ha
  simpa using h (List.mem_eraseDups.1 ha)

/-- Where every element is replaced by a list, repeated elements can be left out before. -/
theorem eraseDups_flatMap_eraseDups (f : α → List β) (l : List α) :
    (l.eraseDups.flatMap f).eraseDups = (l.flatMap f).eraseDups := by
  induction l using List.reverseRecOn with
  | nil => rfl
  | append_singleton l a ih =>
      rw [eraseDups_concat, List.flatMap_append, List.flatMap_singleton]
      split
      · rename_i h
        rw [ih, eraseDups_append_of_subset fun b hb => List.mem_flatMap.2 ⟨a, h, hb⟩]
      · rw [List.flatMap_append, List.flatMap_singleton]
        exact eraseDups_append_congr ih rfl

end FirstOccurrence

end ScriptBindings
