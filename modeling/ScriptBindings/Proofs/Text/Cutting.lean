import Mathlib
import ScriptBindings.Proofs.Text.Spacing
import ScriptBindings.Text.Cut

/-!
# Cut texts

A text that is cut at a mark is the part before it, the mark, and the part behind it.  Replacement goes from the
front, changes the occurrences that it meets and keeps every other character.  For a mark of one character, the
part before the first occurrence is the part without that character; and the pieces between all occurrences are
the texts without the character that give the whole when it is put between them.
-/

namespace ScriptBindings.Text

section Mark

variable {mark s before after : List Char}

/-- A text is cut at an occurrence of the mark. -/
theorem cutFirst?_eq_some (h : cutFirst? mark s = some (before, after)) : s = before ++ mark ++ after := by
  induction s generalizing before with
  | nil => cases h
  | cons c s ih =>
      rw [cutFirst?] at h
      split at h
      · rename_i rest hrest
        obtain ⟨rfl, rfl⟩ := Prod.mk.inj (Option.some.inj h)
        exact (List.isPrefixOf?_eq_some_iff_append_eq.1 hrest).symm
      · obtain ⟨⟨front, rest⟩, hcut, heq⟩ := Option.map_eq_some_iff.1 h
        obtain ⟨rfl, rfl⟩ := Prod.mk.inj heq
        rw [ih hcut]
        rfl

/-- The parts around the last occurrence do not depend on what stands further in front. -/
theorem cutLast?_append (front : List Char) (h : cutLast? mark s = some (before, after)) :
    cutLast? mark (front ++ s) = some (front ++ before, after) := by
  induction front with
  | nil => exact h
  | cons c front ih => rw [List.cons_append, cutLast?, ih]; rfl

/-- A text in which the mark does not occur is not cut. -/
theorem cutLast?_eq_none_iff (hne : mark ≠ []) : cutLast? mark s = none ↔ ¬ mark <:+: s := by
  induction s with
  | nil => simpa [cutLast?] using hne
  | cons c s ih =>
      rw [List.infix_cons_iff, not_or, ← ih, cutLast?]
      cases hcut : cutLast? mark s with
      | some parts => simp
      | none =>
          rw [and_iff_left rfl, Option.map_eq_none_iff, ← Option.not_isSome_iff_eq_none,
            List.isSome_isPrefixOf?_eq_isPrefixOf, List.isPrefixOf_iff_prefix]

/-- A text is cut at the occurrence of the mark behind whose first character no other one begins. -/
theorem cutLast?_eq_some_iff (hne : mark ≠ []) : cutLast? mark s = some (before, after) ↔
    s = before ++ (mark ++ after) ∧ ¬ mark <:+: mark.tail ++ after := by
  obtain ⟨m, rest, rfl⟩ := List.exists_cons_of_ne_nil hne
  constructor
  · intro h
    induction s generalizing before with
    | nil => cases h
    | cons c s ih =>
        rw [cutLast?] at h
        split at h
        · rename_i front behind hcut
          cases h
          obtain ⟨hs, hlast⟩ := ih hcut
          exact ⟨congrArg (c :: ·) hs, hlast⟩
        · rename_i hnone
          -- The mark begins here and does not occur behind.
          obtain ⟨behind, hbehind, heq⟩ := Option.map_eq_some_iff.1 h
          cases heq
          have hs := List.isPrefixOf?_eq_some_iff_append_eq.1 hbehind
          have hrest : rest ++ after = s := (List.cons.inj hs).2
          refine ⟨hs.symm, ?_⟩
          rw [List.tail_cons, hrest]
          exact (cutLast?_eq_none_iff hne).1 hnone
  · rintro ⟨rfl, hlast⟩
    have hfront : cutLast? (m :: rest) (m :: rest ++ after) = some ([], after) := by
      have hnone : cutLast? (m :: rest) (rest ++ after) = none := (cutLast?_eq_none_iff hne).2 hlast
      rw [List.cons_append, cutLast?, hnone]
      exact congrArg (Option.map _) (List.isPrefixOf?_eq_some_iff_append_eq.2 rfl)
    have hcut := cutLast?_append before hfront
    rwa [List.append_nil] at hcut

end Mark

section Replacement

variable {old new s : List Char}

theorem replaceFrom_length_append (passed s : List Char) :
    replaceFrom old new passed.length (passed ++ s) = replace old new s := by
  induction passed with
  | nil => rfl
  | cons c passed ih => exact ih

/-- An occurrence at the front is replaced. -/
theorem replace_append (hne : old ≠ []) (s : List Char) :
    replace old new (old ++ s) = new ++ replace old new s := by
  obtain ⟨c, rest, rfl⟩ := List.exists_cons_of_ne_nil hne
  have hfront : (c :: rest).isPrefixOf (c :: (rest ++ s)) = true :=
    List.isPrefixOf_iff_prefix.2 ⟨s, rfl⟩
  rw [replace, List.cons_append, replaceFrom, if_pos hfront]
  exact congrArg (new ++ ·) (replaceFrom_length_append rest s)

/-- A character at which no occurrence begins is kept. -/
theorem replace_cons {c : Char} (h : ¬ old <+: c :: s) :
    replace old new (c :: s) = c :: replace old new s := by
  have hfront : old.isPrefixOf (c :: s) = false := by
    rwa [Bool.eq_false_iff, ne_eq, List.isPrefixOf_iff_prefix]
  rw [replace, replaceFrom, hfront]
  rfl

/-- Replacement changes no number of characters in which old and new agree. -/
theorem countP_replace {p : Char → Bool} (hne : old ≠ []) (h : new.countP p = old.countP p)
    (s : List Char) : (replace old new s).countP p = s.countP p := by
  induction hlength : s.length using Nat.strong_induction_on generalizing s with
  | _ length ih =>
      cases s with
      | nil => rfl
      | cons c s =>
          by_cases hfront : old <+: c :: s
          · obtain ⟨rest, hrest⟩ := hfront
            have hpos := List.length_pos_iff.2 hne
            have hshort : rest.length < length := by
              rw [← hlength, ← hrest, List.length_append]
              omega
            rw [← hrest, replace_append hne, List.countP_append, List.countP_append, h,
              ih _ hshort rest rfl]
          · have hshort : s.length < length := by
              rw [← hlength, List.length_cons]
              omega
            rw [replace_cons hfront, List.countP_cons, List.countP_cons, ih _ hshort s rfl]

end Replacement

section Character

variable {c : Char} {s before after : List Char} {text left right : String} {parts : List String}

theorem isPrefixOf?_char (c d : Char) (s : List Char) :
    [c].isPrefixOf? (d :: s) = if c = d then some s else none := by
  by_cases h : c = d
  · rw [if_pos h, List.isPrefixOf?_eq_some_iff_append_eq, h]
    rfl
  · rw [if_neg h]
    simp [List.isPrefixOf?, h]

theorem replace_char (c d : Char) (s : List Char) :
    replace [c] [d] s = s.map fun e => if e = c then d else e := by
  induction s with
  | nil => rfl
  | cons e s ih =>
      rw [replace] at ih ⊢
      rw [replaceFrom, List.map_cons, ← ih]
      by_cases h : e = c
      · rw [if_pos h, if_pos (by simp [h])]
        rfl
      · rw [if_neg h, if_neg (by simpa using Ne.symm h)]

theorem cutFirst?_char_eq_none_iff : cutFirst? [c] s = none ↔ c ∉ s := by
  induction s with
  | nil => simp [cutFirst?]
  | cons d s ih =>
      rw [cutFirst?, isPrefixOf?_char]
      by_cases h : c = d
      · simp [h]
      · simp [h, ih]

/-- The character does not occur before the place where it is cut out. -/
theorem cutFirst?_char_append (h : c ∉ before) :
    cutFirst? [c] (before ++ c :: after) = some (before, after) := by
  induction before with
  | nil => rw [List.nil_append, cutFirst?, isPrefixOf?_char, if_pos rfl]
  | cons d before ih =>
      obtain ⟨hd, hbefore⟩ := not_or.1 fun hmem => h (List.mem_cons.2 hmem)
      rw [List.cons_append, cutFirst?, isPrefixOf?_char, if_neg hd, ih hbefore]
      rfl

theorem not_mem_of_cutFirst?_char (h : cutFirst? [c] s = some (before, after)) : c ∉ before := by
  induction s generalizing before after with
  | nil => cases h
  | cons d s ih =>
      rw [cutFirst?, isPrefixOf?_char] at h
      by_cases hd : c = d
      · rw [if_pos hd] at h
        obtain ⟨rfl, -⟩ := Prod.mk.inj (Option.some.inj h)
        exact List.not_mem_nil
      · rw [if_neg hd] at h
        obtain ⟨⟨front, rest⟩, hcut, heq⟩ := Option.map_eq_some_iff.1 h
        obtain ⟨rfl, -⟩ := Prod.mk.inj heq
        exact fun hmem => (List.mem_cons.1 hmem).elim hd (ih hcut)

theorem cutAtChar?_eq_none_iff : cutAtChar? c text = none ↔ c ∉ text.toList := by
  rw [cutAtChar?, Option.map_eq_none_iff, cutFirst?_char_eq_none_iff]

theorem cutAtChar?_eq_some_iff : cutAtChar? c text = some (left, right) ↔
    text = left ++ String.singleton c ++ right ∧ c ∉ left.toList := by
  have hchars : (left ++ String.singleton c ++ right).toList = left.toList ++ c :: right.toList := by simp
  rw [cutAtChar?, Option.map_eq_some_iff, ← String.toList_inj, hchars]
  constructor
  · rintro ⟨⟨before, after⟩, hcut, heq⟩
    obtain ⟨rfl, rfl⟩ := Prod.mk.inj heq
    rw [String.toList_ofList, String.toList_ofList, cutFirst?_eq_some hcut]
    exact ⟨(List.append_cons before c after).symm, not_mem_of_cutFirst?_char hcut⟩
  · rintro ⟨htext, hleft⟩
    refine ⟨(left.toList, right.toList), ?_, ?_⟩
    · rw [htext, cutFirst?_char_append hleft]
    · show (String.ofList left.toList, String.ofList right.toList) = (left, right)
      rw [String.ofList_toList, String.ofList_toList]

/-- The pieces of a text are the texts without the character that give the text when it is put between
them. -/
theorem pieces_eq_iff : pieces c text = parts ↔ parts ≠ [] ∧ (∀ part ∈ parts, c ∉ part.toList) ∧
    text = (String.singleton c).intercalate parts := by
  rw [← String.toList_inj, String.toList_intercalate, String.toList_singleton]
  constructor
  · rintro rfl
    have hchars : (pieces c text).map String.toList = text.toList.splitOn c := by
      simp [pieces, Function.comp_def]
    refine ⟨?_, fun part hpart hc => ?_, ?_⟩
    · intro hnil
      rw [hnil] at hchars
      exact List.splitOnP_ne_nil (· == c) text.toList hchars.symm
    · have hmem : part.toList ∈ text.toList.splitOnP (· == c) := by
        have hmem := List.mem_map_of_mem (f := String.toList) hpart
        rwa [hchars] at hmem
      have hfree := not_of_mem_splitOnP hmem c hc
      simp at hfree
    · rw [hchars, List.intercalate_splitOn]
  · rintro ⟨hne, hfree, htext⟩
    rw [pieces, htext, List.splitOn_intercalate]
    · simp
    · simpa using hfree
    · simpa using hne

end Character

end ScriptBindings.Text
