import Mathlib
import ScriptBindings.Proofs.CppType.Unbalanced

/-!
# Splitting outside of brackets

The splitter is a machine with a stack: it pushes the closing bracket of every group that it enters, and cuts at
a separator only where the stack is empty.  Its stack is empty in front of a character of a nested text exactly
where the text so far is nested, so that it cuts at the separators that stand outside of all groups, and at no
others.

So splitting is determined by three laws.  It fails where brackets are not nested; a text in which no separator
stands outside is one segment, or none if it is blank; and where two nested texts stand around a separator, the
segments of the first are followed by those of the second.
-/

namespace ScriptBindings.CppType

variable {sep : Char} {s a b : List Char}

/-! ## Separators outside of groups -/

/-- The separator stands outside of all groups: what is in front of it is nested. -/
def StandsOutside (sep : Char) (s : List Char) : Prop :=
  ∃ front back, s = front ++ sep :: back ∧ Nested front

/-- Where no separator stands outside of groups, the walk through the text meets none with an empty stack. -/
theorem outside_of_not_standsOutside (hsep : IsPlain sep) (hs : Nested s) (hno : ¬ StandsOutside sep s) :
    Outside (· != sep) s := by
  cases hcut : cutOutside sep [] s with
  | none => exact absurd hs.balanced ((cutOutside_eq_none_iff hsep).1 hcut)
  | some pieces =>
      obtain ⟨first, rest, rfl, hjoin, hfirst, -⟩ := cutOutside_eq_some hsep hcut
      cases rest with
      | nil =>
          rw [List.intercalate_singleton] at hjoin
          exact hjoin ▸ hfirst
      | cons second rest =>
          -- The separator behind the first piece is one that stands outside.
          rw [List.intercalate_cons_cons, List.append_assoc, List.singleton_append] at hjoin
          exact absurd ⟨first, _, hjoin, .of_balanced (Outside.balanced hfirst)⟩ hno

/-! ## Cutting around a separator -/

theorem ne_nil_of_cutOutside {awaited : List Char} {pieces : List (List Char)} (hsep : IsPlain sep)
    (h : cutOutside sep awaited s = some pieces) : pieces ≠ [] := by
  obtain ⟨first, rest, rfl, -⟩ := cutOutside_eq_some hsep h
  exact List.cons_ne_nil first rest

/-- When a text has been cut, the stack is empty: a separator behind it starts a new piece. -/
theorem cutOutside_append_sep_of_cut {awaited : List Char} {pieces : List (List Char)} (hsep : IsPlain sep)
    (h : cutOutside sep awaited a = some pieces) (b : List Char) :
    cutOutside sep awaited (a ++ sep :: b) = (cutOutside sep [] b).map (pieces ++ ·) := by
  induction a generalizing awaited pieces with
  | nil =>
      cases awaited with
      | cons d outer => cases h
      | nil =>
          obtain rfl : [[]] = pieces := Option.some.inj h
          rw [List.nil_append, cutOutside_cons hsep, if_pos ⟨rfl, rfl⟩]
          rfl
  | cons c a ih =>
      rw [List.cons_append, cutOutside_cons hsep] at *
      by_cases hcut : c = sep ∧ awaited = []
      · rw [if_pos hcut] at h ⊢
        obtain ⟨inner, hinner, rfl⟩ := Option.map_eq_some_iff.1 h
        rw [ih hinner, Option.map_map]
        rfl
      · rw [if_neg hcut] at h ⊢
        obtain ⟨after, hafter, h⟩ := Option.bind_eq_some_iff.1 h
        obtain ⟨inner, hinner, rfl⟩ := Option.map_eq_some_iff.1 h
        obtain ⟨first, rest, rfl⟩ := List.exists_cons_of_ne_nil (ne_nil_of_cutOutside hsep hinner)
        rw [hafter, Option.bind_some, ih hinner, Option.map_map]
        rfl

/-! ## Splitting -/

/-- A nested text is split. -/
theorem Nested.exists_splitOutside (h : Nested s) (hsep : IsPlain sep) :
    ∃ segments, splitOutside sep s = some segments :=
  Option.ne_none_iff_exists'.1 fun hnone => (splitOutside_eq_none_iff hsep).1 hnone h

theorem splitOutside_append_sep {before behind : List (List Char)} (hsep : IsPlain sep)
    (ha : splitOutside sep a = some before) (hb : splitOutside sep b = some behind) :
    splitOutside sep (a ++ sep :: b) = some (before ++ behind) := by
  obtain ⟨pieces, hpieces, rfl⟩ := Option.map_eq_some_iff.1 ha
  obtain ⟨more, hmore, rfl⟩ := Option.map_eq_some_iff.1 hb
  rw [splitOutside, cutOutside_append_sep_of_cut hsep hpieces, hmore, Option.map_some, Option.map_some,
    List.map_append, List.filter_append]

/-- A text in which no separator stands outside of groups is one segment, unless it is blank. -/
theorem splitOutside_of_not_standsOutside (hsep : IsPlain sep) (hs : Nested s)
    (hno : ¬ StandsOutside sep s) :
    splitOutside sep s = some (if ∀ c ∈ s, Text.isBlank c = true then [] else [Text.trim s]) := by
  rw [splitOutside, cutOutside_of_outside hsep (outside_of_not_standsOutside hsep hs hno), Option.map_some,
    List.map_singleton]
  by_cases hblank : ∀ c ∈ s, Text.isBlank c = true
  · rw [if_pos hblank, Text.trim_eq_nil_iff.2 hblank]
    rfl
  · have hfull : Text.trim s ≠ [] := fun hnil => hblank (Text.trim_eq_nil_iff.1 hnil)
    rw [if_neg hblank, List.filter_eq_self.2 (by simpa using hfull)]

/-- Splitting at a separator that is no bracket.  It fails exactly on the texts whose brackets are not nested
properly; around a separator between two nested texts it splits them apart; a nested text in which no separator
stands outside of groups gives itself without the blanks at its ends, or nothing if it is blank; and every segment
is nested properly, has no blanks at its ends and is not empty. -/
theorem splitOutside_exact {sep : Char} (hsep : IsPlain sep) :
    (∀ s, splitOutside sep s = none ↔ ¬ Nested s) ∧
    (∀ a b, Nested a → Nested b → ∃ before behind, splitOutside sep a = some before ∧
      splitOutside sep b = some behind ∧ splitOutside sep (a ++ sep :: b) = some (before ++ behind)) ∧
    (∀ s, Nested s → ¬ StandsOutside sep s →
      splitOutside sep s = some (if ∀ c ∈ s, Text.isBlank c = true then [] else [Text.trim s])) ∧
    ∀ s segments, splitOutside sep s = some segments →
      ∀ t ∈ segments, Nested t ∧ Text.trim t = t ∧ t ≠ [] := by
  refine ⟨fun s => splitOutside_eq_none_iff hsep, fun a b ha hb => ?_,
    fun s => splitOutside_of_not_standsOutside hsep, fun s segments h t ht => ?_⟩
  · obtain ⟨before, hbefore⟩ := ha.exists_splitOutside hsep
    obtain ⟨behind, hbehind⟩ := hb.exists_splitOutside hsep
    exact ⟨before, behind, hbefore, hbehind, splitOutside_append_sep hsep hbefore hbehind⟩
  · obtain ⟨hfull, hbare, houtside, -⟩ := of_mem_splitOutside (p := fun _ => true) hsep h ht
    exact ⟨.of_balanced houtside.balanced, hbare.trim_eq, hfull⟩

/-- The first comma of these arguments stands in a group, the second one outside. -/
theorem splitOutside_exact_arguments : IsPlain ',' ∧
    splitOutside ',' " Map<K, V[N]> , int (*)(T) ".toList =
      some ["Map<K, V[N]>".toList, "int (*)(T)".toList] ∧
    splitOutside ',' "Map<K, V[N)>".toList = none := by
  have hplain : IsPlain ',' := ⟨rfl, rfl⟩
  obtain ⟨hfails, happend, -, -⟩ := splitOutside_exact hplain
  obtain ⟨before, behind, hbefore, hbehind, hall⟩ :=
    happend " Map<K, V[N]> ".toList " int (*)(T) ".toList (by decide) (by decide)
  obtain rfl : before = ["Map<K, V[N]>".toList] := Option.some.inj (hbefore.symm.trans (by decide))
  obtain rfl : behind = ["int (*)(T)".toList] := Option.some.inj (hbehind.symm.trans (by decide))
  exact ⟨hplain, hall, (hfails _).2 (by decide)⟩

end ScriptBindings.CppType
