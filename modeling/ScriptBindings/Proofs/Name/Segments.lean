import Mathlib
import ScriptBindings.Name.Casing
import ScriptBindings.Name.Scope
import ScriptBindings.Proofs.Text.Cutting

/-!
# Segments of names

The segments of a name, joined again, are the name.  The first segment stands before the first `::`; the last
one stands behind the last `::`, if no single colons are left.
-/

namespace ScriptBindings

namespace Name

/-! ## Colons -/

variable {a b : List Char} {c : Char}

/-- One colon in front of a text without colons does not make two. -/
theorem not_infix_colons (h : ':' ∉ a) (c : Char) : ¬ [':', ':'] <:+: c :: a := by
  rw [List.infix_cons_iff, List.cons_prefix_cons]
  rintro (⟨-, hfront⟩ | hinside)
  · exact h (hfront.subset List.mem_cons_self)
  · exact h (hinside.subset List.mem_cons_self)

theorem cutLast?_colons_eq_none (h : ':' ∉ a) : Text.cutLast? [':', ':'] a = none :=
  (Text.cutLast?_eq_none_iff (List.cons_ne_nil _ _)).2 fun hinside => h (hinside.subset List.mem_cons_self)

/-- Two colons do not stand around another character. -/
theorem colons_infix_append_cons_iff (hc : c ≠ ':') :
    [':', ':'] <:+: a ++ c :: b ↔ [':', ':'] <:+: a ∨ [':', ':'] <:+: b := by
  induction a with
  | nil =>
      rw [List.nil_append, List.infix_cons_iff]
      simp [hc.symm]
  | cons d a ih =>
      rw [List.cons_append, List.infix_cons_iff, List.infix_cons_iff, ih, or_assoc]
      refine or_congr_left ?_
      cases a with
      | nil => simp [hc.symm]
      | cons e a => simp

/-! ## Cutting a name -/

theorem cutScopes_ne_nil (s : List Char) : cutScopes s ≠ [] := by
  induction s using cutScopes.induct with
  | case1 => exact List.cons_ne_nil _ _
  | case2 s ih => exact List.cons_ne_nil _ _
  | case3 c s hc ih =>
      obtain ⟨word, words, hwords⟩ := List.exists_cons_of_ne_nil ih
      rw [cutScopes, hwords]
      · exact List.cons_ne_nil _ _
      · exact hc

/-- The first segment stands before the first `::`, and the other ones behind it. -/
theorem cutScopes_of_cutFirst?_eq_some {s before rest : List Char}
    (h : Text.cutFirst? [':', ':'] s = some (before, rest)) : cutScopes s = before :: cutScopes rest := by
  induction s using cutScopes.induct generalizing before with
  | case1 => cases h
  | case2 s ih =>
      obtain ⟨rfl, rfl⟩ : [] = before ∧ s = rest := Prod.mk.inj (Option.some.inj h)
      rw [cutScopes]
  | case3 c s hc ih =>
      rw [Text.cutFirst?] at h
      split at h
      · rename_i hcolons
        obtain ⟨rfl, rfl⟩ := List.cons.inj (List.isPrefixOf?_eq_some_iff_append_eq.1 hcolons)
        exact absurd rfl (hc _ rfl)
      · obtain ⟨⟨front, behind⟩, hcut, heq⟩ := Option.map_eq_some_iff.1 h
        obtain ⟨rfl, rfl⟩ := Prod.mk.inj heq
        rw [cutScopes, ih hcut]
        · rfl
        · exact hc

theorem cutScopes_of_cutFirst?_eq_none {s : List Char} (h : Text.cutFirst? [':', ':'] s = none) :
    cutScopes s = [s] := by
  induction s using cutScopes.induct with
  | case1 => rfl
  | case2 s ih => cases h
  | case3 c s hc ih =>
      rw [Text.cutFirst?] at h
      split at h
      · cases h
      · rw [cutScopes, ih (Option.map_eq_none_iff.1 h)]
        · rfl
        · exact hc

/-! ## Segments -/

variable {below : List String} {name : String}

theorem toList_joinScopes_cons (root : String) (h : below ≠ []) :
    (joinScopes (root :: below)).toList = root.toList ++ ':' :: ':' :: (joinScopes below).toList := by
  have hjoin : joinScopes (root :: below) = joinScopes [root] ++ "::" ++ joinScopes below :=
    String.intercalate_append_of_ne_nil (List.cons_ne_nil root []) h
  rw [hjoin, joinScopes, String.intercalate_singleton]
  simp

/-- Joining the segments of a name gives the name back. -/
theorem toList_joinScopes_cutScopes (s : List Char) :
    (joinScopes ((cutScopes s).map String.ofList)).toList = s := by
  induction s using cutScopes.induct with
  | case1 => rfl
  | case2 s ih =>
      rw [cutScopes, List.map_cons, toList_joinScopes_cons _ (by simpa using cutScopes_ne_nil s), ih]
      rfl
  | case3 c s hc ih =>
      obtain ⟨word, words, hwords⟩ := List.exists_cons_of_ne_nil (cutScopes_ne_nil s)
      rw [hwords, List.map_cons] at ih
      rw [cutScopes, hwords, Text.consHead, List.map_cons]
      · -- The character belongs to the first word, whether or not other words follow.
        by_cases hnil : words.map String.ofList = []
        · rw [hnil, joinScopes, String.intercalate_singleton, String.toList_ofList] at ih ⊢
          rw [ih]
        · rw [toList_joinScopes_cons _ hnil, String.toList_ofList] at ih ⊢
          rw [List.cons_append, ih]
      · exact hc

theorem joinScopes_segments (name : String) : joinScopes (segments name) = name :=
  String.toList_injective (toList_joinScopes_cutScopes name.toList)

theorem segments_ne_nil (name : String) : segments name ≠ [] := by
  simpa [segments] using cutScopes_ne_nil name.toList

/-- Names with the same segments are the same. -/
theorem segments_injective : Function.Injective segments :=
  Function.LeftInverse.injective joinScopes_segments

/-- A name is cut at two colons behind whose first no others begin. -/
theorem parentScope_lastSegment_append {front back : String} (h : ¬ [':', ':'] <:+: ':' :: back.toList) :
    parentScope (front ++ "::" ++ back) = front ∧ lastSegment (front ++ "::" ++ back) = back := by
  have hcut : Text.cutLast? [':', ':'] (front ++ "::" ++ back).toList = some (front.toList, back.toList) := by
    rw [Text.cutLast?_eq_some_iff (List.cons_ne_nil _ _), String.toList_append, String.toList_append,
      List.append_assoc]
    exact ⟨rfl, h⟩
  rw [parentScope, lastSegment, hcut]
  exact ⟨String.ofList_toList, String.ofList_toList⟩

/-- The name neither begins nor ends with `::`. -/
def FirmEnds (name : String) : Prop :=
  ¬ [':', ':'] <+: name.toList ∧ ¬ [':', ':'] <:+ name.toList

instance (name : String) : Decidable (FirmEnds name) :=
  inferInstanceAs (Decidable (_ ∧ _))

/-- A name with firm ends is put together again from its scope and its last segment. -/
theorem FirmEnds.qualify_parentScope_lastSegment (h : FirmEnds name) :
    qualify (parentScope name) none (lastSegment name) = name := by
  unfold parentScope lastSegment
  cases hcut : Text.cutLast? [':', ':'] name.toList with
  | none =>
      by_cases hname : name = "" <;> simp [qualify, joined, joinScopes, hname]
  | some parts =>
      obtain ⟨before, after⟩ := parts
      obtain ⟨hsplit, -⟩ := (Text.cutLast?_eq_some_iff (List.cons_ne_nil _ _)).1 hcut
      have hbefore : before ≠ [] := by
        rintro rfl
        exact h.1 ⟨after, hsplit.symm⟩
      have hafter : after ≠ [] := by
        rintro rfl
        exact h.2 ⟨before, hsplit.symm⟩
      have hjoin : name = String.ofList before ++ "::" ++ String.ofList after :=
        String.toList_injective (by simpa using hsplit)
      simp only [hjoin]
      simp [qualify, joined, joinScopes, hbefore, hafter]

theorem lastSegment_joinScopes_concat (front : List String) {last : String} (h : ':' ∉ last.toList) :
    lastSegment (joinScopes (front ++ [last])) = last := by
  by_cases hfront : front = []
  · rw [hfront, List.nil_append, joinScopes, String.intercalate_singleton, lastSegment,
      cutLast?_colons_eq_none h]
  · have hjoin : joinScopes (front ++ [last]) = joinScopes front ++ "::" ++ joinScopes [last] :=
      String.intercalate_append_of_ne_nil hfront (List.cons_ne_nil last [])
    have hlast : joinScopes [last] = last := String.intercalate_singleton
    rw [hjoin, hlast]
    exact (parentScope_lastSegment_append (not_infix_colons h ':')).2

/-- Without single colons the text after the last `::` is the last segment. -/
theorem lastSegment_eq_getLastD (h : ∀ part ∈ segments name, ':' ∉ part.toList) :
    lastSegment name = (segments name).getLastD "" := by
  obtain hnil | ⟨front, last, hparts⟩ := List.eq_nil_or_concat (segments name)
  · exact absurd hnil (segments_ne_nil name)
  · have hlast := h last (by rw [hparts]; simp)
    calc lastSegment name
        = lastSegment (joinScopes (front ++ [last])) := by
          rw [← joinScopes_segments name, hparts, List.concat_eq_append]
      _ = (segments name).getLastD "" := by
          rw [lastSegment_joinScopes_concat front hlast, hparts]
          simp

/-! ## Letters in upper case -/

/-- Only letters change. -/
theorem mem_of_mem_capitalizeChars {c : Char} {s : List Char} (hc : c.isAlpha = false)
    (h : c ∈ capitalizeChars s) : c ∈ s := by
  induction s with
  | nil => exact h
  | cons d s ih =>
      rw [capitalizeChars] at h
      split at h
      · rename_i hletter
        rcases List.mem_cons.1 h with rfl | hmem
        · rw [Char.isAlpha_toUpper_eq_isAlpha, hletter] at hc
          cases hc
        · exact List.mem_cons_of_mem _ hmem
      · rcases List.mem_cons.1 h with rfl | hmem
        · exact List.mem_cons_self
        · exact List.mem_cons_of_mem _ (ih hmem)

theorem not_mem_capitalize {c : Char} {s : String} (hc : c.isAlpha = false) (h : c ∉ s.toList) :
    c ∉ (capitalize s).toList := by
  rw [capitalize, String.toList_ofList]
  exact fun hmem => h (mem_of_mem_capitalizeChars hc hmem)

/-- A text without letters arises from itself only. -/
theorem eq_of_capitalizeChars_eq {s t : List Char} (ht : ∀ c ∈ t, c.isAlpha = false)
    (h : capitalizeChars s = t) : s = t := by
  induction s generalizing t with
  | nil => exact h
  | cons c s ih =>
      rw [capitalizeChars] at h
      split at h
      · rename_i hletter
        have hupper := ht c.toUpper (h ▸ List.mem_cons_self)
        rw [Char.isAlpha_toUpper_eq_isAlpha, hletter] at hupper
        cases hupper
      · subst h
        rw [← ih (fun d hd => ht d (List.mem_cons_of_mem _ hd)) rfl]

theorem capitalize_ne {s t : String} (ht : ∀ c ∈ t.toList, c.isAlpha = false) (h : s ≠ t) :
    capitalize s ≠ t := by
  rintro rfl
  rw [capitalize, String.toList_ofList] at ht
  refine h (String.toList_injective ?_)
  rw [capitalize, String.toList_ofList]
  exact eq_of_capitalizeChars_eq ht rfl

end Name

end ScriptBindings
