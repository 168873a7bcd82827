import Mathlib
import ScriptBindings.Directive.Merge

/-!
# Merging flags in any grouping

Three sets of flags can be merged from the left or from the right: in every field the first set that has
something to say comes first, and what was there before is never added again.  So merging is associative, and
default flags, which say nothing, change nothing.

Six fields hold a single value.  The first value stays, and the conflicts of merging are the fields in which both
sets have a value and the values differ.
-/

namespace ScriptBindings.Flags

/-! ## Appending what is new -/

section AppendNew

variable {α κ : Type} [DecidableEq κ] {key : α → κ} {mine theirs : List α} {x : α} {k : κ}

theorem appendNew_nil (key : α → κ) (mine : List α) : appendNew key mine [] = mine := rfl

theorem appendNew_concat (key : α → κ) (mine theirs : List α) (x : α) :
    appendNew key mine (theirs ++ [x]) =
      if key x ∈ (appendNew key mine theirs).map key then appendNew key mine theirs
      else appendNew key mine theirs ++ [x] := by
  have hany : ((appendNew key mine theirs).any fun y => key y = key x) = true ↔
      key x ∈ (appendNew key mine theirs).map key := by
    simp only [List.any_eq_true, decide_eq_true_eq, List.mem_map]
  rw [appendNew, List.foldl_append, List.foldl_cons, List.foldl_nil]
  exact if_congr hany rfl rfl

/-- The keys afterwards are the keys of both lists. -/
theorem mem_map_appendNew_iff :
    k ∈ (appendNew key mine theirs).map key ↔ k ∈ mine.map key ∨ k ∈ theirs.map key := by
  induction theirs using List.reverseRecOn with
  | nil => simp [appendNew_nil]
  | append_singleton theirs x ih =>
      rw [appendNew_concat, List.map_append, List.map_singleton, List.mem_append, List.mem_singleton,
        ← or_assoc, ← ih]
      split
      · rename_i hthere
        constructor
        · exact Or.inl
        · rintro (hk | rfl)
          · exact hk
          · exact hthere
      · rw [List.map_append, List.map_singleton, List.mem_append, List.mem_singleton]

/-- Whether something is new depends on the keys of all that stands before it, and these do not depend on the
grouping. -/
theorem appendNew_assoc (key : α → κ) (a b c : List α) :
    appendNew key (appendNew key a b) c = appendNew key a (appendNew key b c) := by
  induction c using List.reverseRecOn with
  | nil => rfl
  | append_singleton c x ih =>
      rw [appendNew_concat, appendNew_concat key b, ih]
      by_cases hnear : key x ∈ (appendNew key b c).map key
      · have hfar : key x ∈ (appendNew key a (appendNew key b c)).map key :=
          mem_map_appendNew_iff.2 (Or.inr hnear)
        rw [if_pos hnear, if_pos hfar]
      · rw [if_neg hnear, appendNew_concat]

end AppendNew

/-! ## Merging -/

theorem firstPriority_assoc (a b c : Int) :
    firstPriority (firstPriority a b) c = firstPriority a (firstPriority b c) := by
  unfold firstPriority
  split <;> simp_all

theorem firstPriority_zero (a : Int) : firstPriority a 0 = a := by
  unfold firstPriority
  split <;> omega

theorem merge_assoc (a b c : Flags) : (a.merge b).merge c = a.merge (b.merge c) := by
  simp only [merge, List.append_assoc, Bool.or_assoc, Option.or_assoc, appendNew_assoc,
    firstPriority_assoc]

theorem merge_default (a : Flags) : a.merge {} = a := by
  simp only [merge, List.append_nil, Bool.or_false, Option.or_none, appendNew_nil, firstPriority_zero]

/-! ## Single values -/

/-- The fields that hold a single value. -/
inductive Scalar where
  | proxy
  | loadPriority
  | rename
  | bindCode
  | mergeSpecialisationsAs
  | visibility
deriving DecidableEq

namespace Scalar

/-- A single value of any field. -/
inductive Value where
  | text (s : String)
  | priority (n : Int)
  | access (v : Visibility)
deriving DecidableEq

/-- All fields with a single value. -/
def all : List Scalar :=
  [.proxy, .loadPriority, .rename, .bindCode, .mergeSpecialisationsAs, .visibility]

/-- What a field is called in conflicts. -/
def name : Scalar → String
  | .proxy => "proxy"
  | .loadPriority => "load_priority"
  | .rename => "rename"
  | .bindCode => "bind_code"
  | .mergeSpecialisationsAs => "merge_template_specialisations_as"
  | .visibility => "visibility"

/-- The value of a field, if it is set.  A priority of zero is the same as none. -/
def value? (flags : Flags) : Scalar → Option Value
  | .proxy => flags.proxy.map .text
  | .loadPriority => if flags.loadPriority = 0 then none else some (.priority flags.loadPriority)
  | .rename => flags.rename.map .text
  | .bindCode => flags.bindCode.map .text
  | .mergeSpecialisationsAs => flags.mergeSpecialisationsAs.map .text
  | .visibility => flags.visibility.map .access

/-- A value as conflicts show it. -/
def Value.shown : Value → String
  | .text s => Text.quoted s
  | .priority n => toString n
  | .access v => visibilityWord v

theorem mem_all (s : Scalar) : s ∈ all := by
  cases s <;> decide

/-- The value of the first flags stays, and the other one only fills a gap. -/
theorem value?_merge (a b : Flags) (s : Scalar) :
    value? (a.merge b) s = (value? a s).or (value? b s) := by
  cases s with
  | loadPriority =>
      show (if firstPriority a.loadPriority b.loadPriority = 0 then none
        else some (Value.priority (firstPriority a.loadPriority b.loadPriority))) = _
      by_cases ha : a.loadPriority = 0
      · simp [value?, firstPriority, ha]
      · simp [value?, firstPriority, ha]
  | proxy => exact Option.map_or
  | rename => exact Option.map_or
  | bindCode => exact Option.map_or
  | mergeSpecialisationsAs => exact Option.map_or
  | visibility => exact Option.map_or

end Scalar

/-! ## Conflicts -/

section Conflicts

variable {α : Type} [DecidableEq α] {field : String} {render : α → String} {x y : Option α} {c : Conflict}

theorem mem_optionalConflict_iff :
    c ∈ optionalConflict field render x y ↔ ∃ kept dropped, x = some kept ∧ y = some dropped ∧
      kept ≠ dropped ∧ c = ⟨field, render kept, render dropped⟩ := by
  cases x with
  | none => simp [optionalConflict]
  | some kept =>
      cases y with
      | none => simp [optionalConflict]
      | some dropped =>
          by_cases heq : kept = dropped
          · simp [optionalConflict, heq]
          · simp [optionalConflict, heq]

/-- A field is in conflict once at most. -/
theorem fields_optionalConflict_sublist :
    ((optionalConflict field render x y).map (·.field)).Sublist [field] := by
  cases x with
  | none => exact List.nil_sublist _
  | some kept =>
      cases y with
      | none => exact List.nil_sublist _
      | some dropped =>
          by_cases heq : kept = dropped
          · simp [optionalConflict, heq]
          · simp [optionalConflict, heq]

/-- Values can be compared and shown as values of any field. -/
theorem optionalConflict_map {β : Type} [DecidableEq β] {f : α → β} (hf : Function.Injective f)
    {shown : β → String} (hshown : ∀ a, shown (f a) = render a) :
    optionalConflict field shown (x.map f) (y.map f) = optionalConflict field render x y := by
  cases x with
  | none => rfl
  | some kept =>
      cases y with
      | none => rfl
      | some dropped => simp only [Option.map_some, optionalConflict, hf.eq_iff, hshown]

end Conflicts

/-- The conflict of a field. -/
def Scalar.conflict (a b : Flags) (s : Scalar) : List Conflict :=
  optionalConflict s.name Scalar.Value.shown (s.value? a) (s.value? b)

theorem Scalar.value?_loadPriority (a : Flags) : Scalar.value? a .loadPriority =
    (some a.loadPriority |>.filter (· ≠ 0)).map Scalar.Value.priority := by
  by_cases h : a.loadPriority = 0 <;> simp [Scalar.value?, h]

theorem conflicts_eq (a b : Flags) : a.conflicts b = Scalar.all.flatMap (Scalar.conflict a b) := by
  have htext (field : String) (x y : Option String) :
      optionalConflict field Scalar.Value.shown (x.map .text) (y.map .text) =
        optionalConflict field Text.quoted x y :=
    optionalConflict_map (fun _ _ h => Scalar.Value.text.inj h) fun _ => rfl
  have hpriority (field : String) (x y : Option Int) :
      optionalConflict field Scalar.Value.shown (x.map .priority) (y.map .priority) =
        optionalConflict field toString x y :=
    optionalConflict_map (fun _ _ h => Scalar.Value.priority.inj h) fun _ => rfl
  have haccess (field : String) (x y : Option Visibility) :
      optionalConflict field Scalar.Value.shown (x.map .access) (y.map .access) =
        optionalConflict field visibilityWord x y :=
    optionalConflict_map (fun _ _ h => Scalar.Value.access.inj h) fun _ => rfl
  simp only [conflicts, priorityConflict, Scalar.all, List.flatMap_cons, List.flatMap_nil, List.append_nil,
    List.append_assoc, Scalar.conflict, Scalar.value?_loadPriority]
  simp only [Scalar.value?, Scalar.name, htext, hpriority, haccess]

theorem mem_conflicts_iff {a b : Flags} {c : Conflict} :
    c ∈ a.conflicts b ↔ ∃ s kept dropped, Scalar.value? a s = some kept ∧
      Scalar.value? b s = some dropped ∧ kept ≠ dropped ∧ c = ⟨s.name, kept.shown, dropped.shown⟩ := by
  rw [conflicts_eq, List.mem_flatMap]
  constructor
  · rintro ⟨s, -, hc⟩
    exact ⟨s, mem_optionalConflict_iff.1 hc⟩
  · rintro ⟨s, hc⟩
    exact ⟨s, s.mem_all, mem_optionalConflict_iff.2 hc⟩

theorem nodup_fields_conflicts (a b : Flags) : ((a.conflicts b).map (·.field)).Nodup := by
  have hsublist (fields : List Scalar) :
      ((fields.flatMap (Scalar.conflict a b)).map (·.field)).Sublist (fields.map Scalar.name) := by
    induction fields with
    | nil => exact List.Sublist.refl _
    | cons s fields ih =>
        rw [List.flatMap_cons, List.map_append, List.map_cons]
        exact fields_optionalConflict_sublist.append ih
  rw [conflicts_eq]
  exact (hsublist Scalar.all).nodup (by decide)

/-- It does not matter how three sets of flags are grouped when they are merged, and default flags change
nothing.  In every field with a single value the first value stays; the conflicts are the fields in which both
values are set and differ, each once, with the value that stays and the one that is dropped. -/
theorem merge_regrouped (a b c : Flags) :
    (a.merge b).merge c = a.merge (b.merge c) ∧ a.merge {} = a ∧
      (∀ s, Scalar.value? (a.merge b) s = (Scalar.value? a s).or (Scalar.value? b s)) ∧
      (∀ conflict, conflict ∈ a.conflicts b ↔ ∃ s kept dropped, Scalar.value? a s = some kept ∧
        Scalar.value? b s = some dropped ∧ kept ≠ dropped ∧
        conflict = ⟨s.name, kept.shown, dropped.shown⟩) ∧
      ((a.conflicts b).map (·.field)).Nodup :=
  ⟨merge_assoc a b c, merge_default a, Scalar.value?_merge a b, fun _ => mem_conflicts_iff,
    nodup_fields_conflicts a b⟩

end ScriptBindings.Flags
