import Mathlib
import ScriptBindings.Proofs.Binding.Spelling
import ScriptBindings.Proofs.FirstOccurrence

/-!
# What a plan binds

The strategies of a slot's callables are grouped by key, taken apart into variants and put together again, one
entry for each key.  Nothing is lost on the way and nothing is bound twice: the keys of a plan are those of the
callables that can be bound, each once and in the order in which they first appear, and the variants of an
entry are the variants of all callables with its key, in the order of the callables.

The order in which variants are tried is up to the scripting side; here it is only kept.
-/

namespace ScriptBindings

open FirstOccurrence

namespace Strategy

variable {s : Strategy} {ss : List Strategy}

theorem IsLeaf.leaves_eq (h : s.IsLeaf) : s.leaves = [s] := by
  cases s with
  | deleted reason => cases h.1
  | overload variants => cases h.2
  | direct target => rw [leaves]
  | cast c => rw [leaves]
  | wrapper w => rw [leaves]
  | verbatim code => rw [leaves]

/-- What is taken apart already stays as it is. -/
theorem leavesOfList_of_isLeaf (h : ∀ s ∈ ss, s.IsLeaf) : leavesOfList ss = ss := by
  induction ss with
  | nil => rw [leavesOfList]
  | cons s ss ih =>
      rw [leavesOfList, (h s List.mem_cons_self).leaves_eq,
        ih fun t ht => h t (List.mem_cons_of_mem s ht)]
      rfl

/-- Wrappers bound together are the variants. -/
theorem leaves_overload_wrappers (ws : List CallWrapper) :
    (Strategy.overload (ws.map .wrapper)).leaves = ws.map .wrapper := by
  rw [leaves, leavesOfList_of_isLeaf]
  intro s hs
  obtain ⟨w, -, rfl⟩ := List.mem_map.1 hs
  exact ⟨rfl, rfl⟩

end Strategy

namespace Binding

variable {db : Database} {slot : Slot} {f : Callable}

/-! ## Strategies that bind nothing -/

/-- A callable is bound unless it is deleted or not to be bound. -/
def IsBindable (f : Callable) : Prop :=
  f.deleted = false ∧ f.flags.noBind = false

instance (f : Callable) : Decidable (IsBindable f) :=
  inferInstanceAs (Decidable (_ ∧ _))

theorem arities_ne_nil (f : Callable) : arities f ≠ [] := by
  rw [arities]
  intro h
  have hlength := congrArg List.length h
  simp at hlength

/-- A strategy for a callable that is bound itself binds something. -/
theorem leaves_boundStrategy_ne_nil (db : Database) (f : Callable) (overloaded : Bool) :
    (boundStrategy db f overloaded).leaves ≠ [] := by
  unfold boundStrategy
  split
  · -- One wrapper for each number of arguments, and there is at least one such number.
    have hleaves := Strategy.leaves_overload_wrappers
      ((arities f).map fun n => wrap db f n none .defaultParameters)
    rw [List.map_map] at hleaves
    intro h
    exact arities_ne_nil f (List.map_eq_nil_iff.1 (hleaves.symm.trans h))
  · split
    · exact List.cons_ne_nil _ _
    · split
      · exact List.cons_ne_nil _ _
      · split
        · exact List.cons_ne_nil _ _
        · exact List.cons_ne_nil _ _

theorem leaves_strategyOf_eq_nil_iff (db : Database) (f : Callable) (overloaded : Bool) :
    (strategyOf db f overloaded).leaves = [] ↔ ¬ IsBindable f := by
  unfold strategyOf IsBindable
  by_cases hdeleted : f.deleted = true
  · simp [hdeleted, Strategy.leaves]
  by_cases hnobind : f.flags.noBind = true
  · simp [hdeleted, hnobind, Strategy.leaves]
  rw [if_neg hdeleted, if_neg hnobind]
  have hbindable : f.deleted = false ∧ f.flags.noBind = false := by simp [hdeleted, hnobind]
  refine iff_of_false ?_ (not_not_intro hbindable)
  split
  · split
    · exact List.cons_ne_nil _ _
    · exact List.cons_ne_nil _ _
  · exact List.cons_ne_nil _ _
  · exact leaves_boundStrategy_ne_nil db f overloaded

/-- Strategies that bind nothing are those that are left out while planning. -/
theorem isDeleted_strategyOf (db : Database) (f : Callable) (overloaded : Bool) :
    (strategyOf db f overloaded).isDeleted = true ↔ ¬ IsBindable f := by
  rw [← leaves_strategyOf_eq_nil_iff db f overloaded]
  constructor
  · intro h
    cases hs : strategyOf db f overloaded with
    | deleted reason => rw [Strategy.leaves]
    | _ => rw [hs] at h; cases h
  · intro h
    have hunbound := (leaves_strategyOf_eq_nil_iff db f overloaded).1 h
    unfold strategyOf
    by_cases hdeleted : f.deleted = true
    · rw [if_pos hdeleted]
      rfl
    by_cases hnobind : f.flags.noBind = true
    · rw [if_neg hdeleted, if_pos hnobind]
      rfl
    exact absurd ⟨Bool.eq_false_of_not_eq_true hdeleted, Bool.eq_false_of_not_eq_true hnobind⟩ hunbound

/-! ## Grouping by key -/

/-- The strategies of a key, in their order. -/
def strategiesOf (key : BindKey) (l : List (BindKey × Strategy)) : List Strategy :=
  (l.filter fun e => e.1 = key).map (·.2)

/-- Groups for different keys: one more strategy joins the group of its key, or makes the last group. -/
theorem addStrategy_map {keys : List BindKey} (hkeys : keys.Nodup) (group : BindKey → List Strategy)
    (key : BindKey) (s : Strategy) :
    addStrategy key s (keys.map fun k => (k, group k)) =
      if key ∈ keys then keys.map fun k => (k, group k ++ if k = key then [s] else [])
      else keys.map (fun k => (k, group k)) ++ [(key, [s])] := by
  induction keys with
  | nil => rfl
  | cons k keys ih =>
      obtain ⟨hk, hkeys⟩ := List.nodup_cons.1 hkeys
      rw [List.map_cons, addStrategy]
      by_cases heq : k = key
      · -- The key stands nowhere else, so the other groups are as before.
        have hothers : (keys.map fun k => (k, group k ++ if k = key then [s] else [])) =
            keys.map fun k => (k, group k) := by
          refine List.map_congr_left fun other hother => ?_
          have hne : other ≠ key := fun h => hk (heq ▸ h ▸ hother)
          rw [if_neg hne, List.append_nil]
        rw [if_pos heq, if_pos (heq ▸ List.mem_cons_self), List.map_cons, hothers, if_pos heq]
      · rw [if_neg heq, ih hkeys]
        by_cases hmem : key ∈ keys
        · rw [if_pos hmem, if_pos (List.mem_cons_of_mem k hmem), List.map_cons, if_neg heq,
            List.append_nil]
        · have hnot : key ∉ k :: keys := fun h => by
            rcases List.mem_cons.1 h with h | h
            · exact heq h.symm
            · exact hmem h
          rw [if_neg hmem, if_neg hnot]
          rfl

/-- Every key has its strategies, and the keys stand in the order in which they first came. -/
theorem foldl_addStrategy (l : List (BindKey × Strategy)) :
    l.foldl (fun g e => addStrategy e.1 e.2 g) [] =
      (l.map (·.1)).eraseDups.map fun key => (key, strategiesOf key l) := by
  induction l using List.reverseRecOn with
  | nil => rfl
  | append_singleton l e ih =>
      obtain ⟨key, s⟩ := e
      have hgroup : ∀ k, strategiesOf k (l ++ [(key, s)]) =
          strategiesOf k l ++ if k = key then [s] else [] := by
        intro k
        by_cases h : key = k
        · simp [strategiesOf, h]
        · simp [strategiesOf, h, Ne.symm h]
      rw [List.foldl_append, ih, List.foldl_cons, List.foldl_nil, addStrategy_map (nodup_eraseDups _),
        List.map_append, List.map_singleton, eraseDups_concat]
      simp only [List.mem_eraseDups, hgroup]
      -- A key that came before has its group; a new key makes the last one, of a single strategy.
      by_cases hmem : key ∈ l.map (·.1)
      · rw [if_pos hmem, if_pos hmem]
      · have hnone : strategiesOf key l = [] := by
          rw [strategiesOf, List.map_eq_nil_iff, List.filter_eq_nil_iff]
          intro e he heq
          exact hmem (List.mem_map.2 ⟨e, he, by simpa using heq⟩)
        have hothers : ((l.map (·.1)).eraseDups.map fun k =>
            (k, strategiesOf k l ++ if k = key then [s] else [])) =
              (l.map (·.1)).eraseDups.map fun k => (k, strategiesOf k l) := by
          refine List.map_congr_left fun k hk => ?_
          have hne : k ≠ key := fun h => hmem (h ▸ List.mem_eraseDups.1 hk)
          rw [if_neg hne, List.append_nil]
        rw [if_neg hmem, if_neg hmem, List.map_append, hothers, List.map_singleton, hnone, if_pos rfl]
        rfl

/-! ## Putting variants together -/

/-- All variants together have the variants of each, and there are several of them or it is a single one. -/
theorem gather?_eq_some {ss : List Strategy} {s : Strategy} (h : gather? ss = some s) :
    s.leaves = Strategy.leavesOfList ss ∧ s.leaves ≠ [] ∧
      (s.IsLeaf ∨ s = .overload s.leaves ∧ 2 ≤ s.leaves.length) := by
  have hleaf := fun t => Strategy.isLeaf_of_mem_leavesOfList (t := t) ss
  unfold gather? at h
  split at h
  · cases h
  · rename_i leaf hleaves
    obtain rfl := Option.some.inj h
    have hself : leaf.IsLeaf := hleaf leaf (by rw [hleaves]; exact List.mem_singleton_self leaf)
    rw [hself.leaves_eq, hleaves]
    exact ⟨rfl, List.cons_ne_nil _ _, Or.inl hself⟩
  · rename_i variants hnil hsingle
    obtain rfl := Option.some.inj h
    have hleaves : (Strategy.overload (Strategy.leavesOfList ss)).leaves = Strategy.leavesOfList ss := by
      rw [Strategy.leaves, Strategy.leavesOfList_of_isLeaf hleaf]
    rw [hleaves]
    refine ⟨rfl, hnil, Or.inr ⟨rfl, ?_⟩⟩
    rcases hvariants : Strategy.leavesOfList ss with _ | ⟨first, _ | ⟨second, rest⟩⟩
    · exact absurd hvariants hnil
    · exact absurd hvariants (hsingle first)
    · simp

theorem gather?_eq_none_iff {ss : List Strategy} :
    gather? ss = none ↔ Strategy.leavesOfList ss = [] := by
  unfold gather?
  split
  · rename_i h
    simp [h]
  · rename_i h
    simp [h]
  · rename_i h _
    simpa using h

/-! ## Callables of a slot -/

/-- Several callables share the slot, or its address is not enough for another reason. -/
def isOverloaded (slot : Slot) : Bool :=
  1 < slot.callables.length || slot.forceCast

/-- The callables that are bound are those that can be and that have a key. -/
theorem boundCallables_eq (db : Database) (slot : Slot) : boundCallables db slot =
    (slot.callables.filter fun f => IsBindable f).filterMap fun f =>
      (BindKey.ofCallable? f).map fun key => (key, strategyOf db f (isOverloaded slot)) := by
  show (slot.callables.filterMap fun f => (BindKey.ofCallable? f).bind fun key =>
    if (strategyOf db f (isOverloaded slot)).isDeleted then none
    else some (key, strategyOf db f (isOverloaded slot))) = _
  induction slot.callables with
  | nil => rfl
  | cons f fs ih =>
      have hdeleted := isDeleted_strategyOf db f (isOverloaded slot)
      rw [List.filterMap_cons, ih]
      by_cases hbound : IsBindable f
      · have hkept := Bool.eq_false_of_not_eq_true fun h => hdeleted.1 h hbound
        rw [List.filter_cons_of_pos (by simpa using hbound), List.filterMap_cons, hkept]
        cases BindKey.ofCallable? f <;> rfl
      · rw [List.filter_cons_of_neg (by simpa using hbound), hdeleted.2 hbound]
        cases BindKey.ofCallable? f <;> rfl

/-- The strategies that are gathered for a key have the variants of all callables with the key: those that
are left out have none. -/
theorem leaves_strategiesOf (db : Database) (slot : Slot) (key : BindKey) :
    Strategy.leavesOfList (strategiesOf key (boundCallables db slot)) =
      (slot.callables.filter fun f => BindKey.ofCallable? f = some key).flatMap fun f =>
        (strategyOf db f (isOverloaded slot)).leaves := by
  rw [boundCallables_eq]
  generalize isOverloaded slot = overloaded
  induction slot.callables with
  | nil => rfl
  | cons f fs ih =>
      by_cases hbound : IsBindable f
      · rw [List.filter_cons_of_pos (by simpa using hbound), List.filterMap_cons]
        by_cases hkey : BindKey.ofCallable? f = some key
        · rw [List.filter_cons_of_pos (by simpa using hkey), List.flatMap_cons, ← ih, hkey]
          simp [strategiesOf, Strategy.leavesOfList]
        · rw [List.filter_cons_of_neg (by simpa using hkey), ← ih]
          cases hother : BindKey.ofCallable? f with
          | none => rfl
          | some other =>
              have hne : other ≠ key := fun h => hkey (h ▸ hother)
              simp [strategiesOf, hne]
      -- What cannot be bound is left out, and it would not add any variant.
      · have hnone := (leaves_strategyOf_eq_nil_iff db f overloaded).2 hbound
        rw [List.filter_cons_of_neg (by simpa using hbound), ih]
        by_cases hkey : BindKey.ofCallable? f = some key
        · rw [List.filter_cons_of_pos (by simpa using hkey), List.flatMap_cons, hnone, List.nil_append]
        · rw [List.filter_cons_of_neg (by simpa using hkey)]

/-! ## Entries -/

/-- The keys under which something is bound, each where it first appears. -/
def boundKeys (slot : Slot) : List BindKey :=
  ((slot.callables.filter fun f => IsBindable f).filterMap BindKey.ofCallable?).eraseDups

theorem mem_boundKeys_iff {key : BindKey} :
    key ∈ boundKeys slot ↔ ∃ f ∈ slot.callables, IsBindable f ∧ BindKey.ofCallable? f = some key := by
  simp only [boundKeys, List.mem_eraseDups, List.mem_filterMap, List.mem_filter, decide_eq_true_eq,
    and_assoc]

/-- The entry of a key, if something is bound under it. -/
def entryOf? (db : Database) (slot : Slot) (key : BindKey) : Option Entry :=
  (gather? (strategiesOf key (boundCallables db slot))).map fun s =>
    ⟨key, s, slot.flags?.any (·.asProperty)⟩

theorem planSlot_eq (db : Database) (slot : Slot) :
    planSlot db slot = (boundKeys slot).filterMap (entryOf? db slot) := by
  have hkeys : (boundCallables db slot).map (·.1) =
      (slot.callables.filter fun f => IsBindable f).filterMap BindKey.ofCallable? := by
    rw [boundCallables_eq, List.map_filterMap]
    simp only [Option.map_map, Function.comp_def, Option.map_id']
  rw [planSlot, boundKeys, ← hkeys]
  show ((boundCallables db slot).foldl (fun g e => addStrategy e.1 e.2 g) []).filterMap _ = _
  rw [foldl_addStrategy, List.filterMap_map]
  rfl

/-- Under a key that appears, something is bound. -/
theorem exists_entry_of_mem_boundKeys (db : Database) {key : BindKey} (h : key ∈ boundKeys slot) :
    ∃ e, entryOf? db slot key = some e := by
  obtain ⟨f, hf, hbound, hkey⟩ := mem_boundKeys_iff.1 h
  rw [← Option.isSome_iff_exists, entryOf?, Option.isSome_map, Option.isSome_iff_ne_none, ne_eq,
    gather?_eq_none_iff, leaves_strategiesOf, List.flatMap_eq_nil_iff]
  intro hnone
  have hleaves := hnone f (List.mem_filter.2 ⟨hf, by simpa using hkey⟩)
  exact (leaves_strategyOf_eq_nil_iff db f _).1 hleaves hbound

theorem key_of_entryOf? {key : BindKey} {e : Entry} (h : entryOf? db slot key = some e) : e.key = key := by
  obtain ⟨s, -, rfl⟩ := Option.map_eq_some_iff.1 h
  rfl

theorem keys_planSlot (db : Database) (slot : Slot) :
    (planSlot db slot).map (·.key) = boundKeys slot := by
  rw [planSlot_eq, List.map_filterMap]
  have hself : ∀ key ∈ boundKeys slot, (entryOf? db slot key).map (·.key) = some key := by
    intro key hmem
    obtain ⟨e, he⟩ := exists_entry_of_mem_boundKeys db hmem
    rw [he, Option.map_some, key_of_entryOf? he]
  rw [List.filterMap_congr hself, List.filterMap_some]

/-- An entry binds the variants of all callables that have its key, in the order of the callables: one of
them directly, or several of them as variants next to each other. -/
structure BindsAll (db : Database) (slot : Slot) (e : Entry) : Prop where
  leaves_eq : e.strategy.leaves =
    (slot.callables.filter fun f => BindKey.ofCallable? f = some e.key).flatMap fun f =>
      (strategyOf db f (isOverloaded slot)).leaves
  nonempty : e.strategy.leaves ≠ []
  flat : e.strategy.IsLeaf ∨
    ∃ variants, e.strategy = .overload variants ∧ ∀ v ∈ variants, v.IsLeaf
  overload_iff : e.strategy.isOverload = true ↔ 2 ≤ e.strategy.leaves.length

theorem bindsAll_of_mem_planSlot {e : Entry} (he : e ∈ planSlot db slot) : BindsAll db slot e := by
  rw [planSlot_eq] at he
  obtain ⟨key, -, hentry⟩ := List.mem_filterMap.1 he
  obtain ⟨s, hgather, rfl⟩ := Option.map_eq_some_iff.1 hentry
  obtain ⟨hleaves, hne, hshape⟩ := gather?_eq_some hgather
  refine ⟨hleaves.trans (leaves_strategiesOf db slot key), hne, ?_, ?_⟩
  · rcases hshape with hleaf | ⟨hoverload, -⟩
    · exact Or.inl hleaf
    · refine Or.inr ⟨s.leaves, hoverload, fun v hv => ?_⟩
      exact Strategy.isLeaf_of_mem_leaves s hv
  · rcases hshape with hleaf | ⟨hoverload, hlength⟩
    · show s.isOverload = true ↔ 2 ≤ s.leaves.length
      rw [hleaf.2, hleaf.leaves_eq]
      simp
    · refine iff_of_true ?_ hlength
      show s.isOverload = true
      rw [hoverload]
      rfl

/-! ## Spelling -/

/-- How a pointer to a function, or to a member of a class, is written. -/
inductive PointerText : (owner : Option String) → String → Prop where
  | function : PointerText none "*"
  | member (owner : String) : PointerText (some owner) (owner ++ "::*")

/-- The words behind a list of parameters have a blank in front of them, if there are any. -/
inductive WordsText : (words : List String) → String → Prop where
  | none {words : List String} (h : " ".intercalate words = "") : WordsText words ""
  | some {words : List String} (h : " ".intercalate words ≠ "") :
      WordsText words (" " ++ " ".intercalate words)

/-- How a variant is spelled.  An address and the author's own code are written as they are, a cast names the
signature in front of the address, and a wrapper is a function that takes the parameters by type and name and
returns what the call does. -/
inductive VariantText : Strategy → String → Prop where
  | direct (target : String) : VariantText (.direct target) target
  | verbatim (code : String) : VariantText (.verbatim code) code
  | cast {c : AddressCast} {pointer words : String} (hpointer : PointerText c.owner pointer)
      (hwords : WordsText c.qualifiers words) : VariantText (.cast c)
        ("static_cast<" ++ c.returnType ++ " (" ++ pointer ++ ")(" ++ ", ".intercalate c.parameters ++ ")" ++
          words ++ ">(" ++ c.target ++ ")")
  | wrapper (w : CallWrapper) : VariantText (.wrapper w)
      ("[](" ++ ", ".intercalate (w.parameters.map fun p => p.1 ++ " " ++ p.2) ++ ") -> " ++ w.returnType ++
        " \x7b return " ++ w.callLead ++ w.call ++ "(" ++ ", ".intercalate w.arguments ++ "); \x7d")

theorem pointerText (owner : Option String) :
    PointerText owner ((owner.map (· ++ "::")).getD "" ++ "*") := by
  cases owner with
  | none => exact .function
  | some owner =>
      rw [Option.map_some, Option.getD_some, String.append_assoc]
      exact .member owner

theorem wordsText (words : List String) : WordsText words
    (if " ".intercalate words = "" then "" else " " ++ " ".intercalate words) := by
  split
  · rename_i h
    exact .none h
  · rename_i h
    exact .some h

theorem variantText_cast (c : AddressCast) : VariantText (.cast c) c.text := by
  have hcast := VariantText.cast (pointerText c.owner) (wordsText c.qualifiers)
  have hstar : "*)(" = "*" ++ ")(" := by decide
  unfold AddressCast.text
  rw [hstar]
  simp only [String.append_assoc] at hcast ⊢
  exact hcast

/-- A variant has an expression in every flavour, the one that it is spelled with. -/
theorem exists_expression_of_isLeaf (flavour : Flavour) {s : Strategy} (h : s.IsLeaf) :
    ∃ text, flavour.expression? s = some text ∧ VariantText s text := by
  cases s with
  | deleted reason => cases h.1
  | overload variants => cases h.2
  | direct target => exact ⟨target, rfl, .direct target⟩
  | cast c => exact ⟨c.text, rfl, variantText_cast c⟩
  | wrapper w => exact ⟨w.text, rfl, .wrapper w⟩
  | verbatim code => exact ⟨code, rfl, .verbatim code⟩

/-- How a choice among some expressions is spelled; there is no choice among one. -/
def choiceText (flavour : Flavour) : List String → String
  | [text] => text
  | texts => Template.render flavour.functionOverload [("overloads", ", ".intercalate texts)]

/-- Every variant of an entry is spelled, and the entry is spelled as the choice among all of them. -/
def Spells (flavour : Flavour) (e : Entry) : Prop :=
  ∃ texts, List.Forall₂ (fun s text => flavour.expression? s = some text ∧ VariantText s text)
      e.strategy.leaves texts ∧
    flavour.expression? e.strategy = some (choiceText flavour texts)

theorem forall₂_expressions (flavour : Flavour) {ss : List Strategy} (h : ∀ s ∈ ss, s.IsLeaf) :
    List.Forall₂ (fun s text => flavour.expression? s = some text ∧ VariantText s text) ss
      (flavour.expressions ss) := by
  induction ss with
  | nil =>
      rw [Flavour.expressions]
      exact .nil
  | cons s ss ih =>
      obtain ⟨text, htext, hvariant⟩ := exists_expression_of_isLeaf flavour (h s List.mem_cons_self)
      rw [Flavour.expressions, htext]
      exact .cons ⟨htext, hvariant⟩ (ih fun t ht => h t (List.mem_cons_of_mem s ht))

theorem BindsAll.spells (flavour : Flavour) {e : Entry} (h : BindsAll db slot e) : Spells flavour e := by
  have hleaves := fun s => Strategy.isLeaf_of_mem_leaves (t := s) e.strategy
  refine ⟨_, forall₂_expressions flavour hleaves, ?_⟩
  rcases h.flat with hleaf | ⟨variants, hoverload, hvariants⟩
  · obtain ⟨text, htext⟩ :=
      Option.isSome_iff_exists.1 (flavour.isSome_expression_of_isLeaf hleaf)
    rw [hleaf.leaves_eq, Flavour.expressions, Flavour.expressions, htext]
    rfl
  · have hself : e.strategy.leaves = variants := by
      rw [hoverload, Strategy.leaves, Strategy.leavesOfList_of_isLeaf hvariants]
    have hlength := (forall₂_expressions flavour hvariants).length_eq
    have hseveral : 2 ≤ variants.length := by
      rw [← hself]
      exact h.overload_iff.1 (by rw [hoverload]; rfl)
    rw [hself, hoverload, Flavour.expression?]
    -- Every variant has a text, so there are two of them at least.
    rcases htexts : flavour.expressions variants with _ | ⟨first, _ | ⟨second, rest⟩⟩
    · rw [htexts, List.length_nil] at hlength
      omega
    · rw [htexts, List.length_singleton] at hlength
      omega
    · rfl

/-- Planning binds every callable once.  The keys of a plan are those of the callables that are neither
deleted nor excluded, each once and in the order of its first callable; what is bound under a key are the
variants of all callables with the key, one after the other; and in every flavour each entry is spelled with
all of its variants, each of them by its address, cast, wrapper or code.  A callable has no variants only if it is
deleted or excluded. -/
theorem planSlot_binds_once (db : Database) (slot : Slot) :
    (planSlot db slot).map (·.key) = boundKeys slot ∧ ((planSlot db slot).map (·.key)).Nodup ∧
      (∀ e ∈ planSlot db slot, BindsAll db slot e ∧ ∀ flavour, Spells flavour e) ∧
      ∀ f overloaded, (strategyOf db f overloaded).leaves = [] ↔
        f.deleted = true ∨ f.flags.noBind = true := by
  refine ⟨keys_planSlot db slot, ?_, fun e he => ?_, fun f overloaded => ?_⟩
  · rw [keys_planSlot]
    exact nodup_eraseDups _
  · have hbinds := bindsAll_of_mem_planSlot he
    exact ⟨hbinds, hbinds.spells⟩
  · rw [leaves_strategyOf_eq_nil_iff, IsBindable, Classical.not_and_iff_not_or_not,
      Bool.not_eq_false, Bool.not_eq_false]

/-- A slot whose callables have two keys: the first one is deleted, the second and the last one are renamed,
and the second one can be called with or without an argument. -/
def renamedGroup : Slot :=
  .overload
    { name := "grow"
      overloads :=
        [{ name := "grow", deleted := true },
          { name := "grow", params := [{ name := "n", ty := .named "int", default := some "1" }],
            flags := { rename := some "extend" } },
          { name := "grow" },
          { name := "grow", params := [{ name := "x", ty := .named "double" }],
            flags := { rename := some "extend" } }] }

theorem planSlot_binds_once_renamed :
    ((planSlot {} renamedGroup).map fun e => (e.key, e.strategy.leaves.length)) =
        [(.named "extend", 3), (.named "grow", 1)] ∧
      ((planSlot {} renamedGroup).map fun e => ({} : Flavour).expression? e.strategy) =
        [some ("sol::overload([]() -> void \x7b return grow(); \x7d, " ++
            "[](int n) -> void \x7b return grow(n); \x7d, static_cast<void (*)(double)>(&grow))"),
          some "static_cast<void (*)()>(&grow)"] ∧
      ∀ e ∈ planSlot {} renamedGroup, BindsAll {} renamedGroup e ∧ ∀ flavour, Spells flavour e :=
  ⟨by decide, by decide +kernel, (planSlot_binds_once {} renamedGroup).2.2.1⟩

end Binding

end ScriptBindings
