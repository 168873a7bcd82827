import Mathlib
import ScriptBindings.Resolve.Template
import ScriptBindings.Proofs.Entity.Slots

/-!
# Replacing function templates

A callable that is no template stays, and a template leaves one callable for each of its combinations.  The
slots are rebuilt in the order of their keys.  Specialisations are added to what their key holds by then,
but a slot without templates is put in its place as it is.  So the one thing that can be lost is a
specialisation whose key is that of a later slot without templates.
-/

namespace ScriptBindings

namespace Resolve

variable {keyFor : Callable → String → String} {slots : Slots}

/-- The callables that are left of a callable once templates are replaced. -/
def outcomes (f : Callable) : List Callable :=
  if f.isTemplate then
    f.flags.templateHints.flatMap fun hint =>
      hint.combinations.map fun b => (specialiseFunction f hint.bindName b).uncast
  else [f.uncast]

/-- The callables that are left of a slot. -/
def slotOutcomes (s : Slot) : List Callable :=
  s.callables.flatMap outcomes

/-- The callables that are left of all slots, key by key. -/
def allOutcomes (slots : Slots) : List Callable :=
  slots.gather fun _ => slotOutcomes

/-- Is some callable of the slot a template? -/
def hasTemplate (s : Slot) : Bool :=
  s.callables.any (·.isTemplate)

/-- The callables that a callable leaves under a key which is not that of its own slot. -/
def arrivals (keyFor : Callable → String → String) (key : String) (f : Callable) : List Callable :=
  if f.isTemplate then
    f.flags.templateHints.flatMap fun hint =>
      if keyFor f hint.bindName = key then
        hint.combinations.map fun b => (specialiseFunction f hint.bindName b).uncast
      else []
  else []

/-! ## One slot -/

theorem slotOutcomes_of_not_hasTemplate {s : Slot} (h : hasTemplate s = false) :
    slotOutcomes s = s.held := by
  unfold hasTemplate at h
  rw [List.any_eq_false] at h
  rw [slotOutcomes, Slot.held, List.map_eq_flatMap]
  exact List.flatMap_congr fun f hf => by rw [outcomes, if_neg (h f hf)]

theorem arrivals_of_not_hasTemplate {s : Slot} (h : hasTemplate s = false) (key : String) :
    s.callables.flatMap (arrivals keyFor key) = [] := by
  unfold hasTemplate at h
  rw [List.any_eq_false] at h
  exact List.flatMap_eq_nil_iff.2 fun f hf => by rw [arrivals, if_neg (h f hf)]

/-- What a callable is expanded to holds what is left of it. -/
theorem held_expandCallable (keyFor : Callable → String → String) (key : String) (forceCast : Bool)
    (f : Callable) :
    (expandCallable keyFor key forceCast f).flatMap (fun e => e.2.held) = outcomes f := by
  unfold expandCallable outcomes
  cases htemplate : f.isTemplate with
  | false =>
      rw [if_pos (by rfl), if_neg Bool.false_ne_true, Callable.uncast, htemplate]
      rfl
  | true =>
      rw [if_neg (by simp), if_pos rfl]
      split
      · rename_i hnone
        rw [hnone]
        rfl
      · rw [List.flatMap_assoc]
        refine List.flatMap_congr fun hint _ => ?_
        rw [List.flatMap_map, List.map_eq_flatMap]
        rfl

/-- Under another key a callable leaves its specialisations for that key. -/
theorem held_expandCallable_filter {key other : String} (hne : other ≠ key) (forceCast : Bool)
    (f : Callable) :
    ((expandCallable keyFor key forceCast f).filter fun e => e.1 = other).flatMap
      (fun e => e.2.held) = arrivals keyFor other f := by
  have hself : ¬ key = other := fun h => hne h.symm
  unfold expandCallable arrivals
  -- What stays under its own key is not looked at here.
  cases f.isTemplate with
  | false =>
      rw [if_pos (by rfl), if_neg Bool.false_ne_true, List.filter_cons_of_neg (by simpa using hself)]
      rfl
  | true =>
      rw [if_neg (by simp), if_pos rfl]
      split
      · rename_i hnone
        rw [hnone, List.filter_cons_of_neg (by simpa using hself)]
        rfl
      · rw [List.filter_flatMap, List.flatMap_assoc]
        refine List.flatMap_congr fun hint _ => ?_
        by_cases hkey : keyFor f hint.bindName = other
        · rw [if_pos hkey, List.filter_map, List.filter_eq_self.2 fun b _ => by simpa using hkey,
            List.flatMap_map, List.map_eq_flatMap]
          rfl
        · rw [if_neg hkey, List.filter_map, List.filter_eq_nil_iff.2 fun b _ => by simpa using hkey]
          rfl

/-- Under its own key a callable that is no template is left. -/
theorem mem_held_expandCallable {f : Callable} (h : f.isTemplate = false) (key : String)
    (forceCast : Bool) : f.uncast ∈
      ((expandCallable keyFor key forceCast f).filter fun e => e.1 = key).flatMap fun e => e.2.held := by
  simp [expandCallable, h, Slot.held, Slot.callables, Callable.uncast]

/-! ## Rebuilding one slot -/

theorem rebuildSlot_of_hasTemplate {s : Slot} (h : hasTemplate s = true) (out : Slots) (key : String) :
    rebuildSlot keyFor out (key, s) =
      out.addAll (s.callables.flatMap (expandCallable keyFor key s.forceCast)) := by
  unfold rebuildSlot
  exact if_pos h

theorem rebuildSlot_of_not_hasTemplate {s : Slot} (h : hasTemplate s = false) (out : Slots)
    (key : String) : rebuildSlot keyFor out (key, s) = out.insert key s := by
  unfold rebuildSlot
  exact if_neg (by rw [← hasTemplate, h]; exact Bool.false_ne_true)

/-- What is lost when a slot is rebuilt: what its key held, if it has no templates. -/
def lostBy (out : Slots) (e : String × Slot) : List Callable :=
  if hasTemplate e.2 then [] else out.heldAt e.1

theorem count_held_rebuildSlot (keyFor : Callable → String → String) (out : Slots)
    (e : String × Slot) (f : Callable) :
    (rebuildSlot keyFor out e).held.count f + (lostBy out e).count f =
      (slotOutcomes e.2).count f + out.held.count f := by
  obtain ⟨key, s⟩ := e
  cases h : hasTemplate s with
  | false =>
      rw [rebuildSlot_of_not_hasTemplate h, lostBy, if_neg (by rw [h]; exact Bool.false_ne_true),
        slotOutcomes_of_not_hasTemplate h]
      exact Slots.count_held_insert out key s f
  | true =>
      rw [rebuildSlot_of_hasTemplate h, lostBy, if_pos h, List.count_nil, Nat.add_zero,
        Slots.count_held_addAll, List.flatMap_assoc, slotOutcomes]
      simp only [held_expandCallable]

/-- Under another key only specialisations come in. -/
theorem heldAt_rebuildSlot {e : String × Slot} {other : String} (hne : other ≠ e.1) (out : Slots) :
    (rebuildSlot keyFor out e).heldAt other =
      out.heldAt other ++ e.2.callables.flatMap (arrivals keyFor other) := by
  obtain ⟨key, s⟩ := e
  cases h : hasTemplate s with
  | false =>
      rw [rebuildSlot_of_not_hasTemplate h, Slots.heldAt_insert, if_neg hne,
        arrivals_of_not_hasTemplate h, List.append_nil]
  | true =>
      rw [rebuildSlot_of_hasTemplate h, Slots.heldAt_addAll, List.filter_flatMap, List.flatMap_assoc]
      simp only [held_expandCallable_filter hne]

/-- Under its own key a slot leaves its callables that are no templates. -/
theorem mem_heldAt_rebuildSlot {s : Slot} {f : Callable} (hf : f ∈ s.callables)
    (hplain : f.isTemplate = false) (out : Slots) (key : String) :
    f.uncast ∈ (rebuildSlot keyFor out (key, s)).heldAt key := by
  cases h : hasTemplate s with
  | false =>
      rw [rebuildSlot_of_not_hasTemplate h, Slots.heldAt_insert, if_pos rfl]
      exact List.mem_map_of_mem hf
  | true =>
      rw [rebuildSlot_of_hasTemplate h, Slots.heldAt_addAll, List.filter_flatMap, List.flatMap_assoc]
      exact List.mem_append_right _
        (List.mem_flatMap.2 ⟨f, hf, mem_held_expandCallable hplain key s.forceCast⟩)

/-! ## Rebuilding all slots -/

/-- What is lost while slots are rebuilt one after the other. -/
def lostByAll (keyFor : Callable → String → String) : Slots → List (String × Slot) → List Callable
  | _, [] => []
  | out, e :: rest => lostBy out e ++ lostByAll keyFor (rebuildSlot keyFor out e) rest

theorem count_held_foldl_rebuildSlot (keyFor : Callable → String → String) (out : Slots)
    (l : List (String × Slot)) (f : Callable) :
    (l.foldl (rebuildSlot keyFor) out).held.count f + (lostByAll keyFor out l).count f =
      (l.flatMap fun e => slotOutcomes e.2).count f + out.held.count f := by
  induction l generalizing out with
  | nil => simp [lostByAll]
  | cons e l ih =>
      have hstep := count_held_rebuildSlot keyFor out e f
      have hrest := ih (rebuildSlot keyFor out e)
      rw [List.foldl_cons, lostByAll, List.flatMap_cons, List.count_append, List.count_append]
      omega

theorem heldAt_foldl_rebuildSlot {l : List (String × Slot)} {key : String}
    (hne : ∀ e ∈ l, key ≠ e.1) (out : Slots) :
    (l.foldl (rebuildSlot keyFor) out).heldAt key =
      out.heldAt key ++ l.flatMap fun e => e.2.callables.flatMap (arrivals keyFor key) := by
  induction l generalizing out with
  | nil => simp
  | cons e l ih =>
      rw [List.foldl_cons, ih fun e' he' => hne e' (List.mem_cons_of_mem _ he'),
        heldAt_rebuildSlot (hne e List.mem_cons_self), List.flatMap_cons, List.append_assoc]

/-- Nothing is lost if every slot without templates finds its key free. -/
theorem lostByAll_eq_nil_iff (out : Slots) (l : List (String × Slot)) :
    lostByAll keyFor out l = [] ↔ ∀ before e after, l = before ++ e :: after →
      lostBy (before.foldl (rebuildSlot keyFor) out) e = [] := by
  induction l generalizing out with
  | nil => simp [lostByAll]
  | cons e l ih =>
      rw [lostByAll, List.append_eq_nil_iff, ih]
      constructor
      · rintro ⟨hfirst, hrest⟩ before e' after hsplit
        cases before with
        | nil =>
            obtain ⟨rfl, -⟩ := List.cons.inj hsplit
            exact hfirst
        | cons e₀ before =>
            obtain ⟨rfl, htail⟩ := List.cons.inj hsplit
            exact hrest before e' after htail
      · intro h
        exact ⟨h [] e l rfl, fun before e' after hsplit => h (e :: before) e' after (by rw [hsplit]; rfl)⟩

/-- Specialisations keep clear of slots without templates: no such slot has the key of a specialisation
that is put there before the slot's turn. -/
def KeepsClear (keyFor : Callable → String → String) (slots : Slots) : Prop :=
  ∀ key s, slots.get? key = some s → hasTemplate s = false →
    ∀ other t, slots.get? other = some t → other < key →
      ∀ f ∈ t.callables, f.isTemplate = true → ∀ hint ∈ f.flags.templateHints,
        hint.combinations ≠ [] → keyFor f hint.bindName ≠ key

theorem arrivals_eq_nil_iff {key : String} {f : Callable} : arrivals keyFor key f = [] ↔
    (f.isTemplate = true → ∀ hint ∈ f.flags.templateHints, hint.combinations ≠ [] →
      keyFor f hint.bindName ≠ key) := by
  unfold arrivals
  split
  · rename_i htemplate
    rw [List.flatMap_eq_nil_iff]
    constructor
    · intro h _ hint hhint hsome hkey
      have hnil := h hint hhint
      rw [if_pos hkey, List.map_eq_nil_iff] at hnil
      exact hsome hnil
    · intro h hint hhint
      split
      · rename_i hkey
        by_contra hsome
        exact h htemplate hint hhint (fun hnil => hsome (by rw [hnil]; rfl)) hkey
      · rfl
  · rename_i hplain
    exact ⟨fun _ htemplate => absurd htemplate hplain, fun _ => rfl⟩

/-- The entries in front of an entry are those with a smaller key. -/
theorem mem_front_iff {slots : Slots} {before after : List (String × Slot)} {e d : String × Slot}
    (hsplit : slots.entries = before ++ e :: after) :
    d ∈ before ↔ d ∈ slots.entries ∧ d.1 < e.1 := by
  have hsorted := slots.sorted
  rw [hsplit, List.pairwise_append] at hsorted
  obtain ⟨-, htail, hcross⟩ := hsorted
  constructor
  · intro hd
    exact ⟨by rw [hsplit]; exact List.mem_append_left _ hd, hcross d hd e List.mem_cons_self⟩
  · rintro ⟨hd, hlt⟩
    rw [hsplit] at hd
    rcases List.mem_append.1 hd with hd | hd
    · exact hd
    · rcases List.mem_cons.1 hd with rfl | hd
      · exact absurd hlt (String.lt_irrefl _)
      · exact absurd (String.lt_trans hlt ((List.pairwise_cons.1 htail).1 d hd)) (String.lt_irrefl _)

theorem lostByAll_entries_eq_nil_iff :
    lostByAll keyFor .empty slots.entries = [] ↔ KeepsClear keyFor slots := by
  rw [lostByAll_eq_nil_iff]
  have hlost : ∀ {before after : List (String × Slot)} {e : String × Slot},
      slots.entries = before ++ e :: after →
        (lostBy (before.foldl (rebuildSlot keyFor) .empty) e = [] ↔ (hasTemplate e.2 = false →
          ∀ d ∈ before, ∀ f ∈ d.2.callables, arrivals keyFor e.1 f = [])) := by
    intro before after e hsplit
    -- Slots come in the order of their keys, so none of those in front has the key itself.
    have hfree : ∀ d ∈ before, e.1 ≠ d.1 := fun d hd heq =>
      String.lt_irrefl d.1 (heq ▸ ((mem_front_iff hsplit).1 hd).2)
    unfold lostBy
    split
    · rename_i htemplate
      exact ⟨fun _ hnot => absurd htemplate (by rw [hnot]; exact Bool.false_ne_true), fun _ => rfl⟩
    · rename_i htemplate
      rw [heldAt_foldl_rebuildSlot hfree]
      have hempty : Slots.heldAt .empty e.1 = [] := rfl
      rw [hempty, List.nil_append, List.flatMap_eq_nil_iff]
      simp only [List.flatMap_eq_nil_iff]
      exact ⟨fun h _ => h, fun h => h (by simpa using htemplate)⟩
  constructor
  · intro h key s hs hplain other t ht hlt f hf
    obtain ⟨before, after, hsplit⟩ := List.append_of_mem (Dict.get?_eq_some_iff.1 hs)
    have hbefore := (mem_front_iff hsplit).2 ⟨Dict.get?_eq_some_iff.1 ht, hlt⟩
    exact arrivals_eq_nil_iff.1 ((hlost hsplit).1 (h _ _ _ hsplit) hplain _ hbefore f hf)
  · intro h before e after hsplit
    refine (hlost hsplit).2 fun hplain d hd f hf => arrivals_eq_nil_iff.2 ?_
    obtain ⟨hd, hlt⟩ := (mem_front_iff hsplit).1 hd
    have he : e ∈ slots.entries := by rw [hsplit]; simp
    exact h e.1 e.2 (Dict.get?_eq_some_iff.2 he) hplain d.1 d.2 (Dict.get?_eq_some_iff.2 hd) hlt f hf

theorem count_held_specialiseSlots (keyFor : Callable → String → String) (slots : Slots)
    (f : Callable) :
    (specialiseSlots keyFor slots).held.count f + (lostByAll keyFor .empty slots.entries).count f =
      (allOutcomes slots).count f :=
  count_held_foldl_rebuildSlot keyFor .empty slots.entries f

/-- A callable that is no template stays under its key. -/
theorem mem_heldAt_specialiseSlots {key : String} {s : Slot} {f : Callable}
    (hs : slots.get? key = some s) (hf : f ∈ s.callables) (hplain : f.isTemplate = false) :
    f.uncast ∈ (specialiseSlots keyFor slots).heldAt key := by
  obtain ⟨before, after, hsplit⟩ := List.append_of_mem (Dict.get?_eq_some_iff.1 hs)
  -- No later slot has the key, so nothing takes the place of what the slot leaves under it.
  have hlater : ∀ e ∈ after, key ≠ e.1 := fun e he heq => by
    have hsorted := slots.sorted
    rw [hsplit, List.pairwise_append] at hsorted
    exact String.lt_irrefl key (heq ▸ (List.pairwise_cons.1 hsorted.2.1).1 e he)
  rw [specialiseSlots, hsplit, List.foldl_append, List.foldl_cons, heldAt_foldl_rebuildSlot hlater]
  exact List.mem_append_left _ (mem_heldAt_rebuildSlot hf hplain _ key)

end Resolve

end ScriptBindings
