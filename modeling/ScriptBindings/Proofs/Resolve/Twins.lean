import Mathlib
import ScriptBindings.Proofs.Binding.Exclusion
import ScriptBindings.Proofs.Binding.Legality
import ScriptBindings.Proofs.Binding.SharedSlots
import ScriptBindings.Proofs.Resolve.Specialisation

/-!
# Functions next to templates

The address of a function is ambiguous where a template has the same name.  A template without hints leaves a
placeholder behind, which asks for a cast, and so does a specialisation that comes to the name of the function:
it shares the slot.  But a template whose specialisations all go elsewhere leaves no trace, and then a function
that is alone in the end is bound by its bare address.
-/

namespace ScriptBindings

open Slot

namespace Resolve

open Binding

variable {keyFor : Callable → String → String} {slots : Slots} {key : String} {s s' : Slot}
  {f : Callable}

/-! ## What comes to a key -/

/-- What a callable of a slot is replaced by under a key. -/
def replacements (keyFor : Callable → String → String) (key own : String) (forceCast : Bool)
    (f : Callable) : List Slot :=
  ((expandCallable keyFor own forceCast f).filter fun d => d.1 = key).map (·.2)

/-- What the callables of an entry are replaced by under a key. -/
def comingTo (keyFor : Callable → String → String) (key : String) (e : String × Slot) : List Slot :=
  e.2.callables.flatMap (replacements keyFor key e.1 e.2.forceCast)

/-- What the callables of all entries are replaced by under a key. -/
def allComingTo (keyFor : Callable → String → String) (key : String) (slots : Slots) : List Slot :=
  slots.entries.flatMap (comingTo keyFor key)

theorem comingTo_eq (keyFor : Callable → String → String) (key : String) (e : String × Slot) :
    ((e.2.callables.flatMap (expandCallable keyFor e.1 e.2.forceCast)).filter fun d => d.1 = key).map
      (·.2) = comingTo keyFor key e := by
  rw [List.filter_flatMap, List.map_flatMap]
  rfl

/-- A callable that is no template is replaced by itself, under its own key. -/
theorem replacements_of_plain (hplain : f.isTemplate = false) (keyFor : Callable → String → String)
    (key : String) (forceCast : Bool) : replacements keyFor key key forceCast f =
      [.concrete { f with forceCast := f.forceCast || forceCast }] := by
  simp [replacements, expandCallable, hplain]

/-- What a callable is replaced by: itself, a placeholder, or its specialisations, which are cast. -/
theorem mem_replacements_iff {own : String} {forceCast : Bool} {t : Slot} :
    t ∈ replacements keyFor key own forceCast f ↔
      (f.isTemplate = false ∧ key = own ∧
          t = .concrete { f with forceCast := f.forceCast || forceCast }) ∨
        (f.isTemplate = true ∧ f.flags.templateHints = [] ∧ key = own ∧
          t = .placeholder (unboundFunction f)) ∨
        (f.isTemplate = true ∧ ∃ hint ∈ f.flags.templateHints, keyFor f hint.bindName = key ∧
          ∃ b ∈ hint.combinations, t = .concrete (specialiseFunction f hint.bindName b)) := by
  have hmem : t ∈ replacements keyFor key own forceCast f ↔
      (key, t) ∈ expandCallable keyFor own forceCast f := by
    simp [replacements]
  rw [hmem, expandCallable]
  cases htemplate : f.isTemplate with
  | false => simp [Prod.ext_iff]
  | true =>
      by_cases hnone : f.flags.templateHints = []
      · simp [hnone, Prod.ext_iff]
      · simp only [hnone, Bool.not_true, Bool.false_eq_true, if_false, List.mem_flatMap, List.mem_map,
          Prod.mk.injEq, reduceCtorEq, false_and, true_and, false_or]
        constructor
        · rintro ⟨hint, hhint, b, hb, hkey, rfl⟩
          exact ⟨hint, hhint, hkey, b, hb, rfl⟩
        · rintro ⟨hint, hhint, hkey, b, hb, rfl⟩
          exact ⟨hint, hhint, b, hb, hkey, rfl⟩

theorem mem_allComingTo_iff {t : Slot} : t ∈ allComingTo keyFor key slots ↔
    ∃ other s, slots.get? other = some s ∧ ∃ f ∈ s.callables,
      t ∈ replacements keyFor key other s.forceCast f := by
  simp only [allComingTo, comingTo, List.mem_flatMap]
  constructor
  · rintro ⟨e, he, f, hf, hmem⟩
    exact ⟨e.1, e.2, Dict.get?_eq_some_iff.2 he, f, hf, hmem⟩
  · rintro ⟨other, s, hs, f, hf, hmem⟩
    exact ⟨(other, s), Dict.get?_eq_some_iff.1 hs, f, hf, hmem⟩

/-- What is rebuilt comes in single slots. -/
theorem isSingle_of_mem_allComingTo {t : Slot} (h : t ∈ allComingTo keyFor key slots) : t.IsSingle := by
  obtain ⟨other, s, -, f, -, hmem⟩ := mem_allComingTo_iff.1 h
  rcases mem_replacements_iff.1 hmem with ⟨-, -, rfl⟩ | ⟨-, -, -, rfl⟩ | ⟨-, hint, -, -, b, -, rfl⟩
  · trivial
  · trivial
  · trivial

/-- A callable that is no template has nothing to give to another key. -/
theorem replacements_of_plain_of_ne (hplain : f.isTemplate = false) {own : String} (hne : key ≠ own)
    (keyFor : Callable → String → String) (forceCast : Bool) :
    replacements keyFor key own forceCast f = [] := by
  rw [List.eq_nil_iff_forall_not_mem]
  intro t ht
  rcases mem_replacements_iff.1 ht with ⟨-, heq, -⟩ | ⟨htemplate, -⟩ | ⟨htemplate, -⟩
  · exact hne heq
  · exact absurd (hplain.symm.trans htemplate) Bool.false_ne_true
  · exact absurd (hplain.symm.trans htemplate) Bool.false_ne_true

/-- A slot without templates has nothing to give to another key. -/
theorem comingTo_of_not_hasTemplate (h : hasTemplate s = false) {own : String} (hne : key ≠ own) :
    comingTo keyFor key (own, s) = [] := by
  rw [hasTemplate, List.any_eq_false] at h
  exact List.flatMap_eq_nil_iff.2 fun f hf =>
    replacements_of_plain_of_ne (Bool.eq_false_of_not_eq_true (h f hf)) hne keyFor s.forceCast

/-- Where nothing comes from the other keys, all that comes to a key comes from its own slot. -/
theorem allComingTo_eq_comingTo (hs : slots.get? key = some s)
    (hothers : ∀ other s', slots.get? other = some s' → other ≠ key →
      comingTo keyFor key (other, s') = []) :
    allComingTo keyFor key slots = comingTo keyFor key (key, s) := by
  obtain ⟨front, back, hnot, hentries⟩ := Dict.exists_entries_around slots key
  have hslots := hentries slots fun _ _ => rfl
  rw [hs] at hslots
  have hside : ∀ e ∈ front ++ back, comingTo keyFor key e = [] := by
    intro e he
    refine hothers e.1 e.2 (Dict.get?_eq_some_iff.2 ?_) fun heq => hnot (heq ▸ List.mem_map_of_mem he)
    rw [hslots]
    rcases List.mem_append.1 he with he | he
    · exact List.mem_append_left _ he
    · exact List.mem_append_right _ (List.mem_append_right _ he)
  rw [allComingTo, hslots, List.flatMap_append, List.flatMap_append,
    List.flatMap_eq_nil_iff.2 fun e he => hside e (List.mem_append_left _ he),
    List.flatMap_eq_nil_iff.2 fun e he => hside e (List.mem_append_right _ he), List.nil_append,
    List.append_nil]
  exact List.flatMap_singleton _ _

/-- One slot: what comes to a key joins what is there, unless a slot without templates has the key. -/
theorem get?_rebuildSlot (out : Slots) {e : String × Slot} (h : e.1 = key → hasTemplate e.2 = true) :
    (rebuildSlot keyFor out e).get? key = joined? ((out.get? key).toList ++ comingTo keyFor key e) := by
  obtain ⟨own, s⟩ := e
  cases htemplate : hasTemplate s with
  | true =>
      rw [rebuildSlot_of_hasTemplate htemplate, Slots.get?_addAll, ← comingTo_eq]
  | false =>
      have hne : key ≠ own := fun heq => by
        rw [h heq.symm] at htemplate
        cases htemplate
      rw [rebuildSlot_of_not_hasTemplate htemplate, Dict.get?_insert, if_neg hne,
        comingTo_of_not_hasTemplate htemplate hne, List.append_nil, joined?_toList]

/-- Under the key of a slot with a template, all that comes to the key joins in the order of the slots. -/
theorem get?_specialiseSlots (hs : slots.get? key = some s) (htemplate : hasTemplate s = true) :
    (specialiseSlots keyFor slots).get? key = joined? (allComingTo keyFor key slots) := by
  have hfold : ∀ (l : List (String × Slot)) (out : Slots),
      (∀ e ∈ l, e.1 = key → hasTemplate e.2 = true) → (l.foldl (rebuildSlot keyFor) out).get? key =
        joined? ((out.get? key).toList ++ l.flatMap (comingTo keyFor key)) := by
    intro l
    induction l with
    | nil =>
        intro out _
        rw [List.flatMap_nil, List.append_nil, joined?_toList]
        rfl
    | cons e l ih =>
        intro out hl
        rw [List.foldl_cons, ih _ fun d hd => hl d (List.mem_cons_of_mem _ hd),
          get?_rebuildSlot out (hl e List.mem_cons_self), List.flatMap_cons, joined?_joined?_append,
          List.append_assoc]
  -- Slots under other keys bring only what their templates leave for this one.
  have hkey : ∀ e ∈ slots.entries, e.1 = key → hasTemplate e.2 = true := by
    rintro ⟨own, t⟩ he rfl
    obtain rfl := Option.some.inj (hs.symm.trans (Dict.get?_eq_some_iff.2 he))
    exact htemplate
  exact hfold slots.entries .empty hkey

/-! ## Left alone -/

/-- A callable is alone under its key once templates are replaced: the others of its slot are templates, which
all have hints, no specialisation of any template comes to the key, and nothing asked for a cast before. -/
structure LeftAlone (keyFor : Callable → String → String) (slots : Slots) (key : String) (s : Slot)
    (f : Callable) : Prop where
  only : (s.callables.filter fun g => !g.isTemplate) = [f]
  hinted : ∀ t ∈ s.callables, t.isTemplate = true → t.flags.templateHints ≠ []
  elsewhere : ∀ other s', slots.get? other = some s' → ∀ t ∈ s'.callables, t.isTemplate = true →
    ∀ hint ∈ t.flags.templateHints, hint.combinations ≠ [] → keyFor t hint.bindName ≠ key
  uncast : f.forceCast = false
  slotUncast : s.forceCast = false

/-- The callables that are no templates come to the key of their slot. -/
theorem flatMap_replacements_filter (keyFor : Callable → String → String) (key : String) (s : Slot) :
    (s.callables.filter fun g => !g.isTemplate).flatMap (replacements keyFor key key s.forceCast) =
      (s.callables.filter fun g => !g.isTemplate).map fun g =>
        .concrete { g with forceCast := g.forceCast || s.forceCast } := by
  rw [List.map_eq_flatMap]
  refine List.flatMap_congr fun g hg => ?_
  have hplain : g.isTemplate = false := by simpa using (List.mem_filter.1 hg).2
  exact replacements_of_plain hplain keyFor key s.forceCast

theorem sublist_allComingTo (keyFor : Callable → String → String) (hs : slots.get? key = some s) :
    ((s.callables.filter fun g => !g.isTemplate).map fun g =>
      Slot.concrete { g with forceCast := g.forceCast || s.forceCast }).Sublist
        (allComingTo keyFor key slots) := by
  have hplains : (s.callables.filter fun g => !g.isTemplate).Sublist s.callables := List.filter_sublist
  have hentry : [(key, s)].Sublist slots.entries :=
    List.singleton_sublist.2 (Dict.get?_eq_some_iff.1 hs)
  have hcoming := hentry.flatMap (comingTo keyFor key)
  rw [List.flatMap_singleton] at hcoming
  rw [← flatMap_replacements_filter keyFor key s]
  exact (hplains.flatMap _).trans hcoming

/-- Templates leave neither a placeholder nor a specialisation under the key of a callable that is left alone. -/
theorem LeftAlone.replacements_eq_nil (h : LeftAlone keyFor slots key s f) (hs : slots.get? key = some s)
    {other : String} (hs' : slots.get? other = some s') {t : Callable} (ht : t ∈ s'.callables)
    (htemplate : t.isTemplate = true) : replacements keyFor key other s'.forceCast t = [] := by
  rw [List.eq_nil_iff_forall_not_mem]
  intro r hr
  rcases mem_replacements_iff.1 hr with ⟨hplain, -⟩ | ⟨-, hnone, rfl, -⟩ |
    ⟨-, hint, hhint, hkey, b, hb, -⟩
  · exact absurd (hplain.symm.trans htemplate) Bool.false_ne_true
  · obtain rfl := Option.some.inj (hs.symm.trans hs')
    exact h.hinted t ht htemplate hnone
  · exact h.elsewhere other s' hs' t ht htemplate hint hhint (List.ne_nil_of_mem hb) hkey

theorem LeftAlone.allComingTo_eq (h : LeftAlone keyFor slots key s f) (hs : slots.get? key = some s) :
    allComingTo keyFor key slots = [.concrete f] := by
  have hothers : ∀ other s', slots.get? other = some s' → other ≠ key →
      comingTo keyFor key (other, s') = [] := by
    intro other s' hs' hne
    refine List.flatMap_eq_nil_iff.2 fun t ht => ?_
    cases htemplate : t.isTemplate with
    | true => exact h.replacements_eq_nil hs hs' ht htemplate
    | false => exact replacements_of_plain_of_ne htemplate hne.symm keyFor s'.forceCast
  have hplains := (flatMap_eq_flatMap_filter_iff (replacements keyFor key key s.forceCast)
    (fun g => !g.isTemplate) s.callables).2 fun t ht hkeep =>
      h.replacements_eq_nil hs hs ht (by simpa using hkeep)
  have hself : ({ f with forceCast := f.forceCast || s.forceCast } : Callable) = f := by
    rw [h.slotUncast, Bool.or_false]
  rw [allComingTo_eq_comingTo hs hothers, comingTo, hplains, flatMap_replacements_filter, h.only,
    List.map_singleton, hself]

/-- All that comes to the key of a callable is a callable that needs no cast if and only if the callable is left
alone. -/
theorem allComingTo_eq_singleton_iff (hs : slots.get? key = some s) (hf : f ∈ s.callables)
    (hplain : f.isTemplate = false) :
    (∃ g, allComingTo keyFor key slots = [.concrete g] ∧ g.forceCast = false) ↔
      LeftAlone keyFor slots key s f := by
  constructor
  · rintro ⟨g, hall, hcast⟩
    have honly : ∀ {other s' t r}, slots.get? other = some s' → t ∈ s'.callables →
        r ∈ replacements keyFor key other s'.forceCast t → r = .concrete g := by
      intro other s' t r hs' ht hmem
      have hin := mem_allComingTo_iff.2 ⟨other, s', hs', t, ht, hmem⟩
      rw [hall] at hin
      exact List.mem_singleton.1 hin
    have hself := honly hs hf (mem_replacements_iff.2 (Or.inl ⟨hplain, rfl, rfl⟩))
    obtain rfl := Slot.concrete.inj hself
    obtain ⟨hfcast, hscast⟩ := Bool.or_eq_false_iff.1 hcast
    refine ⟨?_, fun t ht htemplate hnone => ?_, ?_, hfcast, hscast⟩
    · -- All callables of the slot that are no templates come to the key, so there is only one.
      have hlength := (sublist_allComingTo keyFor hs).length_le
      rw [hall, List.length_map, List.length_singleton] at hlength
      have hmem : f ∈ s.callables.filter fun g => !g.isTemplate :=
        List.mem_filter.2 ⟨hf, by rw [hplain]; rfl⟩
      obtain ⟨other, hother⟩ := List.length_eq_one_iff.1 (le_antisymm hlength (List.length_pos_of_mem hmem))
      rw [hother] at hmem ⊢
      rw [List.mem_singleton.1 hmem]
    · cases honly hs ht (mem_replacements_iff.2 (Or.inr (Or.inl ⟨htemplate, hnone, rfl, rfl⟩)))
    · intro other s' hs' t ht htemplate hint hhint hsome hkey
      -- A specialisation has to be cast.
      obtain ⟨b, hb⟩ := List.exists_mem_of_ne_nil _ hsome
      have hspec := honly hs' ht (mem_replacements_iff.2
        (Or.inr (Or.inr ⟨htemplate, hint, hhint, hkey, b, hb, rfl⟩)))
      have hforced := congrArg Slot.forceCast hspec
      rw [Slot.forceCast, Slot.forceCast, hcast] at hforced
      cases hforced
  · exact fun h => ⟨f, h.allComingTo_eq hs, h.uncast⟩

/-! ## Bare addresses -/

/-- The plan of a slot binds a callable by its bare address, and not by that of a replacement. -/
structure BoundBare (db : Database) (slot : Slot) (f : Callable) : Prop where
  mem : f ∈ slot.callables
  noProxy : f.flags.proxy = none
  direct : ∃ e ∈ planSlot db slot, BindKey.ofCallable? f = some e.key ∧ ∃ target,
    .direct target ∈ (strategyOf db f (isOverloaded slot)).leaves ∧ .direct target ∈ e.strategy.leaves

/-- A bare address is bound of a callable whose address is legal and that nothing asks to cast. -/
theorem exists_direct_iff (db : Database) (hproxy : f.flags.proxy = none) (overloaded : Bool) :
    (∃ target, .direct target ∈ (strategyOf db f overloaded).leaves) ↔
      BoundItself f ∧ AddressLegal db f ∧ overloaded = false ∧ f.forceCast = false := by
  constructor
  · rintro ⟨target, hmem⟩
    have hbindable : IsBindable f := by
      by_contra hnot
      rw [(leaves_strategyOf_eq_nil_iff db f overloaded).2 hnot] at hmem
      cases hmem
    have hcode : f.flags.bindCode = none := by
      cases hcode : f.flags.bindCode with
      | none => rfl
      | some code => simp [strategyOf, hbindable.1, hbindable.2, hproxy, hcode, Strategy.leaves] at hmem
    have hself : BoundItself f := ⟨hbindable.1, hbindable.2, hproxy, hcode⟩
    -- Neither a cast nor a wrapper is a bare address.
    rcases strategyOf_cases db hself overloaded with ⟨hlegal, hstrategy⟩ | ⟨-, reason, hleaves⟩
    · rw [hstrategy] at hmem
      split at hmem
      · simp [Strategy.leaves] at hmem
      · rename_i hcast
        exact ⟨hself, hlegal, Bool.or_eq_false_iff.1 (Bool.eq_false_of_not_eq_true hcast)⟩
    · rw [hleaves] at hmem
      obtain ⟨n, -, hwrapper⟩ := List.mem_map.1 hmem
      cases hwrapper
  · rintro ⟨hself, hlegal, rfl, hcast⟩
    rcases strategyOf_cases db hself false with ⟨-, hstrategy⟩ | ⟨hnot, -⟩
    · refine ⟨"&" ++ callee f, ?_⟩
      rw [hstrategy, hcast, if_neg (by simp), Strategy.leaves]
      exact List.mem_singleton_self _
    · exact absurd hlegal hnot

/-- A callable that can be bound has an entry with its key and with all of its variants. -/
theorem exists_entry_of_mem (db : Database) {slot : Slot} {bindKey : BindKey} (hf : f ∈ slot.callables)
    (hbindable : IsBindable f) (hkey : BindKey.ofCallable? f = some bindKey) :
    ∃ e ∈ planSlot db slot, e.key = bindKey ∧
      (strategyOf db f (isOverloaded slot)).leaves ⊆ e.strategy.leaves := by
  have hmem := mem_boundKeys_iff.2 ⟨f, hf, hbindable, hkey⟩
  obtain ⟨e, he⟩ := exists_entry_of_mem_boundKeys db hmem
  have hplan : e ∈ planSlot db slot := by
    rw [planSlot_eq]
    exact List.mem_filterMap.2 ⟨bindKey, hmem, he⟩
  refine ⟨e, hplan, key_of_entryOf? he, fun v hv => ?_⟩
  rw [(bindsAll_of_mem_planSlot hplan).leaves_eq, key_of_entryOf? he]
  exact List.mem_flatMap.2 ⟨f, List.mem_filter.2 ⟨hf, decide_eq_true hkey⟩, hv⟩

theorem not_boundBare_of_isOverloaded {db : Database} {slot : Slot} (h : isOverloaded slot = true)
    (f : Callable) : ¬ BoundBare db slot f := by
  rintro ⟨-, hproxy, e, -, -, target, hmem, -⟩
  obtain ⟨-, -, hnot, -⟩ := (exists_direct_iff db hproxy (isOverloaded slot)).1 ⟨target, hmem⟩
  exact absurd (h.symm.trans hnot) Bool.true_eq_false.mp

theorem boundBare_concrete_iff (db : Database) (hcast : f.forceCast = false) {g : Callable} :
    BoundBare db (.concrete f) g ↔
      g = f ∧ BoundItself f ∧ AddressLegal db f ∧ (BindKey.ofCallable? f).isSome = true := by
  have hoverloaded : isOverloaded (.concrete f) = false := (isOverloaded_concrete f).trans hcast
  constructor
  · rintro ⟨hmem, hproxy, e, -, hkey, target, hdirect, -⟩
    obtain rfl : g = f := List.mem_singleton.1 hmem
    obtain ⟨hself, hlegal, -, -⟩ := (exists_direct_iff db hproxy _).1 ⟨target, hdirect⟩
    exact ⟨rfl, hself, hlegal, by rw [hkey]; rfl⟩
  · rintro ⟨rfl, hself, hlegal, hkey⟩
    obtain ⟨bindKey, hkey⟩ := Option.isSome_iff_exists.1 hkey
    have hmem : g ∈ (Slot.concrete g).callables := List.mem_singleton_self g
    obtain ⟨target, hdirect⟩ := (exists_direct_iff db hself.noProxy (isOverloaded (.concrete g))).2
      ⟨hself, hlegal, hoverloaded, hcast⟩
    obtain ⟨e, he, rfl, hsubset⟩ :=
      exists_entry_of_mem db hmem ⟨hself.notDeleted, hself.notExcluded⟩ hkey
    exact ⟨hmem, hself.noProxy, e, he, hkey, target, hdirect, hsubset hdirect⟩

/-! ## Twins -/

/-- What becomes of each callable that has a template for a twin: it is still there, and it is bound by its
bare address if and only if it is left alone and its address is legal. -/
def TwinsSettled (known : Database) (keyFor : Callable → String → String) (slots out : Slots) : Prop :=
  ∀ key s f, slots.get? key = some s → f ∈ s.callables → f.isTemplate = false → hasTemplate s = true →
    ∃ s', out.get? key = some s' ∧ f.uncast ∈ s'.held ∧
      ((∃ g, g.uncast = f.uncast ∧ BoundBare known s' g) ↔ LeftAlone keyFor slots key s f ∧
        BoundItself f ∧ AddressLegal known f ∧ (BindKey.ofCallable? f).isSome = true) ∧
      (¬ LeftAlone keyFor slots key s f → ∀ g, ¬ BoundBare known s' g)

theorem twinsSettled_specialiseSlots (known : Database) (keyFor : Callable → String → String)
    (slots : Slots) : TwinsSettled known keyFor slots (specialiseSlots keyFor slots) := by
  intro key s f hs hf hplain htemplate
  have hsingle : ∀ t ∈ allComingTo keyFor key slots, t.IsSingle := fun t ht =>
    isSingle_of_mem_allComingTo ht
  have hcoming : Slot.concrete { f with forceCast := f.forceCast || s.forceCast } ∈
      allComingTo keyFor key slots :=
    mem_allComingTo_iff.2 ⟨key, s, hs, f, hf, mem_replacements_iff.2 (Or.inl ⟨hplain, rfl, rfl⟩)⟩
  have hheld := (mem_callablesOf_iff hsingle).2 hcoming
  obtain ⟨s', hjoined⟩ := exists_joined? (List.ne_nil_of_mem hcoming)
  have hgrouped := grouped_of_joined? hsingle hjoined
  refine ⟨s', (get?_specialiseSlots hs htemplate).trans hjoined, ?_, ?_⟩
  · rw [hgrouped.held_eq]
    exact List.mem_map.2 ⟨_, hheld, rfl⟩
  -- A callable that is left alone is all of the slot; any other one has to be cast.
  · by_cases halone : LeftAlone keyFor slots key s f
    · rw [halone.allComingTo_eq hs] at hjoined
      obtain rfl : Slot.concrete f = s' := Option.some.inj hjoined
      refine ⟨?_, fun hnot => absurd halone hnot⟩
      simp only [boundBare_concrete_iff known halone.uncast]
      exact ⟨fun ⟨_, _, _, h⟩ => ⟨halone, h⟩, fun ⟨_, h⟩ => ⟨f, rfl, rfl, h⟩⟩
    · have hoverloaded : isOverloaded s' = true := by
        rw [← Bool.not_eq_false, isOverloaded_eq_false_iff hgrouped hsingle (List.ne_nil_of_mem hheld),
          allComingTo_eq_singleton_iff hs hf hplain]
        exact halone
      have hnone : ∀ g, ¬ BoundBare known s' g := not_boundBare_of_isOverloaded hoverloaded
      exact ⟨iff_of_false (fun ⟨g, _, hg⟩ => hnone g hg) fun h => halone h.1, fun _ => hnone⟩

/-- In all functions and in the methods of all classes, a callable that has a template for a twin is bound by its
bare address, once templates are replaced, if and only if its address is legal and it is left alone: its twins
all have hints, none of their specialisations and none of another template comes to its key, and nothing asked
for a cast before. -/
theorem specialiseFunctions_twins (known db : Database) :
    TwinsSettled known functionKey db.functions (specialiseFunctions db).functions ∧
      ∀ key c, db.classes.get? key = some c →
        ∃ c', (specialiseFunctions db).classes.get? key = some c' ∧
          TwinsSettled known methodKey c.methods c'.methods := by
  refine ⟨twinsSettled_specialiseSlots known functionKey db.functions, fun key c hc => ?_⟩
  refine ⟨{ c with methods := specialiseSlots methodKey c.methods }, ?_,
    twinsSettled_specialiseSlots known methodKey c.methods⟩
  have hmap := Dict.get?_map (fun _ c => { c with methods := specialiseSlots methodKey c.methods })
    db.classes key
  rw [hc] at hmap
  exact hmap

/-- A function next to a template that is wanted under another name. -/
def plainScale : Callable where
  name := "scale"
  scope := "ns"
  params := [{ name := "x", ty := .named "double" }]
  result := some (.named "double")

/-- The template next to it. -/
def templateScale : Callable where
  name := "scale"
  scope := "ns"
  params := [{ name := "x", ty := .named "T" }]
  result := some (.named "T")
  isTemplate := true
  templateParams := ["T"]
  flags := { templateHints := [⟨"scaleInt", [[("T", "int")]]⟩] }

/-- Both in one slot. -/
def scaleSlot : Slot :=
  .overload { name := "scale", scope := "ns", overloads := [plainScale, templateScale] }

/-- A method next to a template without hints. -/
def drawSlot : Slot :=
  .overload
    { name := "draw"
      overloads := [{ name := "draw", isTemplate := true }, { name := "draw", owner := some "Canvas" }] }

/-- The class of the method. -/
def canvas : Class where
  name := "Canvas"
  scope := "ns"
  methods := .ofList [("draw", drawSlot)]

/-- The function and the class. -/
def scaling : Database where
  functions := .ofList [("ns::scale", scaleSlot)]
  classes := .ofList [("ns::Canvas", canvas)]

theorem leftAlone_plainScale :
    LeftAlone functionKey scaling.functions "ns::scale" scaleSlot plainScale where
  only := by decide
  hinted := by decide
  elsewhere := by
    intro other s hs
    obtain ⟨rfl, rfl⟩ : other = "ns::scale" ∧ s = scaleSlot := by
      have hmem := Dict.get?_eq_some_iff.1 hs
      have hentries : scaling.functions.entries = [("ns::scale", scaleSlot)] := by decide +kernel
      rw [hentries, List.mem_singleton] at hmem
      exact Prod.mk.inj hmem
    decide +kernel
  uncast := rfl
  slotUncast := rfl

/-- The function is alone under its name once the template has gone to another one, and nothing casts it. -/
theorem not_cast_next_to_template : ¬ ∀ (db : Database) (key : String) (s s' : Slot) (f : Callable),
    db.functions.get? key = some s → f ∈ s.callables → f.isTemplate = false → hasTemplate s = true →
      (specialiseFunctions db).functions.get? key = some s' → ¬ BoundBare db s' f := by
  intro h
  refine h scaling "ns::scale" scaleSlot (.concrete plainScale) plainScale (by decide +kernel)
    (by decide +kernel) rfl (by decide +kernel) (by decide +kernel) ?_
  exact (boundBare_concrete_iff scaling rfl).2 ⟨rfl, by decide, by decide +kernel, by decide +kernel⟩

theorem specialiseFunctions_twins_scale :
    (∃ s, (specialiseFunctions scaling).functions.get? "ns::scale" = some s ∧
      ∃ g, g.uncast = plainScale.uncast ∧ BoundBare scaling s g) ∧
    scaling.classes.get? "ns::Canvas" = some canvas ∧
      ∃ c, (specialiseFunctions scaling).classes.get? "ns::Canvas" = some c ∧
        ∃ s, c.methods.get? "draw" = some s ∧ ∀ g, ¬ BoundBare scaling s g := by
  have hcanvas : scaling.classes.get? "ns::Canvas" = some canvas := by decide +kernel
  obtain ⟨hfunctions, hclasses⟩ := specialiseFunctions_twins scaling scaling
  obtain ⟨s, hs, -, hbare, -⟩ := hfunctions "ns::scale" scaleSlot plainScale (by decide +kernel)
    (by decide +kernel) rfl (by decide +kernel)
  obtain ⟨c, hc, hmethods⟩ := hclasses "ns::Canvas" canvas hcanvas
  obtain ⟨s', hs', -, -, hnone⟩ := hmethods "draw" drawSlot { name := "draw", owner := some "Canvas" }
    (by decide +kernel) (by decide +kernel) rfl (by decide +kernel)
  refine ⟨⟨s, hs, hbare.2 ⟨leftAlone_plainScale, by decide, by decide +kernel, by decide +kernel⟩⟩,
    hcanvas, c, hc, s', hs', hnone fun halone => ?_⟩
  -- The twin has no hints.
  exact halone.hinted { name := "draw", isTemplate := true } (by decide +kernel) rfl rfl

end Resolve

end ScriptBindings
