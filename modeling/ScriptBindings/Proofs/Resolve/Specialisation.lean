import Mathlib
import ScriptBindings.Resolve.Template
import ScriptBindings.Proofs.Resolve.Expansion

/-!
# What the template passes keep

Class templates are replaced first.  A class that is no template is not touched unless a specialisation has
its name, and callables that are wanted as functions are inserted over whatever has the name of their group.
Function templates are replaced after that.  So callables are lost in three ways: a specialised class takes
the place of another class, a merged group takes the place of a function, and a slot without templates takes
the place of a specialisation that came before it.  Where none of these happens, every callable that is no
template is still there, and every combination of every template has left exactly one callable.
-/

namespace ScriptBindings

namespace Resolve

variable {db : Database} {key : String} {c t : Class}

/-! ## Class templates -/

/-- The names of the classes that the class templates of a database are replaced by. -/
def specialisedNames (db : Database) : List String :=
  db.classes.values.flatMap fun t =>
    if t.isTemplate then (specialisations t).map Class.fqn else []

/-- The keys of the class templates. -/
def templateKeys (db : Database) : List String :=
  (db.classes.filter fun _ c => c.isTemplate).keys

/-- A state on the way: classes that still have hints are as they were in the beginning. -/
def Original (db : Database) (classes : Dict Class) : Prop :=
  ∀ key t, classes.get? key = some t → t.flags.templateHints ≠ [] → db.classes.get? key = some t

theorem isTemplate_of_mem_templateKeys (h : key ∈ templateKeys db)
    (ht : db.classes.get? key = some t) : t.isTemplate = true := by
  unfold templateKeys Dict.keys Dict.filter at h
  obtain ⟨e, he, rfl⟩ := List.mem_map.1 h
  obtain ⟨hmem, htemplate⟩ := List.mem_filter.1 he
  obtain rfl : e.2 = t := Option.some.inj ((Dict.get?_eq_some_iff.2 hmem).symm.trans ht)
  exact htemplate

theorem templateHints_of_mem_specialisations (h : c ∈ specialisations t) :
    c.flags.templateHints = [] := by
  obtain ⟨hint, -, hc⟩ := List.mem_flatMap.1 h
  obtain ⟨b, -, rfl⟩ := List.mem_map.1 hc
  rfl

/-- One step: a class is another one that was there, the template itself if it has no hints, or one of
the specialisations of the template. -/
theorem get?_replaceTemplate {state : Dict Class × Merges} {other : String}
    (h : (replaceTemplate state other).1.get? key = some c) :
    (key ≠ other ∧ state.1.get? key = some c) ∨ ∃ t, state.1.get? other = some t ∧
      ((t.flags.templateHints = [] ∧ key = other ∧ c = unboundTemplate t) ∨
        (c ∈ specialisations t ∧ key = c.fqn)) := by
  unfold replaceTemplate at h
  cases hget : state.1.get? other with
  | none =>
      rw [hget] at h
      refine Or.inl ⟨?_, h⟩
      rintro rfl
      rw [hget] at h
      cases h
  | some t =>
      simp only [hget] at h
      split at h
      · rename_i hnone
        rw [Dict.get?_insert, Dict.get?_erase] at h
        split at h
        · rename_i heq
          exact Or.inr ⟨t, rfl, Or.inl ⟨hnone, heq, (Option.some.inj h).symm⟩⟩
        · rename_i hne
          exact Or.inl ⟨hne, h⟩
      · rcases Dict.get?_insertAll_cases h with hspec | hkept
        · obtain ⟨d, hd, heq⟩ := List.mem_map.1 hspec
          obtain ⟨rfl, rfl⟩ := Prod.mk.inj heq
          exact Or.inr ⟨t, rfl, Or.inr ⟨hd, rfl⟩⟩
        · rw [Dict.get?_erase] at hkept
          split at hkept
          · cases hkept
          · rename_i hne
            exact Or.inl ⟨hne, hkept⟩

theorem original_replaceTemplate {state : Dict Class × Merges} (h : Original db state.1)
    (other : String) : Original db (replaceTemplate state other).1 := by
  intro key t ht hhints
  rcases get?_replaceTemplate ht with ⟨-, hkept⟩ | ⟨t', -, ⟨hnone, -, rfl⟩ | ⟨hspec, -⟩⟩
  · exact h key t hkept hhints
  · exact absurd hnone hhints
  · exact absurd (templateHints_of_mem_specialisations hspec) hhints

/-- A step leaves a class alone that is not its own and whose name no specialisation has. -/
theorem get?_replaceTemplate_of_ne {state : Dict Class × Merges} {other : String}
    (h : Original db state.1) (hother : other ∈ templateKeys db) (hne : key ≠ other)
    (hnew : key ∉ specialisedNames db) :
    (replaceTemplate state other).1.get? key = state.1.get? key := by
  unfold replaceTemplate
  cases hget : state.1.get? other with
  | none => rfl
  | some t =>
      simp only
      split
      · rw [Dict.get?_insert, if_neg hne, Dict.get?_erase, if_neg hne]
      · rename_i hhints
        rw [Dict.get?_insertAll_of_not_mem, Dict.get?_erase, if_neg hne]
        -- A class with hints is an original one, so its specialisations have the names that were excluded.
        have ht := h other t hget hhints
        intro hmem
        rw [List.map_map] at hmem
        refine hnew (List.mem_flatMap.2 ⟨t, Dict.mem_values_of_get? ht, ?_⟩)
        rw [if_pos (isTemplate_of_mem_templateKeys hother ht)]
        exact hmem

/-- A class that is no template stays as it is, unless a specialisation has its name. -/
theorem get?_specialiseClasses (hc : db.classes.get? key = some c) (hplain : c.isTemplate = false)
    (hnew : key ∉ specialisedNames db) : (specialiseClasses db).classes.get? key = some c := by
  have hkey : key ∉ templateKeys db := fun hmem => by
    rw [isTemplate_of_mem_templateKeys hmem hc] at hplain
    cases hplain
  -- The invariant: classes that still have hints are those of the beginning, so that the names of their
  -- specialisations are among those of the database.
  have hfold : ∀ (l : List String) (state : Dict Class × Merges), Original db state.1 →
      (∀ other ∈ l, other ∈ templateKeys db) → state.1.get? key = some c →
        (l.foldl replaceTemplate state).1.get? key = some c := by
    intro l
    induction l with
    | nil => exact fun _ _ _ h => h
    | cons other l ih =>
        intro state horiginal hkeys hstate
        have hother := hkeys other List.mem_cons_self
        refine ih _ (original_replaceTemplate horiginal other)
          (fun k hk => hkeys k (List.mem_cons_of_mem _ hk)) ?_
        rw [get?_replaceTemplate_of_ne horiginal hother (fun heq => hkey (by rw [heq]; exact hother)) hnew]
        exact hstate
  exact hfold (templateKeys db) (db.classes, .empty) (fun _ _ h _ => h) (fun _ h => h) hc

/-! ## Merged groups -/

/-- The groups of callables of specialised classes that are also wanted as functions. -/
def mergedFunctions (db : Database) : List (String × Slot) :=
  ((templateKeys db).foldl replaceTemplate (db.classes, .empty)).2.entries.filterMap
    fun (shared, callables) => mergedFunction? shared callables

theorem specialiseClasses_eq (db : Database) : specialiseClasses db =
    { db with
      classes := ((templateKeys db).foldl replaceTemplate (db.classes, .empty)).1
      functions := db.functions.insertAll (mergedFunctions db) } := rfl

theorem functions_specialiseClasses (db : Database) :
    (specialiseClasses db).functions = db.functions.insertAll (mergedFunctions db) := rfl

/-- What is left of the slots that insertions take the place of. -/
def replaced : Slots → List (String × Slot) → List Callable
  | _, [] => []
  | slots, (key, s) :: rest =>
      ((slots.get? key).map slotOutcomes).getD [] ++ replaced (slots.insert key s) rest

theorem count_allOutcomes_insertAll (slots : Slots) (l : List (String × Slot)) (f : Callable) :
    (allOutcomes (slots.insertAll l)).count f + (replaced slots l).count f =
      (allOutcomes slots ++ l.flatMap fun e => slotOutcomes e.2).count f := by
  induction l generalizing slots with
  | nil => simp [Dict.insertAll, replaced]
  | cons e l ih =>
      obtain ⟨key, s⟩ := e
      have hstep := Dict.count_gather_insert (fun _ => slotOutcomes) f slots key s
      have hrest := ih (slots.insert key s)
      have hold : (((slots.get? key).map slotOutcomes).getD []).count f =
          ((slots.get? key).map fun old => (slotOutcomes old).count f).getD 0 := by
        cases slots.get? key <;> rfl
      simp only [List.count_append] at hrest
      simp only [replaced, List.flatMap_cons, List.count_append, hold]
      unfold allOutcomes at hrest ⊢
      have hunfold : slots.insertAll ((key, s) :: l) = (slots.insert key s).insertAll l := rfl
      rw [hunfold]
      omega

/-- Insertions replace nothing that matters: a slot whose place is taken leaves no callables anyway. -/
def ReplacesNothing (slots : Slots) (l : List (String × Slot)) : Prop :=
  ∀ before key s after, l = before ++ (key, s) :: after →
    ∀ old, (slots.insertAll before).get? key = some old → slotOutcomes old = []

theorem replaced_eq_nil_iff {slots : Slots} {l : List (String × Slot)} :
    replaced slots l = [] ↔ ReplacesNothing slots l := by
  induction l generalizing slots with
  | nil =>
      refine ⟨fun _ before key s after hsplit => ?_, fun _ => rfl⟩
      simp at hsplit
  | cons e l ih =>
      obtain ⟨key, s⟩ := e
      rw [replaced, List.append_eq_nil_iff, ih]
      constructor
      · rintro ⟨hfirst, hrest⟩ before key' s' after hsplit old hold
        -- The insertion in question is the first one, or one of the others.
        cases before with
        | nil =>
            obtain ⟨heq, -⟩ := List.cons.inj hsplit
            obtain ⟨rfl, -⟩ := Prod.mk.inj heq
            have hget : slots.get? key = some old := hold
            rw [hget] at hfirst
            exact hfirst
        | cons e₀ before =>
            obtain ⟨rfl, htail⟩ := List.cons.inj hsplit
            exact hrest before key' s' after htail old hold
      · intro h
        refine ⟨?_, fun before key' s' after hsplit => h ((key, s) :: before) key' s' after ?_⟩
        · cases hget : slots.get? key with
          | none => rfl
          | some old => exact h [] key s l rfl old hget
        · rw [hsplit]
          rfl

/-! ## Both passes -/

/-- The key of a specialised function. -/
def functionKey (f : Callable) (bindName : String) : String :=
  Name.qualify f.scope none bindName

/-- The key of a specialised method. -/
def methodKey (_ : Callable) (bindName : String) : String :=
  bindName

/-- Replace the templates of a database. -/
def specialise (db : Database) : Database :=
  specialiseFunctions (specialiseClasses db)

theorem functions_specialise (db : Database) : (specialise db).functions =
    specialiseSlots functionKey (db.functions.insertAll (mergedFunctions db)) := rfl

theorem get?_classes_specialise (db : Database) (key : String) :
    (specialise db).classes.get? key = ((specialiseClasses db).classes.get? key).map fun c =>
      { c with methods := specialiseSlots methodKey c.methods } :=
  Dict.get?_map _ _ key

/-- Lists with the same counts apart from what is lost are the same up to order if nothing is lost. -/
theorem perm_iff_of_count {α : Type} [DecidableEq α] {kept lost all : List α}
    (h : ∀ a, kept.count a + lost.count a = all.count a) : kept.Perm all ↔ lost = [] := by
  rw [List.perm_iff_count]
  constructor
  · intro hsame
    rw [List.eq_nil_iff_forall_not_mem]
    intro a ha
    have hsum := h a
    have hpos := List.count_pos_iff.2 ha
    have heq := hsame a
    omega
  · rintro rfl a
    have hsum := h a
    rwa [List.count_nil, Nat.add_zero] at hsum

theorem held_specialiseSlots_perm_iff {keyFor : Callable → String → String} {slots : Slots} :
    (specialiseSlots keyFor slots).held.Perm (allOutcomes slots) ↔ KeepsClear keyFor slots := by
  rw [perm_iff_of_count (count_held_specialiseSlots keyFor slots), lostByAll_entries_eq_nil_iff]

/-- Of all functions, those of merged groups included, everything is left if nothing is replaced and the
specialisations keep clear of what comes later. -/
theorem held_functions_perm_iff : (specialise db).functions.held.Perm
      (allOutcomes db.functions ++ (mergedFunctions db).flatMap fun e => slotOutcomes e.2) ↔
    ReplacesNothing db.functions (mergedFunctions db) ∧
      KeepsClear functionKey (specialiseClasses db).functions := by
  rw [functions_specialise, functions_specialiseClasses, ← replaced_eq_nil_iff,
    ← lostByAll_entries_eq_nil_iff, ← List.append_eq_nil_iff]
  refine perm_iff_of_count fun f => ?_
  have hmerge := count_allOutcomes_insertAll db.functions (mergedFunctions db) f
  have hexpand := count_held_specialiseSlots functionKey
    (db.functions.insertAll (mergedFunctions db)) f
  rw [List.count_append]
  omega

/-- A function that is no template is still there, unless a merged group has its key. -/
theorem mem_heldAt_functions {s : Slot} {f : Callable} (hs : db.functions.get? key = some s)
    (hf : f ∈ s.callables) (hplain : f.isTemplate = false)
    (hfree : key ∉ (mergedFunctions db).map Prod.fst) :
    f.uncast ∈ (specialise db).functions.heldAt key := by
  rw [functions_specialise]
  refine mem_heldAt_specialiseSlots ?_ hf hplain
  rw [Dict.get?_insertAll_of_not_mem hfree]
  exact hs

/-- The template passes lose callables in three ways only.  A function that is no template is lost only to a
merged group under its key.  The functions are all there, and each combination of each function template has
left one callable, if and only if merged groups replace nothing and specialisations keep clear of later
slots.  A class that is no template is lost only to a specialisation of its name, its methods that are no
templates are never lost, and each combination of each method template has left one callable if and only if
the specialisations keep clear of later slots. -/
theorem specialise_keeps_callables (db : Database) :
    (∀ key s f, db.functions.get? key = some s → f ∈ s.callables → f.isTemplate = false →
        key ∉ (mergedFunctions db).map Prod.fst → f.uncast ∈ (specialise db).functions.heldAt key) ∧
      ((specialise db).functions.held.Perm
          (allOutcomes db.functions ++ (mergedFunctions db).flatMap fun e => slotOutcomes e.2) ↔
        ReplacesNothing db.functions (mergedFunctions db) ∧
          KeepsClear functionKey (specialiseClasses db).functions) ∧
      ∀ key c, db.classes.get? key = some c → c.isTemplate = false → key ∉ specialisedNames db →
        ∃ c', (specialise db).classes.get? key = some c' ∧
          (∀ name s f, c.methods.get? name = some s → f ∈ s.callables → f.isTemplate = false →
            f.uncast ∈ c'.methods.heldAt name) ∧
          (c'.methods.held.Perm (allOutcomes c.methods) ↔ KeepsClear methodKey c.methods) := by
  refine ⟨fun key s f hs hf hplain hfree => mem_heldAt_functions hs hf hplain hfree,
    held_functions_perm_iff, fun key c hc hplain hnew => ?_⟩
  refine ⟨{ c with methods := specialiseSlots methodKey c.methods }, ?_, ?_, ?_⟩
  · rw [get?_classes_specialise, get?_specialiseClasses hc hplain hnew]
    rfl
  · exact fun name s f hs hf hplain => mem_heldAt_specialiseSlots hs hf hplain
  · exact held_specialiseSlots_perm_iff

/-- A template that is wanted under the name of a function. -/
def clashingTemplate : Callable where
  name := "make"
  scope := "ns"
  result := some (.named "void")
  isTemplate := true
  templateParams := ["T"]
  flags := { templateHints := [⟨"print", [[("T", "int")]]⟩] }

/-- The template and the function whose name it is wanted under. -/
def clashing : Database where
  functions := .ofList [
    ("ns::make", .concrete clashingTemplate),
    ("ns::print", .concrete { name := "print", scope := "ns", result := some (.named "void") })]

/-- The function comes after the template and takes the place of the specialisation. -/
theorem not_specialise_keeps_combination : ¬ ∀ (db : Database) (key : String) (s : Slot) (f : Callable)
    (hint : TemplateHint) (b : Combination), db.functions.get? key = some s → f ∈ s.callables →
      f.isTemplate = true → hint ∈ f.flags.templateHints → b ∈ hint.combinations →
        (specialiseFunction f hint.bindName b).uncast ∈ (specialise db).functions.held := by
  intro h
  have hmem := h clashing "ns::make" (.concrete clashingTemplate) clashingTemplate
    ⟨"print", [[("T", "int")]]⟩ [("T", "int")] (by decide +kernel) (by decide +kernel)
    (by decide +kernel) (by decide +kernel) (by decide +kernel)
  revert hmem
  decide +kernel

end Resolve

end ScriptBindings
