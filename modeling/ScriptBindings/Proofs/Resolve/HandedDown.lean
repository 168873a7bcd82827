import Mathlib
import ScriptBindings.Resolve.Inheritance
import ScriptBindings.Proofs.Resolve.Bases

/-!
# Hooks and methods that are handed down

A class receives bind hooks from the classes it derives from, and the methods of its bases if it asks for
them.  Received hooks are added once, and they are never handed on, because only inherit hooks are.  A
method fills a name that is still free, and the first base that has the name fills it.
-/

namespace ScriptBindings

namespace Resolve

open Database

variable {db : Database} {key name : String} {c : Class}

/-! ## Hooks -/

theorem mem_addHook {hooks : List Hook} {h h' : Hook} :
    h' ∈ addHook hooks h ↔ h' ∈ hooks ∨ h' = h := by
  unfold addHook
  split
  · rename_i hmem
    exact ⟨Or.inl, fun hor => hor.elim id fun heq => heq ▸ hmem⟩
  · rw [List.mem_append, List.mem_singleton]

theorem mem_foldl_addHook {hooks received : List Hook} {h : Hook} :
    h ∈ received.foldl addHook hooks ↔ h ∈ hooks ∨ h ∈ received := by
  induction received generalizing hooks with
  | nil => simp
  | cons h' received ih => rw [List.foldl_cons, ih, mem_addHook, List.mem_cons, or_assoc]

/-- Hooks that are there are not added. -/
theorem foldl_addHook_of_subset {hooks received : List Hook} (h : received ⊆ hooks) :
    received.foldl addHook hooks = hooks := by
  induction received with
  | nil => rfl
  | cons h' received ih =>
      rw [List.cons_subset] at h
      rw [List.foldl_cons, addHook, if_pos h.1, ih h.2]

/-- The inherit hooks stay the same where other hooks are added. -/
theorem filter_inherit_foldl_addHook {hooks received : List Hook}
    (h : ∀ h ∈ received, h.trigger ≠ .inherit) :
    (received.foldl addHook hooks).filter (fun h => h.trigger = .inherit) =
      hooks.filter fun h => h.trigger = .inherit := by
  induction received generalizing hooks with
  | nil => rfl
  | cons h' received ih =>
      rw [List.foldl_cons, ih fun d hd => h d (List.mem_cons_of_mem _ hd)]
      unfold addHook
      split
      · rfl
      · rw [List.filter_append, List.filter_cons_of_neg (by simpa using h h' List.mem_cons_self),
          List.filter_nil, List.append_nil]

/-- What a class receives are bind hooks. -/
theorem trigger_of_mem_receivedHooks {h : Hook} (hmem : h ∈ receivedHooks db key c) :
    h.trigger = .bind := by
  obtain ⟨e, -, hmem⟩ := List.mem_flatMap.1 hmem
  obtain ⟨code, -, rfl⟩ := List.mem_map.1 hmem
  rfl

/-- The hooks that a class has once it has received some. -/
def hooksWith (db : Database) (key : String) (c : Class) : List Hook :=
  (receivedHooks db key c).foldl addHook c.flags.hooks

/-- A class that received hooks leaves the code that it left before. -/
theorem inheritedCode_hooksWith (db : Database) (key : String) (c : Class) :
    inheritedCode { c with flags := { c.flags with hooks := hooksWith db key c } } =
      inheritedCode c := by
  unfold inheritedCode hooksWith
  rw [filter_inherit_foldl_addHook]
  intro h hmem heq
  rw [trigger_of_mem_receivedHooks hmem] at heq
  cases heq

/-- What a class receives depends on the code that is left under each key, and on its bases. -/
theorem receivedHooks_mapClasses {f : String → Class → Class} {c' : Class}
    (hcode : ∀ key c, inheritedCode (f key c) = inheritedCode c) (hbases : c'.bases = c.bases) :
    receivedHooks (db.mapClasses f) key c' = receivedHooks db key c := by
  unfold receivedHooks
  rw [mapClasses, Dict.map, List.filter_map, List.flatMap_map, hbases]
  simp only [hcode]
  rfl

/-! ## Methods -/

/-- Fill the free names among some slots, for a class. -/
def fillIn (scope owner : String) (slots : Slots) (entries : List (String × Slot)) : Slots :=
  entries.foldl (fun slots e =>
    if slots.contains e.1 then slots else slots.insert e.1 (e.2.rehome scope owner)) slots

theorem addMissingMethods_eq (c : Class) (methods : Slots) :
    addMissingMethods c methods =
      { c with methods := fillIn c.scope c.name c.methods methods.entries } := by
  have hfold : ∀ (entries : List (String × Slot)) (slots : Slots),
      entries.foldl (fun c (e : String × Slot) => if c.methods.contains e.1 then c
        else { c with methods := c.methods.insert e.1 (e.2.rehome c.scope c.name) })
          { c with methods := slots } =
        { c with methods := fillIn c.scope c.name slots entries } := by
    intro entries
    induction entries with
    | nil => exact fun _ => rfl
    | cons e entries ih =>
        intro slots
        rw [List.foldl_cons, fillIn, List.foldl_cons]
        by_cases hmem : slots.contains e.1 = true
        · simp only [if_pos hmem]
          exact ih slots
        · simp only [if_neg hmem]
          exact ih _
  exact hfold methods.entries c.methods

/-- A name keeps its slot, or is filled by the first entry that has it. -/
theorem get?_fillIn (scope owner : String) (slots : Slots) (entries : List (String × Slot))
    (name : String) : (fillIn scope owner slots entries).get? name =
      (slots.get? name).or ((Dict.find? name entries).map (Slot.rehome scope owner)) := by
  induction entries generalizing slots with
  | nil =>
      rw [Dict.find?, Option.map_none, Option.or_none]
      rfl
  | cons e entries ih =>
      obtain ⟨key, s⟩ := e
      have hstep : fillIn scope owner slots ((key, s) :: entries) =
          fillIn scope owner (if slots.contains key then slots
            else slots.insert key (s.rehome scope owner)) entries := rfl
      rw [hstep, ih, Dict.find?]
      -- The entry fills its own name, unless that has a slot already.
      by_cases hname : name = key
      · subst hname
        rw [if_pos rfl]
        cases hget : slots.get? name with
        | none =>
            rw [if_neg (by rw [Dict.contains, hget]; exact Bool.false_ne_true), Dict.get?_insert,
              if_pos rfl]
            rfl
        | some present =>
            rw [if_pos (by rw [Dict.contains, hget]; rfl), hget]
            rfl
      · rw [if_neg hname]
        split
        · rfl
        · rw [Dict.get?_insert, if_neg hname]

/-- The methods that a class has once those of some classes have filled its free names. -/
def methodsWith (c : Class) (bases : List Class) : Slots :=
  bases.foldl (fun slots base => fillIn c.scope c.name slots base.methods.entries) c.methods

theorem copyItemsTo_eq (db : Database) (c : Class) :
    copyItemsTo db c = if c.flags.copyParentItems then
      { c with methods := methodsWith c (c.bases.filterMap db.class?) } else c := by
  have hfold : ∀ (bases : List Class) (slots : Slots),
      bases.foldl (fun c base => addMissingMethods c base.methods) { c with methods := slots } =
        { c with methods := bases.foldl (fun slots base =>
            fillIn c.scope c.name slots base.methods.entries) slots } := by
    intro bases
    induction bases with
    | nil => exact fun _ => rfl
    | cons base bases ih =>
        intro slots
        rw [List.foldl_cons, addMissingMethods_eq, List.foldl_cons]
        exact ih _
  unfold copyItemsTo
  split
  · exact hfold (c.bases.filterMap db.class?) c.methods
  · rfl

/-- A name keeps its slot, or is filled by the first class that has it. -/
theorem get?_methodsWith (c : Class) (bases : List Class) (name : String) :
    (methodsWith c bases).get? name = (c.methods.get? name).or
      ((bases.findSome? fun base => base.methods.get? name).map (Slot.rehome c.scope c.name)) := by
  have hfold : ∀ (bases : List Class) (slots : Slots),
      (bases.foldl (fun slots base => fillIn c.scope c.name slots base.methods.entries) slots).get? name =
        (slots.get? name).or ((bases.findSome? fun base => base.methods.get? name).map
          (Slot.rehome c.scope c.name)) := by
    intro bases
    induction bases with
    | nil =>
        intro slots
        rw [List.findSome?_nil, Option.map_none, Option.or_none]
        rfl
    | cons base bases ih =>
        intro slots
        rw [List.foldl_cons, ih, get?_fillIn, Option.or_assoc, List.findSome?_cons]
        congr 1
        rw [← Dict.get?]
        cases base.methods.get? name <;> rfl
  exact hfold bases c.methods

theorem copyItems_eq_mapClasses (db : Database) :
    copyItems db = db.mapClasses fun _ c => copyItemsTo db c := rfl

/-- Copying changes the methods alone. -/
theorem copyItemsTo_eq_with (db : Database) (c : Class) :
    copyItemsTo db c = { c with methods := (copyItemsTo db c).methods } := by
  rw [copyItemsTo_eq]
  split <;> rfl

/-- A method after copying was there, or was a method of a base that then belongs to the class. -/
theorem get?_methods_copyItemsTo {s : Slot} (h : (copyItemsTo db c).methods.get? name = some s) :
    c.methods.get? name = some s ∨ ∃ base ∈ c.bases, ∃ d, db.class? base = some d ∧
      ∃ s', d.methods.get? name = some s' ∧ s = s'.rehome c.scope c.name := by
  rw [copyItemsTo_eq] at h
  split at h
  · rw [get?_methodsWith, Option.or_eq_some_iff] at h
    rcases h with hkept | ⟨-, hcopied⟩
    · exact Or.inl hkept
    · obtain ⟨s', hfirst, rfl⟩ := Option.map_eq_some_iff.1 hcopied
      obtain ⟨d, hd, hget⟩ := List.exists_of_findSome?_eq_some hfirst
      obtain ⟨base, hbase, hclass⟩ := List.mem_filterMap.1 hd
      exact Or.inr ⟨base, hbase, d, hclass, s', hget, rfl⟩
  · exact Or.inl h

/-- Copying keeps every method that was there. -/
theorem get?_methods_copyItemsTo_of_some {s : Slot} (h : c.methods.get? name = some s) :
    (copyItemsTo db c).methods.get? name = some s := by
  rw [copyItemsTo_eq]
  split
  · rw [get?_methodsWith, h]
    rfl
  · exact h

/-- A name that is free after copying is free in the class and in all its bases. -/
theorem get?_methods_copyItemsTo_eq_none (hcopy : c.flags.copyParentItems = true)
    (h : (copyItemsTo db c).methods.get? name = none) :
    c.methods.get? name = none ∧
      ∀ base ∈ c.bases, ∀ d, db.class? base = some d → d.methods.get? name = none := by
  rw [copyItemsTo_eq, if_pos hcopy, get?_methodsWith, Option.or_eq_none_iff, Option.map_eq_none_iff,
    List.findSome?_eq_none_iff] at h
  exact ⟨h.1, fun base hbase d hclass => h.2 d (List.mem_filterMap.2 ⟨base, hbase, hclass⟩)⟩

/-- A class that has all methods of its bases receives none. -/
theorem copyItemsTo_eq_self (h : c.flags.copyParentItems = true → ∀ base ∈ c.bases, ∀ d,
    db.class? base = some d → ∀ name, c.methods.get? name = none → d.methods.get? name = none) :
    copyItemsTo db c = c := by
  rw [copyItemsTo_eq]
  split
  · rename_i hcopy
    have hmethods : methodsWith c (c.bases.filterMap db.class?) = c.methods := by
      ext1 name
      rw [get?_methodsWith]
      cases hget : c.methods.get? name with
      | some s => rfl
      | none =>
          have hnone : ((c.bases.filterMap db.class?).findSome? fun base => base.methods.get? name) =
              none := by
            rw [List.findSome?_eq_none_iff]
            intro d hd
            obtain ⟨base, hbase, hclass⟩ := List.mem_filterMap.1 hd
            exact h hcopy base hbase d hclass name hget
          rw [hnone]
          rfl
    rw [hmethods]
  · rfl

/-- The bases of a class hold the known bases of their classes. -/
def ClosedBases (db : Database) : Prop :=
  ∀ key c, db.classes.get? key = some c → ∀ base ∈ c.bases, ∀ d, db.class? base = some d →
    ∀ base' ∈ d.bases, ∀ e, db.class? base' = some e → base' ∈ c.bases

/-- Where the bases of bases are bases, what a base has received is received from its own bases, so a second
copy adds nothing. -/
theorem copyItems_copyItems (hstored : db.Stored) (hclosed : ClosedBases db) :
    copyItems (copyItems db) = copyItems db := by
  refine mapClasses_eq_self fun key c' hc' => ?_
  rw [copyItems_eq_mapClasses, get?_mapClasses] at hc'
  obtain ⟨c, hc, rfl⟩ := Option.map_eq_some_iff.1 hc'
  have hflags : (copyItemsTo db c).flags = c.flags := by rw [copyItemsTo_eq_with]
  have hbases : (copyItemsTo db c).bases = c.bases := by rw [copyItemsTo_eq_with]
  refine copyItemsTo_eq_self fun hcopy base hbase d' hd' name hfree => ?_
  rw [hflags] at hcopy
  rw [hbases] at hbase
  rw [copyItems_eq_mapClasses, class?_mapClasses _ hstored] at hd'
  obtain ⟨d, hd, rfl⟩ := Option.map_eq_some_iff.1 hd'
  obtain ⟨-, hfreeBases⟩ := get?_methods_copyItemsTo_eq_none hcopy hfree
  -- A method that a base has received would be one of a base of the class too.
  cases hget : (copyItemsTo db d).methods.get? name with
  | none => rfl
  | some s =>
      rcases get?_methods_copyItemsTo hget with hown | ⟨base', hbase', e, he, s', hs', -⟩
      · rw [hfreeBases base hbase d hd] at hown
        cases hown
      · rw [hfreeBases base' (hclosed key c hc base hbase d hd base' hbase' e he) e he] at hs'
        cases hs'

end Resolve

end ScriptBindings
