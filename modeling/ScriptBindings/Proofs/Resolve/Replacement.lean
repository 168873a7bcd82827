import Mathlib
import ScriptBindings.Proofs.Resolve.Untemplated

/-!
# What a class template is replaced by

Where the classes that hints ask for have names of their own, a class template with hints gives way to exactly
one class for each combination, and nothing else about the classes changes, except that templates without
hints are not bound.  The class of a combination has the members of the template, one by one and in order,
with the types of the combination in place of the parameters.

A constructor without a result returns the class.  Its name is looked up in the combination as every other
name is, so that this holds unless the combination binds the very name of the class.
-/

namespace ScriptBindings.Resolve

/-! ## The class of a combination -/

/-- The name of the class that a template is for one combination. -/
def combinationName (t : Class) (b : Combination) : String :=
  t.name ++ "<" ++ ", ".intercalate (b.map (·.2)) ++ ">"

/-- Its qualified name. -/
def combinationFqn (t : Class) (b : Combination) : String :=
  Name.qualify t.scope none (combinationName t b)

/-- A callable of the template, and the same one of a class with some name, whatever its result. -/
structure MemberOf (owner : String) (b : Combination) (f g : Callable) : Prop where
  owner : g.owner = some owner
  params : g.params = f.params.map fun p => { p with ty := p.ty.substitute b }
  rest : g = { f with owner := g.owner, params := g.params, result := g.result }

/-- A method of the template, and the same one of a class with some name. -/
structure MethodOf (owner : String) (b : Combination) (f g : Callable) : Prop
    extends MemberOf owner b f g where
  result : g.result = f.result.map (·.substitute b)

/-- A constructor of the template, and the same one of a class with some name; what had no result returns
the class. -/
structure ConstructorOf (owner fqn : String) (b : Combination) (f g : Callable) : Prop
    extends MemberOf owner b f g where
  result : ∀ ty, f.result = some ty → g.result = some (ty.substitute b)
  returned : f.result = none → Bindings.get? b fqn = none → g.result = some (.named fqn)

/-- A slot of the template, and the same one of a class with some name. -/
inductive SlotOf (owner : String) (b : Combination) : Slot → Slot → Prop where
  | concrete {f g : Callable} (h : MethodOf owner b f g) : SlotOf owner b (.concrete f) (.concrete g)
  | overload {f g : OverloadGroup} (overloads : List.Forall₂ (MethodOf owner b) f.overloads g.overloads)
      (owned : g.owner = some owner) (rest : g = { f with owner := g.owner, overloads := g.overloads }) :
      SlotOf owner b (.overload f) (.overload g)
  | placeholder (p : Placeholder) : SlotOf owner b (.placeholder p) (.placeholder p)

/-- An attribute of the template, and the same one of a class with some name. -/
structure AttributeOf (owner : String) (b : Combination) (a a' : Attribute) : Prop where
  owner : a'.owner = owner
  ty : a'.ty = a.ty.substitute b
  rest : a' = { a with owner := a'.owner, ty := a'.ty }

/-- Dictionaries with the same keys, whose values are in a relation. -/
def DictOf {α : Type} (R : α → α → Prop) (d d' : Dict α) : Prop :=
  List.Forall₂ (fun e e' => e'.1 = e.1 ∧ R e.2 e'.2) d.entries d'.entries

/-- A template, and the class that it is for one combination of a hint. -/
structure SpecialisationOf (t : Class) (hint : TemplateHint) (b : Combination) (c : Class) : Prop where
  name : c.name = combinationName t b
  isTemplate : c.isTemplate = false
  flags : c.flags =
    { t.flags with
      templateHints := []
      rename := some (specialisationName hint.bindName b (1 < hint.combinations.length)) }
  constructors :
    List.Forall₂ (ConstructorOf (combinationName t b) (combinationFqn t b) b) t.constructors c.constructors
  methods : DictOf (SlotOf (combinationName t b) b) t.methods c.methods
  hiddenMethods : DictOf (SlotOf (combinationName t b) b) t.hiddenMethods c.hiddenMethods
  attributes : DictOf (AttributeOf (combinationName t b) b) t.attributes c.attributes
  rest : c =
    { t with
      name := c.name
      isTemplate := c.isTemplate
      flags := c.flags
      constructors := c.constructors
      methods := c.methods
      hiddenMethods := c.hiddenMethods
      attributes := c.attributes }

variable {owner fqn : String} {b : Combination}

theorem methodOf_specialiseMethod (owner : String) (b : Combination) (f : Callable) :
    MethodOf owner b f (specialiseMethod owner b f) where
  owner := rfl
  params := rfl
  rest := rfl
  result := rfl

theorem constructorOf_specialiseConstructor (owner fqn : String) (b : Combination) (f : Callable) :
    ConstructorOf owner fqn b f (specialiseConstructor owner fqn b f) where
  owner := rfl
  params := rfl
  rest := rfl
  result ty h := by simp only [specialiseConstructor, specialiseMethod, h, Option.getD_some, Option.map_some]
  returned hnone hfree := by
    have hname : (CppType.named fqn).substitute b = .named fqn := by
      rw [CppType.named, CppType.substitute, CppType.substituteBase, hfree]
    simp only [specialiseConstructor, specialiseMethod, hnone, Option.getD_none, Option.map_some, hname]

theorem slotOf_specialiseSlot (owner : String) (b : Combination) (s : Slot) :
    SlotOf owner b s (specialiseSlot owner b s) := by
  cases s with
  | concrete f => exact .concrete (methodOf_specialiseMethod owner b f)
  | overload g =>
      refine .overload (List.forall₂_map_right_iff.2 (List.forall₂_same.2 fun f _ => ?_)) rfl rfl
      exact methodOf_specialiseMethod owner b f
  | placeholder p => exact .placeholder p

theorem dictOf_map {α : Type} {R : α → α → Prop} {f : String → α → α} (d : Dict α)
    (h : ∀ key a, R a (f key a)) : DictOf R d (d.map f) :=
  List.forall₂_map_right_iff.2 (List.forall₂_same.2 fun e _ => ⟨rfl, h e.1 e.2⟩)

theorem specialisationOf_specialiseClass (t : Class) (hint : TemplateHint) (b : Combination) :
    SpecialisationOf t hint b
      (specialiseClass t hint.bindName (1 < hint.combinations.length) b) where
  name := rfl
  isTemplate := rfl
  flags := by simp [specialiseClass]
  constructors := List.forall₂_map_right_iff.2 (List.forall₂_same.2 fun f _ =>
    constructorOf_specialiseConstructor (combinationName t b) (combinationFqn t b) b f)
  methods := dictOf_map t.methods fun _ s => slotOf_specialiseSlot (combinationName t b) b s
  hiddenMethods := dictOf_map t.hiddenMethods fun _ s => slotOf_specialiseSlot (combinationName t b) b s
  attributes := dictOf_map t.attributes fun _ _ => ⟨rfl, rfl, rfl⟩
  rest := rfl

/-- A template is for each combination of each hint one class, which has the name of the combination. -/
theorem fqn_specialisations (t : Class) : (specialisations t).map Class.fqn =
    (t.flags.templateHints.flatMap (·.combinations)).map (combinationFqn t) := by
  rw [specialisations, List.map_flatMap, List.map_flatMap]
  refine List.flatMap_congr fun hint _ => ?_
  rw [List.map_map]
  rfl

/-! ## The steps -/

variable {db : Database} {key name : String} {c t : Class} {state : Dict Class × Merges} {l : List String}

/-- The steps for some templates have not asked for a class of this name. -/
def Unasked (db : Database) (l : List String) (name : String) : Prop :=
  ∀ other ∈ l, ∀ t, db.classes.get? other = some t → name ∉ (specialisations t).map Class.fqn

theorem replaceTemplate_of_unhinted (ht : state.1.get? key = some t) (hnone : t.flags.templateHints = []) :
    (replaceTemplate state key).1 = (state.1.erase key).insert key (unboundTemplate t) := by
  simp only [replaceTemplate, ht, if_pos hnone]

theorem replaceTemplate_of_hinted (ht : state.1.get? key = some t) (hhints : t.flags.templateHints ≠ []) :
    (replaceTemplate state key).1 =
      (state.1.erase key).insertAll ((specialisations t).map fun c => (c.fqn, c)) := by
  simp only [replaceTemplate, ht, if_neg hhints]

theorem original_foldl_replaceTemplate (h : Original db state.1) (l : List String) :
    Original db (l.foldl replaceTemplate state).1 := by
  induction l generalizing state with
  | nil => exact h
  | cons other l ih => exact ih (original_replaceTemplate h other)

/-- Steps leave a class alone that is not one of theirs and that they do not ask for. -/
theorem get?_foldl_replaceTemplate (h : Original db state.1) (hname : name ∉ l) (hasked : Unasked db l name) :
    (l.foldl replaceTemplate state).1.get? name = state.1.get? name := by
  induction l generalizing state with
  | nil => rfl
  | cons other l ih =>
      have hne : name ≠ other := fun heq => hname (heq ▸ List.mem_cons_self)
      have hrest := ih (original_replaceTemplate h other)
        (fun hmem => hname (List.mem_cons_of_mem _ hmem))
        fun other hother => hasked other (List.mem_cons_of_mem _ hother)
      rw [List.foldl_cons, hrest]
      cases hget : state.1.get? other with
      | none => simp only [replaceTemplate, hget]
      | some t =>
          by_cases hhints : t.flags.templateHints = []
          · rw [replaceTemplate_of_unhinted hget hhints, Dict.get?_insert, if_neg hne, Dict.get?_erase,
              if_neg hne]
          · -- A class with hints is one of the beginning, so that the name is not among those it asks for.
            have hnames := hasked other List.mem_cons_self t (h other t hget hhints)
            rw [replaceTemplate_of_hinted hget hhints, Dict.get?_insertAll_of_not_mem, Dict.get?_erase,
              if_neg hne]
            rw [List.map_map]
            exact hnames

/-! ## Names that are asked for -/

/-- The names of the classes that the hints of a database ask for. -/
def wantedNames (db : Database) : List String :=
  db.classes.entries.flatMap fun e =>
    if e.2.isTemplate then (e.2.flags.templateHints.flatMap (·.combinations)).map (combinationFqn e.2) else []

/-- The keys of the classes that are not replaced: those that are no templates or have no hints. -/
def keptKeys (db : Database) : List String :=
  (db.classes.filter fun _ c => !c.isTemplate || decide (c.flags.templateHints = [])).keys

theorem mem_wantedNames_iff : name ∈ wantedNames db ↔ ∃ key t, db.classes.get? key = some t ∧
    t.isTemplate = true ∧ name ∈ (specialisations t).map Class.fqn := by
  simp only [wantedNames, ← fqn_specialisations, List.mem_flatMap, Prod.exists, ← Dict.get?_eq_some_iff]
  refine exists₂_congr fun key t => and_congr_right fun _ => ?_
  cases t.isTemplate <;> simp

theorem unasked_of_not_mem_wantedNames (hname : name ∉ wantedNames db)
    (hl : ∀ other ∈ l, other ∈ templateKeys db) : Unasked db l name := fun other hother t ht hmem =>
  hname (mem_wantedNames_iff.2
    ⟨other, t, ht, isTemplate_of_mem_templateKeys (hl other hother) ht, hmem⟩)

theorem specialisedNames_eq (db : Database) : specialisedNames db = wantedNames db := by
  rw [specialisedNames, wantedNames, Dict.values, List.flatMap_map]
  refine List.flatMap_congr fun e _ => ?_
  rw [fqn_specialisations]

theorem mem_keptKeys_iff : key ∈ keptKeys db ↔ ∃ c, db.classes.get? key = some c ∧
    (c.isTemplate = true → c.flags.templateHints = []) := by
  rw [keptKeys, Dict.mem_keys_iff]
  refine exists_congr fun c => ?_
  rw [Dict.get?_eq_some_iff, Dict.get?_eq_some_iff, Dict.filter, List.mem_filter]
  refine and_congr_right fun _ => ?_
  cases c.isTemplate <;> simp

/-- The classes that the hints of a database ask for have names of their own. -/
structure AsksApart (db : Database) : Prop where
  distinct : (wantedNames db).Nodup
  fresh : ∀ name ∈ wantedNames db, db.classes.get? name = none

namespace AsksApart

variable (h : AsksApart db)
include h

theorem nodup_fqn_specialisations (ht : db.classes.get? key = some t) (htemplate : t.isTemplate = true) :
    ((specialisations t).map Class.fqn).Nodup := by
  have hnames := (List.nodup_flatMap.1 h.distinct).1 (key, t) (Dict.get?_eq_some_iff.1 ht)
  rwa [if_pos htemplate, ← fqn_specialisations] at hnames

/-- No two templates ask for the same class. -/
theorem key_unique_of_wanted {key' : String} {t' : Class} (ht : db.classes.get? key = some t)
    (ht' : db.classes.get? key' = some t') (htemplate : t.isTemplate = true)
    (htemplate' : t'.isTemplate = true) (hname : name ∈ (specialisations t).map Class.fqn)
    (hname' : name ∈ (specialisations t').map Class.fqn) : key = key' := by
  by_contra hne
  have hsymm : Std.Symm (Function.onFun List.Disjoint fun e : String × Class =>
      if e.2.isTemplate then (e.2.flags.templateHints.flatMap (·.combinations)).map (combinationFqn e.2)
      else []) := ⟨fun _ _ hdisjoint => hdisjoint.symm⟩
  have hdisjoint := (List.nodup_flatMap.1 h.distinct).2.forall (Dict.get?_eq_some_iff.1 ht)
    (Dict.get?_eq_some_iff.1 ht') fun heq => hne (Prod.mk.inj heq).1
  rw [Function.onFun, if_pos htemplate, if_pos htemplate', ← fqn_specialisations,
    ← fqn_specialisations] at hdisjoint
  exact hdisjoint hname hname'

theorem not_mem_wantedNames (ht : db.classes.get? key = some t) : key ∉ wantedNames db := fun hmem => by
  rw [h.fresh key hmem] at ht
  cases ht

/-- The step of a template, between the steps before it, which leave it alone, and those after it. -/
theorem exists_step (ht : db.classes.get? key = some t) (htemplate : t.isTemplate = true) :
    ∃ (state : Dict Class × Merges) (after : List String), state.1.get? key = some t ∧
      Original db state.1 ∧ key ∉ after ∧ (∀ other ∈ after, other ∈ templateKeys db) ∧
      (specialiseClasses db).classes = (after.foldl replaceTemplate (replaceTemplate state key)).1 := by
  obtain ⟨before, after, hsplit⟩ := List.append_of_mem (mem_templateKeys_iff.2 ⟨t, ht, htemplate⟩)
  have hnodup : (templateKeys db).Nodup := Dict.nodup_keys _
  rw [hsplit, List.nodup_append, List.nodup_cons] at hnodup
  obtain ⟨-, ⟨hafter, -⟩, hbefore⟩ := hnodup
  have horiginal : Original db db.classes := fun _ _ h _ => h
  refine ⟨before.foldl replaceTemplate (db.classes, .empty), after, ?_, ?_, hafter,
    fun other hother => ?_, ?_⟩
  · rw [get?_foldl_replaceTemplate horiginal, ht]
    · exact fun hmem => hbefore key hmem key List.mem_cons_self rfl
    · refine unasked_of_not_mem_wantedNames (h.not_mem_wantedNames ht) fun other hother => ?_
      rw [hsplit]
      exact List.mem_append_left _ hother
  · exact original_foldl_replaceTemplate horiginal before
  · rw [hsplit]
    exact List.mem_append_right _ (List.mem_cons_of_mem _ hother)
  · rw [specialiseClasses_eq, hsplit, List.foldl_append]
    rfl

theorem get?_of_unhinted (ht : db.classes.get? key = some t) (htemplate : t.isTemplate = true)
    (hnone : t.flags.templateHints = []) :
    (specialiseClasses db).classes.get? key = some (unboundTemplate t) := by
  obtain ⟨state, after, hstate, horiginal, hafter, hkeys, heq⟩ := h.exists_step ht htemplate
  -- The later steps neither are for this key nor ask for it, since no key is asked for.
  have hunasked := unasked_of_not_mem_wantedNames (h.not_mem_wantedNames ht) hkeys
  rw [heq, get?_foldl_replaceTemplate (original_replaceTemplate horiginal key) hafter hunasked,
    replaceTemplate_of_unhinted hstate hnone, Dict.get?_insert, if_pos rfl]

theorem get?_of_hinted (ht : db.classes.get? key = some t) (htemplate : t.isTemplate = true)
    (hhints : t.flags.templateHints ≠ []) : (specialiseClasses db).classes.get? key = none := by
  obtain ⟨state, after, hstate, horiginal, hafter, hkeys, heq⟩ := h.exists_step ht htemplate
  have hfresh := h.not_mem_wantedNames ht
  have hown : key ∉ (specialisations t).map Class.fqn := fun hmem =>
    hfresh (mem_wantedNames_iff.2 ⟨key, t, ht, htemplate, hmem⟩)
  rw [heq, get?_foldl_replaceTemplate (original_replaceTemplate horiginal key) hafter
      (unasked_of_not_mem_wantedNames hfresh hkeys),
    replaceTemplate_of_hinted hstate hhints, Dict.get?_insertAll_of_not_mem, Dict.get?_erase, if_pos rfl]
  rw [List.map_map]
  exact hown

/-- A class that a template asks for is stored under its name. -/
theorem get?_of_wanted (ht : db.classes.get? key = some t) (htemplate : t.isTemplate = true)
    (hc : c ∈ specialisations t) : (specialiseClasses db).classes.get? c.fqn = some c := by
  obtain ⟨state, after, hstate, horiginal, hafter, hkeys, heq⟩ := h.exists_step ht htemplate
  have hhints : t.flags.templateHints ≠ [] := fun hnil => by
    rw [specialisations, hnil] at hc
    cases hc
  have hname : c.fqn ∈ (specialisations t).map Class.fqn := List.mem_map_of_mem hc
  have hfree := h.fresh c.fqn (mem_wantedNames_iff.2 ⟨key, t, ht, htemplate, hname⟩)
  rw [heq, get?_foldl_replaceTemplate (original_replaceTemplate horiginal key),
    replaceTemplate_of_hinted hstate hhints]
  · refine Dict.get?_insertAll_of_mem ?_ (List.mem_map.2 ⟨c, hc, rfl⟩)
    rw [List.map_map]
    exact h.nodup_fqn_specialisations ht htemplate
  · -- The name is none of the beginning, so that no later step is its own.
    intro hmem
    obtain ⟨t', ht', -⟩ := mem_templateKeys_iff.1 (hkeys _ hmem)
    rw [hfree] at ht'
    cases ht'
  · intro other hother t' ht' hmem
    have htemplate' := isTemplate_of_mem_templateKeys (hkeys other hother) ht'
    obtain rfl := h.key_unique_of_wanted ht ht' htemplate htemplate' hname hmem
    exact hafter hother

theorem get?_of_plain (hc : db.classes.get? key = some c) (hplain : c.isTemplate = false) :
    (specialiseClasses db).classes.get? key = some c := by
  refine get?_specialiseClasses hc hplain ?_
  rw [specialisedNames_eq]
  exact h.not_mem_wantedNames hc

theorem mem_keys_iff : name ∈ (specialiseClasses db).classes.keys ↔
    name ∈ keptKeys db ∨ name ∈ wantedNames db := by
  rw [Dict.mem_keys_iff, mem_keptKeys_iff]
  constructor
  · rintro ⟨c, hc⟩
    by_contra hnone
    obtain ⟨hkept, hwanted⟩ := not_or.1 hnone
    -- No step touches a name that is neither there nor asked for.
    cases hget : db.classes.get? name with
    | none =>
        have hunasked := unasked_of_not_mem_wantedNames hwanted fun _ hother => hother
        have hstep : name ∉ templateKeys db := fun hmem => by
          obtain ⟨t, ht, -⟩ := mem_templateKeys_iff.1 hmem
          rw [hget] at ht
          cases ht
        have horiginal : Original db db.classes := fun _ _ h _ => h
        rw [specialiseClasses_eq, get?_foldl_replaceTemplate horiginal hstep hunasked, hget] at hc
        cases hc
    | some t =>
        obtain ⟨htemplate, hhints⟩ := Classical.not_imp.1 fun himp => hkept ⟨t, hget, himp⟩
        rw [h.get?_of_hinted hget htemplate hhints] at hc
        cases hc
  · rintro (⟨t, ht, hhints⟩ | hwanted)
    · cases htemplate : t.isTemplate with
      | true => exact ⟨_, h.get?_of_unhinted ht htemplate (hhints htemplate)⟩
      | false => exact ⟨t, h.get?_of_plain ht htemplate⟩
    · obtain ⟨key, t, ht, htemplate, hname⟩ := mem_wantedNames_iff.1 hwanted
      obtain ⟨c, hc, rfl⟩ := List.mem_map.1 hname
      exact ⟨c, h.get?_of_wanted ht htemplate hc⟩

/-- There is one class under each key that is kept and one for each combination, and no other one. -/
theorem keys_perm : (specialiseClasses db).classes.keys.Perm (keptKeys db ++ wantedNames db) := by
  have hnodup : (keptKeys db ++ wantedNames db).Nodup := by
    refine List.nodup_append.2 ⟨Dict.nodup_keys _, h.distinct, fun key hkept name hwanted heq => ?_⟩
    obtain ⟨c, hc, -⟩ := mem_keptKeys_iff.1 hkept
    exact h.not_mem_wantedNames hc (heq ▸ hwanted)
  rw [List.perm_ext_iff_of_nodup (Dict.nodup_keys _) hnodup]
  intro name
  rw [h.mem_keys_iff, List.mem_append]

end AsksApart

/-- Where the classes that hints ask for have names of their own, a class template with hints is gone, and
there is one class for each of its combinations, under the name of the combination; every other template is
kept and not bound, every other class is the same as before, and there are no more classes. -/
theorem specialiseClasses_exact (h : AsksApart db) :
    (∀ key t, db.classes.get? key = some t → t.isTemplate = true → t.flags.templateHints ≠ [] →
        (specialiseClasses db).classes.get? key = none ∧
          ∀ hint ∈ t.flags.templateHints, ∀ b ∈ hint.combinations, ∃ c,
            (specialiseClasses db).classes.get? (combinationFqn t b) = some c ∧
              c.fqn = combinationFqn t b ∧ SpecialisationOf t hint b c) ∧
      (∀ key t, db.classes.get? key = some t → t.isTemplate = true → t.flags.templateHints = [] →
        (specialiseClasses db).classes.get? key = some { t with flags := { t.flags with noBind := true } }) ∧
      (∀ key c, db.classes.get? key = some c → c.isTemplate = false →
        (specialiseClasses db).classes.get? key = some c) ∧
      (specialiseClasses db).classes.keys.Perm (keptKeys db ++ wantedNames db) := by
  refine ⟨fun key t ht htemplate hhints => ⟨h.get?_of_hinted ht htemplate hhints, ?_⟩,
    fun key t ht htemplate hnone => h.get?_of_unhinted ht htemplate hnone,
    fun key c hc hplain => h.get?_of_plain hc hplain, h.keys_perm⟩
  intro hint hhint b hb
  have hmem : specialiseClass t hint.bindName (1 < hint.combinations.length) b ∈ specialisations t :=
    List.mem_flatMap.2 ⟨hint, hhint, List.mem_map.2 ⟨b, hb, rfl⟩⟩
  exact ⟨_, h.get?_of_wanted ht htemplate hmem, rfl, specialisationOf_specialiseClass t hint b⟩

/-- A template that is wanted for two types, with a constructor, two methods of one name and an attribute. -/
def poolTemplate : Class where
  name := "Pool"
  scope := "ns"
  isTemplate := true
  templateParams := ["T"]
  constructors := [{
    name := "Pool", scope := "ns", owner := some "Pool", params := [⟨"first", .named "T", none, ""⟩] }]
  methods := .ofList [("at", .overload (Slot.pair
    { name := "at", scope := "ns", owner := some "Pool", result := some (.named "T") }
    { name := "at", scope := "ns", owner := some "Pool", params := [⟨"i", .named "int", none, ""⟩],
      result := some (.template "Ref" {} [.named "T"]) }))]
  attributes := .ofList [("last", { name := "last", scope := "ns", owner := "Pool", ty := .named "T" })]
  flags := { templateHints := [⟨"Pool", [[("T", "int")], [("T", "ns::Shape")]]⟩] }

/-- The template, one without hints and a class that is no template. -/
def pools : Database where
  classes := .ofList [("ns::Pool", poolTemplate), ("ns::Shape", { name := "Shape", scope := "ns" }),
    ("ns::Trait", { name := "Trait", scope := "ns", isTemplate := true, templateParams := ["T"] })]

theorem specialiseClasses_exact_pools : AsksApart pools ∧
    (specialiseClasses pools).classes.get? "ns::Pool" = none ∧
    (∃ c, (specialiseClasses pools).classes.get? "ns::Pool<ns::Shape>" = some c ∧
      SpecialisationOf poolTemplate ⟨"Pool", [[("T", "int")], [("T", "ns::Shape")]]⟩ [("T", "ns::Shape")] c) ∧
    (specialiseClasses pools).classes.keys.Perm
      ["ns::Shape", "ns::Trait", "ns::Pool<int>", "ns::Pool<ns::Shape>"] := by
  have happart : AsksApart pools := ⟨by decide +kernel, by decide +kernel⟩
  obtain ⟨hhinted, -, -, hkeys⟩ := specialiseClasses_exact happart
  obtain ⟨hgone, hspec⟩ := hhinted "ns::Pool" poolTemplate (by decide +kernel) (by decide +kernel)
    (by decide +kernel)
  obtain ⟨c, hc, -, hof⟩ := hspec ⟨"Pool", [[("T", "int")], [("T", "ns::Shape")]]⟩ (by decide +kernel)
    [("T", "ns::Shape")] (by decide +kernel)
  have hnames : keptKeys pools ++ wantedNames pools =
      ["ns::Shape", "ns::Trait", "ns::Pool<int>", "ns::Pool<ns::Shape>"] := by decide +kernel
  exact ⟨happart, hgone, ⟨c, hc, hof⟩, hnames ▸ hkeys⟩

/-- A template whose hint binds the name of the class that it asks for. -/
def selfNamed : Class where
  name := "Box"
  isTemplate := true
  templateParams := ["T"]
  constructors := [{ name := "Box", owner := some "Box" }]
  flags := { templateHints := [⟨"IntBox", [[("Box<int>", "int")]]⟩] }

/-- A constructor without a result does not return the class if the combination binds the class' name. -/
theorem not_constructors_return_class : ¬ ∀ db : Database, AsksApart db → ∀ key t hint b c,
    db.classes.get? key = some t → t.isTemplate = true → hint ∈ t.flags.templateHints →
      b ∈ hint.combinations → (specialiseClasses db).classes.get? (combinationFqn t b) = some c →
        List.Forall₂ (fun f g => f.result = none → g.result = some (.named (combinationFqn t b)))
          t.constructors c.constructors := by
  intro h
  have hreturn := h { classes := .ofList [("Box", selfNamed)] } ⟨by decide +kernel, by decide +kernel⟩
    "Box" selfNamed ⟨"IntBox", [[("Box<int>", "int")]]⟩ [("Box<int>", "int")]
    (specialiseClass selfNamed "IntBox" false [("Box<int>", "int")])
    (by decide +kernel) rfl (by decide +kernel) (by decide +kernel) (by decide +kernel)
  revert hreturn
  decide +kernel

end ScriptBindings.Resolve
