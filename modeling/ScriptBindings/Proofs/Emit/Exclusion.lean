import Mathlib
import ScriptBindings.Emit.Files
import ScriptBindings.Proofs.Binding.Exclusion
import ScriptBindings.Proofs.Dict

/-!
# What files show of excluded callables

The files that are generated for a database show of a function or method that is not to be bound nothing of
what it takes.  Of a constructor they show what it offers, so the files of two databases that differ only in
the parameters of excluded callables are the same if the constructors among these offer the same.
-/

namespace ScriptBindings

namespace Emit

open Binding

/-- Spell the bindings of another database. -/
def Style.withDb (s : Style) (db : Database) : Style :=
  { s with db := db }

variable {s : Style} {db : Database} {c c' : Class}

/-- The excluded constructors of classes that scripts may make offer the same in both databases. -/
def OfferAlike (db db' : Database) : Prop :=
  ∀ key c c', db.classes.get? key = some c → db'.classes.get? key = some c' → Creatable c →
    excludedOffers db c = excludedOffers db' c'

/-- The loader of functions can be told from what is masked. -/
theorem functionLoader?_masked (s : Style) (slot : Slot) :
    (s.withDb s.db.masked).functionLoader? slot.masked = s.functionLoader? slot := by
  have hplan : planSlot (s.withDb s.db.masked).db slot.masked = planSlot s.db slot :=
    planSlot_masked s.db slot
  unfold Style.functionLoader?
  rw [hplan, slot.callables_masked, slot.flags?_masked, slot.name_masked, List.head?_map, List.map_map]
  cases slot.callables.head? with
  | none => rfl
  | some first =>
      simp only [Option.map_some, Option.bind_eq_bind, Option.bind_some, Function.comp_def,
        Callable.scope_masked, Callable.location_masked]
      rfl

/-- So can the lines of a class' methods and data members. -/
theorem memberLines_masked (s : Style) (c : Class) :
    (s.withDb s.db.masked).memberLines c.masked = s.memberLines c := by
  have hplans : c.masked.methods.values.flatMap (planSlot s.db.masked) =
      c.methods.values.flatMap (planSlot s.db) := by
    simp only [Class.masked, Dict.values, Dict.map, List.map_map, List.flatMap_map, Function.comp_def,
      planSlot_masked]
  unfold Style.memberLines
  rw [show (s.withDb s.db.masked).db = s.db.masked from rfl, hplans]
  rfl

/-- Masking looks at nothing but the callables of a class. -/
theorem exists_eq_of_masked_eq (h : c.masked = c'.masked) : ∃ constructors destructor methods hiddenMethods,
    c' = { c with constructors, destructor, methods, hiddenMethods } := by
  refine ⟨c'.constructors, c'.destructor, c'.methods, c'.hiddenMethods, ?_⟩
  cases c
  cases c'
  simp only [Class.masked, Class.mk.injEq] at h ⊢
  simp only [h, and_self]

/-- A class has the same loader in both databases if it is masked alike and constructed alike. -/
theorem classLoader?_congr (hdb : s.db.masked = db.masked) (hmasked : c.masked = c'.masked)
    (hplan : planConstructors s.db c = planConstructors db c') :
    s.classLoader? c = (s.withDb db).classLoader? c' := by
  have hlines : s.memberLines c = (s.withDb db).memberLines c' := by
    have hleft := memberLines_masked s c
    have hright : (s.withDb db.masked).memberLines c'.masked = (s.withDb db).memberLines c' :=
      memberLines_masked (s.withDb db) c'
    rw [← hleft, ← hright, hdb, hmasked]
  obtain ⟨constructors, destructor, methods, hiddenMethods, rfl⟩ := exists_eq_of_masked_eq hmasked
  have hdefinition : s.classDefinition c = (s.withDb db).classDefinition
      { c with constructors, destructor, methods, hiddenMethods } := by
    unfold Style.classDefinition
    rw [hplan]
    rfl
  unfold Style.classLoader?
  rw [hdefinition, hlines]
  rfl

theorem classLoader?_of_offerAlike (hdb : s.db.masked = db.masked) (hoffers : OfferAlike s.db db)
    {key : String} (hc : s.db.classes.get? key = some c) (hc' : db.classes.get? key = some c')
    (hmasked : c.masked = c'.masked) : s.classLoader? c = (s.withDb db).classLoader? c' := by
  refine classLoader?_congr hdb hmasked (planConstructors_congr hmasked fun hcreatable => ?_)
  have hoffer : offer? s.db = offer? db := by rw [← offer?_masked, hdb, offer?_masked]
  have hconstructors : c.constructors.map Callable.masked = c'.constructors.map Callable.masked :=
    congrArg Class.constructors hmasked
  exact map_offer?_eq hoffer hconstructors (hoffers key c c' hc hc' hcreatable)

theorem loaders_of_offerAlike (hdb : s.db.masked = db.masked) (hoffers : OfferAlike s.db db) :
    s.loaders = (s.withDb db).loaders := by
  have hclasses : s.db.classes.values.filterMap (fun c => (s.classLoader? c).map (c.scope, ·)) =
      db.classes.values.filterMap fun c => ((s.withDb db).classLoader? c).map (c.scope, ·) := by
    refine Dict.filterMap_values_congr (congrArg Database.classes hdb) fun key c c' hc hc' hmasked => ?_
    have hscope : c.masked.scope = c'.masked.scope := by rw [hmasked]
    rw [classLoader?_of_offerAlike hdb hoffers hc hc' hmasked, show c.scope = c'.scope from hscope]
  have hfunctions : s.db.functions.values.filterMap s.functionLoader? =
      db.functions.values.filterMap (s.withDb db).functionLoader? := by
    refine Dict.filterMap_values_congr (congrArg Database.functions hdb) fun _ slot slot' _ _ hmasked => ?_
    have hright : (s.withDb db.masked).functionLoader? slot'.masked = (s.withDb db).functionLoader? slot' :=
      functionLoader?_masked (s.withDb db) slot'
    rw [← functionLoader?_masked, ← hright, hdb, hmasked]
  have henums : s.db.masked.enums = db.masked.enums := by rw [hdb]
  have hglobals : s.db.masked.globals = db.masked.globals := by rw [hdb]
  unfold Style.loaders
  rw [hclasses, hfunctions, show s.db.enums = db.enums from henums,
    show s.db.globals = db.globals from hglobals]
  rfl

/-- The files show nothing of what excluded callables take, but for what excluded constructors offer. -/
theorem files_of_offerAlike (hdb : s.db.masked = db.masked) (hoffers : OfferAlike s.db db) :
    s.files = (s.withDb db).files := by
  unfold Style.files
  rw [loaders_of_offerAlike hdb hoffers]
  rfl

/-- Nothing is planned for a callable that is not to be bound, unless it is a constructor.  The entry of a slot
binds what the bound callables with its key contribute, in their order, and nothing else.  The signatures of a
class are contributed by constructors that are not deleted; if the class is creatable, all of them come from
constructors that are bound exactly if no excluded constructor is offered.  And databases that differ only in
the parameters of excluded callables have the same files if their excluded constructors offer the same. -/
theorem excluded_contributes_only_offers (s : Style) :
    (∀ slot, ∀ e ∈ planSlot s.db slot, e.strategy.leaves ≠ [] ∧
      e.strategy.leaves =
        (slot.callables.filter fun f => IsBindable f ∧ BindKey.ofCallable? f = some e.key).flatMap
          fun f => (strategyOf s.db f (isOverloaded slot)).leaves) ∧
    (∀ c, (∀ types ∈ (planConstructors s.db c).signatures,
        ∃ f ∈ c.constructors, f.deleted = false ∧ types ∈ signaturesOf f) ∧
      (Creatable c → ((planConstructors s.db c).signatures =
          (c.constructors.filter fun f => IsBindable f ∧ IsOffered s.db f).flatMap signaturesOf ↔
        ∀ f ∈ c.constructors, f.flags.noBind = true → ¬ IsOffered s.db f))) ∧
    ∀ db, s.db.masked = db.masked → OfferAlike s.db db → s.files = (s.withDb db).files :=
  ⟨fun _ _ he => leaves_of_mem_planSlot he,
    fun _ => ⟨fun _ h => exists_of_mem_signatures h, signatures_eq_of_bindable_iff s.db⟩,
    fun _ hdb hoffers => files_of_offerAlike hdb hoffers⟩

/-- A class with two constructors, of which the first is not to be bound, and has some parameters. -/
def boxClass (params : List Parameter) : Class where
  name := "Box"
  scope := "ns"
  constructors :=
    [{ name := "Box", scope := "ns", owner := some "Box", params := params, flags := { noBind := true } },
      { name := "Box", scope := "ns", owner := some "Box", params := [{ name := "x", ty := .named "double" }] }]

/-- A function with two overloads, of which the first is not to be bound, and has some parameters. -/
def openSlot (params : List Parameter) : Slot :=
  .overload
    { name := "open"
      scope := "ns"
      overloads :=
        [{ name := "open", scope := "ns", params := params, flags := { noBind := true } },
          { name := "open", scope := "ns", result := some (.named "void") }] }

/-- The class and the function, where what is not to be bound takes one parameter of some type. -/
def boxDatabase (ty : CppType) : Database where
  classes := Dict.empty.insert "ns::Box" (boxClass [{ name := "p", ty := ty }])
  functions := Dict.empty.insert "ns::open" (openSlot [{ name := "p", ty := ty }])

theorem excluded_contributes_only_offers_box :
    ((planSlot {} (openSlot [])).map (·.key) = [.named "open"] ∧
        ∀ e ∈ planSlot {} (openSlot []), e.strategy.leaves ≠ []) ∧
      (planConstructors {} (boxClass [{ name := "n", ty := .base "int" ⟨[], ["&"]⟩ }])).signatures =
        [["double"]] ∧
      boxDatabase (.base "ns::Box" ⟨[], ["&&"]⟩) ≠ boxDatabase (.base "int" ⟨[], ["&"]⟩) ∧
      ∀ (flavour : Flavour) (roots : List String),
        (Style.mk (boxDatabase (.base "ns::Box" ⟨[], ["&&"]⟩)) flavour roots).files =
          (Style.mk (boxDatabase (.base "int" ⟨[], ["&"]⟩)) flavour roots).files := by
  refine ⟨⟨by decide, fun e he => ?_⟩, ?_, by decide, fun flavour roots => ?_⟩
  · exact ((excluded_contributes_only_offers ⟨{}, {}, []⟩).1 _ e he).1
  · have hcreatable : Creatable (boxClass [{ name := "n", ty := .base "int" ⟨[], ["&"]⟩ }]) := by decide
    exact (((excluded_contributes_only_offers ⟨{}, {}, []⟩).2.1 _).2 hcreatable).2 (by decide)
  · have hmasked : (boxDatabase (.base "ns::Box" ⟨[], ["&&"]⟩)).masked =
        (boxDatabase (.base "int" ⟨[], ["&"]⟩)).masked := by decide
    have hoffers : OfferAlike (boxDatabase (.base "ns::Box" ⟨[], ["&&"]⟩))
        (boxDatabase (.base "int" ⟨[], ["&"]⟩)) := by
      intro key c c' hc hc' _
      rw [boxDatabase, Dict.get?_insert] at hc hc'
      by_cases hkey : key = "ns::Box"
      · rw [if_pos hkey] at hc hc'
        obtain rfl := Option.some.inj hc
        obtain rfl := Option.some.inj hc'
        decide
      · rw [if_neg hkey] at hc
        cases hc
    exact (excluded_contributes_only_offers ⟨_, flavour, roots⟩).2.2 _ hmasked hoffers

/-- A constructor that is not to be bound contributes a signature, and changing its parameter changes what the
class can be constructed from. -/
theorem not_contributed_by_bindable :
    ¬ (∀ (db : Database) (c : Class), ∀ types ∈ (planConstructors db c).signatures,
        ∃ f ∈ c.constructors, IsBindable f ∧ types ∈ signaturesOf f) ∧
      ¬ ∀ (db : Database) (c c' : Class), c.masked = c'.masked →
        planConstructors db c = planConstructors db c' := by
  constructor
  · intro h
    have hbound := h {} (boxClass [{ name := "n", ty := .named "int" }]) ["int"] (by decide)
    revert hbound
    decide
  · intro h
    have hsame := h {} (boxClass [{ name := "n", ty := .named "int" }]) (boxClass []) (by decide)
    revert hsame
    decide

end Emit

end ScriptBindings
