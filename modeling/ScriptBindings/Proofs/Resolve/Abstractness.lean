import Mathlib
import ScriptBindings.Resolve.Inheritance
import ScriptBindings.Proofs.Resolve.Bases

/-!
# Inherited abstractness

Whether a class inherits abstractness depends on the classes that it derives from, on which of them are
abstract, and on the roles of all their methods: under which name a method is left to be implemented or
implemented.  Neither the order of the walk nor the number of methods matters.  The pass changes nothing but
marks, and the marks that it sets lead to no further ones: the class that made an ancestor abstract is an
ancestor too.
-/

namespace ScriptBindings

namespace Resolve

open Database

variable {db : Database} {key : String} {c : Class}

/-- The class under a key, or one that it derives from, has a method of a name that is left to be implemented,
or one that is implemented. -/
def HasRole (db : Database) (key name : String) (isAbstract : Bool) : Prop :=
  ∃ base d, Relation.ReflTransGen db.Derives key base ∧ db.classes.get? base = some d ∧
    ∃ f ∈ methodsOf d, f.name = name ∧ f.isAbstract = isAbstract

/-- The class under a key derives from another class that is abstract, and some method that is left to be
implemented by it, or by a class it derives from, is implemented by none of them. -/
structure LeftAbstract (db : Database) (key : String) : Prop where
  ancestor : ∃ base d, Relation.TransGen db.Derives key base ∧ base ≠ key ∧
    db.classes.get? base = some d ∧ d.isAbstract = true
  missing : ∃ name, HasRole db key name true ∧ ¬ HasRole db key name false

/-- The names of the methods of a class, each with whether it is left to be implemented. -/
def roles (c : Class) : List (String × Bool) :=
  (methodsOf c).map fun f => (f.name, f.isAbstract)

theorem hasRole_iff {name : String} {isAbstract : Bool} : HasRole db key name isAbstract ↔
    ∃ base d, Relation.ReflTransGen db.Derives key base ∧ db.classes.get? base = some d ∧
      (name, isAbstract) ∈ roles d := by
  simp only [HasRole, roles, List.mem_map, Prod.mk.injEq]

/-! ## What the pass asks -/

theorem any_isMissing_iff (methods : List Callable) :
    (methods.any fun f => isMissing methods f.name) = true ↔
      ∃ name, (name, true) ∈ methods.map (fun f => (f.name, f.isAbstract)) ∧
        (name, false) ∉ methods.map (fun f => (f.name, f.isAbstract)) := by
  simp only [List.any_eq_true, isMissing, Bool.and_eq_true, Bool.not_eq_true', List.any_eq_false,
    decide_eq_true_eq, List.mem_map, Prod.mk.injEq]
  constructor
  · rintro ⟨f, -, ⟨g, hg, habstract, hname⟩, hnone⟩
    exact ⟨f.name, ⟨g, hg, hname, habstract⟩, fun ⟨g', hg', hname', hplain⟩ =>
      hnone g' hg' ⟨hplain, hname'⟩⟩
  · rintro ⟨name, ⟨f, hf, rfl, habstract⟩, hnone⟩
    exact ⟨f, hf, ⟨f, hf, habstract, rfl⟩, fun g hg ⟨hplain, hname⟩ => hnone ⟨g, hg, hname, hplain⟩⟩

/-- A class and its ancestors are the classes that its base relation reaches. -/
theorem mem_lineage_iff (hstored : db.Stored) (hc : db.classes.get? key = some c) {d : Class} :
    d ∈ ancestors db c ++ [c] ↔
      db.classes.get? d.fqn = some d ∧ Relation.ReflTransGen db.Derives key d.fqn := by
  have hfqn := hstored key c hc
  rw [List.mem_append, List.mem_singleton, mem_ancestors_iff hstored hc,
    Relation.reflTransGen_iff_eq_or_transGen]
  constructor
  · rintro (⟨hget, -, hwalk⟩ | rfl)
    · exact ⟨hget, Or.inr hwalk⟩
    · exact ⟨by rw [hfqn]; exact hc, Or.inl hfqn⟩
  · rintro ⟨hget, hwalk⟩
    by_cases heq : d.fqn = key
    · rw [heq, hc] at hget
      exact Or.inr (Option.some.inj hget).symm
    · exact Or.inl ⟨hget, heq, hwalk.resolve_left heq⟩

/-- A class inherits abstractness if it derives from an abstract class, and a name that it or a class it
derives from leaves to be implemented is implemented in none of them. -/
theorem inheritsAbstractness_iff (hstored : db.Stored) (hc : db.classes.get? key = some c) :
    inheritsAbstractness db c = true ↔ LeftAbstract db key := by
  -- The methods that are looked at are those of the class and of all classes it derives from.
  have hrole : ∀ name isAbstract, (name, isAbstract) ∈ ((ancestors db c ++ [c]).flatMap methodsOf).map
      (fun f => (f.name, f.isAbstract)) ↔ HasRole db key name isAbstract := by
    intro name isAbstract
    rw [hasRole_iff, List.map_flatMap, List.mem_flatMap]
    constructor
    · rintro ⟨d, hd, hrole⟩
      obtain ⟨hget, hwalk⟩ := (mem_lineage_iff hstored hc).1 hd
      exact ⟨d.fqn, d, hwalk, hget, hrole⟩
    · rintro ⟨base, d, hwalk, hget, hrole⟩
      obtain rfl := hstored base d hget
      exact ⟨d, (mem_lineage_iff hstored hc).2 ⟨hget, hwalk⟩, hrole⟩
  have hlineage : ((ancestors db c).any (·.isAbstract)) = true ↔
      ∃ base d, Relation.TransGen db.Derives key base ∧ base ≠ key ∧ db.classes.get? base = some d ∧
        d.isAbstract = true := by
    rw [List.any_eq_true]
    constructor
    · rintro ⟨d, hd, habstract⟩
      obtain ⟨hget, hne, hwalk⟩ := (mem_ancestors_iff hstored hc).1 hd
      exact ⟨d.fqn, d, hwalk, hne, hget, habstract⟩
    · rintro ⟨base, d, hwalk, hne, hget, habstract⟩
      obtain rfl := hstored base d hget
      exact ⟨d, (mem_ancestors_iff hstored hc).2 ⟨hget, hne, hwalk⟩, habstract⟩
  unfold inheritsAbstractness
  simp only [Bool.and_eq_true]
  rw [hlineage, any_isMissing_iff]
  simp only [hrole]
  exact ⟨fun h => ⟨h.1, h.2⟩, fun h => ⟨h.ancestor, h.missing⟩⟩

/-! ## Marking -/

/-- A class with another mark of abstractness. -/
def marked (mark : Bool) (c : Class) : Class :=
  { c with isAbstract := mark }

theorem inferAbstract_eq_mapClasses (db : Database) : inferAbstract db = db.mapClasses fun _ c =>
    marked (c.isAbstract || inheritsAbstractness db c) c := rfl

theorem get?_inferAbstract (db : Database) (key : String) : (inferAbstract db).classes.get? key =
    (db.classes.get? key).map fun c => marked (c.isAbstract || inheritsAbstractness db c) c :=
  get?_mapClasses _ db key

theorem stored_inferAbstract (hstored : db.Stored) : (inferAbstract db).Stored :=
  Stored.mapClasses hstored fun _ _ => rfl

theorem derives_inferAbstract (db : Database) : (inferAbstract db).Derives = db.Derives :=
  derives_mapClasses fun _ _ => rfl

/-- Marks are no roles. -/
theorem hasRole_inferAbstract (db : Database) :
    HasRole (inferAbstract db) key = HasRole db key := by
  funext name isAbstract
  refine propext ?_
  simp only [HasRole, derives_inferAbstract, get?_inferAbstract]
  constructor
  · rintro ⟨base, d', hwalk, hd', hrole⟩
    obtain ⟨d, hd, rfl⟩ := Option.map_eq_some_iff.1 hd'
    exact ⟨base, d, hwalk, hd, hrole⟩
  · rintro ⟨base, d, hwalk, hd, hrole⟩
    exact ⟨base, _, hwalk, Option.map_eq_some_iff.2 ⟨d, hd, rfl⟩, hrole⟩

/-- A class that inherits abstractness from a class that has been marked was abstract, or inherits it from the
class that the mark came from. -/
theorem LeftAbstract.of_inferAbstract (hstored : db.Stored) (hc : db.classes.get? key = some c)
    (h : LeftAbstract (inferAbstract db) key) : c.isAbstract = true ∨ LeftAbstract db key := by
  obtain ⟨⟨base, d', hwalk, hne, hd', habstract⟩, hmissing⟩ := h
  rw [hasRole_inferAbstract] at hmissing
  rw [derives_inferAbstract] at hwalk
  rw [get?_inferAbstract] at hd'
  obtain ⟨d, hd, rfl⟩ := Option.map_eq_some_iff.1 hd'
  rcases Bool.or_eq_true_iff.1 habstract with hbefore | hmarked
  · exact Or.inr ⟨⟨base, d, hwalk, hne, hd, hbefore⟩, hmissing⟩
  · obtain ⟨⟨first, e, hwalk', -, he, hfirst⟩, -⟩ :=
      (inheritsAbstractness_iff hstored hd).1 hmarked
    -- On a cycle the mark may have come from the class itself.
    by_cases hself : first = key
    · rw [hself, hc] at he
      obtain rfl := Option.some.inj he
      exact Or.inl hfirst
    · exact Or.inr ⟨⟨first, e, hwalk.trans hwalk', hself, he, hfirst⟩, hmissing⟩

theorem inferAbstract_inferAbstract (hstored : db.Stored) :
    inferAbstract (inferAbstract db) = inferAbstract db := by
  refine mapClasses_eq_self fun key c' hc' => ?_
  have hleft := inheritsAbstractness_iff (stored_inferAbstract hstored) hc'
  rw [get?_inferAbstract] at hc'
  obtain ⟨c, hc, rfl⟩ := Option.map_eq_some_iff.1 hc'
  have hmark : ((c.isAbstract || inheritsAbstractness db c) || inheritsAbstractness (inferAbstract db)
      (marked (c.isAbstract || inheritsAbstractness db c) c)) =
        (c.isAbstract || inheritsAbstractness db c) := by
    rw [Bool.or_eq_left_iff_imp, hleft, Bool.or_eq_true_iff,
      inheritsAbstractness_iff hstored hc]
    exact LeftAbstract.of_inferAbstract hstored hc
  exact congrArg (marked · c) hmark

/-- Where every class is stored under its name, the pass changes nothing but marks: a class is abstract
afterwards if it was abstract before or is left abstract by the classes that it derives from.  A second run
changes nothing. -/
theorem inferAbstract_exact (hstored : db.Stored) :
    (∃ mark : String → Bool, inferAbstract db = db.mapClasses (fun key => marked (mark key)) ∧
      ∀ key c, db.classes.get? key = some c →
        (mark key = true ↔ c.isAbstract = true ∨ LeftAbstract db key)) ∧
      inferAbstract (inferAbstract db) = inferAbstract db := by
  -- There is one class under a key, so that its mark is a function of the key.
  obtain ⟨mark, hmark⟩ : ∃ mark : String → Bool, ∀ key c, db.classes.get? key = some c →
      mark key = (c.isAbstract || inheritsAbstractness db c) :=
    ⟨fun key => (db.classes.get? key).any fun c => c.isAbstract || inheritsAbstractness db c,
      fun key c hc => by simp only [hc, Option.any_some]⟩
  refine ⟨⟨mark, ?_, fun key c hc => ?_⟩, inferAbstract_inferAbstract hstored⟩
  · rw [inferAbstract_eq_mapClasses]
    exact mapClasses_congr fun key c hc => by rw [hmark key c hc]
  · rw [hmark key c hc, Bool.or_eq_true_iff, inheritsAbstractness_iff hstored hc]

/-- An abstract class at the top of a diamond, of whose sides one implements its method; below it a class that
derives from a template which derives from the class again; and a base that is not stored. -/
def looped : Database where
  classes := .ofList [
    ("ns::Shape", {
      name := "Shape", scope := "ns", isAbstract := true
      methods := .ofList [("draw", .concrete
        { name := "draw", scope := "ns", owner := some "Shape", isAbstract := true })] }),
    ("ns::Left", { name := "Left", scope := "ns", bases := ["std::mutex", "ns::Shape"] }),
    ("ns::Right", {
      name := "Right", scope := "ns", bases := ["ns::Shape"]
      hiddenMethods := .ofList [("draw", .concrete
        { name := "draw", scope := "ns", owner := some "Right", visibility := .priv })] }),
    ("ns::Square", { name := "Square", scope := "ns", bases := ["ns::Left", "ns::Right"] }),
    ("ns::Crate", { name := "Crate", scope := "ns", bases := ["ns::Box<int>"] }),
    ("ns::Box", { name := "Box", scope := "ns", bases := ["ns::Crate", "ns::Left"] })]

theorem stored_looped : looped.Stored := by
  have hentries : ∀ e ∈ looped.classes.entries, e.2.fqn = e.1 := by decide +kernel
  exact fun key c hc => hentries (key, c) (Dict.get?_eq_some_iff.1 hc)

/-- Bases that are led to from some keys stay among them, if those of each single key do. -/
theorem mem_of_derives {keys : List String} {base : String}
    (hclosed : ∀ key ∈ keys, ∀ c, db.classes.get? key = some c → c.bases.filterMap db.keyOf? ⊆ keys)
    (hwalk : Relation.ReflTransGen db.Derives key base) (hkey : key ∈ keys) : base ∈ keys := by
  induction hwalk with
  | refl => exact hkey
  | tail _ hstep ih =>
      obtain ⟨c, hc, name, hname, hbase⟩ := hstep
      exact hclosed _ ih c hc (List.mem_filterMap.2 ⟨name, hname, hbase⟩)

/-- Of the classes without the side that implements the method, none leads to that side. -/
theorem not_hasRole_looped (hkey : key ∈ ["ns::Box", "ns::Crate", "ns::Left", "ns::Shape"]) (name : String) :
    ¬ HasRole looped key name false := by
  rw [hasRole_iff]
  rintro ⟨base, d, hwalk, hd, hrole⟩
  have hclosed : ∀ key ∈ ["ns::Box", "ns::Crate", "ns::Left", "ns::Shape"],
      ∀ c ∈ looped.classes.get? key, c.bases.filterMap looped.keyOf? ⊆
        ["ns::Box", "ns::Crate", "ns::Left", "ns::Shape"] := by decide +kernel
  have hroles : ∀ key ∈ ["ns::Box", "ns::Crate", "ns::Left", "ns::Shape"],
      ∀ c ∈ looped.classes.get? key, ∀ role ∈ roles c, role.2 = true := by decide +kernel
  have hpure := hroles base (mem_of_derives hclosed hwalk hkey) d hd _ hrole
  cases hpure

/-- A class that leads to the side which implements the method has nothing left to implement. -/
theorem not_leftAbstract_looped (hwalk : Relation.ReflTransGen looped.Derives key "ns::Right") :
    ¬ LeftAbstract looped key := by
  rintro ⟨-, name, hpure, hnone⟩
  have hdraw : ∀ e ∈ looped.classes.entries, ∀ role ∈ roles e.2, role.1 = "draw" := by decide +kernel
  have hright : ∃ d ∈ looped.classes.get? "ns::Right", ("draw", false) ∈ roles d := by decide +kernel
  obtain ⟨base, d, -, hd, hrole⟩ := hasRole_iff.1 hpure
  obtain rfl := hdraw (base, d) (Dict.get?_eq_some_iff.1 hd) _ hrole
  obtain ⟨d, hd, hrole⟩ := hright
  exact hnone (hasRole_iff.2 ⟨"ns::Right", d, hwalk, hd, hrole⟩)

/-- A class that leads to the abstract one, but not to the side which implements its method, is left abstract. -/
theorem leftAbstract_looped (hwalk : Relation.TransGen looped.Derives key "ns::Shape")
    (hkey : key ∈ ["ns::Box", "ns::Crate", "ns::Left"]) : LeftAbstract looped key := by
  have hshape : ∃ d ∈ looped.classes.get? "ns::Shape", d.isAbstract = true ∧ ("draw", true) ∈ roles d := by
    decide +kernel
  obtain ⟨d, hd, habstract, hrole⟩ := hshape
  have hne : "ns::Shape" ≠ key := by
    rintro rfl
    revert hkey
    decide
  have hamong : key ∈ ["ns::Box", "ns::Crate", "ns::Left", "ns::Shape"] := by
    simp only [List.mem_cons] at hkey ⊢
    tauto
  exact ⟨⟨"ns::Shape", d, hwalk, hne, hd, habstract⟩, "draw",
    hasRole_iff.2 ⟨"ns::Shape", d, hwalk.to_reflTransGen, hd, hrole⟩, not_hasRole_looped hamong "draw"⟩

theorem inferAbstract_exact_looped : looped.Stored ∧ inferAbstract (inferAbstract looped) =
    inferAbstract looped ∧ ∃ mark : String → Bool,
      inferAbstract looped = looped.mapClasses (fun key => marked (mark key)) ∧
        (∀ key c, looped.classes.get? key = some c →
          (mark key = true ↔ c.isAbstract = true ∨ LeftAbstract looped key)) ∧
        looped.classes.keys.map (fun key => (key, mark key)) =
          [("ns::Box", true), ("ns::Crate", true), ("ns::Left", true), ("ns::Right", false),
            ("ns::Shape", true), ("ns::Square", false)] := by
  obtain ⟨⟨mark, hmarks, hleft⟩, hagain⟩ := inferAbstract_exact stored_looped
  refine ⟨stored_looped, hagain, mark, hmarks, hleft, ?_⟩
  have hset : ∀ {key}, (∃ c ∈ looped.classes.get? key, c.isAbstract = true) ∨
      (looped.classes.get? key).isSome ∧ LeftAbstract looped key → mark key = true := by
    rintro key (⟨c, hc, habstract⟩ | ⟨hsome, habstract⟩)
    · exact (hleft key c hc).2 (Or.inl habstract)
    · obtain ⟨c, hc⟩ := Option.isSome_iff_exists.1 hsome
      exact (hleft key c hc).2 (Or.inr habstract)
  have hunset : ∀ {key}, (∃ c ∈ looped.classes.get? key, c.isAbstract = false) →
      ¬ LeftAbstract looped key → mark key = false := by
    rintro key ⟨c, hc, hplain⟩ hnone
    rw [Bool.eq_false_iff, Ne, hleft key c hc, hplain]
    exact fun h => h.elim Bool.noConfusion hnone
  -- The classes below the abstract one, walked up from each.
  have hfromLeft : Relation.TransGen looped.Derives "ns::Left" "ns::Shape" := .single (by decide +kernel)
  have hfromBox := Relation.TransGen.head
    (show looped.Derives "ns::Box" "ns::Left" by decide +kernel) hfromLeft
  have hfromCrate := Relation.TransGen.head
    (show looped.Derives "ns::Crate" "ns::Box" by decide +kernel) hfromBox
  have hsquare : Relation.ReflTransGen looped.Derives "ns::Square" "ns::Right" := .single (by decide +kernel)
  have hkeys : looped.classes.keys =
      ["ns::Box", "ns::Crate", "ns::Left", "ns::Right", "ns::Shape", "ns::Square"] := by decide +kernel
  rw [hkeys]
  simp only [List.map_cons, List.map_nil,
    hset (Or.inr ⟨by decide +kernel, leftAbstract_looped hfromBox (by decide)⟩),
    hset (Or.inr ⟨by decide +kernel, leftAbstract_looped hfromCrate (by decide)⟩),
    hset (Or.inr ⟨by decide +kernel, leftAbstract_looped hfromLeft (by decide)⟩),
    hunset (by decide +kernel) (not_leftAbstract_looped .refl),
    hset (Or.inl (show ∃ c ∈ looped.classes.get? "ns::Shape", c.isAbstract = true by decide +kernel)),
    hunset (by decide +kernel) (not_leftAbstract_looped hsquare)]

end Resolve

end ScriptBindings
