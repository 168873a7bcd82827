import Mathlib
import ScriptBindings.Proofs.Resolve.Flattening

/-!
# Flattened bases and the walk that lists them

The walk over the bases of a class goes into the depth, from left to right: each base is followed by the walk
over the bases of the class that it leads to.  The base relation may have cycles, over which no such walk
exists.  Flattening ends all the same, because it does not enter a class that it is inside of, and it still
finds all that the walks over the relation lead to.  Where no class derives from itself the walk exists, and
what flattening lists are the first occurrences of the project's own names in it.
-/

namespace ScriptBindings

namespace Resolve

open Database FirstOccurrence

variable {db : Database} {namespaces inside bases walk : List String} {key base : String} {c : Class}

/-- A base lies in one of some namespaces. -/
def LiesIn (namespaces : List String) (base : String) : Prop :=
  ∃ ns ∈ namespaces, (ns ++ "::").toList <+: base.toList

instance (namespaces : List String) (base : String) : Decidable (LiesIn namespaces base) :=
  decidable_of_iff (isOwnName namespaces base = true) isOwnName_iff

theorem ownBase_eq_filter (namespaces : List String) (base : String) :
    ownBase namespaces base = [base].filter fun base => LiesIn namespaces base := by
  by_cases hown : LiesIn namespaces base
  · rw [ownBase, if_pos (isOwnName_iff.2 hown)]
    simp [hown]
  · rw [ownBase, if_neg (mt isOwnName_iff.1 hown)]
    simp [hown]

/-- The walk over some bases: each base, then the walk over the bases of the class that it leads to, then the
walk over the further bases. -/
inductive Walk (db : Database) : List String → List String → Prop
  | nil : Walk db [] []
  | outside {base : String} {rest walk : List String} (hbase : db.class? base = none)
      (hrest : Walk db rest walk) : Walk db (base :: rest) (base :: walk)
  | inside {base : String} {parent : Class} {rest below walk : List String}
      (hbase : db.class? base = some parent) (hparent : Walk db parent.bases below)
      (hrest : Walk db rest walk) : Walk db (base :: rest) (base :: below ++ walk)

/-- There is at most one walk over some bases. -/
theorem Walk.unique {walk' : List String} (h : Walk db bases walk) (h' : Walk db bases walk') :
    walk' = walk := by
  induction h generalizing walk' with
  | nil =>
      cases h'
      rfl
  | outside hbase hrest ih =>
      cases h' with
      | outside _ hrest' => rw [ih hrest']
      | inside hbase' _ _ =>
          rw [hbase] at hbase'
          cases hbase'
  | inside hbase hparent hrest ih_parent ih_rest =>
      cases h' with
      | outside hbase' _ =>
          rw [hbase] at hbase'
          cases hbase'
      | inside hbase' hparent' hrest' =>
          obtain rfl := Option.some.inj (hbase.symm.trans hbase')
          rw [ih_parent hparent', ih_rest hrest']

/-- Where no class derives from itself there is a walk over any bases, and flattening lists the project's own
names in it. -/
theorem exists_walk (namespaces : List String) (hstored : db.Stored) (hacyclic : db.Acyclic)
    (hclear : Clear db inside bases) :
    ∃ walk, Walk db bases walk ∧ flattenBases db namespaces inside bases =
      walk.filter fun base => LiesIn namespaces base := by
  induction inside, bases using flattenBases.induct db namespaces with
  | case1 inside => exact ⟨[], .nil, flattenBases_nil db namespaces inside⟩
  | case2 inside name rest ih_parent ih_rest =>
      obtain ⟨walk, hwalk, hrest⟩ := ih_rest fun n hn => hclear n (List.mem_cons_of_mem _ hn)
      cases hclass : db.class? name with
      | none =>
          refine ⟨name :: walk, .outside hclass hwalk, ?_⟩
          rw [flattenBases_cons, hclass, hrest, ownBase_eq_filter, List.append_nil, ← List.filter_append]
          rfl
      | some parent =>
          obtain ⟨hkey, hget⟩ := keyOf?_of_class? hstored hclass
          have hname := hclear name List.mem_cons_self _ hkey
          -- The class of the base is not one that the walk is inside of, or it would derive from itself.
          have hnew := hname _ .refl
          obtain ⟨below, hbelow, hparent⟩ :=
            ih_parent parent hclass hnew (Clear.parent hacyclic hget hname)
          refine ⟨name :: below ++ walk, .inside hclass hbelow hwalk, ?_⟩
          rw [flattenBases_cons, hclass]
          simp only [if_neg hnew]
          rw [hparent, hrest, ownBase_eq_filter, ← List.filter_append, ← List.filter_append]
          rfl

/-- What the bases of a class are flattened to: nothing twice, and exactly those names of the project that
the class, or a class that it derives from, lists.  Where no class derives from itself they stand in the
order in which they first occur in the walk over its bases. -/
structure Flattened (db : Database) (namespaces : List String) (key : String) (c : Class)
    (bases : List String) : Prop where
  nodup : bases.Nodup
  mem_iff : ∀ base, base ∈ bases ↔ LiesIn namespaces base ∧ ∃ key' c',
    Relation.ReflTransGen db.Derives key key' ∧ db.classes.get? key' = some c' ∧ base ∈ c'.bases
  ordered : db.Acyclic → ∃ walk, (∀ walk', Walk db c.bases walk' ↔ walk' = walk) ∧
    bases = (walk.filter fun base => LiesIn namespaces base).eraseDups

theorem flattened_flattenBases (hstored : db.Stored) (hc : db.classes.get? key = some c) :
    Flattened db namespaces key c (flattenBases db namespaces [key] c.bases).eraseDups where
  nodup := nodup_eraseDups _
  mem_iff base := by
    rw [List.mem_eraseDups, mem_flattenBases_key hstored hc, lists_nil_iff, isOwnName_iff]
    rfl
  ordered hacyclic := by
    obtain ⟨walk, hwalk, hlisted⟩ := exists_walk namespaces hstored hacyclic
      (Clear.parent hacyclic hc fun _ _ => List.not_mem_nil)
    refine ⟨walk, fun walk' => ⟨hwalk.unique, fun heq => heq ▸ hwalk⟩, ?_⟩
    rw [hlisted]

/-- Where every class is stored under its name, whatever the bases lead to, the pass changes nothing but the
bases of classes, and those of every class are flattened. -/
theorem copyBases_flattens (namespaces : List String) (hstored : db.Stored) :
    ∃ listed : String → List String,
      copyBases namespaces db = db.mapClasses (fun key c => { c with bases := listed key }) ∧
        ∀ key c, db.classes.get? key = some c → Flattened db namespaces key c (listed key) := by
  -- There is one class under a key, so that its list is a function of the key.
  obtain ⟨listed, hlisted⟩ : ∃ listed : String → List String, ∀ key c, db.classes.get? key = some c →
      listed key = (flattenBases db namespaces [key] c.bases).eraseDups :=
    ⟨fun key => ((db.classes.get? key).map fun c =>
        (flattenBases db namespaces [key] c.bases).eraseDups).getD [],
      fun key c hc => by simp only [hc, Option.map_some, Option.getD_some]⟩
  refine ⟨listed, ?_, fun key c hc => ?_⟩
  · rw [copyBases_eq_mapClasses]
    exact mapClasses_congr fun key c hc => by rw [hlisted key c hc]
  · rw [hlisted key c hc]
    exact flattened_flattenBases hstored hc

/-- The sides of a diamond derive from its top, which derives from a class of another project; one side names
the top by a specialisation. -/
def diamond : Database where
  classes := .ofList [
    ("ns::Top", { name := "Top", scope := "ns", bases := ["sf::Drawable"] }),
    ("ns::Left", { name := "Left", scope := "ns", bases := ["ns::Top"] }),
    ("ns::Right", { name := "Right", scope := "ns", bases := ["ns::Top<int>", "ns::Top"] }),
    ("ns::Leaf", { name := "Leaf", scope := "ns", bases := ["ns::Left", "ns::Right", "ns::Shape"] })]

/-- The order in which the classes of the diamond derive from each other. -/
def diamondRank (key : String) : Nat :=
  if key = "ns::Top" then 0 else if key = "ns::Leaf" then 2 else 1

theorem copyBases_flattens_diamond : diamond.Stored ∧ diamond.Acyclic ∧
    ∃ listed : String → List String,
      copyBases ["ns"] diamond = diamond.mapClasses (fun key c => { c with bases := listed key }) ∧
        ∀ key c, diamond.classes.get? key = some c → Flattened diamond ["ns"] key c (listed key) := by
  have hentries : ∀ e ∈ diamond.classes.entries, e.2.fqn = e.1 := by decide +kernel
  have hstored : diamond.Stored := fun key c hc => hentries (key, c) (Dict.get?_eq_some_iff.1 hc)
  exact ⟨hstored, acyclic_of_rank diamondRank (by decide +kernel), copyBases_flattens ["ns"] hstored⟩

end Resolve

end ScriptBindings
