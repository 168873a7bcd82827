import Mathlib
import ScriptBindings.Resolve.Inheritance
import ScriptBindings.Proofs.Dict

/-!
# The base relation

A base is looked up under its own text, or else under its text without template arguments.  So a class
derives from the classes that its bases lead to, and all that matters of a database for this relation is
which keys have a class and which bases each class lists.  Classes stored under their own name are the same
as their keys, and a walk over classes is a walk over keys.
-/

namespace ScriptBindings

theorem Name.withoutTemplateArgs_isPrefix_toList (name : String) :
    (Name.withoutTemplateArgs name).toList <+: name.toList := by
  unfold Name.withoutTemplateArgs
  rw [String.toList_ofList]
  have htrim : ∀ s : List Char, Text.trimEnd s <+: s := fun s => by
    unfold Text.trimEnd
    rw [← List.reverse_suffix, List.reverse_reverse]
    exact List.dropWhile_suffix _
  exact (htrim _).trans (List.takeWhile_prefix _)

namespace Database

variable {db : Database} {key base name : String} {c : Class}

/-- Every class is stored under its own qualified name. -/
def Stored (db : Database) : Prop :=
  ∀ key c, db.classes.get? key = some c → c.fqn = key

/-- The key of the class that a name leads to. -/
def keyOf? (db : Database) (name : String) : Option String :=
  (db.findClass? name).map (·.1)

/-- The class under a key lists a base that leads to the class under another key. -/
def Derives (db : Database) (key base : String) : Prop :=
  ∃ c, db.classes.get? key = some c ∧ ∃ name ∈ c.bases, db.keyOf? name = some base

instance (db : Database) : DecidableRel db.Derives := fun key base =>
  inferInstanceAs (Decidable (∃ c ∈ db.classes.get? key, ∃ name ∈ c.bases, db.keyOf? name = some base))

/-- No class derives from itself, be it over other classes. -/
def Acyclic (db : Database) : Prop :=
  ∀ key, ¬ Relation.TransGen db.Derives key key

/-! ## Looking classes up -/

/-- A name leads to its own key or to the key without template arguments. -/
theorem findClass?_eq_some (h : db.findClass? name = some (key, c)) :
    db.classes.get? key = some c ∧ (key = name ∨ key = Name.withoutTemplateArgs name) := by
  unfold findClass? at h
  cases hget : db.classes.get? name with
  | some d =>
      rw [hget] at h
      obtain ⟨rfl, rfl⟩ := Prod.mk.inj (Option.some.inj h)
      exact ⟨hget, Or.inl rfl⟩
  | none =>
      rw [hget] at h
      obtain ⟨d, hd, heq⟩ := Option.map_eq_some_iff.1 h
      obtain ⟨rfl, rfl⟩ := Prod.mk.inj heq
      exact ⟨hd, Or.inr rfl⟩

/-- A name that leads to a key leads to the class under it. -/
theorem class?_of_keyOf? (h : db.keyOf? name = some key) :
    ∃ c, db.class? name = some c ∧ db.classes.get? key = some c := by
  obtain ⟨⟨key', c⟩, hfind, rfl⟩ := Option.map_eq_some_iff.1 h
  exact ⟨c, by rw [class?, hfind]; rfl, (findClass?_eq_some hfind).1⟩

/-- The class that a name leads to is stored under the key that the name leads to. -/
theorem keyOf?_of_class? (hstored : db.Stored) (h : db.class? name = some c) :
    db.keyOf? name = some c.fqn ∧ db.classes.get? c.fqn = some c := by
  obtain ⟨⟨key, d⟩, hfind, rfl⟩ := Option.map_eq_some_iff.1 h
  have hget := (findClass?_eq_some hfind).1
  obtain rfl := hstored key d hget
  exact ⟨by rw [keyOf?, hfind]; rfl, hget⟩

theorem keyOf?_eq_none (h : db.class? name = none) : db.keyOf? name = none := by
  rw [class?, Option.map_eq_none_iff] at h
  rw [keyOf?, h]
  rfl

/-- Where a name leads depends on the keys alone. -/
theorem keyOf?_congr {db' : Database}
    (h : ∀ key, (db'.classes.get? key).isSome = (db.classes.get? key).isSome) (name : String) :
    db'.keyOf? name = db.keyOf? name := by
  have hname := h name
  have hbare := h (Name.withoutTemplateArgs name)
  unfold keyOf? findClass?
  cases hn : db.classes.get? name <;> cases hn' : db'.classes.get? name <;>
    cases hb : db.classes.get? (Name.withoutTemplateArgs name) <;>
    cases hb' : db'.classes.get? (Name.withoutTemplateArgs name) <;>
    simp_all

/-- Where every class has a greater rank than the classes that its bases lead to, none derives from
itself. -/
theorem acyclic_of_rank (rank : String → Nat) (h : ∀ e ∈ db.classes.entries, ∀ name ∈ e.2.bases,
    (db.keyOf? name).all fun base => rank base < rank e.1) : db.Acyclic := by
  have hstep : ∀ key base, db.Derives key base → rank base < rank key := by
    rintro key base ⟨c, hc, name, hname, hbase⟩
    have hrank := h (key, c) (Dict.get?_eq_some_iff.1 hc) name hname
    rw [hbase] at hrank
    exact of_decide_eq_true hrank
  have hwalk : ∀ key base, Relation.TransGen db.Derives key base → rank base < rank key := by
    intro key base hwalk
    induction hwalk with
    | single h => exact hstep _ _ h
    | tail _ h ih => exact (hstep _ _ h).trans ih
  exact fun key hcycle => lt_irrefl _ (hwalk key key hcycle)

/-! ## Changing classes in their places -/

/-- Change every class, with its key at hand. -/
def mapClasses (f : String → Class → Class) (db : Database) : Database :=
  { db with classes := db.classes.map f }

theorem get?_mapClasses (f : String → Class → Class) (db : Database) (key : String) :
    (db.mapClasses f).classes.get? key = (db.classes.get? key).map (f key) :=
  Dict.get?_map f db.classes key

theorem keyOf?_mapClasses (f : String → Class → Class) (db : Database) (name : String) :
    (db.mapClasses f).keyOf? name = db.keyOf? name :=
  keyOf?_congr (fun key => by rw [get?_mapClasses, Option.isSome_map]) name

/-- A changed class is found under the same names. -/
theorem class?_mapClasses (f : String → Class → Class) (hstored : db.Stored) (name : String) :
    (db.mapClasses f).class? name = (db.class? name).map fun c => f c.fqn c := by
  have hkey := keyOf?_mapClasses f db name
  cases hclass : db.class? name with
  | none =>
      rw [keyOf?_eq_none hclass, keyOf?, Option.map_eq_none_iff] at hkey
      rw [class?, hkey]
      rfl
  | some c =>
      obtain ⟨hname, hget⟩ := keyOf?_of_class? hstored hclass
      obtain ⟨c', hclass', hget'⟩ := class?_of_keyOf? (hkey.trans hname)
      rw [get?_mapClasses, hget] at hget'
      rw [hclass', ← hget']
      rfl

theorem mapClasses_mapClasses (f g : String → Class → Class) (db : Database) :
    (db.mapClasses f).mapClasses g = db.mapClasses fun key c => g key (f key c) := by
  unfold mapClasses
  rw [Dict.map_map]

theorem Stored.mapClasses {f : String → Class → Class} (hstored : db.Stored)
    (hf : ∀ key c, (f key c).fqn = c.fqn) : (db.mapClasses f).Stored := by
  intro key c' hget
  rw [get?_mapClasses] at hget
  obtain ⟨c, hc, rfl⟩ := Option.map_eq_some_iff.1 hget
  rw [hf, hstored key c hc]

/-- Where every class keeps its bases, the base relation stays. -/
theorem derives_mapClasses {f : String → Class → Class} (hf : ∀ key c, (f key c).bases = c.bases) :
    (db.mapClasses f).Derives = db.Derives := by
  funext key base
  refine propext ⟨?_, ?_⟩
  · rintro ⟨c', hc', name, hname, hkey⟩
    rw [get?_mapClasses] at hc'
    obtain ⟨c, hc, rfl⟩ := Option.map_eq_some_iff.1 hc'
    rw [hf] at hname
    exact ⟨c, hc, name, hname, by rwa [keyOf?_mapClasses] at hkey⟩
  · rintro ⟨c, hc, name, hname, hkey⟩
    exact ⟨f key c, by rw [get?_mapClasses, hc]; rfl, name, by rwa [hf], by rwa [keyOf?_mapClasses]⟩

/-- Only what becomes of the classes that are stored matters of a change. -/
theorem mapClasses_congr {f g : String → Class → Class}
    (h : ∀ key c, db.classes.get? key = some c → f key c = g key c) :
    db.mapClasses f = db.mapClasses g := by
  have hclasses : db.classes.map f = db.classes.map g := by
    ext1 key
    rw [Dict.get?_map, Dict.get?_map]
    cases hget : db.classes.get? key with
    | none => rfl
    | some c => rw [Option.map_some, Option.map_some, h key c hget]
  rw [mapClasses, mapClasses, hclasses]

/-- A change that leaves every class alone leaves the database alone. -/
theorem mapClasses_eq_self {f : String → Class → Class}
    (h : ∀ key c, db.classes.get? key = some c → f key c = c) : db.mapClasses f = db := by
  have hclasses : db.classes.map (fun _ c => c) = db.classes := by
    ext1 key
    rw [Dict.get?_map, Option.map_id']
  rw [mapClasses_congr h, mapClasses, hclasses]

end Database

/-! ## Walking -/

namespace Resolve

open Database

variable {db : Database} {key : String} {c d : Class}

/-- The walk takes up each class that a name in the queue leads to, unless the class was met. -/
theorem ancestorsFrom_cons (db : Database) (met rest : List String) (name : String) :
    ancestorsFrom db met (name :: rest) =
      match db.class? name with
      | none => ancestorsFrom db met rest
      | some parent =>
          if parent.fqn ∈ met then ancestorsFrom db met rest
          else parent :: ancestorsFrom db (parent.fqn :: met) (rest ++ parent.bases) := by
  rw [ancestorsFrom]
  split <;> simp_all

theorem ancestorsFrom_new {met rest : List String} {name : String} {parent : Class}
    (hparent : db.class? name = some parent) (hnew : parent.fqn ∉ met) :
    ancestorsFrom db met (name :: rest) =
      parent :: ancestorsFrom db (parent.fqn :: met) (rest ++ parent.bases) := by
  rw [ancestorsFrom_cons, hparent]
  exact if_neg hnew

/-- What the walk finds is stored, was not met, and is reached from a name in the queue. -/
theorem ancestorsFrom_sound (hstored : db.Stored) {met queue : List String}
    (h : d ∈ ancestorsFrom db met queue) :
    db.classes.get? d.fqn = some d ∧ d.fqn ∉ met ∧
      ∃ name ∈ queue, ∃ base, db.keyOf? name = some base ∧
        Relation.ReflTransGen db.Derives base d.fqn := by
  induction met, queue using ancestorsFrom.induct db with
  | case1 met =>
      rw [ancestorsFrom] at h
      cases h
  | case2 met name rest hnone ih =>
      rw [ancestorsFrom_cons, hnone] at h
      obtain ⟨hget, hmet, name', hname', hreach⟩ := ih h
      exact ⟨hget, hmet, name', List.mem_cons_of_mem _ hname', hreach⟩
  | case3 met name rest parent hparent hmem ih =>
      rw [ancestorsFrom_cons, hparent] at h
      simp only [if_pos hmem] at h
      obtain ⟨hget, hmet, name', hname', hreach⟩ := ih h
      exact ⟨hget, hmet, name', List.mem_cons_of_mem _ hname', hreach⟩
  | case4 met name rest parent hparent hnew ih =>
      rw [ancestorsFrom_new hparent hnew] at h
      obtain ⟨hkey, hstoredParent⟩ := keyOf?_of_class? hstored hparent
      rcases List.mem_cons.1 h with rfl | h
      · exact ⟨hstoredParent, hnew, name, List.mem_cons_self, _, hkey, .refl⟩
      · obtain ⟨hget, hmet, name', hname', base, hbase, hreach⟩ := ih h
        refine ⟨hget, fun hd => hmet (List.mem_cons_of_mem _ hd), ?_⟩
        rcases List.mem_append.1 hname' with hname' | hname'
        · exact ⟨name', List.mem_cons_of_mem _ hname', base, hbase, hreach⟩
        · exact ⟨name, List.mem_cons_self, _, hkey,
            .head ⟨parent, hstoredParent, name', hname', hbase⟩ hreach⟩

/-- A key that was met, or whose class the walk finds. -/
def Covered (db : Database) (met queue : List String) (key : String) : Prop :=
  key ∈ met ∨ key ∈ (ancestorsFrom db met queue).map Class.fqn

/-- What the walk behind a new parent covers was covered: it only takes the parent for met. -/
theorem covered_of_new {met rest : List String} {name key : String} {parent : Class}
    (hparent : db.class? name = some parent) (hnew : parent.fqn ∉ met)
    (h : Covered db (parent.fqn :: met) (rest ++ parent.bases) key) :
    Covered db met (name :: rest) key := by
  unfold Covered
  rw [ancestorsFrom_new hparent hnew, List.map_cons]
  -- Cases: the parent itself, what was met before, what the rest of the walk finds.
  rcases h with h | h
  · rcases List.mem_cons.1 h with rfl | h
    · exact Or.inr List.mem_cons_self
    · exact Or.inl h
  · exact Or.inr (List.mem_cons_of_mem _ h)

/-- The walk is closed: it leads from the queue, and from what it finds, to what is covered only. -/
theorem ancestorsFrom_closed (hstored : db.Stored) (met queue : List String) :
    (∀ name ∈ queue, ∀ base, db.keyOf? name = some base → Covered db met queue base) ∧
      ∀ d ∈ ancestorsFrom db met queue, ∀ name ∈ d.bases, ∀ base, db.keyOf? name = some base →
        Covered db met queue base := by
  induction met, queue using ancestorsFrom.induct db with
  | case1 met =>
      refine ⟨fun name h => (List.not_mem_nil h).elim, fun d h => ?_⟩
      rw [ancestorsFrom] at h
      cases h
  | case2 met name rest hnone ih =>
      unfold Covered
      rw [ancestorsFrom_cons, hnone]
      refine ⟨fun name' hname' base hbase => ?_, ih.2⟩
      rcases List.mem_cons.1 hname' with rfl | hname'
      · rw [keyOf?_eq_none hnone] at hbase
        cases hbase
      · exact ih.1 name' hname' base hbase
  | case3 met name rest parent hparent hmem ih =>
      unfold Covered
      rw [ancestorsFrom_cons, hparent]
      simp only [if_pos hmem]
      refine ⟨fun name' hname' base hbase => ?_, ih.2⟩
      rcases List.mem_cons.1 hname' with rfl | hname'
      · obtain ⟨hkey, -⟩ := keyOf?_of_class? hstored hparent
        rw [hkey] at hbase
        obtain rfl := Option.some.inj hbase
        exact Or.inl hmem
      · exact ih.1 name' hname' base hbase
  | case4 met name rest parent hparent hnew ih =>
      constructor
      · intro name' hname' base hbase
        rcases List.mem_cons.1 hname' with rfl | hname'
        · obtain ⟨hkey, -⟩ := keyOf?_of_class? hstored hparent
          rw [hkey] at hbase
          obtain rfl := Option.some.inj hbase
          exact Or.inr (by rw [ancestorsFrom_new hparent hnew]; exact List.mem_cons_self)
        · exact covered_of_new hparent hnew (ih.1 name' (List.mem_append_left _ hname') base hbase)
      · intro d hd name' hname' base hbase
        rw [ancestorsFrom_new hparent hnew] at hd
        rcases List.mem_cons.1 hd with rfl | hd
        · exact covered_of_new hparent hnew (ih.1 name' (List.mem_append_right _ hname') base hbase)
        · exact covered_of_new hparent hnew (ih.2 d hd name' hname' base hbase)

/-- The ancestors of a class are the other classes that it derives from, be it over further classes. -/
theorem mem_ancestors_iff (hstored : db.Stored) (hc : db.classes.get? key = some c) :
    d ∈ ancestors db c ↔ db.classes.get? d.fqn = some d ∧ d.fqn ≠ key ∧
      Relation.TransGen db.Derives key d.fqn := by
  have hfqn := hstored key c hc
  unfold ancestors
  rw [hfqn]
  constructor
  · intro h
    obtain ⟨hget, hmet, name, hname, base, hbase, hreach⟩ := ancestorsFrom_sound hstored h
    exact ⟨hget, fun heq => hmet (by rw [heq]; exact List.mem_cons_self),
      Relation.TransGen.head' ⟨c, hc, name, hname, hbase⟩ hreach⟩
  · rintro ⟨hget, hne, hreach⟩
    obtain ⟨hqueue, hfound⟩ := ancestorsFrom_closed hstored [key] c.bases
    -- The class itself is met from the start, and what it leads to is in the queue.
    have hfirst : ∀ base, db.Derives key base → Covered db [key] c.bases base := by
      rintro base ⟨c', hc', name, hname, hbase⟩
      obtain rfl := Option.some.inj (hc.symm.trans hc')
      exact hqueue name hname base hbase
    have hcovered : ∀ base, Relation.TransGen db.Derives key base →
        Covered db [key] c.bases base := by
      intro base hreach
      induction hreach with
      | single h => exact hfirst _ h
      | tail _ hstep ih =>
          rcases ih with hself | hmem
          · rw [List.mem_singleton] at hself
            exact hfirst _ (hself ▸ hstep)
          · obtain ⟨p, hp, heq⟩ := List.mem_map.1 hmem
            obtain ⟨p', hp', name, hname, hbase⟩ := hstep
            obtain ⟨hstoredParent, -⟩ := ancestorsFrom_sound hstored hp
            rw [heq] at hstoredParent
            obtain rfl := Option.some.inj (hstoredParent.symm.trans hp')
            exact hfound p hp name hname _ hbase
    rcases hcovered d.fqn hreach with hself | hmem
    · exact absurd (List.mem_singleton.1 hself) hne
    · obtain ⟨d', hd', heq⟩ := List.mem_map.1 hmem
      obtain ⟨hget', -⟩ := ancestorsFrom_sound hstored hd'
      rw [heq, hget] at hget'
      obtain rfl := Option.some.inj hget'
      exact hd'

end Resolve

end ScriptBindings
