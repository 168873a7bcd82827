import Mathlib
import ScriptBindings.Resolve.Inheritance
import ScriptBindings.Proofs.FirstOccurrence
import ScriptBindings.Proofs.Resolve.Bases

/-!
# Flattened bases

Flattening lists a base and then what its class leads to, and of what is listed the first occurrences stay.
So a flattened list holds every base of the project that the class or a class it derives from lists.  Where
no class derives from itself, the order is that of a walk into the depth, and a second flattening walks over
the same names again: what it meets a second time, it has met before.
-/

namespace ScriptBindings

namespace Resolve

open Database FirstOccurrence

variable {db : Database} {namespaces inside bases : List String} {key base name : String} {c : Class}

theorem isOwnName_iff :
    isOwnName namespaces name = true ↔ ∃ ns ∈ namespaces, (ns ++ "::").toList <+: name.toList := by
  unfold isOwnName Text.startsWith
  rw [List.any_eq_true]
  simp only [List.isPrefixOf_iff_prefix]

/-- A base of the project is listed itself. -/
def ownBase (namespaces : List String) (base : String) : List String :=
  if isOwnName namespaces base then [base] else []

theorem flattenBases_nil (db : Database) (namespaces inside : List String) :
    flattenBases db namespaces inside [] = [] := by
  rw [flattenBases]

/-- A base is followed by what its class leads to, and by the further bases. -/
theorem flattenBases_cons (db : Database) (namespaces inside rest : List String) (base : String) :
    flattenBases db namespaces inside (base :: rest) =
      ownBase namespaces base ++ (match db.class? base with
        | none => []
        | some parent =>
            if parent.fqn ∈ inside then []
            else flattenBases db namespaces (parent.fqn :: inside) parent.bases) ++
        flattenBases db namespaces inside rest := by
  rw [flattenBases]
  unfold ownBase
  congr 2
  split <;> simp_all

/-- Flattening reads the names and the bases of the classes. -/
theorem flattenBases_mapClasses {f : String → Class → Class} (hstored : db.Stored)
    (hfqn : ∀ key c, (f key c).fqn = c.fqn) (hbases : ∀ key c, (f key c).bases = c.bases)
    (inside bases : List String) :
    flattenBases (db.mapClasses f) namespaces inside bases =
      flattenBases db namespaces inside bases := by
  induction inside, bases using flattenBases.induct db namespaces with
  | case1 inside => rw [flattenBases_nil, flattenBases_nil]
  | case2 inside name rest ih_parent ih_rest =>
      rw [flattenBases_cons, flattenBases_cons, ih_rest, class?_mapClasses f hstored]
      congr 2
      cases hclass : db.class? name with
      | none => rfl
      | some parent =>
          simp only [Option.map_some, hfqn, hbases]
          split
          · rfl
          · rename_i hnew
            exact ih_parent parent hclass hnew

/-! ## What is listed -/

/-- A step of the base relation that does not enter a class among some. -/
def Avoiding (db : Database) (inside : List String) (key base : String) : Prop :=
  db.Derives key base ∧ base ∉ inside

/-- The class under a key, or a class that it leads to without entering a class among some, lists a
base. -/
def Lists (db : Database) (inside : List String) (key base : String) : Prop :=
  ∃ key' c, Relation.ReflTransGen (Avoiding db inside) key key' ∧ db.classes.get? key' = some c ∧
    base ∈ c.bases

/-- A walk that starts at a class need not come back to it. -/
theorem avoiding_cases {key' : String}
    (h : Relation.ReflTransGen (Avoiding db inside) key key') :
    key' = key ∨ ∃ next, Avoiding db (key :: inside) key next ∧
      Relation.ReflTransGen (Avoiding db (key :: inside)) next key' := by
  induction h with
  | refl => exact Or.inl rfl
  | tail _ hstep ih =>
      rename_i b b' _
      obtain ⟨hderives, hinside⟩ := hstep
      by_cases hback : b' = key
      · exact Or.inl hback
      · have havoid : b' ∉ key :: inside := by simp [hback, hinside]
        rcases ih with rfl | ⟨next, hnext, hwalk⟩
        · exact Or.inr ⟨b', ⟨hderives, havoid⟩, .refl⟩
        · exact Or.inr ⟨next, hnext, hwalk.tail ⟨hderives, havoid⟩⟩

theorem lists_iff (hc : db.classes.get? key = some c) : Lists db inside key base ↔
    base ∈ c.bases ∨ ∃ name ∈ c.bases, ∃ next, db.keyOf? name = some next ∧ next ∉ key :: inside ∧
      Lists db (key :: inside) next base := by
  constructor
  · rintro ⟨key', c', hwalk, hc', hbase⟩
    rcases avoiding_cases hwalk with rfl | ⟨next, ⟨⟨d, hd, name, hname, hkey⟩, havoid⟩, hrest⟩
    · obtain rfl := Option.some.inj (hc.symm.trans hc')
      exact Or.inl hbase
    · obtain rfl := Option.some.inj (hc.symm.trans hd)
      exact Or.inr ⟨name, hname, next, hkey, havoid, key', c', hrest, hc', hbase⟩
  · rintro (hbase | ⟨name, hname, next, hkey, havoid, key', c', hrest, hc', hbase⟩)
    · exact ⟨key, c, .refl, hc, hbase⟩
    · have hdrop : ∀ b, b ∉ key :: inside → b ∉ inside := fun b hb h => hb (List.mem_cons_of_mem _ h)
      have hwalk : Relation.ReflTransGen (Avoiding db inside) next key' :=
        Relation.ReflTransGen.mono (fun _ b h => ⟨h.1, hdrop b h.2⟩) _ _ hrest
      exact ⟨key', c', .head ⟨⟨c, hc, name, hname, hkey⟩, hdrop next havoid⟩ hwalk, hc', hbase⟩

theorem mem_ownBase : base ∈ ownBase namespaces name ↔ isOwnName namespaces base = true ∧ base = name := by
  unfold ownBase
  split
  · rename_i h
    rw [List.mem_singleton]
    exact ⟨fun heq => ⟨heq ▸ h, heq⟩, fun h => h.2⟩
  · rename_i h
    exact ⟨fun hmem => (List.not_mem_nil hmem).elim, fun ⟨hown, heq⟩ => absurd (heq ▸ hown) h⟩

/-- Flattening lists the project's own of the bases and of what their classes list. -/
theorem mem_flattenBases (hstored : db.Stored) : base ∈ flattenBases db namespaces inside bases ↔
    isOwnName namespaces base = true ∧ (base ∈ bases ∨ ∃ name ∈ bases, ∃ key,
      db.keyOf? name = some key ∧ key ∉ inside ∧ Lists db inside key base) := by
  induction inside, bases using flattenBases.induct db namespaces with
  | case1 inside =>
      rw [flattenBases_nil]
      simp
  | case2 inside name rest ih_parent ih_rest =>
      -- What comes in behind the base: nothing, if its class is unknown or the walk is inside of it.
      have hinherited : base ∈ (match db.class? name with
          | none => []
          | some parent =>
              if parent.fqn ∈ inside then []
              else flattenBases db namespaces (parent.fqn :: inside) parent.bases) ↔
          isOwnName namespaces base = true ∧ ∃ key, db.keyOf? name = some key ∧ key ∉ inside ∧
            Lists db inside key base := by
        cases hclass : db.class? name with
        | none =>
            simp [keyOf?_eq_none hclass]
        | some parent =>
            obtain ⟨hkey, hget⟩ := keyOf?_of_class? hstored hclass
            by_cases hmem : parent.fqn ∈ inside
            · simp [hkey, hmem]
            · simp only [hmem, if_false, hkey, Option.some.injEq, exists_eq_left', not_false_eq_true,
                true_and]
              rw [ih_parent parent hclass hmem, lists_iff hget]
      rw [flattenBases_cons, List.mem_append, List.mem_append, mem_ownBase, hinherited, ih_rest]
      simp only [List.mem_cons, exists_eq_or_imp]
      rw [← and_or_left, ← and_or_left, or_or_or_comm]

/-- Without a class to stay out of, walks follow the base relation. -/
theorem lists_nil_iff : Lists db [] key base ↔ ∃ key' c, Relation.ReflTransGen db.Derives key key' ∧
    db.classes.get? key' = some c ∧ base ∈ c.bases := by
  have hsame : Avoiding db [] = db.Derives := by
    funext a b
    simp [Avoiding]
  rw [Lists, hsame]

/-- The flattened bases of a class are the project's own of those that it or a class it derives from
lists. -/
theorem mem_flattenBases_key (hstored : db.Stored) (hc : db.classes.get? key = some c) :
    base ∈ flattenBases db namespaces [key] c.bases ↔
      isOwnName namespaces base = true ∧ Lists db [] key base := by
  rw [mem_flattenBases hstored, lists_iff hc]

/-! ## In which order -/

/-- None of the classes that some bases lead to is among some. -/
def Clear (db : Database) (inside bases : List String) : Prop :=
  ∀ name ∈ bases, ∀ key, db.keyOf? name = some key → ∀ key', Relation.ReflTransGen db.Derives key key' →
    key' ∉ inside

theorem clear_nil (db : Database) (bases : List String) : Clear db [] bases :=
  fun _ _ _ _ _ _ => List.not_mem_nil

/-- The bases of a class do not lead back to it, nor to what its name stays clear of. -/
theorem Clear.parent (hacyclic : db.Acyclic) (hc : db.classes.get? key = some c)
    (hclear : ∀ key', Relation.ReflTransGen db.Derives key key' → key' ∉ inside) :
    Clear db (key :: inside) c.bases := by
  intro name hname next hnext key' hwalk hmem
  have hstep : db.Derives key next := ⟨c, hc, name, hname, hnext⟩
  rcases List.mem_cons.1 hmem with rfl | hmem
  · exact hacyclic _ (Relation.TransGen.head' hstep hwalk)
  · exact hclear key' (.head hstep hwalk) hmem

/-- In an acyclic database it does not matter which classes the walk is inside of. -/
theorem flattenBases_eq_of_clear (namespaces : List String) (hstored : db.Stored)
    (hacyclic : db.Acyclic) {inside' : List String} (hinside : Clear db inside bases)
    (hinside' : Clear db inside' bases) :
    flattenBases db namespaces inside bases = flattenBases db namespaces inside' bases := by
  induction inside, bases using flattenBases.induct db namespaces generalizing inside' with
  | case1 inside => rw [flattenBases_nil, flattenBases_nil]
  | case2 inside name rest ih_parent ih_rest =>
      rw [flattenBases_cons, flattenBases_cons]
      rw [ih_rest (fun n hn => hinside n (List.mem_cons_of_mem _ hn))
        (fun n hn => hinside' n (List.mem_cons_of_mem _ hn))]
      congr 2
      cases hclass : db.class? name with
      | none => rfl
      | some parent =>
          obtain ⟨hkey, hget⟩ := keyOf?_of_class? hstored hclass
          have hclear := hinside name List.mem_cons_self _ hkey
          have hclear' := hinside' name List.mem_cons_self _ hkey
          simp only [if_neg (hclear _ .refl), if_neg (hclear' _ .refl)]
          -- Both walks enter the parent, whose bases do not lead back to what either is inside of.
          exact ih_parent parent hclass (hclear _ .refl) (Clear.parent hacyclic hget hclear)
            (Clear.parent hacyclic hget hclear')

/-- What a base stands for: itself, if it is the project's own, and what its class leads to. -/
def expandBase (db : Database) (namespaces : List String) (base : String) : List String :=
  ownBase namespaces base ++
    ((db.class? base).map fun parent => flattenBases db namespaces [] parent.bases).getD []

/-- The flattened bases of a class, where the walk need not remember what it is inside of. -/
theorem flattenBases_key (hstored : db.Stored) (hacyclic : db.Acyclic)
    (hc : db.classes.get? key = some c) :
    flattenBases db namespaces [key] c.bases = flattenBases db namespaces [] c.bases :=
  flattenBases_eq_of_clear namespaces hstored hacyclic
    (Clear.parent hacyclic hc fun _ _ => List.not_mem_nil) (clear_nil db c.bases)

/-- In an acyclic database each base can be expanded for itself. -/
theorem flattenBases_eq_flatMap (hstored : db.Stored) (hacyclic : db.Acyclic) (bases : List String) :
    flattenBases db namespaces [] bases = bases.flatMap (expandBase db namespaces) := by
  induction bases with
  | nil => exact flattenBases_nil db namespaces []
  | cons name rest ih =>
      rw [flattenBases_cons, List.flatMap_cons, ih, expandBase]
      congr 2
      cases hclass : db.class? name with
      | none => rfl
      | some parent =>
          obtain ⟨-, hget⟩ := keyOf?_of_class? hstored hclass
          exact flattenBases_key hstored hacyclic hget

/-! ## Flattening twice -/

theorem copyBases_eq_mapClasses (namespaces : List String) (db : Database) :
    copyBases namespaces db = db.mapClasses fun key c =>
      { c with bases := (flattenBases db namespaces [key] c.bases).eraseDups } := rfl

theorem get?_copyBases (hc : (copyBases namespaces db).classes.get? key = some c) :
    ∃ d, db.classes.get? key = some d ∧
      c = { d with bases := (flattenBases db namespaces [key] d.bases).eraseDups } := by
  rw [copyBases_eq_mapClasses, get?_mapClasses] at hc
  obtain ⟨d, hd, rfl⟩ := Option.map_eq_some_iff.1 hc
  exact ⟨d, hd, rfl⟩

theorem Stored.copyBases (hstored : db.Stored) : (copyBases namespaces db).Stored :=
  Database.Stored.mapClasses hstored fun _ _ => rfl

/-- The flattened bases of a class are the project's own of those that it or a class it derives from
lists. -/
theorem mem_bases_copyBases (hstored : db.Stored)
    (hc : (copyBases namespaces db).classes.get? key = some c) :
    base ∈ c.bases ↔ isOwnName namespaces base = true ∧ Lists db [] key base := by
  obtain ⟨d, hd, rfl⟩ := get?_copyBases hc
  rw [List.mem_eraseDups, mem_flattenBases_key hstored hd]

/-- With flattened bases a class derives from nothing else than before. -/
theorem transGen_of_derives_copyBases (hstored : db.Stored)
    (h : (copyBases namespaces db).Derives key base) : Relation.TransGen db.Derives key base := by
  obtain ⟨c, hc, name, hname, hkey⟩ := h
  obtain ⟨-, hlists⟩ := (mem_bases_copyBases hstored hc).1 hname
  obtain ⟨key', c', hwalk, hc', hmem⟩ := lists_nil_iff.1 hlists
  rw [copyBases_eq_mapClasses, keyOf?_mapClasses] at hkey
  exact Relation.TransGen.tail' hwalk ⟨c', hc', name, hmem, hkey⟩

/-- With flattened bases a class derives at once from all classes that it derived from, where all names that
lead to a class are the project's own. -/
theorem derives_copyBases_of_transGen (hstored : db.Stored)
    (hown : ∀ name key, db.keyOf? name = some key → isOwnName namespaces name = true)
    (h : Relation.TransGen db.Derives key base) : (copyBases namespaces db).Derives key base := by
  obtain ⟨next, ⟨c, hc, -⟩, -⟩ := Relation.TransGen.head'_iff.1 h
  obtain ⟨last, hwalk, d, hd, name, hname, hkey⟩ := Relation.TransGen.tail'_iff.1 h
  have hc' : (copyBases namespaces db).classes.get? key =
      some { c with bases := (flattenBases db namespaces [key] c.bases).eraseDups } := by
    rw [copyBases_eq_mapClasses, get?_mapClasses, hc]
    rfl
  refine ⟨_, hc', name, (mem_bases_copyBases hstored hc').2 ⟨hown name base hkey, ?_⟩, ?_⟩
  · exact lists_nil_iff.2 ⟨last, d, hwalk, hd, hname⟩
  · rw [copyBases_eq_mapClasses, keyOf?_mapClasses]
    exact hkey

theorem Acyclic.copyBases (hstored : db.Stored) (hacyclic : db.Acyclic) :
    (copyBases namespaces db).Acyclic := by
  intro key hcycle
  have hwalk : ∀ a b, Relation.TransGen (Resolve.copyBases namespaces db).Derives a b →
      Relation.TransGen db.Derives a b := by
    intro a b h
    induction h with
    | single h => exact transGen_of_derives_copyBases hstored h
    | tail _ h ih => exact ih.trans (transGen_of_derives_copyBases hstored h)
  exact hacyclic key (hwalk key key hcycle)

/-- In the flattened database a base stands for itself and for a walk over what was listed for it. -/
theorem expandBase_copyBases (hstored : db.Stored) (hacyclic : db.Acyclic) (name : String) :
    expandBase (copyBases namespaces db) namespaces name = ownBase namespaces name ++
      ((db.class? name).map fun parent =>
        (flattenBases db namespaces [] parent.bases).eraseDups.flatMap
          (expandBase (copyBases namespaces db) namespaces)).getD [] := by
  rw [expandBase, copyBases_eq_mapClasses, class?_mapClasses _ hstored]
  congr 1
  cases hclass : db.class? name with
  | none => rfl
  | some parent =>
      obtain ⟨-, hget⟩ := keyOf?_of_class? hstored hclass
      simp only [Option.map_some, Option.getD_some]
      rw [flattenBases_key hstored hacyclic hget, ← copyBases_eq_mapClasses,
        flattenBases_eq_flatMap (Stored.copyBases hstored) (Acyclic.copyBases hstored hacyclic)]

/-- Walking over a flattened list in the flattened database meets nothing new. -/
theorem eraseDups_flatMap_expandBase (hstored : db.Stored) (hacyclic : db.Acyclic)
    (inside bases : List String) (hclear : Clear db inside bases) :
    ((flattenBases db namespaces inside bases).flatMap
        (expandBase (copyBases namespaces db) namespaces)).eraseDups =
      (flattenBases db namespaces inside bases).eraseDups := by
  induction inside, bases using flattenBases.induct db namespaces with
  | case1 inside => rw [flattenBases_nil, List.flatMap_nil]
  | case2 inside name rest ih_parent ih_rest =>
      have hrest := ih_rest fun n hn => hclear n (List.mem_cons_of_mem _ hn)
      rw [flattenBases_cons, List.flatMap_append]
      refine eraseDups_append_congr ?_ hrest
      cases hclass : db.class? name with
      | none =>
          unfold ownBase
          split
          · rw [List.append_nil, List.flatMap_singleton, expandBase_copyBases hstored hacyclic, hclass]
            simp [ownBase, *]
          · rfl
      | some parent =>
          obtain ⟨hkey, hget⟩ := keyOf?_of_class? hstored hclass
          have hclearParent := Clear.parent hacyclic hget (hclear name List.mem_cons_self _ hkey)
          have hnew := hclear name List.mem_cons_self _ hkey _ .refl
          have hparent := ih_parent parent hclass hnew hclearParent
          have hwalk := flattenBases_eq_of_clear namespaces hstored hacyclic hclearParent
            (clear_nil db parent.bases)
          simp only [if_neg hnew]
          rw [hwalk] at hparent ⊢
          unfold ownBase
          split
          · rw [List.flatMap_append, List.flatMap_singleton, expandBase_copyBases hstored hacyclic, hclass]
            simp only [ownBase, if_pos ‹_›, Option.map_some, Option.getD_some]
            -- The walk over the parent's list is met twice, once behind the base and once in its own right.
            have htwice := (eraseDups_flatMap_eraseDups (expandBase (copyBases namespaces db) namespaces)
              (flattenBases db namespaces [] parent.bases)).trans hparent
            rw [List.append_assoc]
            refine eraseDups_append_congr rfl ?_
            rw [eraseDups_append_congr htwice hparent, eraseDups_append_of_subset (List.Subset.refl _)]
          · exact hparent

/-- Flattened bases stay as they are when they are flattened again. -/
theorem eraseDups_flattenBases_copyBases (hstored : db.Stored) (hacyclic : db.Acyclic)
    (hc : (copyBases namespaces db).classes.get? key = some c) :
    (flattenBases (copyBases namespaces db) namespaces [key] c.bases).eraseDups = c.bases := by
  have hstored' : (copyBases namespaces db).Stored := Stored.copyBases hstored
  have hacyclic' : (copyBases namespaces db).Acyclic := Acyclic.copyBases hstored hacyclic
  rw [flattenBases_key hstored' hacyclic' hc, flattenBases_eq_flatMap hstored' hacyclic']
  obtain ⟨d, hd, rfl⟩ := get?_copyBases hc
  have hclear : Clear db [key] d.bases := Clear.parent hacyclic hd fun _ _ => List.not_mem_nil
  simp only
  rw [eraseDups_flatMap_eraseDups, eraseDups_flatMap_expandBase hstored hacyclic [key] d.bases hclear]

end Resolve

end ScriptBindings
