import Mathlib
import ScriptBindings.Resolve.All
import ScriptBindings.Proofs.Resolve.Abstractness
import ScriptBindings.Proofs.Resolve.Flattening
import ScriptBindings.Proofs.Resolve.HandedDown
import ScriptBindings.Proofs.Resolve.Untemplated

/-!
# Resolving twice

A resolved database is resolved already.  No templates are left to replace.  The base relation has become
transitive, so a class has the same ancestors as before, now as bases; their methods have the same roles,
because copied methods come from ancestors; flattened bases stay flat; the hooks that a class receives have
been received; and the methods that it could copy have been copied.
-/

namespace ScriptBindings

open Database

namespace Resolve

variable {db : Database} {namespaces : List String} {key name : String} {c c' : Class}

/-- The passes that follow the base relation. -/
def inheritAll (namespaces : List String) (db : Database) : Database :=
  copyItems (inheritHooks (copyBases namespaces (inferAbstract db)))

theorem resolve_eq (namespaces : List String) (db : Database) :
    db.resolve namespaces = inheritAll namespaces (specialise db) := rfl

/-- Every class lies in one of the project's namespaces. -/
def Own (namespaces : List String) (db : Database) : Prop :=
  ∀ key c, db.classes.get? key = some c →
    ∃ ns ∈ namespaces, (ns ++ "::").toList <+: c.fqn.toList

/-! ## Names of the project -/

theorem isOwnName_of_prefix {long : String} (h : isOwnName namespaces name = true)
    (hlong : name.toList <+: long.toList) : isOwnName namespaces long = true := by
  obtain ⟨ns, hns, hstart⟩ := isOwnName_iff.1 h
  exact isOwnName_iff.2 ⟨ns, hns, hstart.trans hlong⟩

/-- A name that leads to a class of the project is the project's own. -/
theorem isOwnName_of_keyOf? (hstored : db.Stored) (hown : Own namespaces db)
    (h : db.keyOf? name = some key) : isOwnName namespaces name = true := by
  obtain ⟨⟨key', c⟩, hfind, rfl⟩ := Option.map_eq_some_iff.1 h
  obtain ⟨hget, hname⟩ := findClass?_eq_some hfind
  have hkey := isOwnName_iff.2 (hown key' c hget)
  rw [hstored key' c hget] at hkey
  rcases hname with rfl | rfl
  · exact hkey
  · exact isOwnName_of_prefix hkey (Name.withoutTemplateArgs_isPrefix_toList name)

theorem qualify_isPrefix_toList (scope name extra : String) :
    (Name.qualify scope none name).toList <+: (Name.qualify scope none (name ++ extra)).toList := by
  by_cases hscope : scope = "" <;> by_cases hname : name = "" <;> by_cases hextra : extra = "" <;>
    simp [Name.qualify, Name.joined, Name.joinScopes, hscope, hname, hextra]

theorem fqn_isPrefix_of_mem_specialisations {t : Class} (h : c ∈ specialisations t) :
    t.fqn.toList <+: c.fqn.toList := by
  obtain ⟨hint, -, hc⟩ := List.mem_flatMap.1 h
  obtain ⟨b, -, rfl⟩ := List.mem_map.1 hc
  unfold Class.fqn specialiseClass
  simp only [String.append_assoc]
  exact qualify_isPrefix_toList t.scope t.name _

/-- Specialised classes are stored under their own names, which are the project's. -/
theorem stored_own_specialise (hstored : db.Stored) (hown : Own namespaces db) :
    (specialise db).Stored ∧ Own namespaces (specialise db) := by
  have hall : ∀ key c, (specialise db).classes.get? key = some c →
      c.fqn = key ∧ isOwnName namespaces c.fqn = true := by
    intro key c hc
    rw [get?_classes_specialise] at hc
    obtain ⟨d, hd, rfl⟩ := Option.map_eq_some_iff.1 hc
    have hclass := forall_specialiseClasses
      (P := fun key c => c.fqn = key ∧ isOwnName namespaces c.fqn = true)
      (fun _ _ h => h)
      (fun _ t c h hmem => ⟨rfl, isOwnName_of_prefix h.2 (fqn_isPrefix_of_mem_specialisations hmem)⟩)
      (fun key c h => ⟨hstored key c h, isOwnName_iff.2 (hown key c h)⟩) hd
    exact hclass
  exact ⟨fun key c hc => (hall key c hc).1, fun key c hc => isOwnName_iff.1 (hall key c hc).2⟩

/-! ## What the passes make of a class -/

/-- The database whose bases are flat. -/
def flattened (namespaces : List String) (db : Database) : Database :=
  copyBases namespaces (inferAbstract db)

/-- The database whose classes have received their hooks. -/
def hooked (namespaces : List String) (db : Database) : Database :=
  inheritHooks (flattened namespaces db)

theorem inheritAll_eq (namespaces : List String) (db : Database) :
    inheritAll namespaces db = copyItems (hooked namespaces db) := rfl

theorem stored_flattened (hstored : db.Stored) : (flattened namespaces db).Stored :=
  Stored.copyBases (stored_inferAbstract hstored)

theorem stored_hooked (hstored : db.Stored) : (hooked namespaces db).Stored :=
  Stored.mapClasses (stored_flattened hstored) fun _ _ => rfl

theorem stored_inheritAll (hstored : db.Stored) : (inheritAll namespaces db).Stored :=
  Stored.mapClasses (stored_hooked hstored) fun _ c => by rw [copyItemsTo_eq_with]; rfl

/-- A class with its mark of abstractness and its flat bases. -/
def flattenedClass (namespaces : List String) (db : Database) (key : String) (c : Class) : Class :=
  { c with
    isAbstract := c.isAbstract || inheritsAbstractness db c
    bases := (flattenBases (inferAbstract db) namespaces [key] c.bases).eraseDups }

theorem flattened_eq_mapClasses (namespaces : List String) (db : Database) :
    flattened namespaces db = db.mapClasses (flattenedClass namespaces db) := by
  rw [flattened, copyBases_eq_mapClasses]
  exact mapClasses_mapClasses _ _ db

/-- A flat class with the hooks it has received. -/
def hookedClass (namespaces : List String) (db : Database) (key : String) (c : Class) : Class :=
  { c with flags := { c.flags with hooks := hooksWith (flattened namespaces db) key c } }

theorem hooked_eq_mapClasses (namespaces : List String) (db : Database) :
    hooked namespaces db = (flattened namespaces db).mapClasses (hookedClass namespaces db) := rfl

/-- A class after all passes. -/
def inheritedClass (namespaces : List String) (db : Database) (key : String) (c : Class) : Class :=
  copyItemsTo (hooked namespaces db)
    (hookedClass namespaces db key (flattenedClass namespaces db key c))

theorem inheritAll_eq_mapClasses (namespaces : List String) (db : Database) :
    inheritAll namespaces db = db.mapClasses (inheritedClass namespaces db) := by
  rw [inheritAll_eq, copyItems_eq_mapClasses]
  conv_lhs =>
    enter [2]
    rw [hooked_eq_mapClasses, flattened_eq_mapClasses]
  rw [mapClasses_mapClasses, mapClasses_mapClasses]
  rfl

/-- Only the methods are not known yet before copying. -/
theorem inheritedClass_eq (namespaces : List String) (db : Database) (key : String) (c : Class) :
    inheritedClass namespaces db key c =
      { hookedClass namespaces db key (flattenedClass namespaces db key c) with
        methods := (inheritedClass namespaces db key c).methods } :=
  copyItemsTo_eq_with _ _

/-! ## The base relation afterwards -/

theorem derives_hooked (namespaces : List String) (db : Database) :
    (hooked namespaces db).Derives = (flattened namespaces db).Derives :=
  derives_mapClasses fun _ _ => rfl

theorem derives_inheritAll_eq (namespaces : List String) (db : Database) :
    (inheritAll namespaces db).Derives = (flattened namespaces db).Derives := by
  rw [inheritAll_eq, copyItems_eq_mapClasses, ← derives_hooked]
  exact derives_mapClasses fun _ c => by rw [copyItemsTo_eq_with]

theorem transGen_of_derives_flattened (hstored : db.Stored) {base : String}
    (h : (flattened namespaces db).Derives key base) : Relation.TransGen db.Derives key base := by
  rw [← derives_inferAbstract db]
  exact transGen_of_derives_copyBases (stored_inferAbstract hstored) h

/-- Afterwards a class derives at once from every class that it derived from. -/
theorem derives_inheritAll (hstored : db.Stored) (hown : Own namespaces db) :
    (inheritAll namespaces db).Derives = Relation.TransGen db.Derives := by
  rw [derives_inheritAll_eq]
  funext key base
  refine propext ⟨transGen_of_derives_flattened hstored, fun h => ?_⟩
  rw [← derives_inferAbstract db] at h
  refine derives_copyBases_of_transGen (stored_inferAbstract hstored) (fun name key hkey => ?_) h
  rw [inferAbstract_eq_mapClasses, keyOf?_mapClasses] at hkey
  exact isOwnName_of_keyOf? hstored hown hkey

theorem transGen_derives_inheritAll (hstored : db.Stored) (hown : Own namespaces db) :
    Relation.TransGen (inheritAll namespaces db).Derives = Relation.TransGen db.Derives := by
  rw [derives_inheritAll hstored hown]
  exact Relation.transGen_eq_self

theorem reflTransGen_derives_inheritAll (hstored : db.Stored) (hown : Own namespaces db) :
    Relation.ReflTransGen (inheritAll namespaces db).Derives =
      Relation.ReflTransGen db.Derives := by
  funext key base
  rw [Relation.reflTransGen_iff_eq_or_transGen, Relation.reflTransGen_iff_eq_or_transGen,
    transGen_derives_inheritAll hstored hown]

/-! ## Methods and their roles -/

/-- The roles of the callables of a slot. -/
def slotRoles (s : Slot) : List (String × Bool) :=
  s.callables.map fun f => (f.name, f.isAbstract)

theorem slotRoles_rehome (scope owner : String) (s : Slot) :
    slotRoles (s.rehome scope owner) = slotRoles s := by
  cases s with
  | concrete f => rfl
  | overload g =>
      simp only [slotRoles, Slot.rehome, Slot.callables, List.map_map]
      rfl
  | placeholder p => rfl

theorem mem_roles_iff {role : String × Bool} : role ∈ roles c ↔
    ∃ s, ((∃ name, c.methods.get? name = some s) ∨ s ∈ c.hiddenMethods.values) ∧
      role ∈ slotRoles s := by
  unfold roles methodsOf Class.allMethods
  rw [List.map_flatMap, List.mem_flatMap]
  refine exists_congr fun s => and_congr_left fun _ => ?_
  rw [List.mem_append, Dict.mem_values_iff]

/-- The methods of a class keep their roles. -/
theorem roles_subset_inheritedClass {role : String × Bool} (h : role ∈ roles c) :
    role ∈ roles (inheritedClass namespaces db key c) := by
  obtain ⟨s, hs, hrole⟩ := mem_roles_iff.1 h
  refine mem_roles_iff.2 ⟨s, ?_, hrole⟩
  rcases hs with ⟨name, hs⟩ | hs
  · exact Or.inl ⟨name, get?_methods_copyItemsTo_of_some hs⟩
  · rw [inheritedClass_eq]
    exact Or.inr hs

/-- A slot of a class afterwards was a slot of the class, or of a class that it derived from. -/
theorem get?_methods_inheritedClass (hstored : db.Stored) (hc : db.classes.get? key = some c) {s : Slot}
    (h : (inheritedClass namespaces db key c).methods.get? name = some s) :
    c.methods.get? name = some s ∨ ∃ base d s', Relation.TransGen db.Derives key base ∧
      db.classes.get? base = some d ∧ d.methods.get? name = some s' ∧ s = s'.rehome c.scope c.name := by
  rcases get?_methods_copyItemsTo h with hkept | ⟨base, hbase, d', hd', s', hs', rfl⟩
  · exact Or.inl hkept
  · obtain ⟨hkey, hget⟩ := keyOf?_of_class? (stored_hooked hstored) hd'
    rw [hooked_eq_mapClasses, flattened_eq_mapClasses, keyOf?_mapClasses, keyOf?_mapClasses] at hkey
    rw [hooked_eq_mapClasses, flattened_eq_mapClasses, get?_mapClasses, get?_mapClasses] at hget
    obtain ⟨e, he, heq⟩ := Option.map_eq_some_iff.1 hget
    obtain ⟨d, hd, rfl⟩ := Option.map_eq_some_iff.1 he
    have hstep : (flattened namespaces db).Derives key d'.fqn := by
      refine ⟨flattenedClass namespaces db key c, ?_, base, hbase, ?_⟩
      · rw [flattened_eq_mapClasses, get?_mapClasses, hc]
        rfl
      · rw [flattened_eq_mapClasses, keyOf?_mapClasses]
        exact hkey
    have hmethods : d.methods.get? name = some s' := by
      rw [← heq] at hs'
      exact hs'
    exact Or.inr ⟨d'.fqn, d, s', transGen_of_derives_flattened hstored hstep, hd, hmethods, rfl⟩

/-- A role of a class afterwards was a role of the class or of one that it derived from. -/
theorem roles_inheritedClass (hstored : db.Stored) (hc : db.classes.get? key = some c)
    {role : String × Bool} (h : role ∈ roles (inheritedClass namespaces db key c)) :
    ∃ base d, Relation.ReflTransGen db.Derives key base ∧ db.classes.get? base = some d ∧
      role ∈ roles d := by
  obtain ⟨s, hs, hrole⟩ := mem_roles_iff.1 h
  rcases hs with ⟨name, hs⟩ | hs
  · rcases get?_methods_inheritedClass hstored hc hs with hkept | ⟨base, d, s', hwalk, hd, hs', rfl⟩
    · exact ⟨key, c, .refl, hc, mem_roles_iff.2 ⟨s, Or.inl ⟨name, hkept⟩, hrole⟩⟩
    · rw [slotRoles_rehome] at hrole
      exact ⟨base, d, hwalk.to_reflTransGen, hd, mem_roles_iff.2 ⟨s', Or.inl ⟨name, hs'⟩, hrole⟩⟩
  · rw [inheritedClass_eq] at hs
    exact ⟨key, c, .refl, hc, mem_roles_iff.2 ⟨s, Or.inr hs, hrole⟩⟩

theorem get?_inheritAll (namespaces : List String) (db : Database) (key : String) :
    (inheritAll namespaces db).classes.get? key =
      (db.classes.get? key).map (inheritedClass namespaces db key) := by
  rw [inheritAll_eq_mapClasses, get?_mapClasses]

/-! ## Every pass a second time -/

/-- A class and those it derives from have the same roles afterwards. -/
theorem hasRole_inheritAll (hstored : db.Stored) (hown : Own namespaces db) {isAbstract : Bool} :
    HasRole (inheritAll namespaces db) key name isAbstract ↔ HasRole db key name isAbstract := by
  rw [hasRole_iff, hasRole_iff, reflTransGen_derives_inheritAll hstored hown]
  simp only [get?_inheritAll]
  constructor
  · rintro ⟨base, d', hwalk, hd', hrole⟩
    obtain ⟨d, hd, rfl⟩ := Option.map_eq_some_iff.1 hd'
    obtain ⟨base', e, hwalk', he, hrole⟩ := roles_inheritedClass hstored hd hrole
    exact ⟨base', e, hwalk.trans hwalk', he, hrole⟩
  · rintro ⟨base, d, hwalk, hd, hrole⟩
    exact ⟨base, _, hwalk, Option.map_eq_some_iff.2 ⟨d, hd, rfl⟩, roles_subset_inheritedClass hrole⟩

/-- A class that inherits abstractness afterwards did so before. -/
theorem LeftAbstract.of_inheritAll (hstored : db.Stored) (hown : Own namespaces db)
    (hacyclic : db.Acyclic) (h : LeftAbstract (inheritAll namespaces db) key) : LeftAbstract db key := by
  obtain ⟨⟨base, a', hwalk, hne, ha', habstract⟩, hmissing⟩ := h
  simp only [hasRole_inheritAll hstored hown] at hmissing
  rw [transGen_derives_inheritAll hstored hown] at hwalk
  rw [get?_inheritAll] at ha'
  obtain ⟨a, ha, rfl⟩ := Option.map_eq_some_iff.1 ha'
  rw [inheritedClass_eq] at habstract
  rcases Bool.or_eq_true_iff.1 habstract with hbefore | hinherited
  · exact ⟨⟨base, a, hwalk, hne, ha, hbefore⟩, hmissing⟩
  · -- The abstract class that made the ancestor abstract is an ancestor too.
    obtain ⟨⟨base', a', hwalk', -, ha', habstract'⟩, -⟩ :=
      (inheritsAbstractness_iff hstored ha).1 hinherited
    have hwhole := hwalk.trans hwalk'
    exact ⟨⟨base', a', hwhole, fun heq => hacyclic key (heq ▸ hwhole), ha', habstract'⟩, hmissing⟩

/-- A class that inherits abstractness afterwards is marked. -/
theorem isAbstract_of_inheritsAbstractness (hstored : db.Stored) (hown : Own namespaces db)
    (hacyclic : db.Acyclic) (hc' : (inheritAll namespaces db).classes.get? key = some c')
    (h : inheritsAbstractness (inheritAll namespaces db) c' = true) : c'.isAbstract = true := by
  have hleft := (inheritsAbstractness_iff (stored_inheritAll hstored) hc').1 h
  rw [get?_inheritAll] at hc'
  obtain ⟨c, hc, rfl⟩ := Option.map_eq_some_iff.1 hc'
  have hinherits : inheritsAbstractness db c = true :=
    (inheritsAbstractness_iff hstored hc).2 (hleft.of_inheritAll hstored hown hacyclic)
  rw [inheritedClass_eq]
  exact Bool.or_eq_true_iff.2 (Or.inr hinherits)

theorem inferAbstract_inheritAll (hstored : db.Stored) (hown : Own namespaces db)
    (hacyclic : db.Acyclic) : inferAbstract (inheritAll namespaces db) = inheritAll namespaces db := by
  refine mapClasses_eq_self fun key c' hc' => ?_
  have hmark : (c'.isAbstract || inheritsAbstractness (inheritAll namespaces db) c') = c'.isAbstract := by
    cases h : inheritsAbstractness (inheritAll namespaces db) c' with
    | false => rw [Bool.or_false]
    | true => rw [isAbstract_of_inheritsAbstractness hstored hown hacyclic hc' h, Bool.or_true]
  rw [hmark]

theorem copyBases_inheritAll (hstored : db.Stored) (hacyclic : db.Acyclic) :
    copyBases namespaces (inheritAll namespaces db) = inheritAll namespaces db := by
  have hacyclic' : (inferAbstract db).Acyclic := by
    unfold Acyclic
    rw [derives_inferAbstract]
    exact hacyclic
  refine mapClasses_eq_self fun key c' hc' => ?_
  -- Neither hooks nor methods matter for flattening.
  have hsame : ∀ inside bases, flattenBases (inheritAll namespaces db) namespaces inside bases =
      flattenBases (flattened namespaces db) namespaces inside bases := by
    intro inside bases
    rw [inheritAll_eq, copyItems_eq_mapClasses,
      flattenBases_mapClasses (stored_hooked hstored) (fun _ c => by rw [copyItemsTo_eq_with]; rfl)
        (fun _ c => by rw [copyItemsTo_eq_with]),
      hooked_eq_mapClasses, flattenBases_mapClasses (f := hookedClass namespaces db)
        (stored_flattened hstored) (fun _ _ => rfl) (fun _ _ => rfl)]
  rw [get?_inheritAll] at hc'
  obtain ⟨c, hc, rfl⟩ := Option.map_eq_some_iff.1 hc'
  have hflat : (flattened namespaces db).classes.get? key =
      some (flattenedClass namespaces db key c) := by
    rw [flattened_eq_mapClasses, get?_mapClasses, hc]
    rfl
  have hbases : (inheritedClass namespaces db key c).bases =
      (flattenedClass namespaces db key c).bases := by
    rw [inheritedClass_eq]
    rfl
  have hfixed : (flattenBases (flattened namespaces db) namespaces [key]
      (flattenedClass namespaces db key c).bases).eraseDups =
        (flattenedClass namespaces db key c).bases :=
    eraseDups_flattenBases_copyBases (stored_inferAbstract hstored) hacyclic' hflat
  rw [hsame, hbases, hfixed, ← hbases]

theorem inheritHooks_inheritAll (namespaces : List String) (db : Database) :
    inheritHooks (inheritAll namespaces db) = inheritAll namespaces db := by
  refine mapClasses_eq_self fun key c' hc' => ?_
  rw [get?_inheritAll] at hc'
  obtain ⟨c, -, rfl⟩ := Option.map_eq_some_iff.1 hc'
  have hbases : (inheritedClass namespaces db key c).bases =
      (flattenedClass namespaces db key c).bases := by
    rw [inheritedClass_eq]
    rfl
  have hcode : ∀ key c, inheritedCode (hookedClass namespaces db key c) = inheritedCode c :=
    fun key c => inheritedCode_hooksWith (flattened namespaces db) key c
  have hreceived : receivedHooks (inheritAll namespaces db) key (inheritedClass namespaces db key c) =
      receivedHooks (flattened namespaces db) key (flattenedClass namespaces db key c) := by
    rw [inheritAll_eq, copyItems_eq_mapClasses,
      receivedHooks_mapClasses (fun _ c => by rw [copyItemsTo_eq_with]; rfl) rfl,
      hooked_eq_mapClasses, receivedHooks_mapClasses hcode hbases]
  have hhooks : (inheritedClass namespaces db key c).flags.hooks =
      (receivedHooks (flattened namespaces db) key (flattenedClass namespaces db key c)).foldl addHook
        c.flags.hooks := by
    rw [inheritedClass_eq]
    rfl
  -- The same hooks are received again, and all of them are there.
  have hsame : hooksWith (inheritAll namespaces db) key (inheritedClass namespaces db key c) =
      (inheritedClass namespaces db key c).flags.hooks := by
    rw [hooksWith, hreceived, hhooks]
    exact foldl_addHook_of_subset fun h hmem => mem_foldl_addHook.2 (Or.inr hmem)
  rw [← hooksWith, hsame]

theorem copyItems_inheritAll (hstored : db.Stored) :
    copyItems (inheritAll namespaces db) = inheritAll namespaces db := by
  refine copyItems_copyItems (stored_hooked hstored) fun key c' hc' base hbase d' hd' base' hbase' _ _ => ?_
  -- The bases of a base are listed by a class that the base leads to, so the class lists them too.
  have hflat : ∀ {key : String} {c' : Class}, (hooked namespaces db).classes.get? key = some c' →
      ∀ base, base ∈ c'.bases ↔ isOwnName namespaces base = true ∧
        Lists (inferAbstract db) [] key base := by
    intro key c' hc' base
    rw [hooked_eq_mapClasses, get?_mapClasses] at hc'
    obtain ⟨c, hc, rfl⟩ := Option.map_eq_some_iff.1 hc'
    have hmem : base ∈ c.bases ↔ isOwnName namespaces base = true ∧
        Lists (inferAbstract db) [] key base := mem_bases_copyBases (stored_inferAbstract hstored) hc
    exact hmem
  obtain ⟨hkey, hget⟩ := keyOf?_of_class? (stored_hooked hstored) hd'
  have hstep : (hooked namespaces db).Derives key d'.fqn := ⟨c', hc', base, hbase, hkey⟩
  rw [derives_hooked] at hstep
  have hwalk := transGen_of_derives_copyBases (stored_inferAbstract hstored) hstep
  obtain ⟨hownBase, hlists⟩ := (hflat hget base').1 hbase'
  obtain ⟨last, e, hrest, he, hmem⟩ := lists_nil_iff.1 hlists
  exact (hflat hc' base').2
    ⟨hownBase, lists_nil_iff.2 ⟨last, e, hwalk.to_reflTransGen.trans hrest, he, hmem⟩⟩

theorem inheritAll_inheritAll (hstored : db.Stored) (hown : Own namespaces db) (hacyclic : db.Acyclic) :
    inheritAll namespaces (inheritAll namespaces db) = inheritAll namespaces db := by
  have hunfold : inheritAll namespaces (inheritAll namespaces db) = copyItems (inheritHooks
      (copyBases namespaces (inferAbstract (inheritAll namespaces db)))) := rfl
  rw [hunfold, inferAbstract_inheritAll hstored hown hacyclic, copyBases_inheritAll hstored hacyclic,
    inheritHooks_inheritAll, copyItems_inheritAll hstored]

theorem hasTemplate_rehome (scope owner : String) (s : Slot) :
    hasTemplate (s.rehome scope owner) = hasTemplate s := by
  cases s with
  | concrete f => rfl
  | overload g =>
      simp only [hasTemplate, Slot.rehome, Slot.callables, List.any_map]
      rfl
  | placeholder p => rfl

/-- Following the base relation brings no templates back. -/
theorem Untemplated.inheritAll (h : Untemplated db) (hstored : db.Stored) :
    Untemplated (inheritAll namespaces db) where
  classes := by
    intro key c' hc'
    rw [get?_inheritAll] at hc'
    obtain ⟨c, hc, rfl⟩ := Option.map_eq_some_iff.1 hc'
    have hexhausted := h.classes key c hc
    rw [inheritedClass_eq]
    exact hexhausted
  functions := h.functions
  methods := by
    intro key c' hc' name s hs
    rw [get?_inheritAll] at hc'
    obtain ⟨c, hc, rfl⟩ := Option.map_eq_some_iff.1 hc'
    rcases get?_methods_inheritedClass hstored hc hs with hkept | ⟨base, d, s', -, hd, hs', rfl⟩
    · exact h.methods key c hc name s hkept
    · rw [hasTemplate_rehome]
      exact h.methods base d hd name s' hs'

end Resolve

namespace Database

open Resolve

variable {db : Database} {namespaces : List String}

/-- Resolving a resolved database changes nothing, if every class is stored under its name and lies in a
namespace of the project, and no class derives from itself once templates are replaced. -/
theorem resolve_resolve (hstored : db.Stored) (hown : Own namespaces db)
    (hacyclic : (specialise db).Acyclic) :
    (db.resolve namespaces).resolve namespaces = db.resolve namespaces := by
  obtain ⟨hstored', hown'⟩ := stored_own_specialise hstored hown
  have huntemplated : Untemplated (inheritAll namespaces (specialise db)) :=
    (untemplated_specialise db).inheritAll hstored'
  rw [resolve_eq, resolve_eq, huntemplated.specialise_eq_self,
    inheritAll_inheritAll hstored' hown' hacyclic]

/-- An abstract class with an inherit hook, a template that derives from it and copies its methods, and a
class that derives from a specialisation of the template. -/
def shapes : Database where
  classes := .ofList [
    ("ns::Shape", {
      name := "Shape", scope := "ns", isAbstract := true
      flags := { hooks := [⟨.inherit, "track(%childclass%)"⟩] }
      methods := .ofList [("draw", .concrete
        { name := "draw", scope := "ns", owner := some "Shape", isAbstract := true })] }),
    ("ns::Box", {
      name := "Box", scope := "ns", bases := ["ns::Shape"], isTemplate := true, templateParams := ["T"]
      flags := { copyParentItems := true, templateHints := [⟨"IntBox", [[("T", "int")]]⟩] } }),
    ("ns::Crate", {
      name := "Crate", scope := "ns", bases := ["ns::Box<int>", "std::mutex"]
      flags := { copyParentItems := true } })]

/-- The order in which the classes derive from each other. -/
def shapeRank (key : String) : Nat :=
  if key = "ns::Shape" then 0 else if key = "ns::Box<int>" then 1 else 2

theorem resolve_resolve_shapes :
    shapes.Stored ∧ Own ["ns"] shapes ∧ (specialise shapes).Acyclic ∧
      (shapes.resolve ["ns"]).resolve ["ns"] = shapes.resolve ["ns"] := by
  have hentries : ∀ e ∈ shapes.classes.entries, e.2.fqn = e.1 ∧
      "ns::".toList <+: e.2.fqn.toList := by decide +kernel
  have hstored : shapes.Stored := fun key c hc =>
    (hentries (key, c) (Dict.get?_eq_some_iff.1 hc)).1
  have hown : Own ["ns"] shapes := fun key c hc =>
    ⟨"ns", by decide, (hentries (key, c) (Dict.get?_eq_some_iff.1 hc)).2⟩
  have hacyclic : (specialise shapes).Acyclic := acyclic_of_rank shapeRank (by decide +kernel)
  exact ⟨hstored, hown, hacyclic, resolve_resolve hstored hown hacyclic⟩

end Database

end ScriptBindings
