import Mathlib
import ScriptBindings.Proofs.Compound.Shadow
import ScriptBindings.Proofs.Directive.Elsewhere

/-!
# Finishing in two contexts

Two contexts may differ in what they have counted for one symbol.  When this symbol is not among those that
are finished, both contexts do the same to all of them; so what is the same stays the same, and what is in
the shadow of a placeholder stays in its shadow.
-/

namespace ScriptBindings.Compound

open FlagContext (AgreeExcept)

/-- No symbol is counted under a key. -/
def Clear (key : String) (symbols : List (String × String)) : Prop :=
  ∀ p ∈ symbols, symbolKey p ≠ key

/-- Related values are still related once they have been changed in two contexts that agree but for one
counter, and the contexts still agree. -/
def Alike {α : Type} (key : String) (symbols : α → List (String × String)) (R : α → α → Prop)
    (f : FlagContext → α → α × FlagContext) : Prop :=
  ∀ ⦃ctx ctx' : FlagContext⦄ ⦃a' a : α⦄, R a' a → AgreeExcept key ctx ctx' → Clear key (symbols a) →
    R (f ctx' a').1 (f ctx a).1 ∧ AgreeExcept key (f ctx a).2 (f ctx' a').2

variable {α : Type} {key : String} {symbols : α → List (String × String)} {R : α → α → Prop}
  {f : FlagContext → α → α × FlagContext}

theorem Clear.left {front back : List (String × String)} (h : Clear key (front ++ back)) :
    Clear key front :=
  fun p hp => h p (List.mem_append_left _ hp)

theorem Clear.right {front back : List (String × String)} (h : Clear key (front ++ back)) :
    Clear key back :=
  fun p hp => h p (List.mem_append_right _ hp)

/-! ## Lists and dictionaries -/

/-- Elements from left to right. -/
theorem Alike.thread (h : Alike key symbols R f) :
    Alike key (fun as => as.flatMap symbols) (List.Forall₂ R) (Compound.thread f) := by
  intro ctx ctx' as' as has hctx hclear
  -- Each element leaves other contexts to the next one, so the induction is over all that agree.
  induction has generalizing ctx ctx' with
  | nil => exact ⟨.nil, hctx⟩
  | cons ha _ ih =>
      simp only [List.flatMap_cons] at hclear
      obtain ⟨hfirst, hctx⟩ := h ha hctx hclear.left
      obtain ⟨hrest, hctx⟩ := ih hctx hclear.right
      exact ⟨.cons hfirst hrest, hctx⟩

theorem Alike.thread_eq (h : Alike key symbols Eq f) :
    Alike key (fun as => as.flatMap symbols) Eq (Compound.thread f) := by
  have hthread := h.thread
  rwa [List.forall₂_eq_eq_eq] at hthread

section Entries

variable {f : FlagContext → String → α → α × FlagContext}
  {symbols : String → α → List (String × String)}

/-- The entries of a dictionary in the order of their keys. -/
theorem Alike.threadEntries (h : ∀ k, Alike key (symbols k) Eq (f · k)) :
    Alike key (fun l => l.flatMap fun e => symbols e.1 e.2) Eq (Compound.threadEntries f) := by
  rintro ctx ctx' l _ rfl hctx hclear
  induction l generalizing ctx ctx' with
  | nil => exact ⟨rfl, hctx⟩
  | cons e l ih =>
      simp only [List.flatMap_cons] at hclear
      obtain ⟨hfirst, hctx⟩ := h e.1 (rfl : e.2 = e.2) hctx hclear.left
      obtain ⟨hrest, hctx⟩ := ih hctx hclear.right
      refine ⟨?_, hctx⟩
      show (e.1, (f ctx' e.1 e.2).1) :: (Compound.threadEntries f (f ctx' e.1 e.2).2 l).1 = _
      rw [hfirst, hrest]
      rfl

theorem threadEntries_append (ctx : FlagContext) (front back : List (String × α)) :
    threadEntries f ctx (front ++ back) =
      ((threadEntries f ctx front).1 ++ (threadEntries f (threadEntries f ctx front).2 back).1,
        (threadEntries f (threadEntries f ctx front).2 back).2) := by
  induction front generalizing ctx with
  | nil => rfl
  | cons e front ih =>
      obtain ⟨k, a⟩ := e
      simp only [List.cons_append, threadEntries, ih]

/-- Change what is found, if anything is. -/
def changeFound (f : FlagContext → α → α × FlagContext) (ctx : FlagContext) :
    Option α → Option α × FlagContext
  | none => (none, ctx)
  | some a => (some (f ctx a).1, (f ctx a).2)

theorem threadEntries_toList (ctx : FlagContext) (k : String) (found : Option α) :
    threadEntries f ctx (found.toList.map fun a => (k, a)) =
      ((changeFound (f · k) ctx found).1.toList.map (fun a => (k, a)),
        (changeFound (f · k) ctx found).2) := by
  cases found <;> rfl

/-- Dictionaries that differ under one key: what is found there is changed in its own way, and everything
else is changed alike. -/
theorem Alike.threadDict {k : String} {R : Option α → Option α → Prop}
    (h : ∀ k, Alike key (symbols k) Eq (f · k))
    (hfound : Alike key (fun found => found.toList.flatMap (symbols k)) R (changeFound (f · k))) :
    Alike key (Dict.gather symbols) (Dict.DiffersAt R k) (Compound.threadDict f) := by
  rintro ctx ctx' d' d ⟨hsame, hR⟩ hctx hclear
  -- Either dictionary may miss the entry in the middle; those around it are the same in both.
  obtain ⟨front, back, hne, haround⟩ := d.exists_entries_around k
  have hd := haround d fun _ _ => rfl
  have hd' := haround d' hsame
  unfold Dict.gather at hclear
  rw [hd, List.flatMap_append, List.flatMap_append, List.flatMap_map] at hclear
  obtain ⟨hfront, hctx₁⟩ := Alike.threadEntries h (rfl : front = front) hctx hclear.left
  obtain ⟨hmiddle, hctx₂⟩ := hfound hR hctx₁ hclear.right.left
  obtain ⟨hback, hctx₃⟩ := Alike.threadEntries h (rfl : back = back) hctx₂ hclear.right.right
  have hne' : ∀ ctx₁ ctx₂, k ∉ ((Compound.threadEntries f ctx₁ front).1 ++
      (Compound.threadEntries f ctx₂ back).1).map Prod.fst := by
    intro ctx₁ ctx₂
    rw [List.map_append, keys_threadEntries, keys_threadEntries, ← List.map_append]
    exact hne
  unfold Compound.threadDict Dict.DiffersAt Dict.get?
  simp only [hd, hd', threadEntries_append, threadEntries_toList, Dict.find?_around (hne' _ _)]
  refine ⟨⟨fun other hother => ?_, ?_⟩, hctx₃⟩
  · rw [if_neg hother, if_neg hother, hfront, hback]
  · rw [if_pos trivial, if_pos trivial]
    exact hmiddle

theorem Alike.threadDict_eq (h : ∀ k, Alike key (symbols k) Eq (f · k)) :
    Alike key (Dict.gather symbols) Eq (Compound.threadDict f) := by
  rintro ctx ctx' d _ rfl hctx hclear
  obtain ⟨hentries, hctx⟩ := Alike.threadEntries h (rfl : d.entries = d.entries) hctx hclear
  refine ⟨?_, hctx⟩
  unfold Compound.threadDict
  simp only [hentries]

end Entries

/-! ## Entities -/

/-- A symbol that is given the flags that wait for it. -/
theorem alike_apply (name id : α → String) (flags : α → Flags) (set : Flags → α → α) :
    Alike key (fun a => [(name a, id a)]) Eq
      fun ctx a => (set (ctx.apply (name a) (id a) (flags a)).1 a,
        (ctx.apply (name a) (id a) (flags a)).2) := by
  rintro ctx ctx' a _ rfl hctx hclear
  have hne : FlagContext.receiverKey (name a) (id a) ≠ key := hclear _ List.mem_cons_self
  obtain ⟨hflags, hctx⟩ := hctx.apply hne (flags a)
  exact ⟨congrArg (set · a) hflags, hctx⟩

/-- Entries that are one symbol each. -/
theorem alike_entries (name : String → α → String) (id : α → String) (flags : α → Flags)
    (set : Flags → α → α) :
    Alike key (Dict.gather fun k a => [(name k a, id a)]) Eq
      (Compound.threadDict fun ctx k a => (set (ctx.apply (name k a) (id a) (flags a)).1 a,
        (ctx.apply (name k a) (id a) (flags a)).2)) :=
  Alike.threadDict_eq fun k => alike_apply (name k) id flags set

/-- Give a callable the flags that wait for a name of it. -/
def settleNamed (name : Callable → String) (ctx : FlagContext) (f : Callable) : Callable × FlagContext :=
  ({ f with flags := (ctx.apply (name f) f.id f.flags).1 }, (ctx.apply (name f) f.id f.flags).2)

section Callables

variable {name : Callable → String}

theorem alike_settleNamed_eq (name : Callable → String) :
    Alike key (fun f => [(name f, f.id)]) Eq (settleNamed name) :=
  alike_apply name Callable.id Callable.flags fun flags f => { f with flags := flags }

/-- A callable may have to be cast. -/
theorem alike_settleNamed_recast (hname : ∀ f cast, name { f with forceCast := cast } = name f) :
    Alike key (fun f => [(name f, f.id)]) Callable.Recast (settleNamed name) := by
  rintro ctx ctx' f _ ⟨cast, rfl, hcast⟩ hctx hclear
  have hne : FlagContext.receiverKey (name f) f.id ≠ key := by
    rw [← hname f cast]
    exact hclear _ List.mem_cons_self
  obtain ⟨hflags, hctx⟩ := hctx.apply hne f.flags
  simp only [settleNamed, hname]
  exact ⟨⟨cast, by rw [hflags], hcast⟩, hctx⟩

theorem alike_settleSlot_eq (name : Callable → String) :
    Alike key (Slot.symbols name) Eq (settleSlot (settleNamed name)) := by
  rintro ctx ctx' s _ rfl hctx hclear
  cases s with
  | concrete f =>
      obtain ⟨hf, hctx⟩ := alike_settleNamed_eq name (rfl : f = f) hctx hclear
      exact ⟨congrArg Slot.concrete hf, hctx⟩
  | overload g =>
      unfold Slot.symbols Slot.callables at hclear
      simp only [List.map_eq_flatMap] at hclear
      obtain ⟨hg, hctx⟩ :=
        (alike_settleNamed_eq name).thread_eq (rfl : g.overloads = g.overloads) hctx hclear
      exact ⟨congrArg (fun overloads => Slot.overload { g with overloads := overloads }) hg, hctx⟩
  | placeholder p => exact ⟨rfl, hctx⟩

theorem alike_settleSlot_recast (hname : ∀ f cast, name { f with forceCast := cast } = name f) :
    Alike key (Slot.symbols name) Slot.Recast (settleSlot (settleNamed name)) := by
  intro ctx ctx' s' s hs hctx hclear
  cases hs with
  | concrete hf =>
      obtain ⟨hf, hctx⟩ := alike_settleNamed_recast hname hf hctx hclear
      exact ⟨.concrete hf, hctx⟩
  | overload hg hcast =>
      rename_i g overloads cast
      unfold Slot.symbols Slot.callables at hclear
      simp only [List.map_eq_flatMap] at hclear
      obtain ⟨hg, hctx⟩ := (alike_settleNamed_recast hname).thread hg hctx hclear
      -- The group itself is only read, so it stays recast around the overloads.
      have hrecast := Slot.Recast.overload
        (g := { g with overloads := (thread (settleNamed name) ctx' g.overloads).1 }) hg hcast
      exact ⟨hrecast, hctx⟩
  | placeholder p => exact ⟨.placeholder p, hctx⟩

/-- What is found under the name of a placeholder. -/
theorem alike_changeFound_shadowed (p : Placeholder)
    (hname : ∀ f cast, name { f with forceCast := cast } = name f) :
    Alike key (fun found => found.toList.flatMap (Slot.symbols name)) (Slot.Shadowed p)
      (changeFound (settleSlot (settleNamed name))) := by
  intro ctx ctx' found' found hfound hctx hclear
  cases hfound with
  | alone => exact ⟨.alone, hctx⟩
  | inStead q => exact ⟨.inStead q, hctx⟩
  | recast hs =>
      simp only [Option.toList_some, List.flatMap_singleton] at hclear
      obtain ⟨hs, hctx⟩ := alike_settleSlot_recast hname hs hctx hclear
      exact ⟨.recast hs, hctx⟩

end Callables

/-! ## Classes -/

/-- Settle the slots of the methods of a class. -/
def settleMethods (ctx : FlagContext) (slots : Slots) : Slots × FlagContext :=
  threadDict (fun ctx _ s => settleSlot settleMethod ctx s) ctx slots

/-- The symbols of the methods of a class. -/
def methodSymbols (slots : Slots) : List (String × String) :=
  slots.gather fun _ => Slot.symbols Callable.fqn

theorem alike_settleMethods_eq : Alike key methodSymbols Eq settleMethods :=
  Alike.threadDict_eq fun _ => alike_settleSlot_eq Callable.fqn

theorem alike_settleMethods_shadowed (p : Placeholder) (k : String) :
    Alike key methodSymbols (Slots.ShadowedAt p k) settleMethods :=
  Alike.threadDict (fun _ => alike_settleSlot_eq Callable.fqn)
    (alike_changeFound_shadowed p fun _ _ => rfl)

/-- Classes that are the same apart from their methods, which are related. -/
structure ClassAlike (R₁ R₂ : Slots → Slots → Prop) (c' c : Class) : Prop where
  same : c' = { c with methods := c'.methods, hiddenMethods := c'.hiddenMethods }
  methods : R₁ c'.methods c.methods
  hiddenMethods : R₂ c'.hiddenMethods c.hiddenMethods

/-- A class with what settling gives to it and to its members. -/
def settledClass (c : Class) (methods hidden : Slots) (flags : Flags)
    (constructors destructor : List Callable) (attributes : Dict Attribute) : Class :=
  { c with
    flags := flags
    methods := methods
    hiddenMethods := hidden
    constructors := constructors
    destructor := destructor.head?
    attributes := attributes }

theorem settledClass_congr (c : Class) (methods hidden : Slots) {flags flags' : Flags}
    {constructors constructors' destructor destructor' : List Callable}
    {attributes attributes' : Dict Attribute} (hflags : flags' = flags)
    (hconstructors : constructors' = constructors) (hdestructor : destructor' = destructor)
    (hattributes : attributes' = attributes) :
    settledClass c methods hidden flags' constructors' destructor' attributes' =
      settledClass c methods hidden flags constructors destructor attributes := by
  rw [hflags, hconstructors, hdestructor, hattributes]

theorem alike_settleClass {R₁ R₂ : Slots → Slots → Prop} {fqn : String}
    (h₁ : Alike key methodSymbols R₁ settleMethods) (h₂ : Alike key methodSymbols R₂ settleMethods) :
    Alike key (Class.symbols fqn) (ClassAlike R₁ R₂) (settleClass · fqn) := by
  rintro ctx ctx' c' c ⟨hsame, hmethods, hhidden⟩ hctx hclear
  generalize c'.methods = methods at hsame hmethods
  generalize c'.hiddenMethods = hidden at hsame hhidden
  subst hsame
  have hmethod : Alike key _ Eq (thread settleMethod) :=
    Alike.thread_eq (alike_settleNamed_eq Callable.fqn)
  have hentries : Alike key _ Eq _ := alike_entries (fun _ (a : Attribute) => fqn ++ "::" ++ a.name)
    Attribute.id Attribute.flags fun flags a => { a with flags := flags }
  unfold Class.symbols at hclear
  simp only [List.map_eq_flatMap] at hclear
  -- In the order of settling: each part hands its contexts on to the next one.
  obtain ⟨hflags, hctx⟩ := hctx.apply (hclear.left _ List.mem_cons_self) c.flags
  obtain ⟨hmethods, hctx⟩ := h₁ hmethods hctx hclear.right.left
  obtain ⟨hhidden, hctx⟩ := h₂ hhidden hctx hclear.right.right.left
  obtain ⟨hconstructors, hctx⟩ := hmethod (rfl : c.constructors = _) hctx hclear.right.right.right.left
  obtain ⟨hdestructor, hctx⟩ := hmethod (rfl : c.destructor.toList = _) hctx
    hclear.right.right.right.right.left
  obtain ⟨hattributes, hctx⟩ := hentries (rfl : c.attributes = _) hctx
    hclear.right.right.right.right.right
  refine ⟨⟨?_, hmethods, hhidden⟩, hctx⟩
  exact settledClass_congr c _ _ hflags hconstructors hdestructor hattributes

theorem alike_settleClass_eq (fqn : String) : Alike key (Class.symbols fqn) Eq (settleClass · fqn) := by
  rintro ctx ctx' c _ rfl hctx hclear
  obtain ⟨⟨hsame, hmethods, hhidden⟩, hctx⟩ :=
    alike_settleClass alike_settleMethods_eq alike_settleMethods_eq
      (⟨rfl, rfl, rfl⟩ : ClassAlike Eq Eq c c) hctx hclear
  rw [hmethods, hhidden] at hsame
  exact ⟨hsame, hctx⟩

/-- Rejected constructors are not settled. -/
theorem settleClass_rejectedConstructors (c : Class) (rejected : List Placeholder) (fqn : String)
    (ctx : FlagContext) : settleClass ctx fqn { c with rejectedConstructors := rejected } =
      ({ (settleClass ctx fqn c).1 with rejectedConstructors := rejected },
        (settleClass ctx fqn c).2) := rfl

theorem alike_settleClass_shadowed (p : Placeholder) (fqn : String) :
    Alike key (Class.symbols fqn) (Class.Shadowed p) (settleClass · fqn) := by
  intro ctx ctx' c' c hc hctx hclear
  -- The placeholder is in one of three fields, and the others are settled as without it.
  cases hc with
  | rejected c before after =>
      obtain ⟨hsame, hctx⟩ := alike_settleClass_eq fqn (rfl : c = c) hctx hclear
      dsimp only at hsame
      dsimp only
      rw [settleClass_rejectedConstructors c (before ++ after),
        settleClass_rejectedConstructors c (before ++ p :: after), hsame]
      exact ⟨.rejected (settleClass ctx fqn c).1 before after, hctx⟩
  | method c h =>
      rename_i slots' slots
      obtain ⟨⟨hsame, hmethods, hhidden⟩, hctx⟩ :=
        alike_settleClass (alike_settleMethods_shadowed p p.name) alike_settleMethods_eq
          (⟨rfl, h, rfl⟩ : ClassAlike (Slots.ShadowedAt p p.name) Eq { c with methods := slots' }
            { c with methods := slots }) hctx hclear
      rw [hhidden] at hsame
      dsimp only
      rw [hsame]
      exact ⟨.method (settleClass ctx fqn { c with methods := slots }).1 hmethods, hctx⟩
  | hidden c h =>
      rename_i slots' slots
      obtain ⟨⟨hsame, hmethods, hhidden⟩, hctx⟩ :=
        alike_settleClass alike_settleMethods_eq (alike_settleMethods_shadowed p p.name)
          (⟨rfl, rfl, h⟩ : ClassAlike Eq (Slots.ShadowedAt p p.name) { c with hiddenMethods := slots' }
            { c with hiddenMethods := slots }) hctx hclear
      rw [hmethods] at hsame
      dsimp only
      rw [hsame]
      exact ⟨.hidden (settleClass ctx fqn { c with hiddenMethods := slots }).1 hhidden, hctx⟩

theorem alike_changeFound_class (p : Placeholder) (k : String) :
    Alike key (fun found => found.toList.flatMap (Class.symbols k))
      (fun found' found => ∃ c' c, found' = some c' ∧ found = some c ∧ c'.Shadowed p c)
      (changeFound (settleClass · k)) := by
  rintro ctx ctx' _ _ ⟨c', c, rfl, rfl, hc⟩ hctx hclear
  simp only [Option.toList_some, List.flatMap_singleton] at hclear
  obtain ⟨hc, hctx⟩ := alike_settleClass_shadowed p k hc hctx hclear
  exact ⟨⟨_, _, rfl, rfl, hc⟩, hctx⟩

/-! ## Databases -/

/-- Settle all classes. -/
def settleClasses : FlagContext → Dict Class → Dict Class × FlagContext :=
  threadDict settleClass

/-- Settle all functions. -/
def settleFunctions : FlagContext → Slots → Slots × FlagContext :=
  threadDict fun ctx fqn s => settleSlot (settleFunction fqn) ctx s

/-- The symbols of functions. -/
def functionSymbols : Slots → List (String × String) :=
  Dict.gather fun fqn => Slot.symbols fun _ => fqn

theorem alike_settleClasses_eq : Alike key (Dict.gather Class.symbols) Eq settleClasses :=
  Alike.threadDict_eq alike_settleClass_eq

theorem alike_settleClasses_shadowed (p : Placeholder) (k : String) :
    Alike key (Dict.gather Class.symbols) (Class.ShadowedAt p k) settleClasses :=
  Alike.threadDict alike_settleClass_eq (alike_changeFound_class p k)

theorem alike_settleFunctions_eq : Alike key functionSymbols Eq settleFunctions :=
  Alike.threadDict_eq fun fqn => alike_settleSlot_eq fun _ => fqn

theorem alike_settleFunctions_shadowed (p : Placeholder) (k : String) :
    Alike key functionSymbols (Slots.ShadowedAt p k) settleFunctions :=
  Alike.threadDict (fun fqn => alike_settleSlot_eq fun _ => fqn)
    (alike_changeFound_shadowed p fun _ _ => rfl)

/-- Databases that are the same apart from their classes and functions, which are related. -/
structure DatabaseAlike (R₁ : Dict Class → Dict Class → Prop) (R₂ : Slots → Slots → Prop)
    (db' db : Database) : Prop where
  same : db' = { db with classes := db'.classes, functions := db'.functions }
  classes : R₁ db'.classes db.classes
  functions : R₂ db'.functions db.functions

/-- A database with what settling gives to it. -/
theorem database_congr (classes : Dict Class) (functions : Slots)
    {namespaces namespaces' : Dict NamespaceInfo} {enums enums' : Dict Enumeration}
    {globals globals' : Dict Global} {typedefs typedefs' : Dict Typedef}
    (hnamespaces : namespaces' = namespaces) (henums : enums' = enums) (hglobals : globals' = globals)
    (htypedefs : typedefs' = typedefs) :
    (⟨namespaces', classes, functions, enums', globals', typedefs'⟩ : Database) =
      ⟨namespaces, classes, functions, enums, globals, typedefs⟩ := by
  rw [hnamespaces, henums, hglobals, htypedefs]

theorem alike_finish {R₁ : Dict Class → Dict Class → Prop} {R₂ : Slots → Slots → Prop}
    (h₁ : Alike key (Dict.gather Class.symbols) R₁ settleClasses)
    (h₂ : Alike key functionSymbols R₂ settleFunctions) (x' x : Extraction)
    (hx : DatabaseAlike R₁ R₂ x'.db x.db) (hctx : AgreeExcept key x.ctx x'.ctx)
    (hclear : Clear key x.db.symbols) : DatabaseAlike R₁ R₂ x'.finish.db x.finish.db := by
  obtain ⟨db', ctx'⟩ := x'
  obtain ⟨db, ctx⟩ := x
  obtain ⟨hsame, hclasses, hfunctions⟩ := hx
  dsimp only at hsame hclasses hfunctions hctx hclear
  generalize db'.classes = classes at hsame hclasses
  generalize db'.functions = functions at hsame hfunctions
  subst hsame
  -- Only classes and functions may differ; of all else the same is settled, in contexts that agree.
  have hnamespaces : Alike key _ Eq _ := alike_entries (fun fqn (_ : NamespaceInfo) => fqn)
    NamespaceInfo.id NamespaceInfo.flags fun flags n => { n with flags := flags }
  have henums : Alike key _ Eq _ := alike_entries (fun fqn (_ : Enumeration) => fqn)
    Enumeration.id Enumeration.flags fun flags e => { e with flags := flags }
  have hglobals : Alike key _ Eq _ := alike_entries (fun fqn (_ : Global) => fqn) Global.id
    Global.flags fun flags g => { g with flags := flags }
  have htypedefs : Alike key _ Eq _ := alike_entries (fun fqn (_ : Typedef) => fqn) Typedef.id
    Typedef.flags fun flags t => { t with flags := flags }
  unfold Database.symbols at hclear
  obtain ⟨hnamespaces, hctx⟩ := hnamespaces (rfl : db.namespaces = _) hctx hclear.left
  obtain ⟨hclasses, hctx⟩ := h₁ hclasses hctx hclear.right.left
  obtain ⟨hfunctions, hctx⟩ := h₂ hfunctions hctx hclear.right.right.left
  obtain ⟨henums, hctx⟩ := henums (rfl : db.enums = _) hctx hclear.right.right.right.left
  obtain ⟨hglobals, hctx⟩ := hglobals (rfl : db.globals = _) hctx hclear.right.right.right.right.left
  obtain ⟨htypedefs, hctx⟩ := htypedefs (rfl : db.typedefs = _) hctx
    hclear.right.right.right.right.right
  exact ⟨database_congr _ _ hnamespaces henums hglobals htypedefs, hclasses, hfunctions⟩

variable {x' x : Extraction}

/-- What is the same before finishing is the same afterwards. -/
theorem finish_eq_of_agreeExcept (hdb : x'.db = x.db) (hctx : AgreeExcept key x.ctx x'.ctx)
    (hclear : Clear key x.db.symbols) : x'.finish.db = x.finish.db := by
  obtain ⟨hsame, hclasses, hfunctions⟩ := alike_finish alike_settleClasses_eq alike_settleFunctions_eq
    x' x ⟨by rw [hdb], by rw [hdb], by rw [hdb]⟩ hctx hclear
  rw [hsame, hclasses, hfunctions]

/-- What is in the shadow of a placeholder before finishing is in its shadow afterwards. -/
theorem shadowed_finish {p : Placeholder} {compound : String} (hdb : x'.db.Shadowed p compound x.db)
    (hctx : AgreeExcept key x.ctx x'.ctx) (hclear : Clear key x.db.symbols) :
    x'.finish.db.Shadowed p compound x.finish.db := by
  obtain ⟨db', ctx'⟩ := x'
  obtain ⟨db, ctx⟩ := x
  cases hdb with
  | function db h =>
      rename_i slots' slots
      obtain ⟨hsame, hclasses, hfunctions⟩ := alike_finish alike_settleClasses_eq
        (alike_settleFunctions_shadowed p _) ⟨{ db with functions := slots' }, ctx'⟩
        ⟨{ db with functions := slots }, ctx⟩ ⟨rfl, rfl, h⟩ hctx hclear
      rw [hsame, hclasses]
      exact .function _ hfunctions
  | member db h =>
      rename_i classes' classes
      obtain ⟨hsame, hclasses, hfunctions⟩ := alike_finish (alike_settleClasses_shadowed p _)
        alike_settleFunctions_eq ⟨{ db with classes := classes' }, ctx'⟩
        ⟨{ db with classes := classes }, ctx⟩ ⟨rfl, h, rfl⟩ hctx hclear
      rw [hsame, hfunctions]
      exact .member _ hclasses

end ScriptBindings.Compound
