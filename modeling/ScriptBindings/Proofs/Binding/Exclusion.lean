import Mathlib
import ScriptBindings.Proofs.Binding.Construction

/-!
# Callables that are not to be bound

A callable that is excluded is hidden from scripts.  What is planned for functions and methods can be told from
the database in which excluded callables have no parameters, so nothing that these take shows.  Constructors
are planned apart, and there exclusion is not looked at: a plan is the one of the other constructors exactly if
no excluded one is offered, and what it shows of an excluded constructor is what that one would offer.
-/

namespace ScriptBindings

/-- A callable as far as bindings should show it: the parameters of one that is not to be bound are hidden. -/
def Callable.masked (f : Callable) : Callable :=
  if f.flags.noBind then { f with params := [] } else f

/-- A slot with masked callables. -/
def Slot.masked (slot : Slot) : Slot :=
  slot.mapCallables Callable.masked

/-- A class with masked callables. -/
def Class.masked (c : Class) : Class :=
  { c with
    constructors := c.constructors.map Callable.masked
    destructor := c.destructor.map Callable.masked
    methods := c.methods.map fun _ => Slot.masked
    hiddenMethods := c.hiddenMethods.map fun _ => Slot.masked }

/-- A database with masked callables. -/
def Database.masked (db : Database) : Database :=
  { db with
    classes := db.classes.map fun _ => Class.masked
    functions := db.functions.map fun _ => Slot.masked }

namespace Callable

variable {f g : Callable}

theorem masked_of_noBind (h : f.flags.noBind = true) : f.masked = { f with params := [] } :=
  if_pos h

theorem masked_of_not_noBind (h : f.flags.noBind = false) : f.masked = f :=
  if_neg (Bool.not_eq_true _ ▸ h)

@[simp]
theorem flags_masked (f : Callable) : f.masked.flags = f.flags := by
  unfold masked
  split <;> rfl

@[simp]
theorem deleted_masked (f : Callable) : f.masked.deleted = f.deleted := by
  unfold masked
  split <;> rfl

@[simp]
theorem visibility_masked (f : Callable) : f.masked.visibility = f.visibility := by
  unfold masked
  split <;> rfl

@[simp]
theorem scope_masked (f : Callable) : f.masked.scope = f.scope := by
  unfold masked
  split <;> rfl

@[simp]
theorem location_masked (f : Callable) : f.masked.location = f.location := by
  unfold masked
  split <;> rfl

@[simp]
theorem name_masked (f : Callable) : f.masked.name = f.name := by
  unfold masked
  split <;> rfl

@[simp]
theorem forceCast_masked (f : Callable) : f.masked.forceCast = f.forceCast := by
  unfold masked
  split <;> rfl

/-- Callables are masked alike if they differ at most in their parameters, and this only if they are not to be
bound. -/
theorem masked_eq_iff : f.masked = g.masked ↔
    ∃ params, g = { f with params } ∧ (f.flags.noBind = false → params = f.params) := by
  constructor
  · intro h
    have hflags : f.flags = g.flags := by rw [← f.flags_masked, ← g.flags_masked, h]
    -- Masking forgets the parameters of what is not bound, and nothing else.
    refine ⟨g.params, ?_, fun hbound => ?_⟩
    · cases hnobind : f.flags.noBind with
      | true =>
          rw [masked_of_noBind hnobind, masked_of_noBind (hflags ▸ hnobind)] at h
          cases f
          cases g
          simp only [Callable.mk.injEq] at h ⊢
          simp only [h, and_self]
      | false =>
          rw [masked_of_not_noBind hnobind, masked_of_not_noBind (hflags ▸ hnobind)] at h
          rw [h]
    · rw [masked_of_not_noBind hbound, masked_of_not_noBind (hflags ▸ hbound)] at h
      rw [h]
  · rintro ⟨params, rfl, hparams⟩
    cases hnobind : f.flags.noBind with
    | true => exact (masked_of_noBind hnobind).trans (masked_of_noBind (f := { f with params }) hnobind).symm
    | false => rw [hparams hnobind]

end Callable

namespace Slot

@[simp]
theorem callables_masked (slot : Slot) : slot.masked.callables = slot.callables.map Callable.masked := by
  cases slot <;> rfl

@[simp]
theorem flags?_masked (slot : Slot) : slot.masked.flags? = slot.flags? := by
  cases slot with
  | concrete f => exact congrArg some f.flags_masked
  | overload g => rfl
  | placeholder p => rfl

@[simp]
theorem name_masked (slot : Slot) : slot.masked.name = slot.name := by
  cases slot with
  | concrete f => exact f.name_masked
  | overload g => rfl
  | placeholder p => rfl

@[simp]
theorem forceCast_masked (slot : Slot) : slot.masked.forceCast = slot.forceCast := by
  cases slot with
  | concrete f => exact f.forceCast_masked
  | overload g => rfl
  | placeholder p => rfl

end Slot

theorem Database.class?_masked (db : Database) (name : String) :
    db.masked.class? name = (db.class? name).map Class.masked := by
  have hget : ∀ key, db.masked.classes.get? key = (db.classes.get? key).map Class.masked :=
    Dict.get?_map _ db.classes
  simp only [Database.class?, Database.findClass?, hget]
  cases db.classes.get? name with
  | some c => rfl
  | none => simp [Option.map_map, Function.comp_def]

namespace Binding

attribute [ext] ConstructorPlan

variable {db db' : Database} {slot slot' : Slot} {c c' : Class} {f : Callable}

/-! ## Functions and methods -/

@[simp]
theorem isAbstractType_masked (db : Database) : isAbstractType db.masked = isAbstractType db := by
  funext t
  rw [isAbstractType, Database.class?_masked, Option.any_map]
  rfl

@[simp]
theorem isNonCopyableType_masked (db : Database) : isNonCopyableType db.masked = isNonCopyableType db := by
  funext t
  rw [isNonCopyableType, Database.class?_masked, Option.any_map]
  rfl

@[simp]
theorem adaptParameter_masked (db : Database) : adaptParameter db.masked = adaptParameter db := by
  funext p
  simp only [adaptParameter, adapt, isAbstractType_masked]

@[simp]
theorem requiresProxy_masked (db : Database) : requiresProxy db.masked = requiresProxy db := by
  funext f
  simp only [requiresProxy, adaptParameter_masked]

@[simp]
theorem returnsByPointer_masked (db : Database) : returnsByPointer db.masked = returnsByPointer db := by
  funext f
  simp only [returnsByPointer, isNonCopyableType_masked]

@[simp]
theorem wrap_masked (db : Database) : wrap db.masked = wrap db := by
  funext f arity replacement reason
  simp only [wrap, adaptParameter_masked, returnsByPointer_masked]

/-- What masked classes are like decides as much as the classes themselves. -/
@[simp]
theorem strategyOf_masked (db : Database) : strategyOf db.masked = strategyOf db := by
  funext f overloaded
  simp only [strategyOf, boundStrategy, wrapAll, wrapperReason?, requiresProxy_masked, wrap_masked,
    adaptParameter_masked, returnsByPointer_masked]

theorem isBindable_masked_iff : IsBindable f.masked ↔ IsBindable f := by
  rw [IsBindable, IsBindable, f.deleted_masked, f.flags_masked]

/-- Masking leaves the callables that are bound as they are. -/
theorem filter_isBindable_map_masked (fs : List Callable) :
    (fs.map Callable.masked).filter (fun f => IsBindable f) = fs.filter fun f => IsBindable f := by
  induction fs with
  | nil => rfl
  | cons f fs ih =>
      rw [List.map_cons]
      by_cases hbound : IsBindable f
      · rw [f.masked_of_not_noBind hbound.2, List.filter_cons_of_pos (by simpa using hbound),
          List.filter_cons_of_pos (by simpa using hbound), ih]
      · rw [List.filter_cons_of_neg (by simpa [isBindable_masked_iff] using hbound),
          List.filter_cons_of_neg (by simpa using hbound), ih]

theorem isOverloaded_masked (slot : Slot) : isOverloaded slot.masked = isOverloaded slot := by
  rw [isOverloaded, isOverloaded, slot.callables_masked, slot.forceCast_masked, List.length_map]

/-- A plan for functions or methods can be told from what is masked. -/
theorem planSlot_masked (db : Database) (slot : Slot) : planSlot db.masked slot.masked = planSlot db slot := by
  have hbound : boundCallables db.masked slot.masked = boundCallables db slot := by
    rw [boundCallables_eq, boundCallables_eq, slot.callables_masked, filter_isBindable_map_masked,
      isOverloaded_masked, strategyOf_masked]
  rw [planSlot, planSlot, hbound, slot.flags?_masked]

/-- What an entry binds is contributed by callables that are bound and have the key of the entry. -/
theorem leaves_of_mem_planSlot {e : Entry} (he : e ∈ planSlot db slot) : e.strategy.leaves ≠ [] ∧
    e.strategy.leaves =
      (slot.callables.filter fun f => IsBindable f ∧ BindKey.ofCallable? f = some e.key).flatMap fun f =>
        (strategyOf db f (isOverloaded slot)).leaves := by
  have hbinds := bindsAll_of_mem_planSlot he
  refine ⟨hbinds.nonempty, hbinds.leaves_eq.trans ?_⟩
  -- The others that have the key contribute nothing.
  generalize slot.callables = fs
  induction fs with
  | nil => rfl
  | cons f fs ih =>
      by_cases hkey : BindKey.ofCallable? f = some e.key
      · by_cases hbound : IsBindable f
        · simp [hkey, hbound, ih]
        · simp [hkey, hbound, ih, (leaves_strategyOf_eq_nil_iff db f _).2 hbound]
      · simp [hkey, ih]

/-! ## Constructors -/

/-- What a constructor contributes to a plan: its signatures, if it is offered. -/
def offer? (db : Database) (f : Callable) : Option (List (List String)) :=
  if IsOffered db f then some (signaturesOf f) else none

/-- What the constructors that are not to be bound contribute. -/
def excludedOffers (db : Database) (c : Class) : List (Option (List (List String))) :=
  (c.constructors.filter fun f => f.flags.noBind).map (offer? db)

@[simp]
theorem offer?_masked (db : Database) : offer? db.masked = offer? db := by
  have hoffered : ∀ f, IsOffered db.masked f ↔ IsOffered db f := by
    intro f
    have hskipped := isSkippedConstructor_eq db.masked f
    rw [isSkippedConstructor, requiresProxy_masked, ← isSkippedConstructor, isSkippedConstructor_eq,
      Bool.not_inj_iff, decide_eq_decide] at hskipped
    exact hskipped.symm
  funext f
  simp only [offer?, hoffered]

theorem forall_isSome_offer?_iff {fs : List Callable} :
    (∀ o ∈ fs.map (offer? db), o.isSome = true) ↔ ∀ f ∈ fs, IsOffered db f := by
  rw [List.forall_mem_map]
  refine forall₂_congr fun f _ => ?_
  rw [offer?]
  split <;> simp [*]

theorem flatMap_planned (db : Database) (c : Class) :
    (planned db c).flatMap signaturesOf = (c.constructors.map (offer? db)).flatMap (·.getD []) := by
  rw [planned, List.flatMap_map]
  induction c.constructors with
  | nil => rfl
  | cons f fs ih => by_cases h : IsOffered db f <;> simp [offer?, h, ih]

/-- Lists with the same masked callables contribute the same if the excluded callables do. -/
theorem map_offer?_eq {fs gs : List Callable} (hdb : offer? db = offer? db')
    (hmasked : fs.map Callable.masked = gs.map Callable.masked)
    (hexcluded : (fs.filter fun f => f.flags.noBind).map (offer? db) =
      (gs.filter fun f => f.flags.noBind).map (offer? db')) :
    fs.map (offer? db) = gs.map (offer? db') := by
  induction fs generalizing gs with
  | nil =>
      obtain rfl := List.map_eq_nil_iff.1 hmasked.symm
      rfl
  | cons f fs ih =>
      rcases gs with _ | ⟨g, gs⟩
      · cases hmasked
      obtain ⟨hhead, htail⟩ := List.cons.inj hmasked
      obtain ⟨params, rfl, hparams⟩ := Callable.masked_eq_iff.1 hhead
      -- An excluded callable is compared by its offer; any other one is the same in both lists.
      cases hnobind : f.flags.noBind with
      | true =>
          rw [List.filter_cons_of_pos (by simpa using hnobind),
            List.filter_cons_of_pos (by simpa using hnobind)] at hexcluded
          obtain ⟨hoffer, hrest⟩ := List.cons.inj hexcluded
          rw [List.map_cons, List.map_cons, hoffer, ih htail hrest]
      | false =>
          rw [List.filter_cons_of_neg (by simp [hnobind]),
            List.filter_cons_of_neg (by simp [hnobind])] at hexcluded
          rw [List.map_cons, List.map_cons, ih htail hexcluded, hparams hnobind, hdb]

theorem creatable_masked_iff : Creatable c.masked ↔ Creatable c := by
  have hdestructible : isDestructible c.masked = isDestructible c := by
    simp only [isDestructible, Class.masked, Option.all_map, Callable.deleted_masked,
      Callable.visibility_masked]
  rw [← creatable_iff, ← creatable_iff, hdestructible]
  rfl

theorem hasHiddenConstructor_eq_false_iff : hasHiddenConstructor c = false ↔
    ∀ slot ∈ c.hiddenMethods.values, slot.name ≠ Name.withoutTemplateArgs c.name := by
  simp [hasHiddenConstructor]

theorem hasHiddenConstructor_masked (c : Class) : hasHiddenConstructor c.masked = hasHiddenConstructor c := by
  simp only [hasHiddenConstructor, Class.masked, Dict.values, Dict.map, List.map_map, List.any_map,
    Function.comp_def, Slot.name_masked]

/-- Classes that are masked alike are constructed alike if their constructors contribute the same. -/
theorem planConstructors_congr (hmasked : c.masked = c'.masked)
    (hoffers : Creatable c → c.constructors.map (offer? db) = c'.constructors.map (offer? db')) :
    planConstructors db c = planConstructors db' c' := by
  have hcreatable : Creatable c ↔ Creatable c' := by
    rw [← creatable_masked_iff, hmasked, creatable_masked_iff]
  by_cases h : Creatable c
  · have hsame := hoffers h
    have hsignatures : (planConstructors db c).signatures = (planConstructors db' c').signatures := by
      rw [signatures_planConstructors db h, signatures_planConstructors db' (hcreatable.1 h),
        flatMap_planned, flatMap_planned, hsame]
    have hhidden : hasHiddenConstructor c = hasHiddenConstructor c' := by
      rw [← hasHiddenConstructor_masked, hmasked, hasHiddenConstructor_masked]
    have hrejected : c.rejectedConstructors = c'.rejectedConstructors := by
      show c.masked.rejectedConstructors = c'.masked.rejectedConstructors
      rw [hmasked]
    refine ConstructorPlan.ext hsignatures (Bool.eq_iff_iff.2 ?_)
    rw [constructible_planConstructors_iff db h, constructible_planConstructors_iff db' (hcreatable.1 h),
      ← hasHiddenConstructor_eq_false_iff, ← hasHiddenConstructor_eq_false_iff, ← forall_isSome_offer?_iff,
      ← forall_isSome_offer?_iff, hsame, hhidden, hrejected, hsignatures]
  · rw [planConstructors_of_not_creatable db h,
      planConstructors_of_not_creatable db' (mt hcreatable.2 h)]

/-- Leaving elements out changes nothing that is gathered exactly if they have nothing. -/
theorem flatMap_eq_flatMap_filter_iff {α β : Type} (g : α → List β) (keep : α → Bool) (l : List α) :
    l.flatMap g = (l.filter keep).flatMap g ↔ ∀ x ∈ l, keep x = false → g x = [] := by
  induction l with
  | nil => simp
  | cons x l ih =>
      cases hx : keep x with
      | true =>
          rw [List.filter_cons_of_pos hx, List.flatMap_cons, List.flatMap_cons, List.append_cancel_left_eq, ih]
          simp [hx]
      | false =>
          rw [List.filter_cons_of_neg (by simp [hx]), List.flatMap_cons, List.forall_mem_cons, ← ih]
          constructor
          · intro h
            -- What is left out would make the list longer.
            have hle : ((l.filter keep).flatMap g).length ≤ (l.flatMap g).length :=
              (List.filter_sublist.flatMap g).length_le
            have hlength := congrArg List.length h
            rw [List.length_append] at hlength
            have hnone : g x = [] := List.length_eq_zero_iff.1 (by omega)
            rw [hnone, List.nil_append] at h
            exact ⟨fun _ => hnone, h⟩
          · rintro ⟨hnone, h⟩
            rw [hnone hx, List.nil_append, h]

/-- A creatable class has the signatures of the constructors that are bound exactly if no constructor that is
not to be bound is offered. -/
theorem signatures_eq_of_bindable_iff (db : Database) (h : Creatable c) :
    (planConstructors db c).signatures =
        (c.constructors.filter fun f => IsBindable f ∧ IsOffered db f).flatMap signaturesOf ↔
      ∀ f ∈ c.constructors, f.flags.noBind = true → ¬ IsOffered db f := by
  have hfilter : (c.constructors.filter fun f => IsBindable f ∧ IsOffered db f) =
      (planned db c).filter fun f => IsBindable f := by
    rw [planned, List.filter_filter]
    simp only [Bool.decide_and]
  rw [signatures_planConstructors db h, hfilter, flatMap_eq_flatMap_filter_iff]
  simp only [planned, List.mem_filter, decide_eq_true_eq, decide_eq_false_iff_not, signaturesOf_ne_nil,
    imp_false, and_imp, not_not]
  refine forall₂_congr fun f _ => ⟨fun hbound hnobind hoffered => ?_, fun hnot hoffered => ⟨hoffered.1, ?_⟩⟩
  · rw [(hbound hoffered).2] at hnobind
    cases hnobind
  · exact Bool.eq_false_of_not_eq_true fun hnobind => hnot hnobind hoffered

/-- A signature is contributed by a constructor that is not deleted. -/
theorem exists_of_mem_signatures {types : List String} (h : types ∈ (planConstructors db c).signatures) :
    ∃ f ∈ c.constructors, f.deleted = false ∧ types ∈ signaturesOf f := by
  by_cases hcreatable : Creatable c
  · rw [signatures_planConstructors db hcreatable] at h
    obtain ⟨f, hf, htypes⟩ := List.mem_flatMap.1 h
    obtain ⟨hf, hoffered⟩ := List.mem_filter.1 hf
    exact ⟨f, hf, (of_decide_eq_true hoffered).1, htypes⟩
  · rw [planConstructors_of_not_creatable db hcreatable] at h
    cases h

end Binding

end ScriptBindings
