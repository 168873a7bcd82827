import Mathlib

/-!
# Steps that may fail

A chain of steps has a result if and only if each of them has one.  What was read without a fault is taken
apart with these equivalences, one step after the other.
-/

namespace ScriptBindings

variable {ε α β : Type} {b : β}

theorem bind_eq_ok_iff {x : Except ε α} {f : α → Except ε β} :
    x >>= f = .ok b ↔ ∃ a, x = .ok a ∧ f a = .ok b := by
  cases x with
  | error e => simp [bind, Except.bind]
  | ok a => simp [bind, Except.bind]

theorem bind_eq_error_iff {x : Except ε α} {f : α → Except ε β} {e : ε} :
    x >>= f = .error e ↔ x = .error e ∨ ∃ a, x = .ok a ∧ f a = .error e := by
  cases x with
  | error e' => simp [bind, Except.bind]
  | ok a => simp [bind, Except.bind]

theorem pure_eq_ok_iff {a : β} : (pure a : Except ε β) = .ok b ↔ a = b := by
  simp [pure, Except.pure]

theorem map_eq_ok_iff {x : Except ε α} {f : α → β} : x.map f = .ok b ↔ ∃ a, x = .ok a ∧ f a = b := by
  cases x with
  | error e => simp [Except.map]
  | ok a => simp [Except.map]

theorem map_eq_error_iff {x : Except ε α} {f : α → β} {e : ε} : x.map f = .error e ↔ x = .error e := by
  cases x <;> simp [Except.map]

theorem exists_of_isOk {x : Except ε α} (h : x.isOk = true) : ∃ a, x = .ok a := by
  cases x with
  | error e => cases h
  | ok a => exact ⟨a, rfl⟩

/-- A result that passes a test is one. -/
theorem exists_of_any_toOption {x : Except ε α} {p : α → Bool} (h : x.toOption.any p = true) :
    ∃ a, x = .ok a ∧ p a = true := by
  cases x with
  | error e => cases h
  | ok a => exact ⟨a, rfl, h⟩

/-- Several texts are read if each of them is. -/
theorem mapM_cons_eq_ok_iff {f : α → Except ε β} {a : α} {as : List α} {bs : List β} :
    (a :: as).mapM f = .ok bs ↔ ∃ b rest, f a = .ok b ∧ as.mapM f = .ok rest ∧ bs = b :: rest := by
  simp only [List.mapM_cons, bind_eq_ok_iff, pure_eq_ok_iff]
  constructor
  · rintro ⟨b, hb, rest, hrest, rfl⟩
    exact ⟨b, rest, hb, hrest, rfl⟩
  · rintro ⟨b, rest, hb, hrest, rfl⟩
    exact ⟨b, hb, rest, hrest, rfl⟩

theorem mapM_nil_eq_ok_iff {f : α → Except ε β} {bs : List β} :
    ([] : List α).mapM f = .ok bs ↔ bs = [] := by
  rw [List.mapM_nil, pure_eq_ok_iff, eq_comm]

/-! ## Several steps -/

/-- What holds at first and is kept by every step holds at last. -/
theorem of_foldlM_eq_ok {σ : Type} {P : σ → Prop} {f : σ → α → Except ε σ} {as : List α} {x y : σ} (hx : P x)
    (hstep : ∀ a ∈ as, ∀ x y, P x → f x a = .ok y → P y) (h : as.foldlM f x = .ok y) : P y := by
  induction as generalizing x with
  | nil =>
      cases pure_eq_ok_iff.1 h
      exact hx
  | cons a as ih =>
      obtain ⟨hfirst, hrest⟩ := List.forall_mem_cons.1 hstep
      rw [List.foldlM_cons, bind_eq_ok_iff] at h
      obtain ⟨next, hnext, h⟩ := h
      exact ih (hfirst x next hx hnext) hrest h

section Steps

variable {f : α → Except ε β}

theorem mapM_eq_ok_iff {as : List α} {bs : List β} :
    as.mapM f = .ok bs ↔ List.Forall₂ (fun a b => f a = .ok b) as bs := by
  induction as generalizing bs with
  | nil => rw [mapM_nil_eq_ok_iff, List.forall₂_nil_left_iff]
  | cons a as ih =>
      rw [mapM_cons_eq_ok_iff, List.forall₂_cons_left_iff]
      constructor
      · rintro ⟨b, rest, hb, hrest, rfl⟩
        exact ⟨b, rest, hb, ih.1 hrest, rfl⟩
      · rintro ⟨b, rest, hb, hrest, rfl⟩
        exact ⟨b, rest, hb, ih.2 hrest, rfl⟩

/-- Steps with the same results, if they have any, have the same results together. -/
theorem mapM_unique {g : α → Except ε β} {as : List α} {bs cs : List β}
    (h : ∀ a ∈ as, ∀ b c, f a = .ok b → g a = .ok c → b = c) (hf : as.mapM f = .ok bs)
    (hg : as.mapM g = .ok cs) : bs = cs := by
  rw [mapM_eq_ok_iff] at hf hg
  induction hf generalizing cs with
  | nil =>
      cases hg
      rfl
  | @cons a b as bs hb _ ih =>
      cases hg with
      | @cons _ c _ cs hc hrest =>
          rw [h a List.mem_cons_self b c hb hc, ih (fun a ha => h a (List.mem_cons_of_mem _ ha)) hrest]

/-- Steps that agree have the same results together. -/
theorem mapM_congr {g : α → Except ε β} {as : List α} (h : ∀ a ∈ as, f a = g a) :
    as.mapM f = as.mapM g := by
  induction as with
  | nil => rfl
  | cons a as ih =>
      rw [List.mapM_cons, List.mapM_cons, h a List.mem_cons_self,
        ih fun b hb => h b (List.mem_cons_of_mem a hb)]

/-- The fault of several steps is that of the first one that fails. -/
theorem mapM_eq_error_iff {as : List α} {e : ε} :
    as.mapM f = .error e ↔ ∃ before a after, as = before ++ a :: after ∧
      (∀ b ∈ before, ∃ c, f b = .ok c) ∧ f a = .error e := by
  induction as with
  | nil => simp [pure, Except.pure]
  | cons a as ih =>
      cases hfirst : f a with
      | error e' =>
          -- The first step fails, so it is the one.
          have hfail : (a :: as).mapM f = .error e' := by
            rw [List.mapM_cons, hfirst]
            rfl
          rw [hfail, Except.error.injEq]
          constructor
          · rintro rfl
            exact ⟨[], a, as, rfl, by simp, hfirst⟩
          · rintro ⟨_ | ⟨c, before⟩, b, after, hsplit, hbefore, hb⟩
            · obtain ⟨rfl, -⟩ := List.cons.inj hsplit
              exact Except.error.inj (hfirst.symm.trans hb)
            · obtain ⟨rfl, -⟩ := List.cons.inj hsplit
              obtain ⟨d, hd⟩ := hbefore a List.mem_cons_self
              cases hfirst.symm.trans hd
      | ok b =>
          -- The first step passes, so the one that fails is among the others.
          have hrest : (a :: as).mapM f = .error e ↔ as.mapM f = .error e := by
            rw [List.mapM_cons, hfirst]
            cases as.mapM f <;> simp [bind, Except.bind, pure, Except.pure]
          rw [hrest, ih]
          constructor
          · rintro ⟨before, c, after, rfl, hbefore, hc⟩
            refine ⟨a :: before, c, after, rfl, fun d hd => ?_, hc⟩
            rcases List.mem_cons.1 hd with rfl | hd
            · exact ⟨b, hfirst⟩
            · exact hbefore d hd
          · rintro ⟨_ | ⟨d, before⟩, c, after, hsplit, hbefore, hc⟩
            · obtain ⟨rfl, -⟩ := List.cons.inj hsplit
              cases hfirst.symm.trans hc
            · obtain ⟨-, hsplit⟩ := List.cons.inj hsplit
              exact ⟨before, c, after, hsplit, fun x hx => hbefore x (List.mem_cons_of_mem _ hx), hc⟩

end Steps

/-- Everything on the right is in the relation with something on the left. -/
theorem exists_of_mem_right {R : α → β → Prop} {as : List α} {bs : List β}
    (h : List.Forall₂ R as bs) (hb : b ∈ bs) : ∃ a ∈ as, R a b := by
  induction h with
  | nil => cases hb
  | @cons a _ _ _ hhead _ ih =>
      rcases List.mem_cons.1 hb with rfl | hb
      · exact ⟨a, List.mem_cons_self, hhead⟩
      · obtain ⟨a', ha', hab⟩ := ih hb
        exact ⟨a', List.mem_cons_of_mem _ ha', hab⟩

end ScriptBindings
