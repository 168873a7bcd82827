import Mathlib
import ScriptBindings.Text.Blank

/-!
# Texts with single spaces

A text is bare if it neither begins nor ends with a blank, and spaced if its blanks are spaces and no
two of them stand side by side.  Trimming makes a text bare and changes no bare text.  Squeezing blanks
changes exactly the texts that are not both bare and spaced.

Spacing is kept by every piece of a text; bareness is not, and is regained by trimming.
-/

namespace ScriptBindings.Text

/-! ## Characters that are listed

There are finitely many characters, but what is said about those of a list is decided by the list. -/

section Listed

variable {p : Char → Prop} [DecidablePred p]

instance decidableForallChars (s : List Char) : Decidable (∀ c ∈ s, p c) :=
  List.decidableBAll p s

instance decidableExistsChars (s : List Char) : Decidable (∃ c ∈ s, p c) :=
  List.decidableBEx p s

instance decidableForallChar? (c : Option Char) : Decidable (∀ a ∈ c, p a) :=
  Option.decidableForallMem c

instance decidableExistsChar? (c : Option Char) : Decidable (∃ a ∈ c, p a) :=
  Option.decidableExistsMem c

end Listed

/-! ## Bare and spaced texts -/

/-- Neither the first nor the last character is blank. -/
def Bare (s : List Char) : Prop :=
  (∀ c ∈ s.head?, isBlank c = false) ∧ ∀ c ∈ s.getLast?, isBlank c = false

/-- Every blank is a space, and no blank follows another one. -/
def Spaced (s : List Char) : Prop :=
  (∀ c ∈ s, isBlank c = true → c = ' ') ∧
    s.IsChain fun a b => ¬ (isBlank a = true ∧ isBlank b = true)

@[simp]
theorem isBlank_space : isBlank ' ' = true := rfl

/-! ## Trimming -/

theorem bare_nil : Bare [] := ⟨by simp, by simp⟩

/-- A text is bare if it begins and ends with texts that do so without a blank. -/
theorem bare_of_ends {a b : List Char} (middle : List Char) (hane : a ≠ []) (hbne : b ≠ [])
    (ha : ∀ c ∈ a.head?, isBlank c = false) (hb : ∀ c ∈ b.getLast?, isBlank c = false) :
    Bare (a ++ (middle ++ b)) := by
  constructor
  · rwa [List.head?_append_of_ne_nil a hane]
  · rwa [← List.append_assoc, List.getLast?_append_of_ne_nil _ hbne]

theorem trimStart_eq_self {s : List Char} (h : ∀ c ∈ s.head?, isBlank c = false) :
    trimStart s = s := by
  cases s with
  | nil => rfl
  | cons c s => exact trimStart_of_not_blank (h c rfl) s

theorem trimEnd_eq_self {s : List Char} (h : ∀ c ∈ s.getLast?, isBlank c = false) :
    trimEnd s = s := by
  rcases s.eq_nil_or_concat with rfl | ⟨s', c, rfl⟩
  · rfl
  · rw [List.concat_eq_append]
    exact trimEnd_append_of_not_blank (h c (by simp)) s'

theorem Bare.trim_eq {s : List Char} (h : Bare s) : trim s = s := by
  rw [trim, trimStart_eq_self h.1, trimEnd_eq_self h.2]

theorem mem_takeWhile_blank {s : List Char} {c : Char} (h : c ∈ s.takeWhile isBlank) :
    isBlank c = true :=
  List.all_eq_true.1 List.all_takeWhile c h

/-- What trimming at the front removes is blank. -/
theorem exists_trimStart (s : List Char) :
    ∃ front, (∀ c ∈ front, isBlank c = true) ∧ s = front ++ trimStart s :=
  ⟨s.takeWhile isBlank, fun _ hc => mem_takeWhile_blank hc,
    (List.takeWhile_append_dropWhile).symm⟩

/-- What trimming at the back removes is blank. -/
theorem exists_trimEnd (s : List Char) :
    ∃ back, (∀ c ∈ back, isBlank c = true) ∧ s = trimEnd s ++ back := by
  refine ⟨(s.reverse.takeWhile isBlank).reverse, fun c hc => ?_, ?_⟩
  · exact mem_takeWhile_blank (List.mem_reverse.1 hc)
  · rw [trimEnd, ← List.reverse_append, List.takeWhile_append_dropWhile, List.reverse_reverse]

theorem exists_trim (s : List Char) :
    ∃ front back, (∀ c ∈ front, isBlank c = true) ∧ (∀ c ∈ back, isBlank c = true) ∧
      s = front ++ trim s ++ back := by
  obtain ⟨front, hfront, hs⟩ := exists_trimStart s
  obtain ⟨back, hback, ht⟩ := exists_trimEnd (trimStart s)
  refine ⟨front, back, hfront, hback, ?_⟩
  rw [trim, List.append_assoc, ← ht]
  exact hs

theorem head?_trimStart (s : List Char) : ∀ c ∈ (trimStart s).head?, isBlank c = false := by
  intro c hc
  have h := List.head?_dropWhile_not isBlank s
  rw [trimStart] at hc
  rw [Option.mem_def.1 hc] at h
  simpa using h

theorem getLast?_trimEnd (s : List Char) : ∀ c ∈ (trimEnd s).getLast?, isBlank c = false := by
  intro c hc
  have h := head?_trimStart s.reverse
  rw [trimEnd, List.getLast?_reverse] at hc
  exact h c hc

/-- A text that starts like a trimmed one starts without a blank. -/
theorem head?_trimEnd {s : List Char} (h : ∀ c ∈ s.head?, isBlank c = false) :
    ∀ c ∈ (trimEnd s).head?, isBlank c = false := by
  intro c hc
  obtain ⟨back, -, hs⟩ := exists_trimEnd s
  refine h c ?_
  rw [hs, List.head?_append, Option.mem_def.1 hc]
  rfl

theorem bare_trim (s : List Char) : Bare (trim s) :=
  ⟨head?_trimEnd (head?_trimStart s), getLast?_trimEnd _⟩

/-! ## Blanks at the ends -/

section Blanks

variable {gap : List Char}

theorem trimStart_blanks_append (h : ∀ c ∈ gap, isBlank c = true) (s : List Char) :
    trimStart (gap ++ s) = trimStart s :=
  List.dropWhile_append_of_pos h

theorem trimEnd_append_blanks (h : ∀ c ∈ gap, isBlank c = true) (s : List Char) :
    trimEnd (s ++ gap) = trimEnd s := by
  rw [trimEnd, List.reverse_append, List.dropWhile_append_of_pos fun c hc => h c (List.mem_reverse.1 hc)]
  rfl

theorem trim_blanks_append (h : ∀ c ∈ gap, isBlank c = true) (s : List Char) : trim (gap ++ s) = trim s := by
  rw [trim, trimStart_blanks_append h]
  rfl

theorem trim_eq_nil_iff {s : List Char} : trim s = [] ↔ ∀ c ∈ s, isBlank c = true := by
  constructor
  · intro h c hc
    obtain ⟨front, back, hfront, hback, hs⟩ := exists_trim s
    rw [hs, h, List.append_nil, List.mem_append] at hc
    exact hc.elim (hfront c) (hback c)
  · intro h
    rw [← List.append_nil s, trim_blanks_append h, trim_nil]

end Blanks

/-! ## Spacing -/

theorem spaced_nil : Spaced [] := ⟨by simp, .nil⟩

theorem Spaced.part {s t : List Char} (h : Spaced s) (ht : t <:+: s) : Spaced t :=
  ⟨fun c hc => h.1 c (ht.subset hc), List.IsChain.infix h.2 ht⟩

theorem Spaced.trim {s : List Char} (h : Spaced s) : Spaced (trim s) := by
  obtain ⟨front, back, -, -, hs⟩ := exists_trim s
  exact h.part ⟨front, back, hs.symm⟩

/-- Two spaced texts are spaced together unless two blanks meet. -/
theorem Spaced.append {a b : List Char} (ha : Spaced a) (hb : Spaced b)
    (h : ∀ x ∈ a.getLast?, ∀ y ∈ b.head?, ¬ (isBlank x = true ∧ isBlank y = true)) :
    Spaced (a ++ b) := by
  refine ⟨fun c hc => ?_, List.isChain_append.2 ⟨ha.2, hb.2, h⟩⟩
  rcases List.mem_append.1 hc with hc | hc
  · exact ha.1 c hc
  · exact hb.1 c hc

theorem spaced_of_not_blank {s : List Char} (h : ∀ c ∈ s, isBlank c = false) : Spaced s := by
  induction s with
  | nil => exact spaced_nil
  | cons c s ih =>
      have hc : isBlank c = false := h c (by simp)
      have hs : Spaced s := ih fun x hx => h x (by simp [hx])
      refine Spaced.append (a := [c]) ⟨?_, by simp⟩ hs ?_
      · intro x hx hblank
        rw [List.mem_singleton.1 hx, hc] at hblank
        contradiction
      · intro x hx y _ hblank
        have hxc : x = c := by simpa using hx.symm
        rw [hxc, hc] at hblank
        exact Bool.false_ne_true hblank.1

/-! ## Words joined by spaces -/

/-- Words without blanks give a bare and spaced text when they are joined by single spaces. -/
theorem bare_spaced_intercalate {ws : List (List Char)}
    (h : ∀ w ∈ ws, w ≠ [] ∧ ∀ c ∈ w, isBlank c = false) :
    Bare ([' '].intercalate ws) ∧ Spaced ([' '].intercalate ws) := by
  have bare_word : ∀ w ∈ ws, Bare w := fun w hw =>
    ⟨fun c hc => (h w hw).2 c (List.mem_of_mem_head? hc),
      fun c hc => (h w hw).2 c (List.mem_of_mem_getLast? hc)⟩
  induction ws with
  | nil => exact ⟨bare_nil, spaced_nil⟩
  | cons w ws ih =>
      have hw := h w (by simp)
      have hrest := ih (fun v hv => h v (by simp [hv])) (fun v hv => bare_word v (by simp [hv]))
      cases ws with
      | nil =>
          rw [List.intercalate_singleton]
          exact ⟨bare_word w (by simp), spaced_of_not_blank hw.2⟩
      | cons v vs =>
          have hne : [' '].intercalate (v :: vs) ≠ [] := by
            have hv := (h v (by simp)).1
            cases vs <;> simp [List.intercalate_cons_cons, hv]
          rw [List.intercalate_cons_cons]
          generalize [' '].intercalate (v :: vs) = rest at hrest hne
          have hlast : ∀ x ∈ w.getLast?, isBlank x = false := (bare_word w (by simp)).2
          rw [List.append_assoc]
          constructor
          · exact bare_of_ends [' '] hw.1 hne (bare_word w (by simp)).1 hrest.1.2
          · refine (spaced_of_not_blank hw.2).append ?_ ?_
            · refine Spaced.append (a := [' ']) ⟨by simp, by simp⟩ hrest.2 ?_
              intro x _ y hy hblank
              rw [hrest.1.1 y hy] at hblank
              exact Bool.false_ne_true hblank.2
            · intro x hx y _ hblank
              rw [hlast x hx] at hblank
              exact Bool.false_ne_true hblank.1

/-- No separator is left in a piece between separators. -/
theorem not_of_mem_splitOnP {p : Char → Bool} {s w : List Char} (hw : w ∈ s.splitOnP p) :
    ∀ c ∈ w, p c = false := by
  induction s generalizing w with
  | nil =>
      have hnil : w = [] := by simpa using hw
      simp [hnil]
  | cons b s ih =>
      rw [List.splitOnP_cons_eq_if_modifyHead] at hw
      by_cases hb : p b = true
      · rw [if_pos hb] at hw
        rcases List.mem_cons.1 hw with rfl | hw
        · simp
        · exact ih hw
      -- The character goes to the first piece, so that only this one is new.
      · rw [if_neg hb] at hw
        obtain ⟨v, vs, hv⟩ := List.exists_cons_of_ne_nil (List.splitOnP_ne_nil p s)
        rw [hv, List.modifyHead_cons] at hw
        rcases List.mem_cons.1 hw with rfl | hw
        · intro c hc
          rcases List.mem_cons.1 hc with rfl | hc
          · simpa using hb
          · exact ih (w := v) (by simp [hv]) c hc
        · exact ih (by simp [hv, hw])

theorem collapse_bare_spaced (s : List Char) : Bare (collapse s) ∧ Spaced (collapse s) := by
  refine bare_spaced_intercalate fun w hw => ?_
  obtain ⟨hmem, hne⟩ := List.mem_filter.1 hw
  exact ⟨by simpa using hne, not_of_mem_splitOnP hmem⟩

/-- A text without blanks is one word, if it is not empty. -/
theorem words_of_not_blank {s : List Char} (h : ∀ c ∈ s, isBlank c = false) (hne : s ≠ []) :
    words s = [s] := by
  rw [words, List.splitOnP_eq_singleton h]
  simp [hne]

/-- The first word of a text ends at its first blank. -/
theorem words_append_blank {w s : List Char} {b : Char} (h : ∀ c ∈ w, isBlank c = false)
    (hne : w ≠ []) (hb : isBlank b = true) : words (w ++ b :: s) = w :: words s := by
  rw [words, List.splitOnP_append_cons_of_forall_mem h b hb, words]
  simp [hne]

/-- A spaced text with a first word and something behind it: the blank in between is one space, and
what follows is bare again. -/
theorem Bare.of_append_blank {w r : List Char} {b : Char} (hb : Bare (w ++ b :: r))
    (hs : Spaced (w ++ b :: r)) (hblank : isBlank b = true) :
    b = ' ' ∧ r ≠ [] ∧ Bare r ∧ Spaced r := by
  have hr : r ≠ [] := by
    rintro rfl
    have h := hb.2 b (by simp)
    rw [hblank] at h
    contradiction
  refine ⟨hs.1 b (by simp) hblank, hr, ⟨?_, ?_⟩, hs.part ⟨w ++ [b], [], by simp⟩⟩
  · intro c hc
    have hchain := (hs.part (t := b :: r) ⟨w, [], by simp⟩).2
    obtain ⟨r', rfl⟩ : ∃ r', r = c :: r' := by
      cases r with
      | nil => simp at hc
      | cons x r' => exact ⟨r', by simpa using hc⟩
    have hpair := (List.isChain_cons_cons.1 hchain).1
    simpa [hblank] using hpair
  · intro c hc
    refine hb.2 c ?_
    rw [List.getLast?_append_of_ne_nil _ (by simp), List.getLast?_cons_of_ne_nil hr]
    exact hc

/-- A text is its first word, or its first word with a blank and more behind it. -/
theorem exists_first_word (s : List Char) :
    ∃ w, (∀ c ∈ w, isBlank c = false) ∧
      (s = w ∨ ∃ b r, isBlank b = true ∧ s = w ++ b :: r) := by
  refine ⟨s.takeWhile fun c => !isBlank c, fun c hc => ?_, ?_⟩
  · simpa using List.all_eq_true.1 List.all_takeWhile c hc
  · have hsplit := List.takeWhile_append_dropWhile (p := fun c => !isBlank c) (l := s)
    have hhead := List.head?_dropWhile_not (fun c => !isBlank c) s
    cases hrest : s.dropWhile fun c => !isBlank c with
    | nil =>
        rw [hrest, List.append_nil] at hsplit
        exact Or.inl hsplit.symm
    | cons b r =>
        rw [hrest] at hsplit hhead
        exact Or.inr ⟨b, r, by simpa using hhead, hsplit.symm⟩

/-- Squeezing the blanks of a bare and spaced text changes nothing: word by word from the front. -/
theorem collapse_eq_self {s : List Char} (hb : Bare s) (hs : Spaced s) : collapse s = s := by
  induction hlen : s.length using Nat.strong_induction_on generalizing s with
  | _ n ih =>
      obtain ⟨w, hword, rfl | ⟨b, r, hblank, rfl⟩⟩ := exists_first_word s
      · by_cases hne : s = []
        · subst hne
          rfl
        · rw [collapse, words_of_not_blank hword hne, List.intercalate_singleton]
      · obtain ⟨rfl, hr, hbr, hsr⟩ := Bare.of_append_blank hb hs hblank
        have hw : w ≠ [] := by
          rintro rfl
          have h := hb.1 ' ' rfl
          rw [hblank] at h
          cases h
        have hshorter : r.length < n := by
          rw [← hlen]
          simp
          omega
        have hcollapse := ih r.length hshorter hbr hsr rfl
        -- The rest is squeezed to itself, which is not empty, so it has words.
        have hwords : words r ≠ [] := by
          intro h
          rw [collapse, h] at hcollapse
          exact hr hcollapse.symm
        rw [collapse, words_append_blank hword hw hblank,
          List.intercalate_cons_of_ne_nil hwords, ← collapse, hcollapse, List.append_assoc,
          List.singleton_append]

theorem collapse_eq_self_iff {s : List Char} : collapse s = s ↔ Bare s ∧ Spaced s := by
  constructor
  · intro h
    rw [← h]
    exact collapse_bare_spaced s
  · rintro ⟨hb, hs⟩
    exact collapse_eq_self hb hs

end ScriptBindings.Text
