import Mathlib
import ScriptBindings.Emit.Names
import ScriptBindings.Name.Casing

/-!
# Words that are run together

The words of a text stand between characters that are left out, the gaps.  They are run together by writing
them one behind the other, each with its first letter in upper case.  Reading from left to right, all that has to
be remembered is whether the word at hand has got its upper-case letter.  The words can be told from the result if
each one begins with a letter and has no upper-case letter behind it.
-/

namespace ScriptBindings.Name

variable {gap mark : Char → Bool} {c : Char} {s t : List Char} {texts words others : List (List Char)}

/-- The words of a text, each with its first letter in upper case. -/
def capitalWords (gap : Char → Bool) (s : List Char) : List (List Char) :=
  ((s.splitOnP gap).filter (· ≠ [])).map capitalizeChars

/-- Run the words of a text together, from left to right: has the word at hand got its upper-case letter? -/
def runTogether (gap : Char → Bool) : Bool → List Char → List Char
  | _, [] => []
  | raised, c :: s =>
      if gap c then runTogether gap false s
      else if !raised && c.isAlpha then c.toUpper :: runTogether gap true s
      else c :: runTogether gap raised s

/-! ## One character at a time -/

/-- A character is a gap, a letter, or another character of a word. -/
theorem gap_or_letter_or_other (gap : Char → Bool) (c : Char) :
    gap c = true ∨ (gap c = false ∧ c.isAlpha = true) ∨ (gap c = false ∧ c.isAlpha = false) := by
  cases gap c <;> cases c.isAlpha <;> simp

theorem runTogether_gap (raised : Bool) (h : gap c = true) :
    runTogether gap raised (c :: s) = runTogether gap false s := by
  rw [runTogether, if_pos h]

/-- A letter is in upper case at the beginning of a word and as it is behind it. -/
theorem runTogether_letter (raised : Bool) (h : gap c = false) (hletter : c.isAlpha = true) :
    runTogether gap raised (c :: s) = (if raised then c else c.toUpper) :: runTogether gap true s := by
  cases raised <;> simp [runTogether, h, hletter]

theorem runTogether_other (raised : Bool) (h : gap c = false) (hletter : c.isAlpha = false) :
    runTogether gap raised (c :: s) = c :: runTogether gap raised s := by
  simp [runTogether, h, hletter]

theorem capitalizeChars_letter (hletter : c.isAlpha = true) : capitalizeChars (c :: s) = c.toUpper :: s := by
  rw [capitalizeChars, if_pos hletter]

theorem capitalizeChars_other (hletter : c.isAlpha = false) :
    capitalizeChars (c :: s) = c :: capitalizeChars s := by
  rw [capitalizeChars, hletter, if_neg Bool.false_ne_true]

/-! ## Words -/

/-- The word at hand is written out, and then the other ones, each with its first letter in upper case. -/
theorem runTogether_of_splitOnP {word : List Char} (raised : Bool) (h : s.splitOnP gap = word :: words) :
    runTogether gap raised s =
      (if raised then word else capitalizeChars word) ++ words.flatMap capitalizeChars := by
  induction s generalizing raised word words with
  | nil =>
      obtain ⟨rfl, rfl⟩ := List.cons.inj h
      cases raised <;> rfl
  | cons c s ih =>
      obtain ⟨first, rest, hrest⟩ := List.exists_cons_of_ne_nil (List.splitOnP_ne_nil gap s)
      rw [List.splitOnP_cons_eq_if_modifyHead, hrest] at h
      obtain hc | ⟨hc, hletter⟩ | ⟨hc, hletter⟩ := gap_or_letter_or_other gap c
      · -- A gap ends the word at hand, and nothing of it is left.
        rw [if_pos hc] at h
        obtain ⟨rfl, rfl⟩ := List.cons.inj h
        rw [runTogether_gap raised hc, ih false hrest]
        cases raised <;> rfl
      · rw [hc, if_neg Bool.false_ne_true] at h
        obtain ⟨rfl, rfl⟩ := List.cons.inj h
        rw [runTogether_letter raised hc hletter, ih true hrest, capitalizeChars_letter hletter]
        cases raised <;> rfl
      · rw [hc, if_neg Bool.false_ne_true] at h
        obtain ⟨rfl, rfl⟩ := List.cons.inj h
        rw [runTogether_other raised hc hletter, ih raised hrest, capitalizeChars_other hletter]
        cases raised <;> rfl

theorem runTogether_eq_flatMap (gap : Char → Bool) (s : List Char) :
    runTogether gap false s = (s.splitOnP gap).flatMap capitalizeChars := by
  obtain ⟨word, words, hwords⟩ := List.exists_cons_of_ne_nil (List.splitOnP_ne_nil gap s)
  rw [runTogether_of_splitOnP false hwords, hwords]
  rfl

/-- A loader is called after the kind of an entity and the words of its name, which are letters and digits. -/
theorem loaderName_eq (kind name : String) : Emit.loaderName kind name =
    kind ++ String.ofList (runTogether (fun c => !c.isAlphanum) false name.toList) := by
  rw [← String.toList_inj, Emit.loaderName, String.toList_append, String.toList_append, String.toList_join,
    String.toList_ofList, runTogether_eq_flatMap]
  simp [capitalize, List.flatMap_map]

/-- Empty words leave nothing. -/
theorem flatten_capitalWords (gap : Char → Bool) (s : List Char) :
    (capitalWords gap s).flatten = runTogether gap false s := by
  rw [runTogether_eq_flatMap, capitalWords]
  induction s.splitOnP gap with
  | nil => rfl
  | cons word words ih =>
      by_cases hword : word = []
      · rw [List.filter_cons_of_neg (by simpa using hword), ih, hword]
        rfl
      · rw [List.filter_cons_of_pos (by simpa using hword), List.map_cons, List.flatten_cons, ih]
        rfl

/-- A text without gaps is one word. -/
theorem capitalWords_of_forall (hs : s ≠ []) (h : ∀ c ∈ s, gap c = false) :
    capitalWords gap s = [capitalizeChars s] := by
  rw [capitalWords, List.splitOnP_eq_singleton h, List.filter_cons_of_pos (by simpa using hs)]
  rfl

/-! ## Texts with their first letter in upper case -/

/-- A text whose first letter is in upper case. -/
def IsCapital (s : List Char) : Prop :=
  capitalizeChars s = s

theorem isCapital_nil : IsCapital [] := rfl

theorem isCapital_letter_iff (hletter : c.isAlpha = true) : IsCapital (c :: s) ↔ c.toUpper = c := by
  rw [IsCapital, capitalizeChars_letter hletter, List.cons_eq_cons, and_iff_left rfl]

theorem isCapital_other_iff (hletter : c.isAlpha = false) : IsCapital (c :: s) ↔ IsCapital s := by
  rw [IsCapital, capitalizeChars_other hletter, List.cons_eq_cons, and_iff_right rfl, IsCapital]

theorem isCapital_runTogether (gap : Char → Bool) (s : List Char) : IsCapital (runTogether gap false s) := by
  induction s with
  | nil => exact isCapital_nil
  | cons c s ih =>
      obtain hc | ⟨hc, hletter⟩ | ⟨hc, hletter⟩ := gap_or_letter_or_other gap c
      · rwa [runTogether_gap false hc]
      · rw [runTogether_letter false hc hletter]
        rw [← Char.isAlpha_toUpper_eq_isAlpha] at hletter
        exact (isCapital_letter_iff hletter).2 (Char.toUpper_toUpper_eq_toUpper c)
      · rw [runTogether_other false hc hletter]
        exact (isCapital_other_iff hletter).2 ih

/-- Where the first letter is in upper case, it does not matter whether it is in the word at hand. -/
theorem runTogether_of_isCapital (raised : Bool) (h : IsCapital t) :
    runTogether gap raised t = runTogether gap false t := by
  induction t with
  | nil => cases raised <;> rfl
  | cons c t ih =>
      obtain hc | ⟨hc, hletter⟩ | ⟨hc, hletter⟩ := gap_or_letter_or_other gap c
      · rw [runTogether_gap raised hc, runTogether_gap false hc]
      · rw [runTogether_letter raised hc hletter, runTogether_letter false hc hletter,
          (isCapital_letter_iff hletter).1 h]
        cases raised <;> rfl
      · rw [runTogether_other raised hc hletter, runTogether_other false hc hletter,
          ih ((isCapital_other_iff hletter).1 h)]

theorem runTogether_append (raised : Bool) (s : List Char) (h : IsCapital t) :
    runTogether gap raised (s ++ t) = runTogether gap raised s ++ runTogether gap false t := by
  induction s generalizing raised with
  | nil => exact runTogether_of_isCapital raised h
  | cons c s ih =>
      rw [List.cons_append]
      obtain hc | ⟨hc, hletter⟩ | ⟨hc, hletter⟩ := gap_or_letter_or_other gap c
      · rw [runTogether_gap raised hc, runTogether_gap raised hc, ih]
      · rw [runTogether_letter raised hc hletter, runTogether_letter raised hc hletter, ih, List.cons_append]
      · rw [runTogether_other raised hc hletter, runTogether_other raised hc hletter, ih, List.cons_append]

theorem IsCapital.append (hs : IsCapital s) (ht : IsCapital t) : IsCapital (s ++ t) := by
  induction s with
  | nil => exact ht
  | cons c s ih =>
      rw [List.cons_append]
      cases hletter : c.isAlpha with
      | true => exact (isCapital_letter_iff hletter).2 ((isCapital_letter_iff hletter).1 hs)
      | false => exact (isCapital_other_iff hletter).2 (ih ((isCapital_other_iff hletter).1 hs))

theorem isCapital_flatten (h : ∀ t ∈ texts, IsCapital t) : IsCapital texts.flatten := by
  induction texts with
  | nil => exact isCapital_nil
  | cons t texts ih =>
      rw [List.flatten_cons]
      exact (h t List.mem_cons_self).append (ih fun u hu => h u (List.mem_cons_of_mem _ hu))

theorem runTogether_flatten (h : ∀ t ∈ texts, IsCapital t) :
    runTogether gap false texts.flatten = texts.flatMap (runTogether gap false) := by
  induction texts with
  | nil => rfl
  | cons t texts ih =>
      have htexts : ∀ u ∈ texts, IsCapital u := fun u hu => h u (List.mem_cons_of_mem _ hu)
      rw [List.flatten_cons, runTogether_append false t (isCapital_flatten htexts), ih htexts,
        List.flatMap_cons]

/-! ## Running together once more -/

/-- Gaps may be changed into other gaps. -/
theorem runTogether_map {f : Char → Char} (hf : ∀ c, gap (f c) = false → f c = c) (raised : Bool)
    (s : List Char) : runTogether gap raised (s.map f) = runTogether (gap ∘ f) raised s := by
  induction s generalizing raised with
  | nil => rfl
  | cons c s ih =>
      rw [List.map_cons]
      obtain hc | ⟨hc, hletter⟩ | ⟨hc, hletter⟩ := gap_or_letter_or_other (gap ∘ f) c
      · have hfc : gap (f c) = true := hc
        rw [runTogether_gap raised hc, runTogether_gap raised hfc, ih]
      · have hkept : gap c = false := hf c hc ▸ hc
        rw [runTogether_letter raised hc hletter, hf c hc, runTogether_letter raised hkept hletter, ih]
      · have hkept : gap c = false := hf c hc ▸ hc
        rw [runTogether_other raised hc hletter, hf c hc, runTogether_other raised hkept hletter, ih]

/-- The first letter of a text is the first one of a word. -/
theorem runTogether_capitalizeChars (hgap : ∀ c, c.isAlpha = true → gap c = false) (s : List Char) :
    runTogether gap false (capitalizeChars s) = runTogether gap false s := by
  induction s with
  | nil => rfl
  | cons c s ih =>
      cases hletter : c.isAlpha with
      | true =>
          have hupper : c.toUpper.isAlpha = true := by rwa [Char.isAlpha_toUpper_eq_isAlpha]
          rw [capitalizeChars_letter hletter, runTogether_letter false (hgap _ hupper) hupper,
            runTogether_letter false (hgap c hletter) hletter]
          simp
      | false =>
          rw [capitalizeChars_other hletter]
          cases hc : gap c with
          | true => rw [runTogether_gap false hc, runTogether_gap false hc, ih]
          | false => rw [runTogether_other false hc hletter, runTogether_other false hc hletter, ih]

/-- If every gap is one the second time too, only the second time counts.  A word has got its letter if it has got
it both times: a gap of the first time is gone the second time, but the letter behind it is in upper case. -/
theorem runTogether_runTogether (hgap : ∀ c, gap c = true → mark c = true)
    (hmark : ∀ c, c.isAlpha = true → mark c = false) (first second : Bool) (s : List Char) :
    runTogether mark second (runTogether gap first s) = runTogether mark (first && second) s := by
  induction s generalizing first second with
  | nil => rfl
  | cons c s ih =>
      cases hletter : c.isAlpha with
      | true =>
          have hupper : c.toUpper.isAlpha = true := by rwa [Char.isAlpha_toUpper_eq_isAlpha]
          have hc : gap c = false := Bool.eq_false_iff.2 fun h =>
            absurd (hgap c h) (Bool.eq_false_iff.1 (hmark c hletter))
          rw [runTogether_letter first hc hletter, runTogether_letter _ (hmark c hletter) hletter]
          cases first with
          | true =>
              rw [if_pos rfl, runTogether_letter second (hmark c hletter) hletter, ih]
              rfl
          | false =>
              -- The letter is in upper case the second time, so that it stays the same wherever it stands.
              rw [if_neg Bool.false_ne_true, runTogether_letter second (hmark _ hupper) hupper, ih]
              simp
      | false =>
          cases hc : gap c with
          | true => rw [runTogether_gap first hc, runTogether_gap _ (hgap c hc), ih, Bool.false_and]
          | false =>
              rw [runTogether_other first hc hletter]
              cases hm : mark c with
              | true => rw [runTogether_gap second hm, runTogether_gap _ hm, ih, Bool.and_false]
              | false => rw [runTogether_other second hm hletter, runTogether_other _ hm hletter, ih]

/-! ## Telling the words again -/

/-- A word that can be told where it begins and ends: an upper-case letter, and none behind it. -/
def IsPlainWord (w : List Char) : Prop :=
  ∃ c s, w = c :: s ∧ c.isUpper = true ∧ ∀ d ∈ s, d.isUpper = false

/-- The first word ends where the next upper-case letter stands. -/
theorem takeWhile_append_flatten (hs : ∀ d ∈ s, d.isUpper = false) (hwords : ∀ w ∈ words, IsPlainWord w) :
    (s ++ words.flatten).takeWhile (!·.isUpper) = s := by
  have hnext : words.flatten.takeWhile (!·.isUpper) = [] := by
    cases words with
    | nil => rfl
    | cons w words =>
        obtain ⟨c, s, rfl, hc, -⟩ := hwords w List.mem_cons_self
        rw [List.flatten_cons, List.cons_append, List.takeWhile_cons, hc]
        rfl
  rw [List.takeWhile_append_of_pos (by simpa using hs), hnext, List.append_nil]

theorem eq_of_flatten_eq (hwords : ∀ w ∈ words, IsPlainWord w) (hothers : ∀ w ∈ others, IsPlainWord w)
    (h : words.flatten = others.flatten) : words = others := by
  induction words generalizing others with
  | nil =>
      cases others with
      | nil => rfl
      | cons w others =>
          obtain ⟨c, s, rfl, -⟩ := hothers w List.mem_cons_self
          cases h
  | cons w words ih =>
      obtain ⟨c, s, rfl, -, hs⟩ := hwords w List.mem_cons_self
      cases others with
      | nil => cases h
      | cons v others =>
          obtain ⟨d, t, rfl, -, ht⟩ := hothers v List.mem_cons_self
          have hbehind : ∀ u ∈ words, IsPlainWord u := fun u hu => hwords u (List.mem_cons_of_mem _ hu)
          have hbehind' : ∀ u ∈ others, IsPlainWord u := fun u hu => hothers u (List.mem_cons_of_mem _ hu)
          rw [List.flatten_cons, List.flatten_cons, List.cons_append, List.cons_append] at h
          obtain ⟨rfl, hrest⟩ := List.cons.inj h
          -- The first words end at the next upper-case letter, in both rows at the same place.
          have hfirst : s = t := by
            rw [← takeWhile_append_flatten hs hbehind, hrest, takeWhile_append_flatten ht hbehind']
          rw [hfirst, List.append_cancel_left_eq] at hrest
          rw [hfirst, ih hbehind hbehind' hrest]

end ScriptBindings.Name
