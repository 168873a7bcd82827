import Mathlib
import ScriptBindings.Proofs.CppType.Tokens

/-!
# Qualifiers written and read again

Marks are written one after the other and read from the back, longest first, so a mark can be taken
together with the end of the mark in front of it: `const` and `&` become `const&`.  `glues` names these
pairs.  Reading gives back the qualifiers that were written, around the same core, if no mark glues to
the one in front of it (`Fits.strip_wrap`), and not otherwise (`Fits.unglued_of_strip_wrap`).

A core is what is left when nothing can be taken off any more.  `Fits` collects what a core and the
qualifiers around it satisfy; `strip_eq` says that reading always produces such a pair.
-/

namespace ScriptBindings.Qualifiers

open CppType (leadingWords trailingMarks isIdentChar)

/-! ## Single marks -/

/-- The text ends with a mark, and the mark is not the end of a longer identifier. -/
def EndsIn (mark s : List Char) : Prop :=
  ∃ before, s = before ++ mark ∧ runsOn mark before = false

/-- Read from the back, where a text ends with a mark is visible in its first characters. -/
theorem endsIn_iff_reverse {mark s : List Char} :
    EndsIn mark s ↔ ∃ before, s.reverse = mark.reverse ++ before ∧
      (mark.head?.any isIdentChar && before.head?.any isIdentChar) = false := by
  constructor
  · rintro ⟨before, rfl, hrun⟩
    refine ⟨before.reverse, List.reverse_append, ?_⟩
    rwa [runsOn, ← List.head?_reverse] at hrun
  · rintro ⟨before, hs, hrun⟩
    refine ⟨before.reverse, ?_, ?_⟩
    · rw [← List.reverse_reverse s, hs, List.reverse_append, List.reverse_reverse]
    · rwa [runsOn, List.getLast?_reverse]

theorem takeTrailing?_eq_none_iff {s : List Char} :
    takeTrailing? s = none ↔ ∀ mark ∈ trailingMarks, ¬ EndsIn mark.toList s := by
  rw [takeTrailing?, List.findSome?_eq_none_iff]
  refine forall₂_congr fun mark _ => ?_
  constructor
  · rintro h ⟨before, hs, hrun⟩
    have hcut : Text.beforeTail? mark.toList s = some before :=
      List.isSuffixOf?_eq_some_iff_append_eq.2 hs.symm
    simp [hcut, hrun] at h
  · intro h
    cases hcut : Text.beforeTail? mark.toList s with
    | none => rfl
    | some before =>
        have hs := List.isSuffixOf?_eq_some_iff_append_eq.1 hcut
        by_cases hrun : runsOn mark.toList before = true
        · simp [hrun]
        · exact absurd ⟨before, hs.symm, by simpa using hrun⟩ h

/-- A mark is taken if the text ends with none of the marks that are tried before it. -/
theorem takeTrailing?_of_first {mark : String} {earlier later : List String} (before : List Char)
    (hsplit : trailingMarks = earlier ++ mark :: later)
    (hfirst : ∀ m ∈ earlier, ¬ EndsIn m.toList (before ++ mark.toList))
    (hrun : runsOn mark.toList before = false) :
    takeTrailing? (before ++ mark.toList) = some (mark, Text.trimEnd before) := by
  rw [takeTrailing?, List.findSome?_eq_some_iff]
  refine ⟨earlier, mark, later, hsplit, ?_, fun m hm => ?_⟩
  · have hcut : Text.beforeTail? mark.toList (before ++ mark.toList) = some before :=
      List.isSuffixOf?_eq_some_iff_append_eq.2 rfl
    simp [hcut, hrun]
  · cases hcut : Text.beforeTail? m.toList (before ++ mark.toList) with
    | none => rfl
    | some front =>
        have hs := List.isSuffixOf?_eq_some_iff_append_eq.1 hcut
        by_cases hruns : runsOn m.toList front = true
        · simp [hruns]
        · exact absurd ⟨front, hs.symm, by simpa using hruns⟩ (hfirst m hm)

/-- The marks that are tried before a mark are no ends of it. -/
theorem exists_split_of_mem_trailingMarks : ∀ mark ∈ trailingMarks, ∃ earlier later,
    trailingMarks = earlier ++ mark :: later ∧ ∀ m ∈ earlier, ¬ m.toList <:+ mark.toList := by
  intro mark hm
  refine ⟨trailingMarks.takeWhile (· ≠ mark), (trailingMarks.dropWhile (· ≠ mark)).tail, ?_⟩
  revert mark
  decide

/-- A mark behind a blank is taken, whatever stands in front of the blank. -/
theorem takeTrailing?_apart {mark : String} (hm : mark ∈ trailingMarks) {b : Char}
    (hb : Text.isBlank b = true) (s : List Char) :
    takeTrailing? (s ++ b :: mark.toList) = some (mark, Text.trimEnd s) := by
  have hsolid : ∀ m ∈ trailingMarks, ∀ c ∈ m.toList, Text.isBlank c = false := by decide
  obtain ⟨earlier, later, hmarks, hfirst⟩ := exists_split_of_mem_trailingMarks mark hm
  have htake := takeTrailing?_of_first (s ++ [b]) hmarks (fun m hmem => ?_) ?_
  · rwa [List.append_assoc, List.singleton_append, Text.trimEnd_append_of_blank hb] at htake
  · -- A longer mark would reach over the blank.
    rintro ⟨before, hend, -⟩
    have hsuffix := hfirst m hmem
    rcases List.append_eq_append_iff.1 hend with ⟨more, -, hmore⟩ | ⟨more, hmore, hlong⟩
    · exact hsuffix ⟨more, hmore.symm⟩
    · rcases more.eq_nil_or_concat with rfl | ⟨front, c, rfl⟩
      · exact hsuffix ⟨[], hlong⟩
      · have hends := congrArg List.getLast? hmore
        have hlast : b = c := by simpa using hends
        have hmem' : b ∈ m.toList := by
          rw [hlong, hlast]
          simp
        rw [hsolid m (by rw [hmarks]; simp [hmem]) b hmem'] at hb
        cases hb
  · simp [runsOn, CppType.isIdentChar_of_isBlank hb]

/-- What is taken off the back is a mark, with blanks in front of it. -/
theorem takeTrailing?_eq_some {s rest : List Char} {mark : String}
    (h : takeTrailing? s = some (mark, rest)) :
    mark ∈ trailingMarks ∧ ∃ before, s = before ++ mark.toList ∧
      runsOn mark.toList before = false ∧ rest = Text.trimEnd before := by
  rw [takeTrailing?, List.findSome?_eq_some_iff] at h
  obtain ⟨earlier, m, later, hsplit, htake, -⟩ := h
  cases hcut : Text.beforeTail? m.toList s with
  | none => simp [hcut] at htake
  | some before =>
      have hs := List.isSuffixOf?_eq_some_iff_append_eq.1 hcut
      by_cases hrun : runsOn m.toList before = true
      · simp [hcut, hrun] at htake
      · obtain ⟨rfl, rfl⟩ : m = mark ∧ Text.trimEnd before = rest := by
          simpa [hcut, hrun] using htake
        exact ⟨by simp [hsplit], before, hs.symm, by simpa using hrun, rfl⟩

/-! ## Single words -/

theorem isIdentChar_of_mem_leadingWord {w : String} (hw : w ∈ leadingWords) :
    ∀ c ∈ w.toList, isIdentChar c = true ∧ Text.isBlank c = false := by
  revert w
  decide

theorem takeLeading?_word {w : String} (hw : w ∈ leadingWords) {b : Char} (rest : List Char)
    (hb : Text.isBlank b = true) :
    takeLeading? (w.toList ++ b :: rest) = some (w, Text.trimStart rest) := by
  simp only [leadingWords, List.mem_cons, List.not_mem_nil, or_false] at hw
  have he : Text.isBlank 'e' = false := rfl
  rcases hw with rfl | rfl | rfl | rfl | rfl <;>
    simp [takeLeading?, leadingWords, Text.afterLead?, List.findSome?, List.isPrefixOf?, hb, he]

theorem takeLeading?_eq_some {s rest : List Char} {w : String}
    (h : takeLeading? s = some (w, rest)) :
    w ∈ leadingWords ∧ ∃ b behind, Text.isBlank b = true ∧ s = w.toList ++ b :: behind ∧
      rest = Text.trimStart behind := by
  rw [takeLeading?, List.findSome?_eq_some_iff] at h
  obtain ⟨earlier, v, later, hsplit, htake, -⟩ := h
  split at htake
  · rename_i b behind hcut
    split at htake
    · rename_i hb
      obtain ⟨rfl, rfl⟩ : v = w ∧ Text.trimStart behind = rest := by simpa using htake
      exact ⟨by simp [hsplit], b, behind, hb,
        (List.isPrefixOf?_eq_some_iff_append_eq.1 hcut).symm, rfl⟩
    · contradiction
  · contradiction

theorem takeLeading?_eq_none_iff {s : List Char} :
    takeLeading? s = none ↔
      ∀ w ∈ leadingWords, ∀ b rest, Text.isBlank b = true → s ≠ w.toList ++ b :: rest := by
  constructor
  · rintro h w hw b rest hb rfl
    rw [takeLeading?_word hw rest hb] at h
    contradiction
  · intro h
    cases htake : takeLeading? s with
    | none => rfl
    | some taken =>
        obtain ⟨w, rest⟩ := taken
        obtain ⟨hw, b, behind, hb, hs, -⟩ := takeLeading?_eq_some htake
        exact absurd hs (h w hw b behind hb)

/-- A text behind another one does not make a word in front of it, unless it goes on with the word or
begins with the blank that ends one. -/
theorem takeLeading?_append_eq_none {s x : List Char} (h : takeLeading? s = none)
    (hx : ∀ c ∈ x.head?, isIdentChar c = false)
    (hblank : (∀ c ∈ x.head?, Text.isBlank c = false) ∨ ∀ w ∈ leadingWords, s ≠ w.toList) :
    takeLeading? (s ++ x) = none := by
  rw [takeLeading?_eq_none_iff] at h ⊢
  intro w hw b rest hb heq
  -- If the whole text in front is the word, then the blank behind it is appended.
  have whole : s = w.toList → x = b :: rest → False := by
    rintro hs rfl
    rcases hblank with hblank | hword
    · rw [hblank b rfl] at hb
      contradiction
    · exact hword w hw hs
  -- The word ends in the text that is appended, or in the one in front.
  rcases List.append_eq_append_iff.1 heq with ⟨more, hword, hrest⟩ | ⟨more, hword, hrest⟩
  · cases more with
    | nil => exact whole (by simpa using hword.symm) (by simpa using hrest)
    | cons c more =>
        have hc : isIdentChar c = true :=
          (isIdentChar_of_mem_leadingWord hw c (by simp [hword])).1
        rw [hx c (by simp [hrest])] at hc
        contradiction
  · cases more with
    | nil => exact whole (by simpa using hword) (by simpa using hrest.symm)
    | cons c more =>
        obtain ⟨rfl, -⟩ : b = c ∧ rest = more ++ x := by simpa using hrest
        exact h w hw b more hb hword

/-! ## Marks behind marks -/

/-- Written directly behind `before`, is the mark read together with its end? -/
def glues (before mark : String) : Bool :=
  (mark == "&" && ["&", "&&", "const", "const&"].contains before) ||
    (mark == "*" && before == "const")

/-- No mark glues to the one in front of it. -/
def Unglued (marks : List String) : Prop :=
  marks.IsChain fun before mark => glues before mark = false

instance (marks : List String) : Decidable (Unglued marks) :=
  inferInstanceAs (Decidable (marks.IsChain _))

/-- The marks behind a core, as they are written. -/
def written (marks : List String) : List Char :=
  marks.flatMap attached

@[simp]
theorem written_nil : written [] = [] := rfl

@[simp]
theorem written_append (marks more : List String) :
    written (marks ++ more) = written marks ++ written more := by
  simp [written]

@[simp]
theorem written_singleton (mark : String) : written [mark] = attached mark := by
  simp [written]

/-- A mark is written as it is, or with a space in front of it if it starts like an identifier. -/
theorem attached_eq {mark : String} (hm : mark ∈ trailingMarks) :
    attached mark = (if mark.toList.head?.any isIdentChar then [' '] else []) ++ mark.toList := by
  revert mark
  decide

theorem attached_ne_nil {mark : String} (hm : mark ∈ trailingMarks) : attached mark ≠ [] := by
  revert mark
  decide

theorem getLast?_attached {mark : String} (hm : mark ∈ trailingMarks) :
    ∀ c ∈ (attached mark).getLast?, Text.isBlank c = false := by
  revert mark
  decide

/-- A text that ends with a written mark ends with `&` or with the word `const` as the mark does. -/
theorem endsIn_append_attached {mark : String} (hm : mark ∈ trailingMarks) (s : List Char) :
    (EndsIn "&".toList (s ++ attached mark) ↔ mark ∈ ["&", "&&", "const&"]) ∧
      (EndsIn "const".toList (s ++ attached mark) ↔ mark = "const") := by
  have hamp : isIdentChar '&' = false := rfl
  have hstar : isIdentChar '*' = false := rfl
  have hspace : isIdentChar ' ' = false := rfl
  have hc : isIdentChar 'c' = true := rfl
  have hv : isIdentChar 'v' = true := rfl
  simp only [trailingMarks, List.mem_cons, List.not_mem_nil, or_false] at hm
  rcases hm with rfl | rfl | rfl | rfl | rfl | rfl | rfl <;>
    simp [endsIn_iff_reverse, attached, hamp, hstar, hspace, hc, hv]

/-- Does a text end with something that a mark behind it is read together with? -/
def Swallows (s : List Char) (mark : String) : Prop :=
  (mark = "&" ∧ (EndsIn "&".toList s ∨ EndsIn "const".toList s)) ∨
    (mark = "*" ∧ EndsIn "const".toList s)

/-- A mark is read back from behind a text that does not swallow it. -/
theorem takeTrailing?_attached {mark : String} (hm : mark ∈ trailingMarks) {s : List Char}
    (hs : ∀ c ∈ s.getLast?, Text.isBlank c = false) (hfree : ¬ Swallows s mark) :
    takeTrailing? (s ++ attached mark) = some (mark, s) := by
  have htrim : Text.trimEnd s = s := Text.trimEnd_eq_self hs
  by_cases hident : mark.toList.head?.any isIdentChar = true
  · -- A mark that starts like an identifier is written behind a space.
    rw [attached_eq hm, if_pos hident, List.singleton_append, takeTrailing?_apart hm rfl, htrim]
  rw [attached_eq hm, if_neg hident, List.nil_append]
  have sign : ∀ earlier later : List String, trailingMarks = earlier ++ mark :: later →
      (∀ m ∈ earlier, ¬ EndsIn m.toList (s ++ mark.toList)) →
      takeTrailing? (s ++ mark.toList) = some (mark, s) := by
    intro earlier later hsplit hfirst
    have htake := takeTrailing?_of_first s hsplit hfirst (by simp [runsOn, hident])
    rwa [htrim] at htake
  have hamp : isIdentChar '&' = false := rfl
  have hc : isIdentChar 'c' = true := rfl
  have hsigns : ∀ m ∈ trailingMarks, ¬ m.toList.head?.any isIdentChar = true →
      m = "&&" ∨ m = "&" ∨ m = "*" := by decide
  simp only [Swallows, endsIn_iff_reverse] at hfree
  rcases hsigns mark hm hident with rfl | rfl | rfl
  · exact sign [] _ rfl (by simp)
  · refine sign ["&&", "const&", "const*"] _ rfl ?_
    simpa [endsIn_iff_reverse, hamp, hc] using hfree
  · refine sign ["&&", "const&", "const*", "&"] _ rfl ?_
    simpa [endsIn_iff_reverse, hamp, hc] using hfree

/-- A mark behind a text that swallows it is read as another mark. -/
theorem takeTrailing?_swallowed {mark : String} {s : List Char} (h : Swallows s mark) :
    ∃ other rest, takeTrailing? (s ++ attached mark) = some (other, rest) ∧ other ≠ mark := by
  have hamp : isIdentChar '&' = false := rfl
  rcases h with ⟨rfl, hend⟩ | ⟨rfl, before, rfl, hrun⟩
  · by_cases hdouble : EndsIn "&".toList s
    · obtain ⟨before, rfl, -⟩ := hdouble
      refine ⟨"&&", Text.trimEnd before, ?_, by decide⟩
      have htake : takeTrailing? (before ++ "&&".toList) = some ("&&", Text.trimEnd before) :=
        @takeTrailing?_of_first _ [] _ before rfl (by simp) rfl
      simpa [attached, hamp] using htake
    · obtain ⟨before, rfl, hrun⟩ := hend.resolve_left hdouble
      refine ⟨"const&", Text.trimEnd before, ?_, by decide⟩
      have htake : takeTrailing? (before ++ "const&".toList) = some ("const&", Text.trimEnd before) :=
        @takeTrailing?_of_first _ ["&&"] _ before rfl (by simp [endsIn_iff_reverse]) hrun
      simpa [attached, hamp] using htake
  · refine ⟨"const*", Text.trimEnd before, ?_, by decide⟩
    have htake : takeTrailing? (before ++ "const*".toList) = some ("const*", Text.trimEnd before) :=
      @takeTrailing?_of_first _ ["&&", "const&"] _ before rfl (by simp [endsIn_iff_reverse]) hrun
    simpa [attached, show isIdentChar '*' = false from rfl] using htake

/-- Behind a core with marks it depends on the last of these marks whether a mark is swallowed. -/
theorem swallows_written_iff {core : List Char} {marks : List String} {mark : String}
    (hcore : takeTrailing? core = none) (hmarks : ∀ m ∈ marks, m ∈ trailingMarks) :
    Swallows (core ++ written marks) mark ↔ ∃ before ∈ marks.getLast?, glues before mark = true := by
  rcases marks.eq_nil_or_concat with rfl | ⟨front, last, rfl⟩
  · rw [takeTrailing?_eq_none_iff] at hcore
    have hamp := hcore "&" (by decide)
    have hconst := hcore "const" (by decide)
    simp only [Swallows, written_nil, List.append_nil, hamp, hconst]
    simp
  · have hlast : last ∈ trailingMarks := hmarks last (by simp)
    obtain ⟨hamp, hconst⟩ := endsIn_append_attached hlast (core ++ written front)
    rw [List.concat_eq_append, written_append, written_singleton, ← List.append_assoc, Swallows,
      hamp, hconst]
    simp [glues]
    tauto

/-! ## All marks and words -/

/-- Marks behind a core end without a blank, as the core does. -/
theorem getLast?_append_written {core : List Char} {marks : List String}
    (hcore : ∀ c ∈ core.getLast?, Text.isBlank c = false)
    (hmarks : ∀ m ∈ marks, m ∈ trailingMarks) :
    ∀ c ∈ (core ++ written marks).getLast?, Text.isBlank c = false := by
  rcases marks.eq_nil_or_concat with rfl | ⟨front, last, rfl⟩
  · simpa using hcore
  · intro c hc
    have hlast : last ∈ trailingMarks := hmarks last (by simp)
    rw [List.concat_eq_append, written_append, written_singleton, ← List.append_assoc,
      List.getLast?_append_of_ne_nil _ (attached_ne_nil hlast)] at hc
    exact getLast?_attached hlast c hc

/-- Behind a core, marks begin like no identifier. -/
theorem not_isIdentChar_of_head?_written {marks : List String} (hmarks : ∀ m ∈ marks, m ∈ trailingMarks)
    {c : Char} (hc : c ∈ (written marks).head?) : isIdentChar c = false := by
  cases marks with
  | nil => contradiction
  | cons m marks =>
      have hhead : ∀ m ∈ trailingMarks, ∀ c ∈ (attached m).head?, isIdentChar c = false := by decide
      have hm : m ∈ trailingMarks := hmarks m (by simp)
      rw [written, List.flatMap_cons, List.head?_append_of_ne_nil _ (attached_ne_nil hm)] at hc
      exact hhead m hm c hc

theorem unglued_append_singleton {marks : List String} {mark : String} :
    Unglued (marks ++ [mark]) ↔
      Unglued marks ∧ ∀ before ∈ marks.getLast?, glues before mark = false := by
  rw [Unglued, List.isChain_append]
  simp [Unglued]

theorem length_le_length_written {marks : List String} (hmarks : ∀ m ∈ marks, m ∈ trailingMarks) :
    marks.length ≤ (written marks).length := by
  induction marks with
  | nil => simp
  | cons mark marks ih =>
      have hpos : 0 < (attached mark).length :=
        List.length_pos_of_ne_nil (attached_ne_nil (hmarks mark (by simp)))
      have hrest := ih fun m hm => hmarks m (by simp [hm])
      simp only [written, List.flatMap_cons, List.length_append, List.length_cons] at hrest ⊢
      omega

/-- Marks that do not glue are read back. -/
theorem stripTrailing_written {core : List Char} {marks : List String} {fuel : Nat}
    (hend : ∀ c ∈ core.getLast?, Text.isBlank c = false) (hcore : takeTrailing? core = none)
    (hmarks : ∀ m ∈ marks, m ∈ trailingMarks) (hfuel : marks.length ≤ fuel)
    (hfree : Unglued marks) :
    stripTrailing fuel (core ++ written marks) = (core, marks) := by
  induction marks using List.reverseRecOn generalizing fuel with
  | nil => cases fuel <;> simp [stripTrailing, hcore]
  | append_singleton front last ih =>
      obtain ⟨hfront, hpair⟩ := unglued_append_singleton.1 hfree
      have hsub : ∀ m ∈ front, m ∈ trailingMarks := fun m hm => hmarks m (by simp [hm])
      obtain ⟨n, rfl⟩ : ∃ n, fuel = n + 1 := ⟨fuel - 1, by simp at hfuel; omega⟩
      have hswallow : ¬ Swallows (core ++ written front) last := by
        rw [swallows_written_iff hcore hsub]
        rintro ⟨before, hbefore, hglue⟩
        rw [hpair before hbefore] at hglue
        contradiction
      rw [written_append, written_singleton, ← List.append_assoc, stripTrailing,
        takeTrailing?_attached (hmarks last (by simp)) (getLast?_append_written hend hsub) hswallow]
      simp only [ih hsub (by simp at hfuel; omega) hfront]

/-- Only marks that do not glue are read back. -/
theorem unglued_of_stripTrailing {core : List Char} {marks : List String} {fuel : Nat}
    (hend : ∀ c ∈ core.getLast?, Text.isBlank c = false) (hcore : takeTrailing? core = none)
    (hmarks : ∀ m ∈ marks, m ∈ trailingMarks) (hfuel : marks.length ≤ fuel)
    (h : (stripTrailing fuel (core ++ written marks)).2 = marks) : Unglued marks := by
  induction marks using List.reverseRecOn generalizing fuel with
  | nil => exact .nil
  | append_singleton front last ih =>
      have hsub : ∀ m ∈ front, m ∈ trailingMarks := fun m hm => hmarks m (by simp [hm])
      obtain ⟨n, rfl⟩ : ∃ n, fuel = n + 1 := ⟨fuel - 1, by simp at hfuel; omega⟩
      rw [written_append, written_singleton, ← List.append_assoc, stripTrailing] at h
      -- A mark that is swallowed would be read as another one.
      have hswallow : ¬ Swallows (core ++ written front) last := by
        intro hswallow
        obtain ⟨other, rest, htake, hne⟩ := takeTrailing?_swallowed hswallow
        rw [htake] at h
        have hlast : [other] = [last] := List.append_inj_right' h rfl
        exact hne (List.singleton_inj.1 hlast)
      rw [takeTrailing?_attached (hmarks last (by simp)) (getLast?_append_written hend hsub)
        hswallow] at h
      have hfront := ih hsub (by simp at hfuel; omega) (List.append_inj_left' h rfl)
      refine unglued_append_singleton.2 ⟨hfront, fun before hbefore => ?_⟩
      rw [swallows_written_iff hcore hsub] at hswallow
      simpa using fun hglue => hswallow ⟨before, hbefore, hglue⟩

/-- The words in front of a core, as they are written. -/
def writtenWords (words : List String) : List Char :=
  words.flatMap fun word => word.toList ++ [' ']

theorem length_le_length_writtenWords (words : List String) :
    words.length ≤ (writtenWords words).length := by
  induction words with
  | nil => simp
  | cons word words ih =>
      simp only [writtenWords, List.flatMap_cons, List.length_append, List.length_cons] at ih ⊢
      omega

/-- Words followed by a text begin without a blank, as the text does. -/
theorem head?_writtenWords_append {words : List String} {s : List Char}
    (hwords : ∀ w ∈ words, w ∈ leadingWords) (hs : ∀ c ∈ s.head?, Text.isBlank c = false) :
    ∀ c ∈ (writtenWords words ++ s).head?, Text.isBlank c = false := by
  cases words with
  | nil => exact hs
  | cons word words =>
      have hword : word ∈ leadingWords := hwords word (by simp)
      have hne : word.toList ≠ [] := by
        clear hwords hs
        revert word
        decide
      intro c hc
      rw [writtenWords, List.flatMap_cons, List.append_assoc, List.append_assoc,
        List.head?_append_of_ne_nil _ hne] at hc
      exact (isIdentChar_of_mem_leadingWord hword c (List.mem_of_mem_head? hc)).2

/-- Words are read back from in front of a text that has none. -/
theorem stripLeading_writtenWords {words : List String} {s : List Char} {fuel : Nat}
    (hwords : ∀ w ∈ words, w ∈ leadingWords) (hs : ∀ c ∈ s.head?, Text.isBlank c = false)
    (hnone : takeLeading? s = none) (hfuel : words.length ≤ fuel) :
    stripLeading fuel (writtenWords words ++ s) = (words, s) := by
  induction words generalizing fuel with
  | nil => cases fuel <;> simp [stripLeading, writtenWords, hnone]
  | cons word words ih =>
      have hsub : ∀ w ∈ words, w ∈ leadingWords := fun w hw => hwords w (by simp [hw])
      obtain ⟨n, rfl⟩ : ∃ n, fuel = n + 1 := ⟨fuel - 1, by simp at hfuel; omega⟩
      have htext : writtenWords (word :: words) ++ s =
          word.toList ++ ' ' :: (writtenWords words ++ s) := by
        simp [writtenWords]
      have htake : takeLeading? (word.toList ++ ' ' :: (writtenWords words ++ s)) =
          some (word, writtenWords words ++ s) := by
        rw [takeLeading?_word (hwords word (by simp)) _ rfl,
          Text.trimStart_eq_self (head?_writtenWords_append hsub hs)]
      rw [htext, stripLeading, htake]
      simp only [ih hsub (by simpa using hfuel)]

/-! ## Cores -/

/-- All words and marks are those of the type language. -/
structure Known (q : Qualifiers) : Prop where
  words : ∀ w ∈ q.leading, w ∈ leadingWords
  marks : ∀ m ∈ q.trailing, m ∈ trailingMarks

instance (q : Qualifiers) : Decidable q.Known :=
  decidable_of_iff ((∀ w ∈ q.leading, w ∈ leadingWords) ∧ ∀ m ∈ q.trailing, m ∈ trailingMarks)
    ⟨fun ⟨h, h'⟩ => ⟨h, h'⟩, fun ⟨h, h'⟩ => ⟨h, h'⟩⟩

/-- A core and the qualifiers around it: all of them are known, and nothing more can be taken off the
core, also when its marks are written directly behind it. -/
structure Fits (q : Qualifiers) (core : List Char) : Prop extends Known q where
  nonempty : core ≠ []
  bare : Text.Bare core
  noMark : takeTrailing? core = none
  noWord : takeLeading? (core ++ written q.trailing) = none

theorem wrap_eq (q : Qualifiers) (core : List Char) :
    q.wrap core = writtenWords q.leading ++ (core ++ written q.trailing) := by
  simp [wrap, writtenWords, written]

namespace Fits

variable {q : Qualifiers} {core : List Char}

theorem bare_marked (h : q.Fits core) : Text.Bare (core ++ written q.trailing) := by
  refine ⟨fun c hc => ?_, getLast?_append_written h.bare.2 h.marks⟩
  rw [List.head?_append_of_ne_nil core h.nonempty] at hc
  exact h.bare.1 c hc

theorem bare_wrap (h : q.Fits core) : Text.Bare (q.wrap core) := by
  have hne : core ++ written q.trailing ≠ [] := by simp [h.nonempty]
  rw [wrap_eq]
  refine ⟨head?_writtenWords_append h.words h.bare_marked.1, fun c hc => ?_⟩
  rw [List.getLast?_append_of_ne_nil _ hne] at hc
  exact h.bare_marked.2 c hc

theorem wrap_ne_nil (h : q.Fits core) : q.wrap core ≠ [] := by
  rw [wrap_eq]
  simp [h.nonempty]

/-- Reading what was written comes down to reading the marks. -/
theorem strip_wrap_eq (h : q.Fits core) :
    strip (q.wrap core) =
      ((stripTrailing (core ++ written q.trailing).length (core ++ written q.trailing)).1,
        ⟨q.leading,
          (stripTrailing (core ++ written q.trailing).length (core ++ written q.trailing)).2⟩) := by
  have hfuel : q.leading.length ≤ (q.wrap core).length := by
    have hlength := length_le_length_writtenWords q.leading
    rw [wrap_eq, List.length_append]
    omega
  have hlead : stripLeading (q.wrap core).length (q.wrap core) =
      (q.leading, core ++ written q.trailing) := by
    have hread := stripLeading_writtenWords h.words h.bare_marked.1 h.noWord hfuel
    rwa [← wrap_eq] at hread
  simp only [strip, h.bare_wrap.trim_eq, hlead]

theorem length_marks_le (h : q.Fits core) :
    q.trailing.length ≤ (core ++ written q.trailing).length := by
  have hlength := length_le_length_written h.marks
  rw [List.length_append]
  omega

/-- Qualifiers that do not glue are read back, around the same core. -/
theorem strip_wrap (h : q.Fits core) (hfree : Unglued q.trailing) :
    strip (q.wrap core) = (core, q) := by
  rw [h.strip_wrap_eq,
    stripTrailing_written h.bare.2 h.noMark h.marks h.length_marks_le hfree]

/-- Qualifiers are read back, around whatever core, only if they do not glue. -/
theorem unglued_of_strip_wrap (h : q.Fits core) (hread : (strip (q.wrap core)).2 = q) :
    Unglued q.trailing := by
  rw [h.strip_wrap_eq] at hread
  exact unglued_of_stripTrailing h.bare.2 h.noMark h.marks h.length_marks_le
    (congrArg Qualifiers.trailing hread)

end Fits

/-! ## Reading produces cores -/

/-- The characters that blanks and qualifiers are made of. -/
def IsFiller (c : Char) : Prop :=
  Text.isBlank c = true ∨ isIdentChar c = true ∨ c = '&' ∨ c = '*'

theorem isFiller_of_mem_leadingWord {w : String} (hw : w ∈ leadingWords) :
    ∀ c ∈ w.toList, IsFiller c := fun c hc =>
  Or.inr (Or.inl (isIdentChar_of_mem_leadingWord hw c hc).1)

theorem isFiller_of_mem_trailingMark {m : String} (hm : m ∈ trailingMarks) :
    ∀ c ∈ m.toList, IsFiller c := by
  have known : ∀ m ∈ trailingMarks, ∀ c ∈ m.toList,
      isIdentChar c = true ∨ c = '&' ∨ c = '*' := by decide
  exact fun c hc => Or.inr (known m hm c hc)

theorem takeLeading?_of_append {s x : List Char} (h : takeLeading? (s ++ x) = none) :
    takeLeading? s = none := by
  rw [takeLeading?_eq_none_iff] at h ⊢
  rintro w hw b rest hb rfl
  exact h w hw b (rest ++ x) hb (by simp)

/-- What taking words off the front leaves, and what it takes. -/
theorem stripLeading_eq {fuel : Nat} {s rest : List Char} {words : List String}
    (hfuel : s.length ≤ fuel) (hs : ∀ c ∈ s.head?, Text.isBlank c = false)
    (h : stripLeading fuel s = (words, rest)) :
    (∀ w ∈ words, w ∈ leadingWords) ∧ takeLeading? rest = none ∧
      (∀ c ∈ rest.head?, Text.isBlank c = false) ∧
      ∃ front, s = front ++ rest ∧ ∀ c ∈ front, IsFiller c := by
  induction fuel generalizing s words with
  | zero =>
      obtain rfl : s = [] := List.length_eq_zero_iff.1 (Nat.le_zero.1 hfuel)
      obtain ⟨rfl, rfl⟩ : [] = words ∧ [] = rest := by simpa [stripLeading] using h
      exact ⟨by simp, rfl, by simp, [], rfl, by simp⟩
  | succ fuel ih =>
      rw [stripLeading] at h
      cases htake : takeLeading? s with
      | none =>
          obtain ⟨rfl, rfl⟩ : [] = words ∧ s = rest := by simpa [htake] using h
          exact ⟨by simp, htake, hs, [], rfl, by simp⟩
      | some taken =>
          obtain ⟨word, behind⟩ := taken
          obtain ⟨hword, b, more, hb, rfl, rfl⟩ := takeLeading?_eq_some htake
          obtain ⟨gap, hgap, hmore⟩ := Text.exists_trimStart more
          cases hrest : stripLeading fuel (Text.trimStart more) with
          | mk words' rest' =>
              obtain ⟨rfl, rfl⟩ : word :: words' = words ∧ rest' = rest := by
                simpa [htake, hrest] using h
              have hshort : (Text.trimStart more).length ≤ fuel := by
                have hlength := congrArg List.length hmore
                simp only [List.length_append, List.length_cons] at hfuel hlength
                omega
              obtain ⟨hwords, hnone, hhead, front, hfront, hfiller⟩ :=
                ih hshort (Text.head?_trimStart more) hrest
              -- In front of the rest: this word with its blanks, and then what the rest takes.
              refine ⟨?_, hnone, hhead, word.toList ++ b :: gap ++ front, ?_, ?_⟩
              · intro w hw
                rcases List.mem_cons.1 hw with rfl | hw
                · exact hword
                · exact hwords w hw
              · rw [List.append_assoc, ← hfront, List.append_assoc, List.cons_append, ← hmore]
              · intro c hc
                simp only [List.mem_append, List.mem_cons] at hc
                rcases hc with (hc | rfl | hc) | hc
                · exact isFiller_of_mem_leadingWord hword c hc
                · exact Or.inl hb
                · exact Or.inl (hgap c hc)
                · exact hfiller c hc

/-- What may stand behind a core: marks with blanks in between.  The first mark stands right behind the
core but for blanks, and does not end an identifier. -/
structure IsTrail (core back : List Char) (marks : List String) : Prop where
  known : ∀ m ∈ marks, m ∈ trailingMarks
  filler : ∀ c ∈ back, IsFiller c
  eq_nil : marks = [] → back = []
  first : ∀ m ∈ marks.head?, ∃ gap more, back = gap ++ m.toList ++ more ∧
    (∀ c ∈ gap, Text.isBlank c = true) ∧ runsOn m.toList (core ++ gap) = false

theorem IsTrail.nil (core : List Char) : IsTrail core [] [] :=
  ⟨by simp, by simp, fun _ => rfl, by simp⟩

/-- One more mark at the end.  It is the first one if there was none, and otherwise changes nothing about
the first one. -/
theorem IsTrail.concat {core back gap : List Char} {marks : List String} {mark : String}
    (h : IsTrail core back marks) (hgap : ∀ c ∈ gap, Text.isBlank c = true)
    (hmark : mark ∈ trailingMarks) (hrun : runsOn mark.toList (core ++ back ++ gap) = false) :
    IsTrail core (back ++ gap ++ mark.toList) (marks ++ [mark]) := by
  refine ⟨fun m hm => ?_, fun c hc => ?_, by simp, fun m hm => ?_⟩
  · rcases List.mem_append.1 hm with hm | hm
    · exact h.known m hm
    · rwa [List.mem_singleton.1 hm]
  · simp only [List.mem_append] at hc
    rcases hc with (hc | hc) | hc
    · exact h.filler c hc
    · exact Or.inl (hgap c hc)
    · exact isFiller_of_mem_trailingMark hmark c hc
  · cases marks with
    | nil =>
        obtain rfl : mark = m := by simpa using hm
        obtain rfl : back = [] := h.eq_nil rfl
        exact ⟨gap, [], by simp, hgap, by simpa using hrun⟩
    | cons m' rest =>
        obtain rfl : m' = m := by simpa using hm
        obtain ⟨gap', more, rfl, hgap', hrun'⟩ := h.first m' rfl
        exact ⟨gap', more ++ gap ++ mark.toList, by simp, hgap', hrun'⟩

/-- What taking marks off the back leaves, and what it takes. -/
theorem stripTrailing_eq {fuel : Nat} {s core : List Char} {marks : List String}
    (hfuel : s.length ≤ fuel) (hs : ∀ c ∈ s.getLast?, Text.isBlank c = false)
    (h : stripTrailing fuel s = (core, marks)) :
    takeTrailing? core = none ∧ (∀ c ∈ core.getLast?, Text.isBlank c = false) ∧
      ∃ back, s = core ++ back ∧ IsTrail core back marks := by
  induction fuel generalizing s marks with
  | zero =>
      obtain rfl : s = [] := List.length_eq_zero_iff.1 (Nat.le_zero.1 hfuel)
      obtain ⟨rfl, rfl⟩ : [] = core ∧ [] = marks := by simpa [stripTrailing] using h
      exact ⟨rfl, by simp, [], rfl, .nil _⟩
  | succ fuel ih =>
      rw [stripTrailing] at h
      cases htake : takeTrailing? s with
      | none =>
          obtain ⟨rfl, rfl⟩ : s = core ∧ [] = marks := by simpa [htake] using h
          exact ⟨htake, hs, [], by simp, .nil _⟩
      | some taken =>
          obtain ⟨mark, front⟩ := taken
          obtain ⟨hmark, before, rfl, hrun, rfl⟩ := takeTrailing?_eq_some htake
          obtain ⟨gap, hgap, hbefore⟩ := Text.exists_trimEnd before
          cases hrest : stripTrailing fuel (Text.trimEnd before) with
          | mk core' marks' =>
              obtain ⟨rfl, rfl⟩ : core' = core ∧ marks' ++ [mark] = marks := by
                simpa [htake, hrest] using h
              have hpos : 0 < mark.toList.length := by
                clear htake hrun h hs hfuel
                revert mark
                decide
              have hshort : (Text.trimEnd before).length ≤ fuel := by
                have hlength := congrArg List.length hbefore
                simp only [List.length_append] at hfuel hlength
                omega
              obtain ⟨hnone, hlast, back, hback, htrail⟩ :=
                ih hshort (Text.getLast?_trimEnd before) hrest
              rw [hback] at hbefore
              rw [hbefore] at hrun ⊢
              exact ⟨hnone, hlast, back ++ gap ++ mark.toList, by simp, htrail.concat hgap hmark hrun⟩

/-- A core that had no word in front of it gets none when its marks are written again.  The core itself
could only become a word by a blank behind it, and then there was one before. -/
theorem takeLeading?_written_of_read {core back : List Char} {marks : List String}
    (hnone : takeLeading? (core ++ back) = none) (htrail : IsTrail core back marks) :
    takeLeading? (core ++ written marks) = none := by
  cases marks with
  | nil =>
      rw [htrail.eq_nil rfl] at hnone
      simpa using hnone
  | cons mark marks =>
      have hmark : mark ∈ trailingMarks := htrail.known mark (by simp)
      have hhead : ∀ m ∈ trailingMarks, ∀ c ∈ (attached m).head?, isIdentChar c = false ∧
          (m.toList.head?.any isIdentChar = true ∨ Text.isBlank c = false) := by decide
      have hwritten : (written (mark :: marks)).head? = (attached mark).head? := by
        rw [written, List.flatMap_cons, List.head?_append_of_ne_nil _ (attached_ne_nil hmark)]
      refine takeLeading?_append_eq_none (takeLeading?_of_append hnone) ?_ ?_
      · rw [hwritten]
        exact fun c hc => (hhead mark hmark c hc).1
      -- A mark like an identifier is written behind a blank, and one stood there before: it did not run on.
      · by_cases hident : mark.toList.head?.any isIdentChar = true
        · right
          rintro w hw rfl
          obtain ⟨gap, more, rfl, hgap, hrun⟩ := htrail.first mark rfl
          cases gap with
          | nil =>
              have hlast : ∀ w ∈ leadingWords, w.toList.getLast?.any isIdentChar = true := by decide
              simp [runsOn, hident, hlast w hw] at hrun
          | cons b gap =>
              have htake := takeLeading?_word hw (gap ++ mark.toList ++ more) (hgap b (by simp))
              rw [List.append_assoc, List.cons_append, ← List.append_assoc, htake] at hnone
              contradiction
        · left
          rw [hwritten]
          exact fun c hc => ((hhead mark hmark c hc).2).resolve_left hident

/-- Stripping takes known words and marks off a trimmed text.  The core behind the words has no word in front of
it, and the core without the marks has no mark behind it. -/
theorem strip_parts {s core : List Char} {q : Qualifiers} (h : strip s = (core, q)) :
    q.Known ∧ Text.Bare core ∧ takeTrailing? core = none ∧ ∃ front back,
      Text.trim s = front ++ (core ++ back) ∧ takeLeading? (core ++ back) = none ∧
      (∀ c ∈ front, IsFiller c) ∧ IsTrail core back q.trailing := by
  have hbare := Text.bare_trim s
  obtain ⟨words, rest, hwords⟩ : ∃ words rest,
      stripLeading (Text.trim s).length (Text.trim s) = (words, rest) := ⟨_, _, rfl⟩
  obtain ⟨hknown, hnoWord, hhead, front, hfront, hfiller⟩ :=
    stripLeading_eq le_rfl hbare.1 hwords
  obtain ⟨core', marks, hmarks⟩ : ∃ core' marks,
      stripTrailing rest.length rest = (core', marks) := ⟨_, _, rfl⟩
  obtain ⟨rfl, rfl⟩ : core' = core ∧ (⟨words, marks⟩ : Qualifiers) = q := by
    simpa [strip, hwords, hmarks] using h
  have hlast : ∀ c ∈ rest.getLast?, Text.isBlank c = false := by
    intro c hc
    refine hbare.2 c ?_
    rw [hfront, List.getLast?_append, Option.mem_def.1 hc]
    rfl
  obtain ⟨hnoMark, hcoreLast, back, rfl, htrail⟩ := stripTrailing_eq le_rfl hlast hmarks
  have hcoreHead : ∀ c ∈ core'.head?, Text.isBlank c = false := by
    intro c hc
    refine hhead c ?_
    rw [List.head?_append, Option.mem_def.1 hc]
    rfl
  exact ⟨⟨hknown, htrail.known⟩, ⟨hcoreHead, hcoreLast⟩, hnoMark, front, back, hfront, hnoWord,
    hfiller, htrail⟩

/-- A text is its core between words and marks, and nothing more can be taken off the core. -/
theorem strip_eq {s core : List Char} {q : Qualifiers} (h : strip s = (core, q)) (hne : core ≠ []) :
    q.Fits core ∧ ∃ front back, s = front ++ core ++ back ∧ (∀ c ∈ front, IsFiller c) ∧
      ∀ c ∈ back, IsFiller c := by
  obtain ⟨lead, tail, hlead, htail, hs⟩ := Text.exists_trim s
  obtain ⟨hknown, hbare, hnoMark, front, back, htrim, hnoWord, hfront, htrail⟩ := strip_parts h
  refine ⟨⟨hknown, hne, hbare, hnoMark, takeLeading?_written_of_read hnoWord htrail⟩, lead ++ front,
    back ++ tail, ?_, ?_, ?_⟩
  · rw [htrim] at hs
    rw [hs]
    simp
  · intro c hc
    rcases List.mem_append.1 hc with hc | hc
    · exact Or.inl (hlead c hc)
    · exact hfront c hc
  · intro c hc
    rcases List.mem_append.1 hc with hc | hc
    · exact htrail.filler c hc
    · exact Or.inl (htail c hc)

theorem stripLeading_of_no_words {fuel : Nat} {s : List Char} (h : (stripLeading fuel s).1 = []) :
    (stripLeading fuel s).2 = s := by
  cases fuel with
  | zero => rfl
  | succ fuel =>
      rw [stripLeading] at h ⊢
      cases htake : takeLeading? s with
      | none => rfl
      | some taken => simp [htake] at h

theorem stripTrailing_of_no_marks {fuel : Nat} {s : List Char} (h : (stripTrailing fuel s).2 = []) :
    (stripTrailing fuel s).1 = s := by
  cases fuel with
  | zero => rfl
  | succ fuel =>
      rw [stripTrailing] at h ⊢
      cases htake : takeTrailing? s with
      | none => rfl
      | some taken => simp [htake] at h

/-- A text from which no qualifiers are taken is its own core, up to blanks at its ends. -/
theorem strip_of_isEmpty {s core : List Char} (h : strip s = (core, {})) : core = Text.trim s := by
  simp only [strip, Prod.mk.injEq, Qualifiers.mk.injEq] at h
  obtain ⟨hcore, hwords, hmarks⟩ := h
  rw [stripTrailing_of_no_marks hmarks, stripLeading_of_no_words hwords] at hcore
  exact hcore.symm

theorem stripLeading_eq_self {s : List Char} (h : takeLeading? s = none) (fuel : Nat) :
    stripLeading fuel s = ([], s) := by
  cases fuel <;> simp [stripLeading, h]

theorem stripTrailing_eq_self {s : List Char} (h : takeTrailing? s = none) (fuel : Nat) :
    stripTrailing fuel s = (s, []) := by
  cases fuel <;> simp [stripTrailing, h]

/-- A text that does not begin with a word has no qualifiers in front of it. -/
theorem leading_strip_eq_nil {s : List Char} (hb : Text.Bare s) (h : takeLeading? s = none) :
    (strip s).2.leading = [] := by
  simp [strip, hb.trim_eq, stripLeading_eq_self h]

/-- A text that neither begins with a word nor ends with a mark is its own core. -/
theorem strip_eq_self {s : List Char} (hb : Text.Bare s) (hword : takeLeading? s = none)
    (hmark : takeTrailing? s = none) : strip s = (s, {}) := by
  simp [strip, hb.trim_eq, stripLeading_eq_self hword, stripTrailing_eq_self hmark]

/-- The trimmed front of a text begins without a word if the text does. -/
theorem takeLeading?_trim_front {front behind : List Char} (hb : Text.Bare (front ++ behind))
    (h : takeLeading? (front ++ behind) = none) : takeLeading? (Text.trim front) = none := by
  obtain ⟨before, after, hbefore, -, hfront⟩ := Text.exists_trim front
  cases before with
  | nil =>
      rw [hfront, List.nil_append, List.append_assoc] at h
      exact takeLeading?_of_append h
  | cons c before =>
      have hblank := hb.1 c (by rw [hfront]; rfl)
      rw [hbefore c (by simp)] at hblank
      contradiction

/-! ## Texts that end without a mark -/

/-- The last character of a mark is a sign or the last letter of a word. -/
theorem takeTrailing?_eq_none_of_getLast? {s : List Char}
    (h : ∀ c ∈ s.getLast?, c ∉ ['&', '*', 't', 'e']) : takeTrailing? s = none := by
  rw [takeTrailing?_eq_none_iff]
  rintro mark hmark ⟨before, rfl, -⟩
  have hlast : ∀ mark ∈ trailingMarks, mark.toList ≠ [] ∧
      ∃ c ∈ mark.toList.getLast?, c ∈ ['&', '*', 't', 'e'] := by decide
  obtain ⟨hne, c, hc, hmem⟩ := hlast mark hmark
  refine h c ?_ hmem
  rwa [List.getLast?_append_of_ne_nil _ hne]

/-- A text that ends with a sign ends with a mark. -/
theorem takeTrailing?_ne_none_of_sign {s : List Char} {c : Char} (hlast : s.getLast? = some c)
    (hc : CppType.isMarkChar c = true) : takeTrailing? s ≠ none := by
  intro hnone
  rw [takeTrailing?_eq_none_iff] at hnone
  obtain ⟨before, rfl⟩ := List.getLast?_eq_some_iff.1 hlast
  simp only [CppType.isMarkChar, Bool.or_eq_true, beq_iff_eq] at hc
  rcases hc with rfl | rfl
  · exact hnone "&" (by decide) ⟨before, rfl, rfl⟩
  · exact hnone "*" (by decide) ⟨before, rfl, rfl⟩

theorem takeWhile_reverse_append {p : Char → Bool} {before name : List Char}
    (hname : ∀ x ∈ name, p x = true) (hbefore : before.getLast?.any p = false) :
    (before ++ name).reverse.takeWhile p = name.reverse := by
  have hstop : before.reverse.takeWhile p = [] := by
    rw [← List.head?_reverse] at hbefore
    cases hrev : before.reverse with
    | nil => rfl
    | cons c rest =>
        rw [hrev] at hbefore
        have hc : p c = false := by simpa using hbefore
        simp [hc]
  rw [List.reverse_append, List.takeWhile_append_of_pos (by simpa using hname), hstop,
    List.append_nil]

/-- An identifier behind another character is a mark only if it is one as a whole. -/
theorem takeTrailing?_append_identifier {before name : List Char} {c : Char}
    (hc : isIdentChar c = false) (hname : ∀ x ∈ name, isIdentChar x = true) (hne : name ≠ []) :
    takeTrailing? (before ++ c :: name) = none ↔
      name ≠ "const".toList ∧ name ≠ "volatile".toList := by
  rw [takeTrailing?_eq_none_iff]
  have hrun : ∀ mark : List Char, runsOn mark (before ++ [c]) = false := by
    intro mark
    simp [runsOn, hc]
  constructor
  · intro h
    constructor
    · rintro rfl
      exact h "const" (by decide) ⟨before ++ [c], by simp, hrun _⟩
    · rintro rfl
      exact h "volatile" (by decide) ⟨before ++ [c], by simp, hrun _⟩
  · rintro ⟨hconst, hvolatile⟩ mark hmark ⟨front, hs, hfree⟩
    -- The last character of the text is one of the name, so the mark is a word.
    have hword : mark = "const" ∨ mark = "volatile" := by
      have hkinds : ∀ mark ∈ trailingMarks, mark = "const" ∨ mark = "volatile" ∨
          mark.toList ≠ [] ∧ ∃ x ∈ mark.toList.getLast?, isIdentChar x = false := by decide
      rcases hkinds mark hmark with hmark | hmark | ⟨hfull, x, hx, hident⟩
      · exact Or.inl hmark
      · exact Or.inr hmark
      · have hlast := congrArg List.getLast? hs
        rw [List.getLast?_append_of_ne_nil _ (by simp), List.getLast?_cons_of_ne_nil hne,
          List.getLast?_append_of_ne_nil _ hfull, Option.mem_def.1 hx] at hlast
        rw [hname x (List.mem_of_getLast? hlast)] at hident
        contradiction
    have hident : ∀ x ∈ mark.toList, isIdentChar x = true := by
      rcases hword with rfl | rfl <;> decide
    have hfront : front.getLast?.any isIdentChar = false := by
      rcases hword with rfl | rfl <;> simpa [runsOn, isIdentChar] using hfree
    have hwhole : name.reverse = mark.toList.reverse := by
      rw [← takeWhile_reverse_append hident hfront, ← hs, ← List.singleton_append,
        ← List.append_assoc, takeWhile_reverse_append hname (by simp [hc])]
    rw [List.reverse_inj] at hwhole
    rcases hword with rfl | rfl
    · exact hconst hwhole
    · exact hvolatile hwhole

end ScriptBindings.Qualifiers
