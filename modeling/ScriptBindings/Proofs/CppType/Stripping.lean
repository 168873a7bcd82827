import Mathlib
import ScriptBindings.Proofs.CppType.Qualifiers

/-!
# Stripped texts

Taking the qualifiers off a text loses nothing but blanks: each step takes a word or a mark whole, with the
blanks next to it, and writing them around the core again puts the same characters in the same order.

It also ends where it should.  The core is a piece of the text, so taking marks off its back can bring no word to
its front, and a core is stripped to itself.
-/

namespace ScriptBindings

/-! ## Texts without their blanks -/

namespace Text

/-- The characters of a text that are no blanks. -/
def solid (s : List Char) : List Char :=
  s.filter fun c => !isBlank c

@[simp]
theorem solid_append (a b : List Char) : solid (a ++ b) = solid a ++ solid b :=
  List.filter_append a b

theorem solid_flatMap {α : Type} (f : α → List Char) (l : List α) :
    solid (l.flatMap f) = l.flatMap fun a => solid (f a) :=
  List.filter_flatMap

theorem solid_cons_of_blank {b : Char} (hb : isBlank b = true) (s : List Char) : solid (b :: s) = solid s :=
  List.filter_cons_of_neg (by simp [hb])

theorem solid_of_blank {s : List Char} (h : ∀ c ∈ s, isBlank c = true) : solid s = [] :=
  List.filter_eq_nil_iff.2 fun c hc => by simp [h c hc]

@[simp]
theorem solid_trimStart (s : List Char) : solid (trimStart s) = solid s := by
  obtain ⟨front, hfront, hs⟩ := exists_trimStart s
  conv_rhs => rw [hs, solid_append, solid_of_blank hfront, List.nil_append]

@[simp]
theorem solid_trimEnd (s : List Char) : solid (trimEnd s) = solid s := by
  obtain ⟨back, hback, hs⟩ := exists_trimEnd s
  conv_rhs => rw [hs, solid_append, solid_of_blank hback, List.append_nil]

@[simp]
theorem solid_trim (s : List Char) : solid (trim s) = solid s := by
  rw [trim, solid_trimEnd, solid_trimStart]

end Text

namespace Qualifiers

open CppType (leadingWords trailingMarks)

variable {s core : List Char} {q : Qualifiers}

/-! ## Nothing is lost -/

/-- The characters of words or marks, one after the other. -/
def solidOf (texts : List String) : List Char :=
  texts.flatMap fun text => Text.solid text.toList

theorem solid_attached (mark : String) : Text.solid (attached mark) = Text.solid mark.toList := by
  unfold attached
  split
  · rename_i hmark
    rw [hmark]
  · rename_i c rest hmark
    rw [hmark]
    split
    · exact Text.solid_cons_of_blank rfl _
    · rfl

theorem solid_writtenWords (words : List String) : Text.solid (writtenWords words) = solidOf words := by
  rw [writtenWords, Text.solid_flatMap]
  refine List.flatMap_congr fun word _ => ?_
  rw [Text.solid_append]
  exact List.append_nil _

theorem solid_written (marks : List String) : Text.solid (written marks) = solidOf marks := by
  rw [written, Text.solid_flatMap]
  exact List.flatMap_congr fun mark _ => solid_attached mark

theorem solid_wrap (q : Qualifiers) (core : List Char) :
    Text.solid (q.wrap core) = solidOf q.leading ++ (Text.solid core ++ solidOf q.trailing) := by
  rw [wrap_eq, Text.solid_append, Text.solid_append, solid_writtenWords, solid_written]

theorem solid_stripLeading (fuel : Nat) (s : List Char) :
    solidOf (stripLeading fuel s).1 ++ Text.solid (stripLeading fuel s).2 = Text.solid s := by
  induction fuel generalizing s with
  | zero => rfl
  | succ fuel ih =>
      rw [stripLeading]
      split
      · rename_i word rest htake
        -- The blank behind the word is the only character that goes.
        obtain ⟨-, b, behind, hblank, rfl, rfl⟩ := takeLeading?_eq_some htake
        have hrest := ih (Text.trimStart behind)
        rw [Text.solid_trimStart] at hrest
        rw [Text.solid_append, Text.solid_cons_of_blank hblank, ← hrest, ← List.append_assoc]
        rfl
      · rfl

theorem solid_stripTrailing (fuel : Nat) (s : List Char) :
    Text.solid (stripTrailing fuel s).1 ++ solidOf (stripTrailing fuel s).2 = Text.solid s := by
  induction fuel generalizing s with
  | zero => exact List.append_nil _
  | succ fuel ih =>
      rw [stripTrailing]
      split
      · rename_i mark rest htake
        obtain ⟨-, before, rfl, -, rfl⟩ := takeTrailing?_eq_some htake
        have hrest := ih (Text.trimEnd before)
        rw [Text.solid_trimEnd] at hrest
        rw [Text.solid_append, ← hrest, List.append_assoc]
        simp [solidOf]
      · exact List.append_nil _

/-- The qualifiers written around the core give the text again, up to blanks. -/
theorem solid_wrap_strip (s : List Char) :
    Text.solid ((strip s).2.wrap (strip s).1) = Text.solid s := by
  have hlead := solid_stripLeading (Text.trim s).length (Text.trim s)
  have htrail := solid_stripTrailing (stripLeading (Text.trim s).length (Text.trim s)).2.length
    (stripLeading (Text.trim s).length (Text.trim s)).2
  rw [← htrail, Text.solid_trim] at hlead
  rw [solid_wrap]
  exact hlead

/-! ## Nothing is left -/

/-- Nothing can be taken off a core: there are no blanks at its ends, it does not begin with a word and a blank
behind it, and it does not end with a mark. -/
structure IsCore (core : List Char) : Prop where
  bare : Text.Bare core
  noWord : ∀ w ∈ leadingWords, ∀ b behind, Text.isBlank b = true → core ≠ w.toList ++ b :: behind
  noMark : ∀ mark ∈ trailingMarks, ¬ EndsIn mark.toList core

/-- A core has no qualifiers. -/
theorem IsCore.strip_eq_self (h : IsCore core) : strip core = (core, {}) :=
  Qualifiers.strip_eq_self h.bare (takeLeading?_eq_none_iff.2 h.noWord) (takeTrailing?_eq_none_iff.2 h.noMark)

theorem isCore_of_strip (h : strip s = (core, q)) : IsCore core := by
  obtain ⟨-, hbare, hnoMark, front, back, -, hnoWord, -⟩ := strip_parts h
  -- The core is the front of a text that begins with no word.
  have hcore := takeLeading?_of_append hnoWord
  exact ⟨hbare, takeLeading?_eq_none_iff.1 hcore, takeTrailing?_eq_none_iff.1 hnoMark⟩

/-- The core stands in the text as it is, blanks included. -/
theorem infix_of_strip (h : strip s = (core, q)) : core <:+: s := by
  obtain ⟨lead, tail, -, -, hs⟩ := Text.exists_trim s
  obtain ⟨-, -, -, front, back, htrim, -⟩ := strip_parts h
  rw [htrim] at hs
  refine ⟨lead ++ front, back ++ tail, ?_⟩
  rw [hs]
  simp only [List.append_assoc]

/-- Taking the qualifiers off a text.  All of them are words and marks of the type language; what is left is a piece
of the text, and nothing more can be taken off it, so that stripping it again changes nothing; and the qualifiers
written around the core give the characters of the text, in their order, up to blanks. -/
theorem strip_exact (s : List Char) :
    (strip s).2.Known ∧ (strip s).1 <:+: s ∧ IsCore (strip s).1 ∧
      strip (strip s).1 = ((strip s).1, {}) ∧
      Text.solid ((strip s).2.format (String.ofList (strip s).1)).toList = Text.solid s := by
  have hcore := isCore_of_strip (s := s) rfl
  refine ⟨(strip_parts rfl).1, infix_of_strip rfl, hcore, hcore.strip_eq_self, ?_⟩
  rw [format, String.toList_ofList, String.toList_ofList]
  exact solid_wrap_strip s

/-- The end of an identifier is no mark. -/
example : strip "const static myconst const *".toList =
    ("myconst".toList, ⟨["const", "static"], ["const", "*"]⟩) := by
  decide

end Qualifiers

end ScriptBindings
