import Mathlib
import ScriptBindings.Proofs.CppType.Legible

/-!
# Spellings of references to constants

A reference to a constant can be spelled in three ways, which are read as three lists of marks.  Around the text
of a type without qualifiers of its own, what is read is in each case that type with the marks of the spelling:
the core of the text is the same, and cores are read without regard to what stands around them.

Not every spelling of every type can be read.  A single word such as `constexpr` is a type of its own, but a
qualifier with a blank behind it, and a comma behind a type is ignored, but not inside of a text.
-/

namespace ScriptBindings

namespace CppType

variable {read read' : List Char → Except SyntaxError CppType} {s s' core : List Char} {q q' : Qualifiers}
  {t u : CppType}

/-! ## Reading a core with other qualifiers -/

/-- No text is read as different types by the two readers. -/
def Agree (read read' : List Char → Except SyntaxError CppType) : Prop :=
  ∀ s t u, read s = .ok t → read' s = .ok u → t = u

theorem Agree.readArgument (h : Agree read read') {i : Nat} {a b : FunctionArg}
    (ha : readArgument read i s = .ok a) (hb : CppType.readArgument read' i s = .ok b) : a = b := by
  obtain ⟨tokens, ty, htokens, hleft⟩ := readArgument_eq_ok_iff.1 ha
  obtain ⟨tokens', ty', htokens', hright⟩ := readArgument_eq_ok_iff.1 hb
  obtain rfl := Option.some.inj (htokens.symm.trans htokens')
  rcases hleft with ⟨hglue, t, ht, rfl⟩ | ⟨name, hglue, -, -, t, ht, rfl⟩
  · rcases hright with ⟨hglue', u, hu, rfl⟩ | ⟨name', hglue', -⟩
    · obtain ⟨rfl, -⟩ := List.cons.inj (hglue.symm.trans hglue')
      rw [h ty t u ht hu]
    · cases hglue.symm.trans hglue'
  · rcases hright with ⟨hglue', -⟩ | ⟨name', hglue', -, -, u, hu, rfl⟩
    · cases hglue.symm.trans hglue'
    · cases hglue.symm.trans hglue'
      rw [h ty t u ht hu]

theorem Agree.readTemplate (h : Agree read read') (ht : readTemplate read core q = .ok t)
    (hu : CppType.readTemplate read' core q' = .ok u) : u = t.withQuals q' := by
  obtain ⟨inside, after, hgroup, -, hleft⟩ := readTemplate_eq_ok_iff.1 ht
  obtain ⟨inside', after', hgroup', -, hright⟩ := readTemplate_eq_ok_iff.1 hu
  obtain ⟨rfl, rfl⟩ := Prod.mk.inj (Option.some.inj (hgroup.symm.trans hgroup'))
  rcases hleft with ⟨hmember, rfl⟩ | ⟨hafter, pieces, args, hpieces, hargs, rfl⟩
  · rcases hright with ⟨-, rfl⟩ | ⟨hafter, -⟩
    · rfl
    · rw [hafter] at hmember
      cases hmember
  · rcases hright with ⟨hmember, -⟩ | ⟨-, pieces', args', hpieces', hargs', rfl⟩
    · rw [hafter] at hmember
      cases hmember
    · obtain rfl := Option.some.inj (hpieces.symm.trans hpieces')
      rw [mapM_unique (fun a _ => h a) hargs hargs']
      rfl

theorem Agree.readFunction (h : Agree read read') (ht : readFunction read core q = .ok t)
    (hu : CppType.readFunction read' core q' = .ok u) : u = t.withQuals q' := by
  obtain ⟨before, rest, inside, after, hcut, hgroup, -, -, result, pieces, args, hresult, hpieces, hargs,
    rfl⟩ := readFunction_eq_ok_iff.1 ht
  obtain ⟨before', rest', inside', after', hcut', hgroup', -, -, result', pieces', args', hresult', hpieces',
    hargs', rfl⟩ := readFunction_eq_ok_iff.1 hu
  obtain ⟨rfl, rfl⟩ := Prod.mk.inj (Option.some.inj (hcut.symm.trans hcut'))
  obtain ⟨rfl, -⟩ := Prod.mk.inj (Option.some.inj (hgroup.symm.trans hgroup'))
  obtain rfl := Option.some.inj (hpieces.symm.trans hpieces')
  rw [h _ _ _ hresult hresult', mapM_unique (fun a _ _ _ => h.readArgument) hargs hargs']
  rfl

/-- Texts with the same core are read as the same type, with the qualifiers of each, however deep the reading
may go. -/
theorem readSegment_withQuals {fuel fuel' : Nat}
    (hcore : (Qualifiers.strip s').1 = (Qualifiers.strip s).1) (ht : readSegment fuel s = .ok t)
    (hu : readSegment fuel' s' = .ok u) : u = t.withQuals (Qualifiers.strip s').2 := by
  induction fuel generalizing fuel' s s' t u with
  | zero => cases ht
  | succ fuel ih =>
      cases fuel' with
      | zero => cases hu
      | succ fuel' =>
          -- The parts of a core are read from one text each.
          have hagree : Agree (readSegment fuel) (readSegment fuel') := by
            intro part t u ht hu
            rw [ih rfl ht hu, ← quals_of_readSegment ht, withQuals_quals]
          obtain ⟨-, hleft⟩ := readSegment_eq_ok_iff.1 ht
          obtain ⟨-, hright⟩ := readSegment_eq_ok_iff.1 hu
          rw [hcore] at hright
          rcases hleft with ⟨hshape, rfl⟩ | ⟨hshape, hleft⟩ | ⟨hshape, hleft⟩
          · rcases hright with ⟨-, rfl⟩ | ⟨hother, -⟩ | ⟨hother, -⟩
            · rfl
            · cases hshape.symm.trans hother
            · cases hshape.symm.trans hother
          · rcases hright with ⟨hother, -⟩ | ⟨-, hright⟩ | ⟨hother, -⟩
            · cases hshape.symm.trans hother
            · exact hagree.readTemplate hleft hright
            · cases hshape.symm.trans hother
          · rcases hright with ⟨hother, -⟩ | ⟨hother, -⟩ | ⟨-, hright⟩
            · cases hshape.symm.trans hother
            · cases hshape.symm.trans hother
            · exact hagree.readFunction hleft hright

end CppType

namespace Qualifiers

open CppType (leadingWords trailingMarks isIdentChar)

theorem strip_trim (s : List Char) : strip (Text.trim s) = strip s := by
  rw [strip, strip, (Text.bare_trim s).trim_eq]

variable {core gap : List Char} {mark : String}

/-! ## Marks behind a core -/

/-- A mark is taken from behind a core and a gap, unless it would run on from the core. -/
theorem takeTrailing?_behind (hm : mark ∈ trailingMarks) (hend : ∀ c ∈ core.getLast?, Text.isBlank c = false)
    (hcore : takeTrailing? core = none) (hgap : ∀ c ∈ gap, Text.isBlank c = true)
    (hsep : gap ≠ [] ∨ mark.toList.head?.any isIdentChar = false) :
    takeTrailing? (core ++ gap ++ mark.toList) = some (mark, core) := by
  rcases gap.eq_nil_or_concat with rfl | ⟨front, b, rfl⟩
  · have hfree : ¬ Swallows core mark := by
      rw [takeTrailing?_eq_none_iff] at hcore
      rintro (⟨-, hamp | hconst⟩ | ⟨-, hconst⟩)
      · exact hcore "&" (by decide) hamp
      · exact hcore "const" (by decide) hconst
      · exact hcore "const" (by decide) hconst
    have hattached : attached mark = mark.toList := by
      rw [attached_eq hm, if_neg (by simpa using hsep), List.nil_append]
    rw [List.append_nil, ← hattached, takeTrailing?_attached hm hend hfree]
  · rw [List.concat_eq_append, ← List.append_assoc, List.append_assoc (core ++ front), List.singleton_append,
      takeTrailing?_apart hm (hgap b (by simp)), Text.trimEnd_append_blanks fun c hc => hgap c (by simp [hc]),
      Text.trimEnd_eq_self hend]

end Qualifiers

/-- A way to spell a reference to a constant: `const` in front of the type, or behind it, with or without a
blank in front of `&`. -/
inductive ConstSpelling where
  | leading
  | attached
  | apart
deriving DecidableEq

namespace ConstSpelling

open CppType (leadingWords isIdentChar)
open Qualifiers

/-- What stands in front of the type. -/
def front : ConstSpelling → String
  | .leading => "const "
  | .attached => ""
  | .apart => ""

/-- What stands behind the type. -/
def back : ConstSpelling → String
  | .leading => "&"
  | .attached => " const&"
  | .apart => " const &"

/-- The words and marks that are read. -/
def quals : ConstSpelling → Qualifiers
  | .leading => ⟨["const"], ["&"]⟩
  | .attached => ⟨[], ["const&"]⟩
  | .apart => ⟨[], ["const", "&"]⟩

/-- A type text as a reference to a constant. -/
def spell (sp : ConstSpelling) (s : String) : String :=
  sp.front ++ s ++ sp.back

variable {core gap before : List Char}

/-- The marks of a spelling are taken from behind a core. -/
theorem stripTrailing_back (sp : ConstSpelling) (hend : ∀ c ∈ core.getLast?, Text.isBlank c = false)
    (hcore : takeTrailing? core = none) (hgap : ∀ c ∈ gap, Text.isBlank c = true) {fuel : Nat}
    (hfuel : 2 ≤ fuel) : stripTrailing fuel (core ++ gap ++ sp.back.toList) = (core, sp.quals.trailing) := by
  obtain ⟨fuel, rfl⟩ := Nat.exists_eq_add_of_le' hfuel
  have hwider : ∀ c ∈ gap ++ [' '], Text.isBlank c = true := by
    intro c hc
    rcases List.mem_append.1 hc with hc | hc
    · exact hgap c hc
    · obtain rfl := List.mem_singleton.1 hc
      rfl
  cases sp with
  | leading =>
      have htake : takeTrailing? (core ++ gap ++ "&".toList) = some ("&", core) :=
        takeTrailing?_behind (by decide) hend hcore hgap (.inr rfl)
      show stripTrailing (fuel + 2) (core ++ gap ++ "&".toList) = (core, ["&"])
      rw [stripTrailing, htake]
      simp only [stripTrailing_eq_self hcore]
      rfl
  | attached =>
      have htake : takeTrailing? (core ++ (gap ++ [' ']) ++ "const&".toList) = some ("const&", core) :=
        takeTrailing?_behind (by decide) hend hcore hwider (.inl (by simp))
      have hback : core ++ gap ++ " const&".toList = core ++ (gap ++ [' ']) ++ "const&".toList := by
        rw [List.append_assoc, List.append_assoc, List.append_assoc]
        rfl
      show stripTrailing (fuel + 2) (core ++ gap ++ " const&".toList) = (core, ["const&"])
      rw [stripTrailing, hback, htake]
      simp only [stripTrailing_eq_self hcore]
      rfl
  | apart =>
      have hconst : takeTrailing? (core ++ (gap ++ [' ']) ++ "const".toList) = some ("const", core) :=
        takeTrailing?_behind (by decide) hend hcore hwider (.inl (by simp))
      have hback : core ++ gap ++ " const &".toList =
          core ++ (gap ++ [' ']) ++ "const".toList ++ ' ' :: "&".toList := by
        rw [List.append_assoc, List.append_assoc, List.append_assoc, List.append_assoc]
        rfl
      have hsolid : ∀ c ∈ (core ++ (gap ++ [' ']) ++ "const".toList).getLast?, Text.isBlank c = false := by
        rw [List.getLast?_append_of_ne_nil _ (by decide)]
        decide
      have hamp : takeTrailing? (core ++ (gap ++ [' ']) ++ "const".toList ++ ' ' :: "&".toList) =
          some ("&", core ++ (gap ++ [' ']) ++ "const".toList) := by
        rw [takeTrailing?_apart (by decide) rfl, Text.trimEnd_eq_self hsolid]
      show stripTrailing (fuel + 2) (core ++ gap ++ " const &".toList) = (core, ["const", "&"])
      rw [stripTrailing, hback, hamp]
      simp only [stripTrailing, hconst, stripTrailing_eq_self hcore]
      rfl

theorem not_isIdentChar_of_head? (sp : ConstSpelling) (hgap : ∀ c ∈ gap, Text.isBlank c = true) :
    ∀ c ∈ (gap ++ sp.back.toList).head?, isIdentChar c = false := by
  intro c hc
  cases gap with
  | nil =>
      have hback : ∀ c ∈ sp.back.toList.head?, isIdentChar c = false := by
        cases sp <;> decide
      exact hback c hc
  | cons b gap =>
      obtain rfl := Option.some.inj hc
      exact CppType.isIdentChar_of_isBlank (hgap b List.mem_cons_self)

/-- No words are taken from in front of a core, unless it is a word and goes with the blank behind it; then
nothing is left of it. -/
theorem stripLeading_back (sp : ConstSpelling) (hword : takeLeading? core = none)
    (hgap : ∀ c ∈ gap, Text.isBlank c = true) {fuel : Nat} (hfuel : 2 ≤ fuel) :
    stripLeading fuel (core ++ gap ++ sp.back.toList) = ([], core ++ gap ++ sp.back.toList) ∨
      (stripTrailing (stripLeading fuel (core ++ gap ++ sp.back.toList)).2.length
        (stripLeading fuel (core ++ gap ++ sp.back.toList)).2).1 = [] := by
  rw [List.append_assoc]
  by_cases hnone : takeLeading? (core ++ (gap ++ sp.back.toList)) = none
  · exact .inl (stripLeading_eq_self hnone fuel)
  right
  obtain ⟨fuel, rfl⟩ := Nat.exists_eq_add_of_le' hfuel
  -- The blank behind a word is the first one of the gap, or the one in front of the marks.
  obtain ⟨w, hw, b, behind, hb, rfl, hbehind⟩ : ∃ w ∈ leadingWords, ∃ b behind, Text.isBlank b = true ∧
      core = w.toList ∧ gap ++ sp.back.toList = b :: behind := by
    by_contra hno
    refine hnone (takeLeading?_append_eq_none hword (sp.not_isIdentChar_of_head? hgap) ?_)
    by_contra hblank
    rw [not_or, not_forall₂, not_forall₂] at hblank
    obtain ⟨⟨b, hb, hblank⟩, w, hw, hcore⟩ := hblank
    obtain ⟨behind, hbehind⟩ := List.head?_eq_some_iff.1 hb
    exact hno ⟨w, hw, b, behind, by simpa using hblank, not_not.1 hcore, hbehind⟩
  have hrest : Text.trimStart behind = Text.trimStart sp.back.toList := by
    rw [← Text.trimStart_of_blank hb, ← hbehind, Text.trimStart_blanks_append hgap]
  rw [hbehind, stripLeading, takeLeading?_word hw behind hb, hrest]
  show (stripTrailing (stripLeading (fuel + 1) (Text.trimStart sp.back.toList)).2.length
    (stripLeading (fuel + 1) (Text.trimStart sp.back.toList)).2).1 = []
  cases sp with
  | leading =>
      have hnone : takeLeading? (Text.trimStart (back .leading).toList) = none := by decide
      rw [stripLeading_eq_self hnone]
      decide
  | attached =>
      have hnone : takeLeading? (Text.trimStart (back .attached).toList) = none := by decide
      rw [stripLeading_eq_self hnone]
      decide
  | apart =>
      have hconst : takeLeading? (Text.trimStart (back .apart).toList) = some ("const", "&".toList) := by
        decide
      have hnone : takeLeading? "&".toList = none := by decide
      rw [stripLeading, hconst]
      simp only [stripLeading_eq_self hnone]
      decide

theorem getLast?_append_back (sp : ConstSpelling) (s : List Char) :
    ∀ c ∈ (s ++ sp.back.toList).getLast?, Text.isBlank c = false := by
  have hback : sp.back.toList ≠ [] ∧ ∀ c ∈ sp.back.toList.getLast?, Text.isBlank c = false := by
    cases sp <;> decide
  rw [List.getLast?_append_of_ne_nil _ hback.1]
  exact hback.2

theorem two_le_length_append_back (sp : ConstSpelling) (gap : List Char) (hne : core ≠ []) :
    2 ≤ (core ++ gap ++ sp.back.toList).length := by
  have hpos := List.length_pos_of_ne_nil hne
  have hback : 1 ≤ sp.back.toList.length := by cases sp <;> decide
  simp only [List.length_append]
  omega

/-- Behind a core, a spelling ends the text as the core begins it: without blanks. -/
theorem bare_append_back (sp : ConstSpelling) (gap : List Char) (hcore : Text.Bare core)
    (hne : core ≠ []) : Text.Bare (core ++ gap ++ sp.back.toList) := by
  refine ⟨?_, sp.getLast?_append_back _⟩
  rw [List.append_assoc, List.head?_append_of_ne_nil _ hne]
  exact hcore.1

/-- A spelling with nothing in front of the core: the text is trimmed, and the core begins it. -/
theorem strip_of_front_eq_nil {sp : ConstSpelling} (hfront : sp.front.toList = []) (gap : List Char)
    (hcore : Text.Bare core) (hne : core ≠ []) (hbefore : ∀ c ∈ before, Text.isBlank c = true)
    {r : List String × List Char}
    (hr : r = stripLeading (core ++ gap ++ sp.back.toList).length (core ++ gap ++ sp.back.toList)) :
    strip (sp.front.toList ++ (before ++ core ++ gap) ++ sp.back.toList) =
      ((stripTrailing r.2.length r.2).1,
        ⟨sp.quals.leading ++ r.1, (stripTrailing r.2.length r.2).2⟩) := by
  have htrim : Text.trim (sp.front.toList ++ (before ++ core ++ gap) ++ sp.back.toList) =
      core ++ gap ++ sp.back.toList := by
    rw [hfront, List.nil_append, List.append_assoc before, List.append_assoc before,
      Text.trim_blanks_append hbefore, (sp.bare_append_back gap hcore hne).trim_eq]
  have hwords : sp.quals.leading = [] := by
    cases sp with
    | leading => exact absurd hfront (by decide)
    | attached => rfl
    | apart => rfl
  rw [hr, strip, htrim, hwords]
  rfl

/-- The spelling with the word in front: the word is taken with the blanks behind it. -/
theorem strip_leading (gap : List Char) (hcore : Text.Bare core) (hne : core ≠ [])
    (hbefore : ∀ c ∈ before, Text.isBlank c = true) {r : List String × List Char}
    (hr : r = stripLeading ("const".toList ++ before ++ (core ++ gap ++ (back .leading).toList)).length
      (core ++ gap ++ (back .leading).toList)) :
    strip ((front .leading).toList ++ (before ++ core ++ gap) ++ (back .leading).toList) =
      ((stripTrailing r.2.length r.2).1,
        ⟨(quals .leading).leading ++ r.1, (stripTrailing r.2.length r.2).2⟩) := by
  have hword : "const ".toList = "const".toList ++ [' '] := rfl
  have hwhole : (front .leading).toList ++ (before ++ core ++ gap) ++ (back .leading).toList =
      "const".toList ++ ' ' :: (before ++ (core ++ gap ++ (back .leading).toList)) := by
    rw [front, hword]
    simp only [List.append_assoc, List.cons_append, List.nil_append]
  have hbare : Text.Bare ("const".toList ++ ' ' :: (before ++ (core ++ gap ++ (back .leading).toList))) := by
    refine ⟨?_, hwhole ▸ getLast?_append_back .leading _⟩
    rw [List.head?_append_of_ne_nil _ (by decide)]
    decide
  have hfuel : ("const".toList ++ ' ' :: (before ++ (core ++ gap ++ (back .leading).toList))).length =
      ("const".toList ++ before ++ (core ++ gap ++ (back .leading).toList)).length + 1 := by
    simp only [List.length_append, List.length_cons]
    omega
  rw [hr, hwhole, strip, hbare.trim_eq, hfuel, stripLeading, takeLeading?_word (by decide) _ rfl,
    Text.trimStart_blanks_append hbefore,
    Text.trimStart_eq_self (bare_append_back .leading gap hcore hne).1]
  rfl

/-- Once the word of a spelling is taken off the front, the core begins the text. -/
theorem strip_front (sp : ConstSpelling) (gap : List Char) (hcore : Text.Bare core) (hne : core ≠ [])
    (hbefore : ∀ c ∈ before, Text.isBlank c = true) :
    ∃ fuel, 2 ≤ fuel ∧ ∀ r, r = stripLeading fuel (core ++ gap ++ sp.back.toList) →
      strip (sp.front.toList ++ (before ++ core ++ gap) ++ sp.back.toList) =
        ((stripTrailing r.2.length r.2).1,
          ⟨sp.quals.leading ++ r.1, (stripTrailing r.2.length r.2).2⟩) := by
  have hlength := sp.two_le_length_append_back gap hne
  cases sp with
  | leading =>
      refine ⟨_, ?_, fun r hr => strip_leading gap hcore hne hbefore hr⟩
      rw [List.length_append]
      omega
  | attached => exact ⟨_, hlength, fun r hr => strip_of_front_eq_nil rfl gap hcore hne hbefore hr⟩
  | apart => exact ⟨_, hlength, fun r hr => strip_of_front_eq_nil rfl gap hcore hne hbefore hr⟩

/-- Around a core, the words and marks of a spelling are taken, or nothing is left as a core. -/
theorem strip_spelled (sp : ConstSpelling) (hcore : Text.Bare core) (hne : core ≠ [])
    (hword : takeLeading? core = none) (hmark : takeTrailing? core = none)
    (hbefore : ∀ c ∈ before, Text.isBlank c = true) (hgap : ∀ c ∈ gap, Text.isBlank c = true) :
    strip (sp.front.toList ++ (before ++ core ++ gap) ++ sp.back.toList) = (core, sp.quals) ∨
      (strip (sp.front.toList ++ (before ++ core ++ gap) ++ sp.back.toList)).1 = [] := by
  obtain ⟨fuel, hfuel, hstrip⟩ := sp.strip_front gap hcore hne hbefore
  rcases sp.stripLeading_back hword hgap hfuel with hnone | hnil
  · left
    rw [hstrip _ hnone.symm, List.append_nil,
      sp.stripTrailing_back hcore.2 hmark hgap (sp.two_le_length_append_back gap hne)]
  · right
    rw [hstrip _ rfl, hnil]

end ConstSpelling

namespace CppType

variable {front c back : List Char} {pieces : List (List Char)}

/-! ## Texts with one segment -/

theorem intercalate_append_back (sep last back : List Char) (pieces : List (List Char)) :
    sep.intercalate (pieces ++ [last]) ++ back = sep.intercalate (pieces ++ [last ++ back]) := by
  induction pieces with
  | nil => simp
  | cons a pieces ih =>
      cases pieces with
      | nil => simp [List.intercalate_cons_cons]
      | cons b pieces =>
          rw [List.cons_append, List.cons_append] at ih ⊢
          rw [List.cons_append, List.cons_append, List.intercalate_cons_cons, List.intercalate_cons_cons,
            List.append_assoc, ih]

theorem front_append_intercalate (sep front first : List Char) (pieces : List (List Char)) :
    front ++ sep.intercalate (first :: pieces) = sep.intercalate ((front ++ first) :: pieces) := by
  cases pieces <;> simp [List.intercalate_cons_cons]

/-- The pieces that are not blank, without blanks around them. -/
def keptPieces (pieces : List (List Char)) : List (List Char) :=
  (pieces.map Text.trim).filter fun t => !t.isEmpty

theorem keptPieces_append (pieces more : List (List Char)) :
    keptPieces (pieces ++ more) = keptPieces pieces ++ keptPieces more := by
  rw [keptPieces, List.map_append, List.filter_append]
  rfl

theorem keptPieces_singleton {piece : List Char} (h : Text.trim piece ≠ []) :
    keptPieces [piece] = [Text.trim piece] := by
  simp [keptPieces, h]

/-- A single piece that is kept is the trimmed one. -/
theorem eq_of_keptPieces_singleton {piece segment : List Char} (h : [segment] = keptPieces [piece]) :
    segment = Text.trim piece := by
  by_cases hne : Text.trim piece = []
  · simp [keptPieces, hne] at h
  · rw [keptPieces_singleton hne] at h
    exact (List.cons.inj h).1

theorem keptPieces_cons_eq_nil_iff {piece : List Char} :
    keptPieces (piece :: pieces) = [] ↔ Text.trim piece = [] ∧ keptPieces pieces = [] := by
  simp [keptPieces]

theorem splitOutside_pieces (hne : pieces ≠ []) (h : ∀ a ∈ pieces, Outside (· != ',') a) :
    splitOutside ',' ([','].intercalate pieces) = some (keptPieces pieces) := by
  rw [splitOutside, cutOutside_intercalate ⟨rfl, rfl⟩ hne h]
  rfl

/-- A text that is put around one with a single segment, and has one again, is put around that segment. -/
theorem exists_piece {segment segment' : List Char} (hfront : Outside (· != ',') front)
    (hback : Outside (· != ',') back) (hsolid : ∃ x ∈ back, Text.isBlank x = false)
    (h : splitOutside ',' c = some [segment]) (h' : splitOutside ',' (front ++ c ++ back) = some [segment']) :
    ∃ piece, segment = Text.trim piece ∧ segment' = Text.trim (front ++ piece ++ back) := by
  have hlast : ∀ s, Text.trim (s ++ back) ≠ [] := by
    intro s hnil
    obtain ⟨x, hx, hblank⟩ := hsolid
    rw [Text.trim_eq_nil_iff.1 hnil x (List.mem_append_right s hx)] at hblank
    cases hblank
  obtain ⟨pieces, rfl, hpieces, hkept⟩ := splitOutside_eq_some ⟨rfl, rfl⟩ h
  rcases pieces.eq_nil_or_concat with rfl | ⟨init, last, rfl⟩
  · cases hkept
  rw [List.concat_eq_append] at hpieces hkept h'
  have hlastOut := (hpieces last (by simp)).append hback
  cases init with
  | nil =>
      have hwhole : splitOutside ',' (front ++ last ++ back) = some (keptPieces [front ++ last ++ back]) := by
        have hpieces' := splitOutside_pieces (List.cons_ne_nil (front ++ last ++ back) [])
        rw [List.intercalate_singleton, List.append_assoc] at hpieces'
        rw [List.append_assoc]
        exact hpieces' (by simpa using hfront.append hlastOut)
      rw [List.nil_append, List.intercalate_singleton, hwhole] at h'
      exact ⟨last, eq_of_keptPieces_singleton hkept, eq_of_keptPieces_singleton (Option.some.inj h').symm⟩
  | cons a init =>
      -- The last piece has the text behind, so it is the one that is kept, and what is in front of it is blank.
      have hwhole : splitOutside ',' (front ++ [','].intercalate (a :: init ++ [last]) ++ back) =
          some (keptPieces ((front ++ a) :: init) ++ keptPieces [last ++ back]) := by
        rw [List.append_assoc, intercalate_append_back, List.cons_append, front_append_intercalate,
          splitOutside_pieces (by simp), ← keptPieces_append]
        · rfl
        · intro x hx
          rw [List.mem_cons, List.mem_append, List.mem_singleton] at hx
          rcases hx with rfl | hx | rfl
          · exact hfront.append (hpieces a (by simp))
          · exact hpieces x (by simp [hx])
          · exact hlastOut
      rw [hwhole, keptPieces_singleton (hlast last), ← List.nil_append [segment']] at h'
      obtain ⟨hnone, hsegment⟩ := List.append_inj' (Option.some.inj h') rfl
      obtain ⟨hfirst, hinit⟩ := keptPieces_cons_eq_nil_iff.1 hnone
      have hblank := Text.trim_eq_nil_iff.1 hfirst
      have hothers : keptPieces (a :: init) = [] := keptPieces_cons_eq_nil_iff.2
        ⟨Text.trim_eq_nil_iff.2 fun x hx => hblank x (List.mem_append_right _ hx), hinit⟩
      have hkept : [segment] = keptPieces (a :: init ++ [last]) := hkept
      rw [keptPieces_append, hothers, List.nil_append] at hkept
      refine ⟨last, eq_of_keptPieces_singleton hkept, ?_⟩
      rw [List.append_assoc, Text.trim_blanks_append fun x hx => hblank x (List.mem_append_left _ hx)]
      exact (List.cons.inj hsegment).1.symm

/-! ## Reading a reference to a constant -/

/-- Whatever spelling is read around the text of a type without qualifiers is read as that type, with the words
and marks of the spelling. -/
theorem parse_spell {sp : ConstSpelling} {text : String} (ht : parse text = .ok t) (hq : t.quals = {})
    (hu : parse (sp.spell text) = .ok u) : u = t.withQuals sp.quals := by
  rw [parse, readChars_eq_ok_iff] at ht hu
  obtain ⟨segment, hsegment, ht⟩ := ht
  obtain ⟨segment', hsegment', hu⟩ := hu
  have hfront : Outside (· != ',') sp.front.toList := by
    cases sp <;> rfl
  have hback : Outside (· != ',') sp.back.toList ∧ ∃ x ∈ sp.back.toList, Text.isBlank x = false := by
    cases sp <;> exact ⟨rfl, by decide⟩
  rw [ConstSpelling.spell, String.toList_append, String.toList_append] at hsegment'
  obtain ⟨piece, rfl, rfl⟩ := exists_piece hfront hback.1 hback.2 hsegment hsegment'
  -- The segment of the text is a core of its own.
  have hstrip : Qualifiers.strip (Text.trim piece) = (Text.trim piece, {}) := by
    have hquals : (Qualifiers.strip (Text.trim piece)).2 = {} := by rw [← quals_of_readSegment ht, hq]
    have hself := Qualifiers.strip_of_isEmpty (s := Text.trim piece) (Prod.ext rfl hquals)
    rw [(Text.bare_trim piece).trim_eq] at hself
    exact Prod.ext hself hquals
  have hne : Text.trim piece ≠ [] := by
    have hcore := (readSegment_eq_ok_iff.1 ht).1
    rwa [hstrip] at hcore
  obtain ⟨hfits, -⟩ := Qualifiers.strip_eq hstrip hne
  have hword : Qualifiers.takeLeading? (Text.trim piece) = none := by
    simpa using hfits.noWord
  obtain ⟨before, gap, hbefore, hgap, hpiece⟩ := Text.exists_trim piece
  have hspelled := sp.strip_spelled hfits.bare hne hword hfits.noMark hbefore hgap
  rw [← hpiece, ← Qualifiers.strip_trim] at hspelled
  rcases hspelled with hspelled | hnil
  · have hsame := readSegment_withQuals (by rw [hspelled, hstrip]) ht hu
    rw [hsame, hspelled]
  · exact absurd hnil (readSegment_eq_ok_iff.1 hu).1

end CppType

end ScriptBindings
