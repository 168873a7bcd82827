import Mathlib
import ScriptBindings.CppType.Reader
import ScriptBindings.Proofs.CppType.Nesting
import ScriptBindings.Proofs.Except

/-!
# What the reader accepts

For each part of the reader, the exact condition under which it reads a given type: how the text is cut,
and what is read from the pieces.  Errors do not appear here, since a text is not read as a type if and
only if one of the conditions fails.
-/

namespace ScriptBindings.CppType

variable {read : List Char → Except SyntaxError CppType} {s core : List Char} {q : Qualifiers}
  {t : CppType}

/-- The pieces of a list are the parts that it is split into. -/
theorem splitList_eq_ok_iff {pieces : List (List Char)} :
    splitList s = .ok pieces ↔ splitOutside ',' s = some pieces := by
  rw [splitList]
  cases splitOutside ',' s <;> simp

/-- A group that is followed by nothing makes a template; one that is followed by a member, a name. -/
theorem readTemplate_eq_ok_iff :
    readTemplate read core q = .ok t ↔ ∃ inside after,
      takeGroup ['>'] ((core.dropWhile (· ≠ '<')).drop 1) = some (inside, after) ∧
      Text.trim (core.takeWhile (· ≠ '<')) ≠ [] ∧
      ([':', ':'].isPrefixOf (Text.trim after) = true ∧
          t = .base (String.ofList (Text.collapse core)) q ∨
        Text.trim after = [] ∧ ∃ pieces args, splitOutside ',' inside = some pieces ∧
          pieces.mapM read = .ok args ∧
          t = .template
            (String.ofList (Text.collapse (Text.trim (core.takeWhile (· ≠ '<'))))) q args) := by
  unfold readTemplate
  simp only []
  generalize Text.trim (core.takeWhile (· ≠ '<')) = name
  -- Along the checks of the reader: each of them fails on both sides or on none.
  cases hgroup : takeGroup ['>'] ((core.dropWhile (· ≠ '<')).drop 1) with
  | none => simp
  | some group =>
      obtain ⟨inside, after⟩ := group
      by_cases hname : name = []
      · simp [hname]
      · by_cases hmember : [':', ':'] <+: Text.trim after
        · have hfull : Text.trim after ≠ [] := by
            intro hnil
            rw [hnil] at hmember
            simp at hmember
          simp [hname, hmember, hfull, @eq_comm _ t]
        · by_cases hafter : Text.trim after = []
          · cases hsplit : splitOutside ',' inside with
            | none => simp [hname, hafter, splitList, hsplit, bind, Except.bind]
            | some pieces =>
                cases hread : pieces.mapM read with
                | error e => simp [hname, hafter, splitList, hsplit, hread, bind, Except.bind]
                | ok args =>
                    simp [hname, hafter, splitList, hsplit, hread, bind, Except.bind, pure, Except.pure,
                      @eq_comm _ t]
          · simp [hname, hmember, hafter]

theorem readFunction_eq_ok_iff :
    readFunction read core q = .ok t ↔ ∃ before rest inside after,
      cutAtParen? 0 core = some (before, rest) ∧ takeGroup [')'] rest = some (inside, after) ∧
      Text.trim after = [] ∧ Text.trim before ≠ [] ∧
      ∃ result pieces args, read (Text.trim before) = .ok result ∧
        splitOutside ',' inside = some pieces ∧
        (pieces.zipIdx.mapM fun (arg, i) => readArgument read i arg) = .ok args ∧
        t = .function result q args := by
  unfold readFunction
  cases hcut : cutAtParen? 0 core with
  | none => simp
  | some cut =>
      obtain ⟨before, rest⟩ := cut
      cases hgroup : takeGroup [')'] rest with
      | none => simp [hgroup]
      | some group =>
          obtain ⟨inside, after⟩ := group
          by_cases hafter : Text.trim after = []
          · by_cases hbefore : Text.trim before = []
            · simp [hgroup, hafter, hbefore]
            · cases hresult : read (Text.trim before) with
              | error e => simp [hgroup, hafter, hbefore, hresult, bind, Except.bind]
              | ok result =>
                  cases hsplit : splitOutside ',' inside with
                  | none => simp [hgroup, hafter, hbefore, hresult, splitList, hsplit, bind, Except.bind]
                  | some pieces =>
                      cases hargs : pieces.zipIdx.mapM fun (arg, i) => readArgument read i arg with
                      | error e =>
                          simp [hgroup, hafter, hbefore, hresult, splitList, hsplit, hargs, bind,
                            Except.bind]
                      | ok args =>
                          simp [hgroup, hafter, hbefore, hresult, splitList, hsplit, hargs, bind,
                            Except.bind, pure, Except.pure, @eq_comm _ t]
          · simp [hgroup, hafter]

/-- One token is a type, and two are a type and a name. -/
theorem readArgument_eq_ok_iff {i : Nat} {a : FunctionArg} :
    readArgument read i s = .ok a ↔ ∃ tokens ty,
      splitOutside ' ' (Qualifiers.strip s).1 = some tokens ∧
      ((glueMarks tokens = [ty] ∧ ∃ t, read ty = .ok t ∧
          a = ⟨t, (Qualifiers.strip s).2, positionName i, true⟩) ∨
        ∃ name, glueMarks tokens = [ty, name] ∧ isIdentifier name = true ∧
          isPrimitiveWord name = false ∧ ∃ t, read ty = .ok t ∧
          a = ⟨t, (Qualifiers.strip s).2, String.ofList name, false⟩) := by
  unfold readArgument
  cases hsplit : splitOutside ' ' (Qualifiers.strip s).1 with
  | none => simp [hsplit]
  | some tokens =>
      simp only [hsplit]
      -- No token, one, two, or more.
      rcases hglue : glueMarks tokens with _ | ⟨ty, _ | ⟨name, _ | ⟨more, rest⟩⟩⟩
      · simp [hglue]
      · cases hread : read ty with
        | error e => simp [hglue, hread, bind, Except.bind]
        | ok t => simp [hglue, hread, bind, Except.bind, pure, Except.pure, @eq_comm _ a]
      · cases hident : isIdentifier name with
        | false => simp [hglue, hident]
        | true =>
            cases hprimitive : isPrimitiveWord name with
            | true => simp [hglue, hprimitive]
            | false =>
                cases hread : read ty with
                | error e => simp [hglue, hident, hprimitive, hread, bind, Except.bind]
                | ok t =>
                    simp [hglue, hident, hprimitive, hread, bind, Except.bind, pure, Except.pure,
                      @eq_comm _ a]
      · simp [hglue]

/-- The qualifiers of an argument are those that were taken off its text. -/
theorem quals_of_readArgument {i : Nat} {a : FunctionArg} (h : readArgument read i s = .ok a) :
    a.quals = (Qualifiers.strip s).2 := by
  obtain ⟨tokens, ty, -, ⟨-, t, -, rfl⟩ | ⟨name, -, -, -, t, -, rfl⟩⟩ := readArgument_eq_ok_iff.1 h
  · rfl
  · rfl

/-- The shape of the core decides how it is read. -/
theorem readSegment_eq_ok_iff {fuel : Nat} :
    readSegment (fuel + 1) s = .ok t ↔ (Qualifiers.strip s).1 ≠ [] ∧
      (shapeOf (Qualifiers.strip s).1 = .name ∧
          t = .base (String.ofList (Text.collapse (Qualifiers.strip s).1)) (Qualifiers.strip s).2 ∨
        shapeOf (Qualifiers.strip s).1 = .template ∧
          readTemplate (readSegment fuel) (Qualifiers.strip s).1 (Qualifiers.strip s).2 = .ok t ∨
        shapeOf (Qualifiers.strip s).1 = .function ∧
          readFunction (readSegment fuel) (Qualifiers.strip s).1 (Qualifiers.strip s).2 = .ok t) := by
  rw [readSegment]
  by_cases hne : (Qualifiers.strip s).1 = []
  · simp [hne]
  · cases hshape : shapeOf (Qualifiers.strip s).1 <;> simp [hne, hshape, eq_comm]

/-- The qualifiers of what is read are those that were taken off the text. -/
theorem quals_of_readSegment {fuel : Nat} (h : readSegment fuel s = .ok t) :
    t.quals = (Qualifiers.strip s).2 := by
  cases fuel with
  | zero => simp [readSegment] at h
  | succ fuel =>
      obtain ⟨-, ⟨-, rfl⟩ | ⟨-, h⟩ | ⟨-, h⟩⟩ := readSegment_eq_ok_iff.1 h
      · rfl
      · obtain ⟨inside, after, -, -, ⟨-, rfl⟩ | ⟨-, pieces, args, -, -, rfl⟩⟩ :=
          readTemplate_eq_ok_iff.1 h
        · rfl
        · rfl
      · obtain ⟨before, rest, inside, after, -, -, -, -, result, pieces, args, -, -, -, rfl⟩ :=
          readFunction_eq_ok_iff.1 h
        rfl

/-- A name that is read is the core of the text. -/
theorem name_of_readSegment {fuel : Nat} {n : String} (h : readSegment fuel s = .ok (.base n q)) :
    n = String.ofList (Text.collapse (Qualifiers.strip s).1) := by
  cases fuel with
  | zero => simp [readSegment] at h
  | succ fuel =>
      obtain ⟨-, ⟨-, heq⟩ | ⟨-, h⟩ | ⟨-, h⟩⟩ := readSegment_eq_ok_iff.1 h
      · exact (CppType.base.inj heq).1
      · obtain ⟨inside, after, -, -, ⟨-, heq⟩ | ⟨-, pieces, args, -, -, heq⟩⟩ :=
          readTemplate_eq_ok_iff.1 h
        · exact (CppType.base.inj heq).1
        · contradiction
      · obtain ⟨before, rest, inside, after, -, -, -, -, result, pieces, args, -, -, -, heq⟩ :=
          readFunction_eq_ok_iff.1 h
        contradiction

/-- A text with one segment is read as that segment. -/
theorem readChars_eq_ok_iff : readChars s = .ok t ↔ ∃ segment, splitOutside ',' s = some [segment] ∧
    readSegment (segment.length + 1) segment = .ok t := by
  unfold readChars splitList
  cases hsplit : splitOutside ',' s with
  | none => simp [bind, Except.bind]
  | some pieces =>
      rcases pieces with _ | ⟨segment, _ | ⟨second, rest⟩⟩ <;> simp [bind, Except.bind]

end ScriptBindings.CppType
