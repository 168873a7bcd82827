import Mathlib
import ScriptBindings.Proofs.CppType.Reparse

/-!
# The depth of the reading

A type is read down to a depth that is given by the length of its text.  This is deep enough: every part that is
read on its own is shorter than the text that it is a part of, so the reader of a text is never asked for more
levels than the text has characters, and it gives the same for every larger depth.  In particular no text is said
to be empty because the depth has run out.
-/

namespace ScriptBindings.CppType

variable {s core : List Char} {q : Qualifiers} {read read' : List Char → Except SyntaxError CppType}

/-! ## Lengths of parts -/

theorem length_trim_le (s : List Char) : (Text.trim s).length ≤ s.length := by
  obtain ⟨front, back, -, -, hs⟩ := Text.exists_trim s
  have hlength := congrArg List.length hs
  simp only [List.length_append] at hlength
  omega

theorem length_strip_le (s : List Char) : (Qualifiers.strip s).1.length ≤ s.length := by
  by_cases hne : (Qualifiers.strip s).1 = []
  · simp [hne]
  · have hstrip : Qualifiers.strip s = ((Qualifiers.strip s).1, (Qualifiers.strip s).2) := rfl
    obtain ⟨-, front, back, hs, -, -⟩ := Qualifiers.strip_eq hstrip hne
    have hlength := congrArg List.length hs
    simp only [List.length_append] at hlength
    omega

/-- The separators between pieces, and what is trimmed off the pieces, only make the text longer. -/
theorem length_flatten_splitOutside_le {sep : Char} (hsep : IsPlain sep) {tokens : List (List Char)}
    (h : splitOutside sep s = some tokens) : tokens.flatten.length ≤ s.length := by
  obtain ⟨pieces, rfl, -, rfl⟩ := splitOutside_eq_some hsep h
  clear h
  induction pieces with
  | nil => exact Nat.zero_le _
  | cons piece pieces ih =>
      -- A blank piece is dropped, and any other one is trimmed.
      have hfirst : ((([piece].map Text.trim).filter fun t => !t.isEmpty).flatten).length ≤ piece.length := by
        have htrim := length_trim_le piece
        by_cases hnil : Text.trim piece = []
        · simp [hnil]
        · simpa [hnil] using htrim
      have hjoin : piece.length + ([sep].intercalate pieces).length ≤
          ([sep].intercalate (piece :: pieces)).length := by
        cases pieces with
        | nil => simp
        | cons next rest =>
            rw [List.intercalate_cons_cons]
            simp only [List.length_append]
            omega
      rw [← List.singleton_append, List.map_append, List.filter_append, List.flatten_append,
        List.length_append, List.singleton_append]
      omega

theorem length_le_of_mem_flatten {a : List Char} {texts : List (List Char)} (h : a ∈ texts) :
    a.length ≤ texts.flatten.length := by
  rw [List.length_flatten]
  exact List.single_le_sum (by simp) _ (List.mem_map_of_mem h)

/-- Gluing moves marks from a token to the one before it, so that all tokens together stay the same text. -/
theorem flatten_glueMarks (tokens : List (List Char)) : (glueMarks tokens).flatten = tokens.flatten := by
  have hstep : ∀ (before : List (List Char)) (token : List Char),
      (glueToken before token).reverse.flatten = before.reverse.flatten ++ token := by
    intro before token
    cases before with
    | nil => simp [glueToken]
    | cons previous earlier =>
        obtain ⟨marks, rest, rfl, -, ⟨-, heq⟩ | ⟨rfl, -, heq⟩⟩ := glueToken_cons previous earlier token
        · simp [heq]
        · rw [heq]
          simp
  -- Tokens are collected in reverse, so the induction is over whatever was collected before.
  have hfold : ∀ before : List (List Char), (tokens.foldl glueToken before).reverse.flatten =
      before.reverse.flatten ++ tokens.flatten := by
    induction tokens with
    | nil => simp
    | cons token tokens ih =>
        intro before
        rw [List.foldl_cons, ih, hstep, List.flatten_cons, List.append_assoc]
  exact hfold []

/-! ## Readers that agree on shorter texts -/

/-- The pieces of a list are read the same by readers that agree on texts that are not longer. -/
theorem mapM_read_congr {pieces : List (List Char)}
    (h : ∀ a : List Char, a.length ≤ s.length → read a = read' a) (hsplit : splitList s = .ok pieces) :
    pieces.mapM read = pieces.mapM read' := by
  have hlength := length_flatten_splitOutside_le ⟨rfl, rfl⟩ (splitList_eq_ok_iff.1 hsplit)
  exact mapM_congr fun a ha => h a ((length_le_of_mem_flatten ha).trans hlength)

theorem readTemplate_congr (h : ∀ a : List Char, a.length < core.length → read a = read' a) :
    readTemplate read core q = readTemplate read' core q := by
  unfold readTemplate
  cases hgroup : takeGroup ['>'] ((core.dropWhile (· ≠ '<')).drop 1) with
  | none => rfl
  | some group =>
      obtain ⟨inside, after⟩ := group
      have hlength := congrArg List.length (template_text hgroup).1
      simp only [List.length_append, List.length_cons] at hlength
      cases hsplit : splitList inside with
      | error e =>
          simp only [hsplit]
          rfl
      | ok pieces =>
          have hpieces : pieces.mapM read = pieces.mapM read' :=
            mapM_read_congr (fun a ha => h a (by omega)) hsplit
          simp only [hsplit, bind, Except.bind, hpieces]

theorem readArgument_congr (h : ∀ a : List Char, a.length ≤ s.length → read a = read' a) (i : Nat) :
    readArgument read i s = readArgument read' i s := by
  have hcore := length_strip_le s
  unfold readArgument
  cases hsplit : splitOutside ' ' (Qualifiers.strip s).1 with
  | none => simp only [hsplit]
  | some tokens =>
      have hlength := length_flatten_splitOutside_le ⟨rfl, rfl⟩ hsplit
      -- Gluing may make a token longer, but not longer than all tokens together.
      rw [← flatten_glueMarks] at hlength
      have htoken : ∀ a ∈ glueMarks tokens, read a = read' a := fun a ha =>
        h a (((length_le_of_mem_flatten ha).trans hlength).trans hcore)
      simp only [hsplit]
      split
      · rename_i ty hglue
        rw [htoken ty (by simp [hglue])]
      · rename_i ty name hglue
        rw [htoken ty (by simp [hglue])]
      · rfl

/-- The pieces of a list of arguments are read the same by readers that agree on texts that are not longer. -/
theorem mapM_readArgument_congr {pieces : List (List Char)}
    (h : ∀ a : List Char, a.length ≤ s.length → read a = read' a) (hsplit : splitList s = .ok pieces) :
    (pieces.zipIdx.mapM fun (arg, i) => readArgument read i arg) =
      pieces.zipIdx.mapM fun (arg, i) => readArgument read' i arg := by
  have hlength := length_flatten_splitOutside_le ⟨rfl, rfl⟩ (splitList_eq_ok_iff.1 hsplit)
  refine mapM_congr fun part hpart => ?_
  obtain ⟨arg, i⟩ := part
  have harg : arg.length ≤ pieces.flatten.length :=
    length_le_of_mem_flatten (List.fst_mem_of_mem_zipIdx hpart)
  exact readArgument_congr (fun a ha => h a (by omega)) i

theorem readFunction_congr (h : ∀ a : List Char, a.length < core.length → read a = read' a) :
    readFunction read core q = readFunction read' core q := by
  unfold readFunction
  cases hcut : cutAtParen? 0 core with
  | none => rfl
  | some cut =>
      obtain ⟨before, rest⟩ := cut
      have hlength := congrArg List.length (eq_of_cutAtParen? hcut)
      simp only [List.length_append, List.length_cons] at hlength
      cases hgroup : takeGroup [')'] rest with
      | none => simp only [hgroup]
      | some group =>
          obtain ⟨inside, after⟩ := group
          have hinside := congrArg List.length (takeGroup_single_eq_some hgroup).1
          simp only [List.length_append, List.length_cons] at hinside
          have hbefore := length_trim_le before
          have hresult : read (Text.trim before) = read' (Text.trim before) := h _ (by omega)
          -- The parentheses around the arguments make them shorter than the core.
          have hshort : ∀ a : List Char, a.length ≤ inside.length → read a = read' a := fun a ha =>
            h a (by omega)
          cases hsplit : splitList inside with
          | error e => simp only [hgroup, hresult, hsplit, bind, Except.bind]
          | ok pieces =>
              have hargs := mapM_readArgument_congr hshort hsplit
              simp only [hgroup, hresult, hsplit, hargs, bind, Except.bind]

/-- The depth is never used up: from the length of the text on, all depths give the same. -/
theorem readSegment_eq_of_length_lt {fuel fuel' : Nat} (h : s.length < fuel) (h' : s.length < fuel') :
    readSegment fuel s = readSegment fuel' s := by
  induction fuel generalizing s fuel' with
  | zero => omega
  | succ fuel ih =>
      cases fuel' with
      | zero => omega
      | succ fuel' =>
          have hcore := length_strip_le s
          have hread : ∀ a : List Char, a.length < (Qualifiers.strip s).1.length →
              readSegment fuel a = readSegment fuel' a := fun a ha => ih (by omega) (by omega)
          unfold readSegment
          simp only [readTemplate_congr hread, readFunction_congr hread]

/-- Read a text as one type, as deep as the text is long. -/
def readWhole (s : List Char) : Except SyntaxError CppType :=
  readSegment (s.length + 1) s

/-- The reading does without a depth: the parts of a type are read like the type itself. -/
theorem readWhole_eq (s : List Char) : readWhole s =
    if (Qualifiers.strip s).1 = [] then .error .empty
    else match shapeOf (Qualifiers.strip s).1 with
      | .name =>
          .ok (.base (String.ofList (Text.collapse (Qualifiers.strip s).1)) (Qualifiers.strip s).2)
      | .template => readTemplate readWhole (Qualifiers.strip s).1 (Qualifiers.strip s).2
      | .function => readFunction readWhole (Qualifiers.strip s).1 (Qualifiers.strip s).2 := by
  have hcore := length_strip_le s
  have hread : ∀ a : List Char, a.length < (Qualifiers.strip s).1.length → readSegment s.length a = readWhole a :=
    fun a ha => readSegment_eq_of_length_lt (by omega) (Nat.lt_succ_self _)
  rw [← readTemplate_congr hread, ← readFunction_congr hread]
  rfl

end ScriptBindings.CppType
