import Mathlib
import ScriptBindings.CppType.Substitute
import ScriptBindings.Proofs.CppType.Qualifiers
import ScriptBindings.Proofs.CppType.Reading
import ScriptBindings.Proofs.CppType.Tokens

/-!
# Identifiers of type texts

The identifiers of a text are its maximal runs of letters, digits and `_`.  Texts that are put next to each
other keep their identifiers as long as no two runs meet, and neither trimming nor collapsing blanks changes
any.  So reading a type and printing it keeps the identifiers of the text, in their order: what the reader
drops or moves are blanks, separators and marks.
-/

namespace ScriptBindings.CppType

/-- The maximal runs of identifier characters, in order. -/
def identifiers (s : List Char) : List (List Char) :=
  (s.splitOnP fun c => !isIdentChar c).filter fun run => !run.isEmpty

/-- Nothing runs on from one text into the next one. -/
def Apart (a b : List Char) : Prop :=
  a.getLast?.any isIdentChar = false ∨ b.head?.any isIdentChar = false

variable {a b s : List Char} {c : Char}

@[simp]
theorem identifiers_nil : identifiers [] = [] := rfl

theorem identifiers_append_cons (a b : List Char) (hc : isIdentChar c = false) :
    identifiers (a ++ c :: b) = identifiers a ++ identifiers b := by
  rw [identifiers, List.splitOnP_append_cons (p := fun c => !isIdentChar c) a b (by simp [hc]),
    List.filter_append, identifiers, identifiers]

theorem identifiers_cons (s : List Char) (hc : isIdentChar c = false) :
    identifiers (c :: s) = identifiers s := by
  rw [← List.nil_append (c :: s), identifiers_append_cons [] s hc]
  rfl

theorem identifiers_append (h : Apart a b) : identifiers (a ++ b) = identifiers a ++ identifiers b := by
  rcases h with ha | hb
  · rcases a.eq_nil_or_concat with rfl | ⟨front, c, rfl⟩
    · rfl
    · have hc : isIdentChar c = false := by simpa using ha
      rw [List.concat_eq_append, List.append_assoc, List.singleton_append,
        identifiers_append_cons front b hc, identifiers_append_cons front [] hc]
      simp
  · cases b with
    | nil => simp
    | cons c b =>
        have hc : isIdentChar c = false := by simpa using hb
        rw [identifiers_append_cons a b hc, identifiers_cons b hc]

/-- A text without identifier characters has no identifiers. -/
theorem identifiers_eq_nil (h : ∀ c ∈ s, isIdentChar c = false) : identifiers s = [] := by
  induction s with
  | nil => rfl
  | cons c s ih =>
      rw [identifiers_cons s (h c List.mem_cons_self), ih fun d hd => h d (List.mem_cons_of_mem _ hd)]

theorem apart_of_left (h : ∀ c ∈ a, isIdentChar c = false) : Apart a b :=
  .inl (by
    cases hlast : a.getLast? with
    | none => rfl
    | some c => exact h c (List.mem_of_getLast? hlast))

theorem apart_of_right (h : ∀ c ∈ b, isIdentChar c = false) : Apart a b :=
  .inr (by
    cases hhead : b.head? with
    | none => rfl
    | some c => exact h c (List.mem_of_head? hhead))

/-- Characters around a text that are no identifier characters do not matter. -/
theorem identifiers_middle {front back : List Char} (hfront : ∀ c ∈ front, isIdentChar c = false)
    (hback : ∀ c ∈ back, isIdentChar c = false) : identifiers (front ++ s ++ back) = identifiers s := by
  rw [identifiers_append (apart_of_right hback), identifiers_append (apart_of_left hfront),
    identifiers_eq_nil hfront, identifiers_eq_nil hback, List.nil_append, List.append_nil]

@[simp]
theorem identifiers_trim (s : List Char) : identifiers (Text.trim s) = identifiers s := by
  obtain ⟨front, back, hfront, hback, hs⟩ := Text.exists_trim s
  conv_rhs => rw [hs]
  exact (identifiers_middle (fun c hc => isIdentChar_of_isBlank (hfront c hc))
    fun c hc => isIdentChar_of_isBlank (hback c hc)).symm

@[simp]
theorem identifiers_trimStart (s : List Char) : identifiers (Text.trimStart s) = identifiers s := by
  obtain ⟨front, hfront, hs⟩ := Text.exists_trimStart s
  conv_rhs => rw [hs, ← List.append_nil (front ++ _)]
  exact (identifiers_middle (fun c hc => isIdentChar_of_isBlank (hfront c hc)) (by simp)).symm

@[simp]
theorem identifiers_trimEnd (s : List Char) : identifiers (Text.trimEnd s) = identifiers s := by
  obtain ⟨back, hback, hs⟩ := Text.exists_trimEnd s
  conv_rhs => rw [hs, ← List.nil_append (_ ++ back), ← List.append_assoc]
  exact (identifiers_middle (by simp) fun c hc => isIdentChar_of_isBlank (hback c hc)).symm

theorem identifiers_intercalate {sep : Char} (hsep : isIdentChar sep = false) (pieces : List (List Char)) :
    identifiers ([sep].intercalate pieces) = pieces.flatMap identifiers := by
  induction pieces with
  | nil => rfl
  | cons piece rest ih =>
      cases rest with
      | nil => simp
      | cons next rest =>
          rw [List.intercalate_cons_cons, List.flatMap_cons, ← ih, List.append_assoc, List.singleton_append,
            identifiers_append_cons _ _ hsep]

/-- The identifiers of a text are those of its words. -/
theorem identifiers_words (s : List Char) : (Text.words s).flatMap identifiers = identifiers s := by
  induction hlen : s.length using Nat.strong_induction_on generalizing s with
  | _ n ih =>
      obtain ⟨w, hword, rfl | ⟨b, r, hblank, rfl⟩⟩ := Text.exists_first_word s
      · -- The whole text is one word.
        by_cases hne : s = []
        · subst hne
          rfl
        · rw [Text.words_of_not_blank hword hne]
          simp
      · have hrest := ih r.length (by simp at hlen; omega) r rfl
        rw [identifiers_append_cons w r (isIdentChar_of_isBlank hblank), ← hrest]
        -- An empty first word is none of the words.
        by_cases hne : w = []
        · subst hne
          have hwords : Text.words ([] ++ b :: r) = Text.words r := by
            rw [Text.words, List.splitOnP_append_cons (p := Text.isBlank) [] r hblank, List.filter_append]
            rfl
          rw [hwords]
          rfl
        · rw [Text.words_append_blank hword hne hblank, List.flatMap_cons]

@[simp]
theorem identifiers_collapse (s : List Char) : identifiers (Text.collapse s) = identifiers s := by
  rw [Text.collapse, identifiers_intercalate (by decide), identifiers_words]

/-! ## Printed types -/

theorem identifiers_attached (mark : String) :
    identifiers (Qualifiers.attached mark) = identifiers mark.toList := by
  unfold Qualifiers.attached
  split
  · rename_i hnil
    rw [hnil]
  · rename_i c s hmark
    split
    · rw [identifiers_cons _ (by decide), hmark]
    · rw [hmark]

theorem apart_attached (a : List Char) (mark : String) : Apart a (Qualifiers.attached mark) := by
  refine .inr ?_
  unfold Qualifiers.attached
  split
  · rfl
  · split
    · rfl
    · rename_i hc
      simpa using hc

/-- The identifiers of words or marks, in order. -/
def identifiersOf (texts : List String) : List (List Char) :=
  texts.flatMap fun text => identifiers text.toList

@[simp]
theorem identifiersOf_nil : identifiersOf [] = [] := rfl

@[simp]
theorem identifiersOf_cons (text : String) (texts : List String) :
    identifiersOf (text :: texts) = identifiers text.toList ++ identifiersOf texts := rfl

@[simp]
theorem identifiersOf_append (texts others : List String) :
    identifiersOf (texts ++ others) = identifiersOf texts ++ identifiersOf others :=
  List.flatMap_append

theorem identifiers_words_written (words : List String) (s : List Char) :
    identifiers (words.flatMap (fun word => word.toList ++ [' ']) ++ s) =
      identifiersOf words ++ identifiers s := by
  induction words with
  | nil => rfl
  | cons word words ih =>
      rw [List.flatMap_cons, List.append_assoc, List.append_assoc, List.singleton_append,
        identifiers_append_cons _ _ (by decide), ih, identifiersOf_cons, List.append_assoc]

theorem identifiers_marks_written (s : List Char) (marks : List String) :
    identifiers (s ++ marks.flatMap Qualifiers.attached) = identifiers s ++ identifiersOf marks := by
  induction marks generalizing s with
  | nil => simp
  | cons mark marks ih =>
      rw [List.flatMap_cons, ← List.append_assoc, ih, identifiers_append (apart_attached s mark),
        identifiers_attached, List.append_assoc, identifiersOf_cons]

/-- Qualifiers keep apart from what they are written around. -/
theorem identifiers_wrap (q : Qualifiers) (core : List Char) : identifiers (q.wrap core) =
    identifiersOf q.leading ++ identifiers core ++ identifiersOf q.trailing := by
  rw [Qualifiers.wrap, identifiers_marks_written, identifiers_words_written]

theorem identifiers_commaSeparated (texts : List (List Char)) :
    identifiers (commaSeparated texts) = texts.flatMap identifiers := by
  cases texts with
  | nil => rfl
  | cons a rest =>
      rw [commaSeparated_cons, identifiers_intercalate (by decide), List.flatMap_cons, List.flatMap_cons,
        List.flatMap_map]
      exact congrArg _ (List.flatMap_congr fun s _ => identifiers_cons s (by decide))

/-- The identifiers of a text in which a group follows a name or a type. -/
theorem identifiers_group {o d : Char} (ho : isIdentChar o = false) (hd : isIdentChar d = false)
    (before : List Char) (texts : List (List Char)) :
    identifiers (before ++ o :: commaSeparated texts ++ [d]) =
      identifiers before ++ texts.flatMap identifiers := by
  rw [identifiers_append_cons _ [] hd, identifiers_append_cons _ _ ho, identifiers_commaSeparated]
  simp

theorem identifiers_chars_base (n : String) (q : Qualifiers) : identifiers (CppType.base n q).chars =
    identifiersOf q.leading ++ identifiers n.toList ++ identifiersOf q.trailing :=
  identifiers_wrap q n.toList

theorem identifiers_chars_template (n : String) (q : Qualifiers) (args : List CppType) :
    identifiers (CppType.template n q args).chars = identifiersOf q.leading ++
      (identifiers n.toList ++ (charsOfList args).flatMap identifiers) ++ identifiersOf q.trailing := by
  rw [chars, identifiers_wrap, identifiers_group (by decide) (by decide)]

theorem identifiers_chars_function (r : CppType) (q : Qualifiers) (args : List FunctionArg) :
    identifiers (CppType.function r q args).chars = identifiersOf q.leading ++
      (identifiers r.chars ++ (charsOfArgs args).flatMap identifiers) ++ identifiersOf q.trailing := by
  rw [chars, identifiers_wrap, identifiers_group (by decide) (by decide)]

/-! ## Reading -/

theorem identifiers_stripLeading (fuel : Nat) (s : List Char) : identifiers s =
    identifiersOf (Qualifiers.stripLeading fuel s).1 ++ identifiers (Qualifiers.stripLeading fuel s).2 := by
  induction fuel generalizing s with
  | zero => rfl
  | succ fuel ih =>
      rw [Qualifiers.stripLeading]
      split
      · rename_i word rest htake
        obtain ⟨-, b, behind, hblank, rfl, rfl⟩ := Qualifiers.takeLeading?_eq_some htake
        rw [identifiers_append_cons _ _ (isIdentChar_of_isBlank hblank), ← identifiers_trimStart behind,
          ih (Text.trimStart behind), identifiersOf_cons, List.append_assoc]
      · rfl

theorem identifiers_stripTrailing (fuel : Nat) (s : List Char) : identifiers s =
    identifiers (Qualifiers.stripTrailing fuel s).1 ++ identifiersOf (Qualifiers.stripTrailing fuel s).2 := by
  induction fuel generalizing s with
  | zero => simp [Qualifiers.stripTrailing]
  | succ fuel ih =>
      rw [Qualifiers.stripTrailing]
      split
      · rename_i mark rest htake
        obtain ⟨-, before, rfl, hrun, rfl⟩ := Qualifiers.takeTrailing?_eq_some htake
        -- A mark is only taken where it does not run on from what stands before it.
        have happart : Apart before mark.toList := (Bool.and_eq_false_iff.1 hrun).symm
        rw [identifiers_append happart, ← identifiers_trimEnd before, ih (Text.trimEnd before)]
        simp
      · simp

/-- Taking the qualifiers off a text keeps its identifiers. -/
theorem identifiers_strip (s : List Char) : identifiers s =
    identifiersOf (Qualifiers.strip s).2.leading ++ identifiers (Qualifiers.strip s).1 ++
      identifiersOf (Qualifiers.strip s).2.trailing := by
  rw [← identifiers_trim, identifiers_stripLeading (Text.trim s).length,
    identifiers_stripTrailing (Qualifiers.stripLeading (Text.trim s).length (Text.trim s)).2.length,
    ← List.append_assoc]
  rfl

theorem identifiers_splitOutside {sep : Char} {tokens : List (List Char)} (hplain : IsPlain sep)
    (hsep : isIdentChar sep = false) (h : splitOutside sep s = some tokens) :
    identifiers s = tokens.flatMap identifiers := by
  obtain ⟨pieces, rfl, -, rfl⟩ := splitOutside_eq_some hplain h
  rw [identifiers_intercalate hsep]
  clear h
  induction pieces with
  | nil => rfl
  | cons piece pieces ih =>
      rw [List.flatMap_cons, ih, List.map_cons, ← identifiers_trim piece]
      cases htrim : Text.trim piece with
      | nil => rfl
      | cons c rest => rfl

/-- Marks that are glued to the token before them are no identifiers. -/
theorem identifiers_glueToken (before : List (List Char)) (token : List Char) :
    (glueToken before token).reverse.flatMap identifiers =
      before.reverse.flatMap identifiers ++ identifiers token := by
  cases before with
  | nil => simp [glueToken]
  | cons previous earlier =>
      obtain ⟨marks, rest, rfl, hmarks, heq⟩ := glueToken_cons previous earlier token
      have hnone : ∀ c ∈ marks, isIdentChar c = false := fun c hc => by
        have hmark := hmarks c hc
        simp only [isMarkChar, Bool.or_eq_true, beq_iff_eq] at hmark
        rcases hmark with rfl | rfl <;> decide
      have hprevious : identifiers (previous ++ marks) = identifiers previous := by
        rw [identifiers_append (apart_of_right hnone), identifiers_eq_nil hnone, List.append_nil]
      have htoken : identifiers (marks ++ rest) = identifiers rest := by
        rw [identifiers_append (apart_of_left hnone), identifiers_eq_nil hnone, List.nil_append]
      rcases heq with ⟨-, heq⟩ | ⟨rfl, -, heq⟩
      · simp [heq, hprevious, htoken]
      · simp [heq, hprevious, htoken, -List.append_nil]

theorem identifiers_glueMarks (tokens : List (List Char)) :
    (glueMarks tokens).flatMap identifiers = tokens.flatMap identifiers := by
  have hfold : ∀ before : List (List Char), (tokens.foldl glueToken before).reverse.flatMap identifiers =
      before.reverse.flatMap identifiers ++ tokens.flatMap identifiers := by
    induction tokens with
    | nil => simp
    | cons token tokens ih =>
        intro before
        rw [List.foldl_cons, ih, identifiers_glueToken, List.flatMap_cons, List.append_assoc]
  exact hfold []

/-! Each part of the reader keeps the identifiers if the reader of smaller parts does. -/

section Parts

variable {read : List Char → Except SyntaxError CppType} {core : List Char} {q : Qualifiers} {t : CppType}
  (hread : ∀ s t, read s = .ok t → identifiers t.chars = identifiers s)
include hread

theorem identifiers_charsOfList {pieces : List (List Char)} {args : List CppType}
    (h : List.Forall₂ (fun piece t => read piece = .ok t) pieces args) :
    (charsOfList args).flatMap identifiers = pieces.flatMap identifiers := by
  induction h with
  | nil => rfl
  | cons h _ ih => rw [charsOfList, List.flatMap_cons, List.flatMap_cons, hread _ _ h, ih]

theorem identifiers_readArgument {i : Nat} {arg : FunctionArg} (h : readArgument read i s = .ok arg) :
    (charsOfArgs [arg]).flatMap identifiers = identifiers s := by
  obtain ⟨tokens, ty, hsplit, hglue⟩ := readArgument_eq_ok_iff.1 h
  have hcore : identifiers (Qualifiers.strip s).1 = (glueMarks tokens).flatMap identifiers := by
    rw [identifiers_splitOutside ⟨rfl, rfl⟩ (by decide) hsplit, identifiers_glueMarks]
  rw [identifiers_strip s, hcore]
  rcases hglue with ⟨hglue, t, ht, rfl⟩ | ⟨name, hglue, -, -, t, ht, rfl⟩
  · simp [charsOfArgs, identifiers_wrap, hglue, hread _ _ ht]
  · simp [charsOfArgs, identifiers_wrap, hglue, hread _ _ ht,
      identifiers_append_cons _ _ (show isIdentChar ' ' = false by decide)]

theorem identifiers_charsOfArgs {pieces : List (List Char × Nat)} {args : List FunctionArg}
    (h : List.Forall₂ (fun piece arg => readArgument read piece.2 piece.1 = .ok arg) pieces args) :
    (charsOfArgs args).flatMap identifiers = (pieces.map Prod.fst).flatMap identifiers := by
  induction h with
  | nil => rfl
  | @cons piece arg pieces args h _ ih =>
      have hcons : charsOfArgs (arg :: args) = charsOfArgs [arg] ++ charsOfArgs args := by
        obtain ⟨ty, q, name, generated⟩ := arg
        simp [charsOfArgs]
      rw [hcons, List.flatMap_append, identifiers_readArgument hread h, ih, List.map_cons, List.flatMap_cons]

theorem identifiers_readTemplate (h : readTemplate read core q = .ok t) :
    identifiers t.chars = identifiersOf q.leading ++ identifiers core ++ identifiersOf q.trailing := by
  obtain ⟨inside, after, hgroup, -, ⟨-, rfl⟩ | ⟨hafter, pieces, args, hsplit, hargs, rfl⟩⟩ :=
    readTemplate_eq_ok_iff.1 h
  · rw [identifiers_chars_base, String.toList_ofList, identifiers_collapse]
  · obtain ⟨hinside, -⟩ := takeGroup_single_eq_some hgroup
    have hbehind : identifiers after = [] := by rw [← identifiers_trim, hafter]; rfl
    -- The group opens with the first `<`, so that nothing is lost between the name and the arguments.
    have hopen : ∃ c, isIdentChar c = false ∧
        core = core.takeWhile (· ≠ '<') ++ c :: (inside ++ '>' :: after) := by
      have hhead := List.head?_dropWhile_not (· ≠ '<') core
      cases hdrop : core.dropWhile (· ≠ '<') with
      | nil =>
          rw [hdrop] at hinside
          simp at hinside
      | cons c rest =>
          rw [hdrop] at hhead hinside
          obtain rfl : c = '<' := by simpa using hhead
          refine ⟨'<', by decide, ?_⟩
          rw [← hinside, List.drop_one, List.tail_cons, ← hdrop, List.takeWhile_append_dropWhile]
    obtain ⟨c, hc, hcore⟩ := hopen
    have hkept : identifiers core =
        identifiers (core.takeWhile (· ≠ '<')) ++ (charsOfList args).flatMap identifiers := by
      conv_lhs => rw [hcore]
      rw [identifiers_append_cons _ _ hc, identifiers_append_cons _ _ (by decide), hbehind, List.append_nil,
        identifiers_splitOutside ⟨rfl, rfl⟩ (by decide) hsplit,
        identifiers_charsOfList hread (mapM_eq_ok_iff.1 hargs)]
    rw [identifiers_chars_template, String.toList_ofList, identifiers_collapse, identifiers_trim, hkept]

theorem identifiers_readFunction (h : readFunction read core q = .ok t) :
    identifiers t.chars = identifiersOf q.leading ++ identifiers core ++ identifiersOf q.trailing := by
  obtain ⟨before, rest, inside, after, hcut, hgroup, hafter, -, hread'⟩ := readFunction_eq_ok_iff.1 h
  obtain ⟨result, pieces, args, hresult, hsplit, hargs, rfl⟩ := hread'
  obtain ⟨rfl, -⟩ := takeGroup_single_eq_some hgroup
  have hbehind : identifiers after = [] := by rw [← identifiers_trim, hafter]; rfl
  have hcore : identifiers core = identifiers result.chars ++ (charsOfArgs args).flatMap identifiers := by
    rw [eq_of_cutAtParen? hcut, identifiers_append_cons _ _ (by decide),
      identifiers_append_cons _ _ (by decide), hbehind, List.append_nil,
      identifiers_splitOutside ⟨rfl, rfl⟩ (by decide) hsplit, hread _ _ hresult, identifiers_trim,
      identifiers_charsOfArgs hread (mapM_eq_ok_iff.1 hargs), List.zipIdx_map_fst]
  rw [identifiers_chars_function, hcore]

end Parts

theorem identifiers_readSegment (fuel : Nat) {t : CppType} (h : readSegment fuel s = .ok t) :
    identifiers t.chars = identifiers s := by
  induction fuel generalizing s t with
  | zero => cases h
  | succ fuel ih =>
      rw [identifiers_strip s]
      obtain ⟨-, ⟨-, rfl⟩ | ⟨-, h⟩ | ⟨-, h⟩⟩ := readSegment_eq_ok_iff.1 h
      · rw [identifiers_chars_base, String.toList_ofList, identifiers_collapse]
      · exact identifiers_readTemplate (fun _ _ => ih) h
      · exact identifiers_readFunction (fun _ _ => ih) h

/-- Reading a type and printing it keeps the identifiers of the text, in their order. -/
theorem identifiers_of_parse {text : String} {t : CppType} (h : parse text = .ok t) :
    identifiers t.chars = identifiers text.toList := by
  obtain ⟨segment, hsplit, hsegment⟩ := readChars_eq_ok_iff.1 h
  rw [identifiers_readSegment _ hsegment, identifiers_splitOutside ⟨rfl, rfl⟩ (by decide) hsplit]
  simp

/-! ## Substitution -/

mutual

/-- The texts of a type that are no names of types: its words and marks, and the names of arguments. -/
def decorations : CppType → List String
  | .base _ q => q.leading ++ q.trailing
  | .template _ q args => q.leading ++ q.trailing ++ decorationsOfList args
  | .function r q args => q.leading ++ q.trailing ++ r.decorations ++ decorationsOfArgs args

/-- `decorations` of several types. -/
def decorationsOfList : List CppType → List String
  | [] => []
  | t :: ts => t.decorations ++ decorationsOfList ts

/-- `decorations` of function arguments. -/
def decorationsOfArgs : List FunctionArg → List String
  | [] => []
  | ⟨ty, q, name, generated⟩ :: rest =>
      q.leading ++ q.trailing ++ (if generated then [] else [name]) ++ ty.decorations ++
        decorationsOfArgs rest

end

/-- The text that stands for a name once types are put in place of parameters. -/
def replacement (b : Bindings) (n : String) : String :=
  (b.get? n).getD n

/-- What stands in the place of a parameter is qualified as the parameter was. -/
theorem identifiers_withQuals_around (q : Qualifiers) (t : CppType) :
    identifiers (t.withQuals (q.around t.quals)).chars =
      identifiersOf q.leading ++ identifiers t.chars ++ identifiersOf q.trailing := by
  cases t with
  | base n r => simp [withQuals, quals, Qualifiers.around, identifiers_chars_base]
  | template n r args => simp [withQuals, quals, Qualifiers.around, identifiers_chars_template]
  | function r r' args => simp [withQuals, quals, Qualifiers.around, identifiers_chars_function]

theorem identifiers_substituteBase (b : Bindings) (n : String) (q : Qualifiers) :
    identifiers (substituteBase b n q).chars =
      identifiersOf q.leading ++ identifiers (replacement b n).toList ++ identifiersOf q.trailing := by
  unfold substituteBase replacement
  cases b.get? n with
  | none => exact identifiers_chars_base n q
  | some concrete =>
      simp only [Option.getD_some]
      split
      · rename_i t hparse
        rw [identifiers_withQuals_around, identifiers_of_parse hparse]
      · exact identifiers_chars_base concrete q

variable (b : Bindings) {w : List Char}

mutual

/-- Each name gives its place, and its identifiers, to the type that is bound to it; all else is kept. -/
theorem mem_identifiers_substitute : (t : CppType) →
    (w ∈ identifiers (t.substitute b).chars ↔
      w ∈ identifiersOf t.decorations ∨ w ∈ identifiersOf (t.names.map (replacement b)))
  | .base n q => by
      rw [substitute, identifiers_substituteBase]
      simp only [decorations, names, identifiersOf_append, List.mem_append, List.map_cons, List.map_nil,
        identifiersOf_cons, identifiersOf_nil, List.append_nil]
      simp only [or_assoc, or_comm, or_left_comm]
  | .template n q args => by
      rw [substitute, identifiers_chars_template]
      have hargs := mem_identifiers_substituteList args
      simp only [decorations, names, identifiersOf_append, List.mem_append, List.map_cons,
        identifiersOf_cons, hargs]
      rw [replacement]
      simp only [or_assoc, or_comm, or_left_comm]
  | .function r q args => by
      rw [substitute, identifiers_chars_function]
      have hresult := mem_identifiers_substitute r
      have hargs := mem_identifiers_substituteArgs args
      simp only [decorations, names, identifiersOf_append, List.mem_append, List.map_append, hresult, hargs]
      simp only [or_assoc, or_comm, or_left_comm]

theorem mem_identifiers_substituteList : (ts : List CppType) →
    (w ∈ (charsOfList (substituteList b ts)).flatMap identifiers ↔
      w ∈ identifiersOf (decorationsOfList ts) ∨ w ∈ identifiersOf ((namesOfList ts).map (replacement b)))
  | [] => by simp [substituteList, charsOfList, decorationsOfList, namesOfList]
  | t :: ts => by
      have hfirst := mem_identifiers_substitute t
      have hrest := mem_identifiers_substituteList ts
      simp only [substituteList, charsOfList, decorationsOfList, namesOfList, List.flatMap_cons,
        List.mem_append, identifiersOf_append, List.map_append, hfirst, hrest]
      simp only [or_assoc, or_left_comm]

theorem mem_identifiers_substituteArgs : (args : List FunctionArg) →
    (w ∈ (charsOfArgs (substituteArgs b args)).flatMap identifiers ↔
      w ∈ identifiersOf (decorationsOfArgs args) ∨ w ∈ identifiersOf ((namesOfArgs args).map (replacement b)))
  | [] => by simp [substituteArgs, charsOfArgs, decorationsOfArgs, namesOfArgs]
  | ⟨ty, q, name, generated⟩ :: rest => by
      have hfirst := mem_identifiers_substitute ty
      have hrest := mem_identifiers_substituteArgs rest
      simp only [substituteArgs, charsOfArgs, decorationsOfArgs, namesOfArgs, List.flatMap_cons,
        List.mem_append, identifiersOf_append, List.map_append, identifiers_wrap, hrest]
      have hspace : isIdentChar ' ' = false := by decide
      cases generated with
      | true =>
          simp only [if_true, hfirst, identifiersOf_nil, List.not_mem_nil, or_false]
          simp only [or_assoc, or_comm, or_left_comm]
      | false =>
          simp only [Bool.false_eq_true, if_false, identifiers_append_cons _ _ hspace, List.mem_append,
            hfirst, identifiersOf_cons, identifiersOf_nil, List.append_nil]
          simp only [or_assoc, or_comm, or_left_comm]

end

end ScriptBindings.CppType
