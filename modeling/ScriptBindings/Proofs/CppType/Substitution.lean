import Mathlib
import ScriptBindings.CppType.Substitute
import ScriptBindings.Proofs.CppType.Legible

/-!
# Substitution in printed types

A printed type is a row of pieces: the names of the type from left to right, and the text between them.  Putting
types in place of template parameters changes the row piece by piece.  Where a name is bound, the printed form of
the type that is bound to it is written instead, or the bound text itself where no type is read from it, or where
the name is that of a template.  All other pieces are kept, qualifiers and names of arguments among them, and the
pieces of a bound type are not looked up again.
-/

namespace ScriptBindings

/-- Bindings are looked up like any list of pairs. -/
theorem Bindings.get?_eq_lookup (b : Bindings) (name : String) : b.get? name = b.lookup name := by
  induction b with
  | nil => rfl
  | cons e b ih =>
      obtain ⟨param, concrete⟩ := e
      rw [Bindings.get?] at ih ⊢
      by_cases h : param = name
      · simp [h]
      · rw [List.find?_cons_of_neg (by simpa using h), ih, List.lookup, beq_false_of_ne (Ne.symm h)]

/-- Qualifiers around a qualified text are written around it. -/
theorem Qualifiers.wrap_around (outer inner : Qualifiers) (core : List Char) :
    (outer.around inner).wrap core = outer.wrap (inner.wrap core) := by
  simp only [wrap, around, List.flatMap_append, List.append_assoc]

namespace CppType

theorem chars_withQuals_around (q : Qualifiers) (t : CppType) :
    (t.withQuals (q.around t.quals)).chars = q.wrap t.chars := by
  rw [chars_eq, quals_withQuals, core_withQuals, Qualifiers.wrap_around, ← chars_eq]

/-! ## Pieces -/

/-- A piece of a printed type: the name of a type without arguments, the name of a template, or other text. -/
inductive Piece where
  | base (name : String)
  | template (name : String)
  | other (text : List Char)

namespace Piece

/-- The piece as it is printed. -/
def chars : Piece → List Char
  | base n => n.toList
  | template n => n.toList
  | other s => s

/-- The name that the piece is, if it is one. -/
def name? : Piece → Option String
  | base n => some n
  | template n => some n
  | other _ => none

/-- What is printed for the piece once types are put in place of parameters; the first type for a parameter
counts. -/
def filled (b : Bindings) : Piece → List Char
  | base n =>
      match b.lookup n with
      | none => n.toList
      | some concrete =>
          match parse concrete with
          | .ok t => t.chars
          | .error _ => concrete.toList
  | template n => ((b.lookup n).getD n).toList
  | other s => s

/-- The names that come into the place of the piece. -/
def filledNames (b : Bindings) : Piece → List String
  | base n =>
      match b.lookup n with
      | none => [n]
      | some concrete =>
          match parse concrete with
          | .ok t => t.names
          | .error _ => [concrete]
  | template n => [(b.lookup n).getD n]
  | other _ => []

theorem filled_nil : filled [] = chars := by
  funext p
  cases p <;> rfl

theorem filledNames_nil : filledNames [] = fun p => p.name?.toList := by
  funext p
  cases p <;> rfl

end Piece

/-- Pieces between the qualifiers around them. -/
def wrapped (q : Qualifiers) (inner : List Piece) : List Piece :=
  .other (q.leading.flatMap fun word => word.toList ++ [' ']) :: inner ++
    [.other (q.trailing.flatMap Qualifiers.attached)]

/-- Rows of pieces with a comma and a space between them. -/
def separated (rows : List (List Piece)) : List Piece :=
  [Piece.other [',', ' ']].intercalate rows

mutual

/-- The pieces of a printed type. -/
def pieces : CppType → List Piece
  | .base n q => wrapped q [.base n]
  | .template n q args =>
      wrapped q (.template n :: .other ['<'] :: separated (piecesOfList args) ++ [.other ['>']])
  | .function r q args =>
      wrapped q (r.pieces ++ .other ['('] :: separated (piecesOfArgs args) ++ [.other [')']])

/-- The pieces of several printed types. -/
def piecesOfList : List CppType → List (List Piece)
  | [] => []
  | t :: ts => t.pieces :: piecesOfList ts

/-- The pieces of printed function arguments. -/
def piecesOfArgs : List FunctionArg → List (List Piece)
  | [] => []
  | ⟨ty, q, name, generated⟩ :: rest =>
      wrapped q (ty.pieces ++ if generated then [] else [.other (' ' :: name.toList)]) :: piecesOfArgs rest

end

section Flat

variable {α : Type}

theorem flatMap_intercalate {β : Type} (f : β → List α) (sep : List β) (rows : List (List β)) :
    (sep.intercalate rows).flatMap f = (sep.flatMap f).intercalate (rows.map (·.flatMap f)) := by
  induction rows with
  | nil => rfl
  | cons row rows ih =>
      cases rows with
      | nil => simp
      | cons next rows =>
          rw [List.intercalate_cons_cons, List.flatMap_append, List.flatMap_append, ih, List.map_cons,
            List.map_cons, List.map_cons, List.intercalate_cons_cons]

theorem nil_intercalate (rows : List (List α)) : ([] : List α).intercalate rows = rows.flatten := by
  induction rows with
  | nil => rfl
  | cons row rows ih =>
      cases rows with
      | nil => simp
      | cons next rows => rw [List.intercalate_cons_cons, ih, List.append_nil, ← List.flatten_cons]

end Flat

/-! ## Printing pieces -/

section Printing

variable {g : Piece → List Char}

theorem flatMap_wrapped (hg : ∀ s, g (.other s) = s) (q : Qualifiers) (inner : List Piece) :
    (wrapped q inner).flatMap g = q.wrap (inner.flatMap g) := by
  simp [wrapped, Qualifiers.wrap, hg]

theorem flatMap_separated (hg : ∀ s, g (.other s) = s) (rows : List (List Piece)) :
    (separated rows).flatMap g = commaSeparated (rows.map (·.flatMap g)) := by
  rw [separated, flatMap_intercalate, List.flatMap_singleton, hg]
  rfl

end Printing

theorem chars_substituteBase (b : Bindings) (n : String) (q : Qualifiers) :
    (substituteBase b n q).chars = q.wrap (Piece.filled b (.base n)) := by
  rw [substituteBase, Bindings.get?_eq_lookup, Piece.filled]
  cases b.lookup n with
  | none => rfl
  | some concrete =>
      dsimp only
      cases parse concrete with
      | ok t => exact chars_withQuals_around q t
      | error e => rfl

variable (b : Bindings)

mutual

/-- Putting types in place of parameters fills the pieces of the printed form. -/
theorem chars_substitute : (t : CppType) → (t.substitute b).chars = t.pieces.flatMap (Piece.filled b)
  | .base n q => by
      rw [substitute, chars_substituteBase, pieces, flatMap_wrapped fun _ => rfl, List.flatMap_singleton]
  | .template n q args => by
      have hargs := flatMap_separated (g := Piece.filled b) (fun _ => rfl) (piecesOfList args)
      rw [substitute, chars, charsOfList_substituteList args, ← hargs, pieces,
        flatMap_wrapped fun _ => rfl]
      simp [Piece.filled, Bindings.get?_eq_lookup]
  | .function r q args => by
      have hargs := flatMap_separated (g := Piece.filled b) (fun _ => rfl) (piecesOfArgs args)
      rw [substitute, chars, chars_substitute r, charsOfArgs_substituteArgs args, ← hargs, pieces,
        flatMap_wrapped fun _ => rfl]
      simp [Piece.filled]

theorem charsOfList_substituteList : (ts : List CppType) →
    charsOfList (substituteList b ts) = (piecesOfList ts).map (·.flatMap (Piece.filled b))
  | [] => rfl
  | t :: ts => by
      rw [substituteList, charsOfList, chars_substitute t, charsOfList_substituteList ts, piecesOfList,
        List.map_cons]

theorem charsOfArgs_substituteArgs : (args : List FunctionArg) →
    charsOfArgs (substituteArgs b args) = (piecesOfArgs args).map (·.flatMap (Piece.filled b))
  | [] => rfl
  | ⟨ty, q, name, generated⟩ :: rest => by
      rw [substituteArgs, charsOfArgs, chars_substitute ty, charsOfArgs_substituteArgs rest, piecesOfArgs,
        List.map_cons, flatMap_wrapped fun _ => rfl]
      cases generated <;> simp [Piece.filled]

end

/-! ## Names -/

theorem names_withQuals (t : CppType) (q : Qualifiers) : (t.withQuals q).names = t.names := by
  cases t <;> rfl

theorem flatMap_filledNames_wrapped (q : Qualifiers) (inner : List Piece) :
    (wrapped q inner).flatMap (Piece.filledNames b) = inner.flatMap (Piece.filledNames b) := by
  simp [wrapped, Piece.filledNames]

theorem flatMap_filledNames_separated (rows : List (List Piece)) :
    (separated rows).flatMap (Piece.filledNames b) = rows.flatMap (·.flatMap (Piece.filledNames b)) := by
  rw [separated, flatMap_intercalate, List.flatMap_singleton, Piece.filledNames, nil_intercalate,
    ← List.flatMap_def]

theorem names_substituteBase (n : String) (q : Qualifiers) :
    (substituteBase b n q).names = Piece.filledNames b (.base n) := by
  rw [substituteBase, Bindings.get?_eq_lookup, Piece.filledNames]
  cases b.lookup n with
  | none => rfl
  | some concrete =>
      dsimp only
      cases parse concrete with
      | ok t => exact names_withQuals t _
      | error e => rfl

mutual

/-- The names afterwards are those that come into the places of the names, and they are not looked up. -/
theorem names_substitute : (t : CppType) →
    (t.substitute b).names = t.pieces.flatMap (Piece.filledNames b)
  | .base n q => by
      rw [substitute, names_substituteBase, pieces, flatMap_filledNames_wrapped, List.flatMap_singleton]
  | .template n q args => by
      rw [substitute, names, namesOfList_substituteList args, pieces, flatMap_filledNames_wrapped]
      simp [flatMap_filledNames_separated, Piece.filledNames, Bindings.get?_eq_lookup]
  | .function r q args => by
      rw [substitute, names, names_substitute r, namesOfArgs_substituteArgs args, pieces,
        flatMap_filledNames_wrapped]
      simp [flatMap_filledNames_separated, Piece.filledNames]

theorem namesOfList_substituteList : (ts : List CppType) →
    namesOfList (substituteList b ts) = (piecesOfList ts).flatMap (·.flatMap (Piece.filledNames b))
  | [] => rfl
  | t :: ts => by
      rw [substituteList, namesOfList, names_substitute t, namesOfList_substituteList ts, piecesOfList,
        List.flatMap_cons]

theorem namesOfArgs_substituteArgs : (args : List FunctionArg) →
    namesOfArgs (substituteArgs b args) = (piecesOfArgs args).flatMap (·.flatMap (Piece.filledNames b))
  | [] => rfl
  | ⟨ty, q, name, generated⟩ :: rest => by
      rw [substituteArgs, namesOfArgs, names_substitute ty, namesOfArgs_substituteArgs rest, piecesOfArgs,
        List.flatMap_cons, flatMap_filledNames_wrapped]
      cases generated <;> simp [Piece.filledNames]

end

/-! ## Nothing to put in -/

mutual

/-- Without bindings a type stays as it is. -/
theorem substitute_nil : (t : CppType) → t.substitute [] = t
  | .base n q => rfl
  | .template n q args => by
      rw [substitute, substituteList_nil args]
      rfl
  | .function r q args => by rw [substitute, substitute_nil r, substituteArgs_nil args]

theorem substituteList_nil : (ts : List CppType) → substituteList [] ts = ts
  | [] => rfl
  | t :: ts => by rw [substituteList, substitute_nil t, substituteList_nil ts]

theorem substituteArgs_nil : (args : List FunctionArg) → substituteArgs [] args = args
  | [] => rfl
  | ⟨ty, q, name, generated⟩ :: rest => by
      rw [substituteArgs, substitute_nil ty, substituteArgs_nil rest]

end

theorem chars_eq_pieces (t : CppType) : t.chars = t.pieces.flatMap Piece.chars := by
  have hchars := chars_substitute [] t
  rwa [substitute_nil, Piece.filled_nil] at hchars

theorem names_eq_pieces (t : CppType) : t.names = t.pieces.filterMap Piece.name? := by
  have hnames := names_substitute [] t
  rwa [substitute_nil, Piece.filledNames_nil, ← List.filterMap_eq_flatMap_toList] at hnames

/-- A printed type is its pieces, among which are all its names; and the printed form after types are put in place
of parameters is what these pieces are filled with, so that the names afterwards are those that come into the
places of the names. -/
theorem substitute_printed (b : Bindings) (t : CppType) :
    t.text = String.ofList (t.pieces.flatMap Piece.chars) ∧
      t.names = t.pieces.filterMap Piece.name? ∧
      (t.substitute b).text = String.ofList (t.pieces.flatMap (Piece.filled b)) ∧
      (t.substitute b).names = t.pieces.flatMap (Piece.filledNames b) := by
  refine ⟨?_, names_eq_pieces t, ?_, names_substitute b t⟩
  · rw [text, chars_eq_pieces]
  · rw [text, chars_substitute]

example : (CppType.substitute [("T", "std::vector<U>*"), ("U", "int")]
    (.function (.named "U") {} [⟨.named "T", { leading := ["const"] }, "t", false⟩])).text =
      "int(const std::vector<U>* t)" := by
  decide +kernel

end CppType

end ScriptBindings
