import Mathlib
import ScriptBindings.Path
import ScriptBindings.Proofs.Text.Spacing

/-!
# Steps of paths

A path whose steps are names, neither empty nor with a slash in them, is found in its own text again, so that
such paths have different texts.  Folding leaves steps alone that neither stay in place nor lead up.
-/

namespace ScriptBindings

/-- A text that is one step of a path and leads inwards. -/
def IsStep (s : String) : Prop :=
  '/' ∉ s.toList ∧ s ≠ "" ∧ s ≠ "." ∧ s ≠ ".."

theorem IsStep.append {s extension : String} (h : IsStep s) (hslash : '/' ∉ extension.toList)
    (hlong : 2 < extension.length) : IsStep (s ++ extension) := by
  have hne {t : String} (ht : t.length ≤ 2) : s ++ extension ≠ t := by
    rintro rfl
    rw [String.length_append] at ht
    omega
  refine ⟨?_, hne (by decide), hne (by decide), hne (by decide)⟩
  rw [String.toList_append, List.mem_append]
  exact not_or.2 ⟨h.1, hslash⟩

namespace Path

/-! ## Pieces -/

theorem pieces_append_slash (front s : String) :
    Text.pieces '/' (front ++ "/" ++ s) = Text.pieces '/' front ++ Text.pieces '/' s := by
  have hchars : (front ++ "/" ++ s).toList = front.toList ++ '/' :: s.toList := by simp
  have hsplit : (front.toList ++ '/' :: s.toList).splitOn '/' =
      front.toList.splitOn '/' ++ s.toList.splitOn '/' :=
    List.splitOnP_append_cons (p := (· == '/')) _ _ rfl
  rw [Text.pieces, hchars, hsplit, List.map_append]
  rfl

theorem pieces_of_no_slash {s : String} (h : '/' ∉ s.toList) : Text.pieces '/' s = [s] := by
  have hsplit : s.toList.splitOn '/' = [s.toList] := by
    refine List.splitOnP_eq_singleton fun c hc => beq_eq_false_iff_ne.2 ?_
    rintro rfl
    exact h hc
  rw [Text.pieces, hsplit, List.map_singleton, String.ofList_toList]

theorem no_slash_of_mem_pieces {s piece : String} (h : piece ∈ Text.pieces '/' s) :
    '/' ∉ piece.toList := by
  obtain ⟨chars, hchars, rfl⟩ := List.mem_map.1 h
  rw [String.toList_ofList]
  intro hslash
  exact Bool.false_ne_true (Text.not_of_mem_splitOnP hchars '/' hslash).symm

/-! ## Texts -/

/-- All steps are names. -/
def Proper (p : Path) : Prop :=
  ∀ step ∈ p.steps, '/' ∉ step.toList ∧ step ≠ ""

variable {p q : Path} {steps : List String}

theorem filter_pieces_steppedText (h : ∀ step ∈ steps, '/' ∉ step.toList ∧ step ≠ "") :
    (Text.pieces '/' (steppedText steps)).filter (· ≠ "") = steps := by
  induction steps with
  | nil => decide
  | cons step steps ih =>
      obtain ⟨hslash, hne⟩ := h step List.mem_cons_self
      by_cases hsteps : steps = []
      · subst hsteps
        rw [steppedText, String.intercalate_singleton, pieces_of_no_slash hslash,
          List.filter_cons_of_pos (by simpa using hne)]
        rfl
      · have hjoin : steppedText (step :: steps) = steppedText [step] ++ "/" ++ steppedText steps :=
          String.intercalate_append_of_ne_nil (List.cons_ne_nil step []) hsteps
        rw [hjoin, pieces_append_slash, steppedText, String.intercalate_singleton,
          pieces_of_no_slash hslash, List.singleton_append, List.filter_cons_of_pos (by simpa using hne),
          ih fun step hstep => h step (List.mem_cons_of_mem _ hstep)]

/-- The text of proper steps does not start at the root directory. -/
theorem startsWith_steppedText (h : ∀ step ∈ steps, '/' ∉ step.toList ∧ step ≠ "") :
    Text.startsWith "/" (steppedText steps) = false := by
  cases steps with
  | nil => decide
  | cons step steps =>
      obtain ⟨hslash, hne⟩ := h step List.mem_cons_self
      obtain ⟨c, rest, hchars⟩ := List.exists_cons_of_ne_nil (mt String.toList_eq_nil_iff.1 hne)
      have hc : '/' ≠ c := fun heq => hslash (by rw [hchars, heq]; exact List.mem_cons_self)
      obtain ⟨behind, htext⟩ : ∃ behind, (steppedText (step :: steps)).toList = c :: behind := by
        rw [steppedText, String.toList_intercalate, List.map_cons, hchars]
        cases steps with
        | nil => exact ⟨rest, by simp⟩
        | cons next steps => exact ⟨_, rfl⟩
      simp [Text.startsWith, htext, List.isPrefixOf, hc]

/-- A path with proper steps is read from its text again. -/
theorem parse_text_eq_self (h : p.Proper) : parse p.text = p := by
  obtain ⟨rooted, steps⟩ := p
  have hsteps := filter_pieces_steppedText h
  cases rooted with
  | true =>
      -- The piece before the slash at the start is empty and means nothing.
      have htext : text ⟨true, steps⟩ = "" ++ "/" ++ steppedText steps := rfl
      have hroot : Text.startsWith "/" ("" ++ "/" ++ steppedText steps) = true := by
        simp [Text.startsWith, List.isPrefixOf]
      rw [htext, parse, hroot, pieces_append_slash, List.filter_append, hsteps]
      rfl
  | false =>
      have htext : text ⟨false, steps⟩ = steppedText steps := rfl
      rw [htext, parse, startsWith_steppedText h, hsteps]

theorem eq_of_text_eq (hp : p.Proper) (hq : q.Proper) (h : p.text = q.text) : p = q := by
  rw [← parse_text_eq_self hp, h, parse_text_eq_self hq]

/-! ## Folding -/

theorem foldl_foldStep (h : ∀ step ∈ steps, step ≠ "." ∧ step ≠ "..") (place : List String) :
    steps.foldl foldStep place = steps.reverse ++ place := by
  induction steps generalizing place with
  | nil => rfl
  | cons step steps ih =>
      obtain ⟨hstay, hup⟩ := h step List.mem_cons_self
      have hstep : foldStep place step = step :: place := by simp [foldStep, hstay, hup]
      rw [List.foldl_cons, hstep, ih fun step hstep => h step (List.mem_cons_of_mem _ hstep),
        List.reverse_cons, List.append_assoc]
      rfl

/-- Folding a path leaves steps alone that neither stay in place nor lead up. -/
theorem normalize_eq_self (h : ∀ step ∈ p.steps, step ≠ "." ∧ step ≠ "..") : p.normalize = p := by
  rw [normalize, foldl_foldStep h, List.append_nil, List.reverse_reverse]

/-! ## Paths that only lead inwards -/

/-- The text of a path that only ever leads inwards. -/
structure Inward (path : String) : Prop where
  relative : Text.startsWith "/" path = false
  isStep : ∀ piece ∈ Text.pieces '/' path, IsStep piece

/-- Such a path is what its text says, step by step. -/
theorem Inward.normalize_parse {path : String} (h : Inward path) :
    (parse path).normalize = ⟨false, Text.pieces '/' path⟩ := by
  have hparse : parse path = ⟨false, Text.pieces '/' path⟩ := by
    rw [parse, h.relative, List.filter_eq_self.2]
    exact fun piece hpiece => decide_eq_true (h.isStep piece hpiece).2.1
  rw [hparse, normalize_eq_self fun step hstep => (h.isStep step hstep).2.2]

end Path

end ScriptBindings
