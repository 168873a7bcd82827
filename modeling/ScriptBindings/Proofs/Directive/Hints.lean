import Mathlib
import ScriptBindings.Directive.Hint
import ScriptBindings.Proofs.Text.Cutting

/-!
# What a template hint stands for

A hint is a bind name, a colon, and assignments with semicolons between them.  It makes sense if every
assignment that is not blank gives its parameter a type or a known set of types.  Then it stands for one
combination per way to choose, and the combinations are in the order of dictionaries: the number of a combination
is read off the places of its types, the place in the first assignment being the most significant digit.
-/

namespace ScriptBindings.TemplateHint

variable {sets : TypeSets} {line text name : String} {parts : List String} {hint : TemplateHint}
  {choice : String × List String}

/-! ## How a hint is written -/

/-- A hint line with its bind name and its assignments, blank ones included. -/
structure IsWritten (line name : String) (parts : List String) : Prop where
  line : line = name ++ ":" ++ ";".intercalate parts
  name : ':' ∉ name.toList
  nonempty : parts ≠ []
  parts : ∀ part ∈ parts, ';' ∉ part.toList

/-- What an assignment gives: the parameter before its first `=`, and behind it the types of a set or a single
type. -/
inductive Assigns (sets : TypeSets) : String → String × List String → Prop
  | set {left right name : String} {types : List String} (hleft : '=' ∉ left.toList)
      (hvalue : Text.trimmed right = "$" ++ name) (htypes : sets.get? name = some types) :
      Assigns sets (left ++ "=" ++ right) (Text.trimmed left, types)
  | type {left right : String} (hleft : '=' ∉ left.toList)
      (hvalue : (Text.trimmed right).toList.head? ≠ some '$') :
      Assigns sets (left ++ "=" ++ right) (Text.trimmed left, [Text.trimmed right])

/-- An assignment that makes no sense: it has no `=`, or names a set that is not known. -/
inductive Senseless (sets : TypeSets) : String → Prop
  | bare {text : String} (htext : '=' ∉ text.toList) : Senseless sets text
  | unknown {left right name : String} (hleft : '=' ∉ left.toList)
      (hvalue : Text.trimmed right = "$" ++ name) (htypes : sets.get? name = none) :
      Senseless sets (left ++ "=" ++ right)

theorem isWritten_iff : IsWritten line name parts ↔
    ∃ rest, Text.cutAtChar? ':' line = some (name, rest) ∧ Text.pieces ';' rest = parts := by
  constructor
  · intro h
    exact ⟨";".intercalate parts, Text.cutAtChar?_eq_some_iff.2 ⟨h.line, h.name⟩,
      Text.pieces_eq_iff.2 ⟨h.nonempty, h.parts, rfl⟩⟩
  · rintro ⟨rest, hcut, hpieces⟩
    obtain ⟨hline, hname⟩ := Text.cutAtChar?_eq_some_iff.1 hcut
    obtain ⟨hne, hparts, rfl⟩ := Text.pieces_eq_iff.1 hpieces
    exact ⟨hline, hname, hne, hparts⟩

/-! ## Reading an assignment -/

theorem choices?_of_bare (htext : '=' ∉ text.toList) : choices? sets text = none := by
  rw [choices?, Text.cutAtChar?_eq_none_iff.2 htext]
  rfl

theorem choices?_of_set {left right : String} (hleft : '=' ∉ left.toList)
    (hvalue : Text.trimmed right = "$" ++ name) :
    choices? sets (left ++ "=" ++ right) =
      (sets.get? name).map fun types => (Text.trimmed left, types) := by
  have hcut : Text.cutAtChar? '=' (left ++ "=" ++ right) = some (left, right) :=
    Text.cutAtChar?_eq_some_iff.2 ⟨rfl, hleft⟩
  have hchars : (Text.trimmed right).toList = '$' :: name.toList := by
    rw [hvalue, String.toList_append]
    rfl
  rw [choices?, hcut, Option.bind_eq_bind, Option.bind_some]
  simp only [hchars, String.ofList_toList]
  cases sets.get? name <;> rfl

theorem choices?_of_type {left right : String} (hleft : '=' ∉ left.toList)
    (hvalue : (Text.trimmed right).toList.head? ≠ some '$') :
    choices? sets (left ++ "=" ++ right) = some (Text.trimmed left, [Text.trimmed right]) := by
  have hcut : Text.cutAtChar? '=' (left ++ "=" ++ right) = some (left, right) :=
    Text.cutAtChar?_eq_some_iff.2 ⟨rfl, hleft⟩
  rw [choices?, hcut, Option.bind_eq_bind, Option.bind_some]
  dsimp only
  split
  · rename_i set hchars
    rw [hchars] at hvalue
    exact absurd rfl hvalue
  · rw [String.ofList_toList]
    rfl

/-- Every text makes sense as an assignment or does not. -/
theorem senseless_or_assigns (sets : TypeSets) (text : String) :
    Senseless sets text ∨ ∃ choice, Assigns sets text choice := by
  cases hcut : Text.cutAtChar? '=' text with
  | none => exact Or.inl (.bare (Text.cutAtChar?_eq_none_iff.1 hcut))
  | some sides =>
      obtain ⟨left, right⟩ := sides
      obtain ⟨rfl, hleft⟩ := Text.cutAtChar?_eq_some_iff.1 hcut
      by_cases hvalue : (Text.trimmed right).toList.head? = some '$'
      · obtain ⟨set, hchars⟩ : ∃ set, (Text.trimmed right).toList = '$' :: set :=
          List.head?_eq_some_iff.1 hvalue
        have hname : Text.trimmed right = "$" ++ String.ofList set := by
          rw [← String.toList_inj, hchars]
          simp
        cases htypes : sets.get? (String.ofList set) with
        | none => exact Or.inl (.unknown hleft hname htypes)
        | some types => exact Or.inr ⟨_, .set hleft hname htypes⟩
      · exact Or.inr ⟨_, .type hleft hvalue⟩

theorem choices?_of_senseless (h : Senseless sets text) : choices? sets text = none := by
  cases h with
  | bare htext => exact choices?_of_bare htext
  | unknown hleft hvalue htypes => rw [choices?_of_set hleft hvalue, htypes, Option.map_none]

theorem choices?_of_assigns (h : Assigns sets text choice) : choices? sets text = some choice := by
  cases h with
  | set hleft hvalue htypes => rw [choices?_of_set hleft hvalue, htypes, Option.map_some]
  | type hleft hvalue => exact choices?_of_type hleft hvalue

theorem choices?_eq_none_iff : choices? sets text = none ↔ Senseless sets text := by
  constructor
  · intro hnone
    rcases senseless_or_assigns sets text with h | ⟨choice, h⟩
    · exact h
    · rw [choices?_of_assigns h] at hnone
      cases hnone
  · exact choices?_of_senseless

theorem choices?_eq_some_iff : choices? sets text = some choice ↔ Assigns sets text choice := by
  constructor
  · intro hsome
    rcases senseless_or_assigns sets text with h | ⟨choice', h⟩
    · rw [choices?_of_senseless h] at hsome
      cases hsome
    · rw [choices?_of_assigns h] at hsome
      exact Option.some.inj hsome ▸ h
  · exact choices?_of_assigns

/-! ## Ways to choose -/

/-- The number of ways to choose. -/
def size (params : List (String × List String)) : Nat :=
  (params.map fun c => c.2.length).prod

/-- The number of the combination with given places, the first place being the most significant digit. -/
def position : List (String × List String) → List Nat → Nat
  | _ :: rest, i :: places => i * size rest + position rest places
  | _, _ => 0

/-- The types at given places. -/
def chosen (params : List (String × List String)) (places : List Nat) : Combination :=
  List.zipWith (fun c i => (c.1, c.2.getD i "")) params places

/-- Each place is one of a list. -/
def AreWithin (params : List (String × List String)) (places : List Nat) : Prop :=
  List.Forall₂ (fun c i => i < c.2.length) params places

variable {params : List (String × List String)} {places : List Nat}

theorem size_cons (c : String × List String) (rest : List (String × List String)) :
    size (c :: rest) = c.2.length * size rest := by
  rw [size, List.map_cons, List.prod_cons, size]

theorem chosen_cons (c : String × List String) (rest : List (String × List String)) (i : Nat)
    (places : List Nat) : chosen (c :: rest) (i :: places) = (c.1, c.2.getD i "") :: chosen rest places := rfl

theorem position_lt_size (h : AreWithin params places) : position params places < size params := by
  induction h with
  | nil => decide
  | @cons c i rest places hi _ ih =>
      rw [size_cons, position]
      have hrow : (i + 1) * size rest ≤ c.2.length * size rest := Nat.mul_le_mul_right _ hi
      rw [Nat.succ_mul] at hrow
      omega

theorem length_product (params : List (String × List String)) : (product params).length = size params := by
  induction params with
  | nil => rfl
  | cons c rest ih =>
      have hrow : ∀ t ∈ c.2, ((product rest).map ((c.1, t) :: ·)).length = size rest := by
        intro t _
        rw [List.length_map, ih]
      rw [product, List.length_flatMap, List.map_congr_left hrow, size_cons]
      simp

/-- An entry of rows of one length, one behind the other. -/
theorem getElem?_flatMap_rows {α β : Type} {f : α → List β} {n : Nat} (hf : ∀ a, (f a).length = n)
    (l : List α) (i : Nat) {j : Nat} (hj : j < n) :
    (l.flatMap f)[i * n + j]? = l[i]?.bind fun a => (f a)[j]? := by
  induction l generalizing i with
  | nil => simp
  | cons a l ih =>
      rw [List.flatMap_cons]
      cases i with
      | zero =>
          rw [Nat.zero_mul, Nat.zero_add, List.getElem?_append_left (by rw [hf]; exact hj)]
          rfl
      | succ i =>
          have hskip : (i + 1) * n + j - (f a).length = i * n + j := by
            rw [hf, Nat.succ_mul]
            omega
          have hlength : (f a).length ≤ (i + 1) * n + j := by
            rw [hf, Nat.succ_mul]
            omega
          rw [List.getElem?_append_right hlength, hskip, ih, List.getElem?_cons_succ]

/-- The combination with a number has the types at its places. -/
theorem getElem?_product (h : AreWithin params places) :
    (product params)[position params places]? = some (chosen params places) := by
  induction h with
  | nil => rfl
  | @cons c i rest places hi hrest ih =>
      have hrow (t : String) : ((product rest).map ((c.1, t) :: ·)).length = size rest := by
        rw [List.length_map, length_product]
      rw [product, position, getElem?_flatMap_rows hrow c.2 i (position_lt_size hrest),
        List.getElem?_eq_getElem hi, Option.bind_some, List.getElem?_map, ih, Option.map_some]
      rw [chosen_cons, List.getD_eq_getElem _ _ hi]

/-! ## Reading a hint -/

section Steps

variable {α β : Type} {f : α → Option β} {as : List α} {bs : List β}

/-- Several steps have results if each of them has one. -/
theorem mapM_eq_some_iff : as.mapM f = some bs ↔ List.Forall₂ (fun a b => f a = some b) as bs := by
  induction as generalizing bs with
  | nil => simp [eq_comm]
  | cons a as ih =>
      simp only [List.mapM_cons, Option.bind_eq_bind, Option.bind_eq_some_iff, ih,
        List.forall₂_cons_left_iff, Option.pure_def, Option.some.injEq]
      constructor
      · rintro ⟨b, hb, rest, hrest, rfl⟩
        exact ⟨b, rest, hb, hrest, rfl⟩
      · rintro ⟨b, rest, hb, hrest, rfl⟩
        exact ⟨b, hb, rest, hrest, rfl⟩

theorem mapM_eq_none_iff : as.mapM f = none ↔ ∃ a ∈ as, f a = none := by
  induction as with
  | nil => simp
  | cons a as ih =>
      rw [List.mapM_cons, List.exists_mem_cons_iff, ← ih]
      cases f a with
      | none => simp
      | some b => cases as.mapM f <;> simp

end Steps

/-- A hint as it is written: its assignments are read one after the other. -/
theorem IsWritten.expand?_eq (h : IsWritten line name parts) (sets : TypeSets) :
    expand? sets line =
      ((parts.filter fun part => !Text.isBlankText part).mapM (choices? sets)).map fun params =>
        ⟨Text.trimmed name, product params⟩ := by
  obtain ⟨rest, hcut, rfl⟩ := isWritten_iff.1 h
  rw [expand?, hcut, Option.bind_eq_bind, Option.bind_some]
  show ((assignments rest).mapM (choices? sets)).bind _ = _
  rw [assignments]
  cases ((Text.pieces ';' rest).filter fun part => !Text.isBlankText part).mapM (choices? sets) <;> rfl

theorem expand?_of_no_colon (h : ':' ∉ line.toList) (sets : TypeSets) : expand? sets line = none := by
  rw [expand?, Text.cutAtChar?_eq_none_iff.2 h]
  rfl

/-- A line with a colon is written as a hint. -/
theorem exists_isWritten (h : ':' ∈ line.toList) : ∃ name parts, IsWritten line name parts := by
  cases hcut : Text.cutAtChar? ':' line with
  | none => exact absurd h (Text.cutAtChar?_eq_none_iff.1 hcut)
  | some sides => exact ⟨sides.1, Text.pieces ';' sides.2, isWritten_iff.2 ⟨sides.2, hcut, rfl⟩⟩

theorem IsWritten.expand?_eq_none_iff (h : IsWritten line name parts) :
    expand? sets line = none ↔ ∃ part ∈ parts, Text.isBlankText part = false ∧ Senseless sets part := by
  rw [h.expand?_eq, Option.map_eq_none_iff, mapM_eq_none_iff]
  simp only [List.mem_filter, choices?_eq_none_iff, Bool.not_eq_true', and_assoc]

/-- A hint line is refused exactly if it has no colon or if an assignment that is not blank makes no sense.
Otherwise it stands for the combinations of what its assignments give, in the order of dictionaries. -/
theorem expand?_exact (sets : TypeSets) (line : String) :
    (expand? sets line = none ↔ ':' ∉ line.toList ∨ ∃ name parts, IsWritten line name parts ∧
      ∃ part ∈ parts, Text.isBlankText part = false ∧ Senseless sets part) ∧
    ∀ hint, expand? sets line = some hint → ∃ name parts params, IsWritten line name parts ∧
      List.Forall₂ (Assigns sets) (parts.filter fun part => !Text.isBlankText part) params ∧
      hint.bindName = Text.trimmed name ∧
      hint.combinations.length = (params.map fun c => c.2.length).prod ∧
      ∀ places, AreWithin params places →
        hint.combinations[position params places]? = some (chosen params places) := by
  by_cases hcolon : ':' ∈ line.toList
  · obtain ⟨name, parts, h⟩ := exists_isWritten hcolon
    constructor
    · rw [h.expand?_eq_none_iff]
      constructor
      · exact fun hpart => Or.inr ⟨name, parts, h, hpart⟩
      · rintro (hfree | ⟨name', parts', h', hpart⟩)
        · exact absurd hcolon hfree
        · exact h.expand?_eq_none_iff.1 (h'.expand?_eq_none_iff.2 hpart)
    · intro hint hhint
      rw [h.expand?_eq, Option.map_eq_some_iff] at hhint
      obtain ⟨params, hparams, rfl⟩ := hhint
      refine ⟨name, parts, params, h, ?_, rfl, length_product params, fun places => getElem?_product⟩
      exact (mapM_eq_some_iff.1 hparams).imp fun _ _ => choices?_eq_some_iff.1
  · have hnone := expand?_of_no_colon hcolon sets
    refine ⟨iff_of_true hnone (Or.inl hcolon), fun hint hhint => ?_⟩
    rw [hnone] at hhint
    cases hhint

theorem expand?_exact_tagged : ∃ hint name parts params,
    expand? .builtin "get:T=$integers; ;Tag=obe::Key" = some hint ∧
      IsWritten "get:T=$integers; ;Tag=obe::Key" name parts ∧
      List.Forall₂ (Assigns .builtin) (parts.filter fun part => !Text.isBlankText part) params ∧
      AreWithin params [2, 0] ∧ hint.combinations.length = 4 ∧
      hint.combinations[2]? = some [("T", "long long"), ("Tag", "obe::Key")] := by
  obtain ⟨hint, hhint⟩ : ∃ hint, expand? .builtin "get:T=$integers; ;Tag=obe::Key" = some hint :=
    Option.isSome_iff_exists.1 (by decide +kernel)
  obtain ⟨name, parts, params, hwritten, hassigns, -, hlength, hchosen⟩ :=
    (expand?_exact .builtin "get:T=$integers; ;Tag=obe::Key").2 hint hhint
  -- The line is written in one way, and an assignment gives one choice.
  have hcut : Text.cutAtChar? ':' "get:T=$integers; ;Tag=obe::Key" =
      some ("get", "T=$integers; ;Tag=obe::Key") := by decide +kernel
  have hread : (assignments "T=$integers; ;Tag=obe::Key").mapM (choices? .builtin) =
      some [("T", ["int", "unsigned int", "long long", "std::size_t"]), ("Tag", ["obe::Key"])] := by
    decide +kernel
  obtain ⟨rest, hrest, rfl⟩ := isWritten_iff.1 hwritten
  obtain ⟨rfl, rfl⟩ := Prod.mk.inj (Option.some.inj (hrest.symm.trans hcut))
  have hparams := mapM_eq_some_iff.2 (hassigns.imp fun _ _ => choices?_eq_some_iff.2)
  obtain rfl := Option.some.inj (hparams.symm.trans hread)
  have hwithin : AreWithin [("T", ["int", "unsigned int", "long long", "std::size_t"]),
      ("Tag", ["obe::Key"])] [2, 0] := .cons (by decide) (.cons (by decide) .nil)
  exact ⟨hint, _, _, _, hhint, hwritten, hassigns, hwithin, hlength, hchosen [2, 0] hwithin⟩

end ScriptBindings.TemplateHint
