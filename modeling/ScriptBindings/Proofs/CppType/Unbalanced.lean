import Mathlib
import ScriptBindings.Proofs.CppType.Reparse

/-!
# Unbalanced texts

Reading a type looks for brackets in four ways: texts are split outside of brackets, groups are taken, the first
parenthesis outside of brackets is looked for, and the first `<` or `(` of all tells the shape of a type.  The
last one alone does not heed nesting.  Where no `<` and no `(` stands inside of square brackets, the first one
stands outside of all brackets nevertheless, and so every search that the shape leads to finds what it looks for.

This is kept by all parts that are read: they are texts whose brackets are nested properly again, since they are
cut out between brackets, at separators outside of brackets, or between plain characters.  So a text is found
unbalanced at once or never.
-/

namespace ScriptBindings.CppType

/-! ## Properly nested brackets -/

/-- Brackets are nested properly: every one is closed by its own kind, and what stands in between and behind is
nested properly again. -/
inductive Nested : List Char → Prop where
  | nil : Nested []
  | plain {c : Char} {s : List Char} : IsPlain c → Nested s → Nested (c :: s)
  | group {o d : Char} {inside after : List Char} : closer? o = some d → Nested inside → Nested after →
      Nested (o :: (inside ++ d :: after))

variable {s : List Char}

theorem Nested.balanced (h : Nested s) : Balanced s := by
  induction h with
  | nil => exact Outside.nil
  | @plain c s hc _ ih =>
      have hchar : Balanced [c] := Outside.balanced_of_plain (by simpa using hc)
      exact hchar.append ih
  | @group o d inside after hd _ _ hinside hafter =>
      have hgroup : Balanced (o :: inside ++ [d]) := Outside.group hd rfl hinside
      have hall := hgroup.append hafter
      rwa [List.append_assoc] at hall

/-- A bracket that is awaited comes, and what is awaited behind it stays awaited. -/
theorem exists_closer_of_awaiting {p : Char → Bool} {inner outer : List Char} {d : Char}
    (h : awaiting p (inner ++ d :: outer) s = some []) : ∃ inside after, s = inside ++ d :: after ∧
      awaiting (fun _ => true) inner inside = some [] ∧ awaiting p outer after = some [] := by
  induction s generalizing inner with
  | nil =>
      have hnil : inner ++ d :: outer = [] := Option.some.inj h
      simp at hnil
  | cons c s ih =>
      rw [awaiting_cons] at h
      obtain ⟨middle, hmiddle, hrest⟩ := Option.bind_eq_some_iff.1 h
      -- The character opens a bracket, closes one, or does neither.
      rcases await_eq_some hmiddle with ⟨e, he, -, rfl⟩ | ⟨hclose, heq⟩ | ⟨hplain, -, rfl⟩
      · obtain ⟨inside, after, rfl, hinside, hafter⟩ := @ih (e :: inner) hrest
        exact ⟨c :: inside, after, rfl, by rwa [awaiting_cons, await_open _ he fun _ => rfl], hafter⟩
      · cases inner with
        | nil =>
            obtain ⟨rfl, rfl⟩ := List.cons.inj heq
            exact ⟨[], s, rfl, rfl, hrest⟩
        | cons e inner =>
            obtain ⟨rfl, rfl⟩ := List.cons.inj heq
            obtain ⟨inside, after, rfl, hinside, hafter⟩ := ih hrest
            exact ⟨e :: inside, after, rfl, by rwa [awaiting_cons, await_close _ hclose], hafter⟩
      · obtain ⟨inside, after, rfl, hinside, hafter⟩ := ih hrest
        exact ⟨c :: inside, after, rfl, by rwa [awaiting_cons, await_plain _ hplain fun _ => rfl], hafter⟩

/-- Behind an opening bracket stand its group and a text that is nested properly. -/
theorem exists_group_of_balanced {o d : Char} (hd : closer? o = some d) (h : Balanced (o :: s)) :
    ∃ inside after, s = inside ++ d :: after ∧ Balanced inside ∧ Balanced after := by
  rw [Balanced, Outside, awaiting_cons, await_open _ hd fun _ => rfl] at h
  have hwalk : awaiting (fun _ => true) ([] ++ d :: []) s = some [] := h
  exact exists_closer_of_awaiting hwalk

theorem Nested.of_balanced (h : Balanced s) : Nested s := by
  induction hlength : s.length using Nat.strong_induction_on generalizing s with
  | _ length ih =>
      cases s with
      | nil => exact .nil
      | cons c s =>
          have hwalk := h
          rw [Balanced, Outside, awaiting_cons] at hwalk
          obtain ⟨middle, hmiddle, hrest⟩ := Option.bind_eq_some_iff.1 hwalk
          rw [List.length_cons] at hlength
          rcases await_eq_some hmiddle with ⟨d, hd, -, -⟩ | ⟨-, heq⟩ | ⟨hplain, -, rfl⟩
          · obtain ⟨inside, after, rfl, hinside, hafter⟩ := exists_group_of_balanced hd h
            rw [List.length_append, List.length_cons] at hlength
            exact .group hd (ih _ (by omega) hinside rfl) (ih _ (by omega) hafter rfl)
          · cases heq
          · exact .plain hplain (ih _ (by omega) hrest rfl)

/-- The walk through a text accepts exactly the texts whose brackets are nested properly. -/
theorem nested_iff_balanced : Nested s ↔ Balanced s :=
  ⟨Nested.balanced, Nested.of_balanced⟩

instance (s : List Char) : Decidable (Nested s) :=
  decidable_of_iff (Outside (fun _ => true) s) nested_iff_balanced.symm

/-! ## Splitting -/

theorem cutOutside_eq_none_iff {sep : Char} (hsep : IsPlain sep) {awaited : List Char} :
    cutOutside sep awaited s = none ↔ awaiting (fun _ => true) awaited s ≠ some [] := by
  induction s generalizing awaited with
  | nil => cases awaited <;> simp [cutOutside]
  | cons c s ih =>
      rw [cutOutside_cons hsep, awaiting_cons]
      by_cases hcut : c = sep ∧ awaited = []
      · obtain ⟨rfl, rfl⟩ := hcut
        rw [if_pos ⟨rfl, rfl⟩, Option.map_eq_none_iff, await_plain _ hsep fun _ => rfl]
        exact ih
      · -- The separator is not met outside of brackets, so that its test changes nothing.
        have hsame : await (· != sep) awaited c = await (fun _ => true) awaited c := by
          have hother : awaited = [] → (c != sep) = true := fun hnil => by simpa [hnil] using hcut
          cases hstep : await (fun _ => true) awaited c with
          | some middle => exact await_congr hother hstep
          | none =>
              cases hstep' : await (· != sep) awaited c with
              | none => rfl
              | some middle => cases hstep.symm.trans (await_congr (fun _ => rfl) hstep')
        rw [if_neg hcut, hsame]
        cases await (fun _ => true) awaited c with
        | none => simp
        | some middle => simpa using ih

/-- Splitting fails on a text exactly where its brackets are not nested properly. -/
theorem splitOutside_eq_none_iff {sep : Char} (hsep : IsPlain sep) : splitOutside sep s = none ↔ ¬ Nested s := by
  rw [splitOutside, Option.map_eq_none_iff, cutOutside_eq_none_iff hsep, nested_iff_balanced]
  rfl

/-! ## Square brackets -/

/-- No `<` and no `(` stands inside of a pair of square brackets. -/
def ClearSquares (s : List Char) : Prop :=
  ∀ front inside back, s = front ++ '[' :: (inside ++ ']' :: back) → Nested inside →
    '<' ∉ inside ∧ '(' ∉ inside

/-- Square brackets that stand behind every `<` and `(` have none of them inside. -/
theorem clearSquares_of_dropWhile (h : ∀ c ∈ s.dropWhile (· ≠ '['), c ≠ '<' ∧ c ≠ '(') : ClearSquares s := by
  rintro front inside back rfl -
  have hinside : ∀ c ∈ inside, c ∈ (front ++ '[' :: (inside ++ ']' :: back)).dropWhile (· ≠ '[') := by
    intro c hc
    rw [List.dropWhile_append]
    split
    · simp [hc]
    · simp [hc]
  exact ⟨fun hmem => (h _ (hinside _ hmem)).1 rfl, fun hmem => (h _ (hinside _ hmem)).2 rfl⟩

theorem ClearSquares.part {t : List Char} (h : ClearSquares s) (ht : t <:+: s) : ClearSquares t := by
  obtain ⟨left, right, rfl⟩ := ht
  rintro front inside back rfl hinside
  exact h (left ++ front) inside (back ++ right) (by simp) hinside

theorem ClearSquares.append_plain {marks : List Char} (h : ClearSquares s) (hmarks : ∀ c ∈ marks, IsPlain c) :
    ClearSquares (s ++ marks) := by
  intro front inside back heq hinside
  -- The closing bracket is none of the marks, so the whole group stands in the text before them.
  have hno : ']' ∉ marks := fun hmem => absurd (hmarks _ hmem).2 (by decide)
  rw [← List.cons_append, ← List.append_assoc] at heq
  rcases List.append_eq_append_iff.1 heq with ⟨middle, -, hmiddle⟩ | ⟨middle, hs, hmiddle⟩
  · exact absurd (hmiddle ▸ List.mem_append_right middle List.mem_cons_self) hno
  · cases middle with
    | nil =>
        rw [List.nil_append] at hmiddle
        exact absurd (hmiddle ▸ List.mem_cons_self) hno
    | cons c middle =>
        obtain ⟨rfl, -⟩ := List.cons.inj hmiddle
        exact h front inside middle (by rw [hs]; simp) hinside

/-- Every search for a bracket succeeds in such a text and in its parts. -/
structure Searchable (s : List Char) : Prop where
  nested : Nested s
  squares : ClearSquares s

namespace Searchable

/-- What stands between plain characters. -/
theorem middle {front core back : List Char} (h : Searchable (front ++ core ++ back))
    (hfront : ∀ c ∈ front, IsPlain c) (hback : ∀ c ∈ back, IsPlain c) : Searchable core :=
  ⟨.of_balanced (h.nested.balanced.of_middle hfront hback), h.squares.part ⟨front, back, rfl⟩⟩

theorem trim (h : Searchable s) : Searchable (Text.trim s) := by
  obtain ⟨front, back, hfront, hback, hs⟩ := Text.exists_trim s
  rw [hs] at h
  exact h.middle (fun c hc => isPlain_of_isBlank (hfront c hc)) fun c hc => isPlain_of_isBlank (hback c hc)

/-- The text without its qualifiers. -/
theorem core (h : Searchable s) : Searchable (Qualifiers.strip s).1 := by
  by_cases hne : (Qualifiers.strip s).1 = []
  · rw [hne]
    exact ⟨.nil, h.squares.part List.nil_infix⟩
  · obtain ⟨-, front, back, hs, hfront, hback⟩ := Qualifiers.strip_eq rfl hne
    rw [hs] at h
    exact h.middle (fun c hc => isPlain_of_isFiller (hfront c hc)) fun c hc => isPlain_of_isFiller (hback c hc)

/-- The parts that the text is split into. -/
theorem of_mem_splitOutside {sep : Char} (hsep : IsPlain sep) {tokens : List (List Char)}
    (h : Searchable s) (hsplit : splitOutside sep s = some tokens) : ∀ t ∈ tokens, Searchable t := by
  intro t ht
  obtain ⟨pieces, rfl, hpieces, rfl⟩ := splitOutside_eq_some hsep hsplit
  obtain ⟨a, ha, rfl⟩ := List.mem_map.1 (List.mem_filter.1 ht).1
  have hpiece : Searchable a := ⟨.of_balanced (hpieces a ha).balanced, h.squares.part (infix_intercalate ha)⟩
  exact hpiece.trim

/-- The tokens that marks are glued to. -/
theorem of_mem_glueMarks {tokens : List (List Char)} (h : ∀ t ∈ tokens, Searchable t) :
    ∀ t ∈ glueMarks tokens, Searchable t := by
  refine forall_glueMarks (fun marks rest hmarks _ ht => ?_) (fun t marks hmarks ht => ?_) h
  · rw [← List.append_nil (marks ++ rest)] at ht
    exact ht.middle (fun c hc => isPlain_of_isMarkChar (hmarks c hc)) (by simp)
  · have hplain : ∀ c ∈ marks, IsPlain c := fun c hc => isPlain_of_isMarkChar (hmarks c hc)
    exact ⟨.of_balanced (ht.nested.balanced.append (Outside.balanced_of_plain hplain)),
      ht.squares.append_plain hplain⟩

/-- What stands before and inside of a group. -/
theorem group {before inside after : List Char} {o d : Char}
    (h : Searchable (before ++ o :: (inside ++ d :: after))) (hbefore : Balanced before)
    (hinside : Balanced inside) : Searchable before ∧ Searchable inside :=
  ⟨⟨.of_balanced hbefore, h.squares.part (List.prefix_append _ _).isInfix⟩,
    .of_balanced hinside, h.squares.part ⟨before ++ [o], d :: after, by simp⟩⟩

end Searchable

/-! ## First brackets -/

/-- The bracket that tells the shape of a type opens a template or a function. -/
def opensShape (c : Char) : Bool :=
  c == '<' || c == '('

/-- A group whose bracket does not tell the shape is one in square brackets. -/
theorem square_of_not_opensShape {o e : Char} (he : closer? o = some e) (ho : ¬ opensShape o = true) :
    o = '[' ∧ e = ']' := by
  unfold closer? at he
  split at he
  · exact absurd rfl ho
  · exact absurd rfl ho
  · exact ⟨rfl, (Option.some.inj he).symm⟩
  · cases he

/-- A group in square brackets is passed over: no bracket in it tells the shape. -/
theorem ClearSquares.opensShape_eq_false {first rest : List Char}
    (h : ClearSquares ('[' :: (first ++ ']' :: rest))) (hfirst : Nested first) :
    ∀ x ∈ '[' :: first ++ [']'], opensShape x = false := by
  have hclear := h [] first rest rfl hfirst
  intro x hx
  simp only [List.mem_append, List.mem_cons, List.not_mem_nil, or_false] at hx
  rcases hx with (rfl | hx) | rfl
  · rfl
  · have hangle : x ≠ '<' := fun heq => hclear.1 (heq ▸ hx)
    have hparen : x ≠ '(' := fun heq => hclear.2 (heq ▸ hx)
    simp [opensShape, hangle, hparen]
  · rfl

/-- The first bracket that tells the shape stands outside of all brackets, and its group is closed. -/
theorem exists_group_of_find? {c : Char} (hnested : Nested s) (hsquares : ClearSquares s)
    (hfind : s.find? opensShape = some c) : ∃ before inside d after,
      s = before ++ c :: (inside ++ d :: after) ∧ closer? c = some d ∧ Balanced before ∧ Balanced inside ∧
        ∀ x ∈ before, opensShape x = false := by
  induction hnested with
  | nil => cases hfind
  | @plain x s hx _ ih =>
      have hother : opensShape x = false := by
        rw [isPlain_iff] at hx
        simp only [List.mem_cons, not_or] at hx
        simp [opensShape, hx.1, hx.2.1]
      rw [List.find?_cons_of_neg (by simp [hother])] at hfind
      obtain ⟨before, inside, d, after, rfl, hd, hbefore, hinside, hnone⟩ :=
        ih (hsquares.part (List.suffix_cons _ _).isInfix) hfind
      have hchar : Balanced [x] := Outside.balanced_of_plain (by simpa using hx)
      exact ⟨x :: before, inside, d, after, rfl, hd, hchar.append hbefore, hinside,
        List.forall_mem_cons.2 ⟨hother, hnone⟩⟩
  | @group o e first rest he hfirst hrest _ ih =>
      by_cases ho : opensShape o = true
      · rw [List.find?_cons_of_pos ho] at hfind
        obtain rfl := Option.some.inj hfind
        exact ⟨[], first, e, rest, rfl, he, Outside.nil, hfirst.balanced, by simp⟩
      · obtain ⟨rfl, rfl⟩ := square_of_not_opensShape he ho
        have hpassed := hsquares.opensShape_eq_false hfirst
        have hsplit : '[' :: (first ++ ']' :: rest) = '[' :: first ++ [']'] ++ rest := by simp
        rw [hsplit] at hsquares hfind ⊢
        rw [List.find?_append, List.find?_eq_none.2 fun x hx => by simp [hpassed x hx],
          Option.none_or] at hfind
        obtain ⟨before, inside, d, after, rfl, hd, hbefore, hinside, hnone⟩ :=
          ih (hsquares.part (List.suffix_append _ _).isInfix) hfind
        have hgroup : Balanced ('[' :: first ++ [']']) := Outside.group rfl rfl hfirst.balanced
        refine ⟨'[' :: first ++ [']'] ++ before, inside, d, after, (List.append_assoc _ _ _).symm, hd,
          hgroup.append hbefore, hinside, fun x hx => ?_⟩
        rcases List.mem_append.1 hx with hx | hx
        · exact hpassed x hx
        · exact hnone x hx

/-! ## Templates -/

variable {core : List Char}

/-- The group of a template is found. -/
theorem exists_group_of_template (h : Searchable core) (hshape : shapeOf core = .template) :
    ∃ inside after, takeGroup ['>'] ((core.dropWhile (· ≠ '<')).drop 1) = some (inside, after) ∧
      Searchable inside := by
  obtain ⟨c, hfind, hopen⟩ : ∃ c, core.find? opensShape = some c ∧ c ≠ '(' := by
    rw [shapeOf] at hshape
    split at hshape
    · cases hshape
    · rename_i c hfind
      refine ⟨c, hfind, fun hparen => ?_⟩
      rw [if_pos (Or.inl hparen)] at hshape
      cases hshape
  obtain ⟨before, inside, d, after, rfl, hd, hbefore, hinside, hnone⟩ :=
    exists_group_of_find? h.nested h.squares hfind
  obtain rfl : c = '<' := by
    have hc := List.find?_some hfind
    simpa [opensShape, hopen] using hc
  obtain rfl : '>' = d := Option.some.inj hd
  refine ⟨inside, after, ?_, (h.group hbefore hinside).2⟩
  -- Nothing in front of the bracket is such a bracket, so it is where the name ends.
  have hrest : (before ++ '<' :: (inside ++ '>' :: after)).dropWhile (· ≠ '<') = '<' :: (inside ++ '>' :: after) := by
    rw [List.dropWhile_append_of_pos]
    · rfl
    · intro x hx
      have hother := hnone x hx
      simp only [opensShape, Bool.or_eq_false_iff, beq_eq_false_iff_ne] at hother
      simpa using hother.1
  rw [hrest]
  exact takeGroup_balanced rfl after hinside

/-! ## Functions -/

/-- A text that ends with a closing parenthesis ends with the group that it closes. -/
theorem exists_group_of_getLast? (h : Nested s) (hlast : s.getLast? = some ')') :
    ∃ before inside, s = before ++ '(' :: inside ∧ Nested before := by
  induction h with
  | nil => cases hlast
  | @plain c s hc hs ih =>
      -- The last character is not the plain one in front, so something follows it.
      by_cases hne : s = []
      · subst hne
        obtain rfl : c = ')' := Option.some.inj hlast
        exact absurd hc.2 (by decide)
      · have htail : s.getLast? = some ')' := (List.getLast?_append_of_ne_nil [c] hne).symm.trans hlast
        obtain ⟨before, inside, rfl, hbefore⟩ := ih htail
        exact ⟨c :: before, inside, rfl, .plain hc hbefore⟩
  | @group o d first rest hd hfirst hrest _ ih =>
      have hsplit : o :: (first ++ d :: rest) = (o :: first ++ [d]) ++ rest := by simp
      by_cases hne : rest = []
      · subst hne
        rw [hsplit, List.append_nil, List.getLast?_concat] at hlast
        obtain rfl := Option.some.inj hlast
        obtain rfl : o = '(' := by
          unfold closer? at hd
          split at hd <;> simp at hd
          rfl
        exact ⟨[], first ++ [')'], rfl, .nil⟩
      · rw [hsplit, List.getLast?_append_of_ne_nil _ hne] at hlast
        obtain ⟨before, inside, rfl, hbefore⟩ := ih hlast
        exact ⟨o :: (first ++ d :: before), inside, by simp, .group hd hfirst hbefore⟩

/-- The first parenthesis outside of brackets is found if there is one. -/
theorem exists_cutAtParen? {before : List Char} (h : Nested before) (rest : List Char) :
    ∃ front behind, cutAtParen? 0 (before ++ '(' :: rest) = some (front, behind) := by
  induction h with
  | nil => exact ⟨[], rest, rfl⟩
  | @plain c s hc _ ih =>
      obtain ⟨front, behind, hcut⟩ := ih
      have hother : c ≠ '(' := by
        rintro rfl
        cases hc.1
      have hstep := cutAtParen?_cons (await_plain (p := fun _ => true) [] hc fun _ => rfl) (s ++ '(' :: rest)
      rw [if_neg fun h => hother h.1, List.length_nil, hcut] at hstep
      exact ⟨c :: front, behind, hstep⟩
  | @group o d inside after hd hinside _ _ ih =>
      by_cases ho : o = '('
      · subst ho
        exact ⟨[], _, rfl⟩
      · -- Inside of its brackets the group may have parentheses, but none outside.
        obtain ⟨front, behind, hcut⟩ := ih
        have hgroup : Outside (· != '(') (o :: inside ++ [d]) :=
          Outside.group hd (by simpa using ho) hinside.balanced
        have hstep := @cutAtParen?_append [] [] _ (after ++ '(' :: rest) hgroup
        rw [List.length_nil, hcut] at hstep
        have htext : o :: (inside ++ d :: after) ++ '(' :: rest = o :: inside ++ [d] ++ (after ++ '(' :: rest) := by
          simp
        exact ⟨o :: inside ++ [d] ++ front, behind, htext ▸ hstep⟩

/-- The parenthesis and the group of a function are found. -/
theorem exists_group_of_function (h : Searchable core) (hshape : shapeOf core = .function) :
    ∃ before rest inside after, cutAtParen? 0 core = some (before, rest) ∧
      takeGroup [')'] rest = some (inside, after) ∧ Searchable before ∧ Searchable inside := by
  -- The parenthesis comes first of all brackets, or it is the one that the last character closes.
  obtain ⟨front, back, hcore, hfront⟩ : ∃ front back, core = front ++ '(' :: back ∧ Nested front := by
    rw [shapeOf] at hshape
    split at hshape
    · cases hshape
    · rename_i c hfind
      split at hshape
      · rename_i hcase
        rcases hcase with rfl | ⟨-, hlast⟩
        · obtain ⟨before, inside, d, after, hcore, -, hbefore, -, -⟩ :=
            exists_group_of_find? h.nested h.squares hfind
          exact ⟨before, _, hcore, .of_balanced hbefore⟩
        · exact exists_group_of_getLast? h.nested hlast
      · cases hshape
  -- The search may stop at an earlier one, but this one is outside of brackets as well.
  obtain ⟨before, rest, hcut⟩ := exists_cutAtParen? hfront back
  rw [← hcore] at hcut
  obtain ⟨htext, hbefore⟩ := cutAtParen?_zero_eq_some h.nested.balanced hcut
  subst htext
  have hrest : Balanced ('(' :: rest) := h.nested.balanced.of_append_left hbefore.balanced
  obtain ⟨inside, after, rfl, hinside, -⟩ := exists_group_of_balanced rfl hrest
  obtain ⟨hpart, hgroup⟩ := h.group hbefore.balanced hinside
  exact ⟨before, _, inside, after, hcut, takeGroup_balanced rfl after hinside, hpart, hgroup⟩

/-! ## Reading -/

/-- No search for a bracket has failed. -/
def BracketsFound {α : Type} (r : Except SyntaxError α) : Prop :=
  ∀ text, r ≠ .error (.unbalanced text)

namespace BracketsFound

variable {α β : Type}

theorem bind {x : Except SyntaxError α} {f : α → Except SyntaxError β} (hx : BracketsFound x)
    (hf : ∀ a, x = .ok a → BracketsFound (f a)) : BracketsFound (x >>= f) := by
  intro text h
  rcases bind_eq_error_iff.1 h with h | ⟨a, ha, h⟩
  · exact hx text h
  · exact hf a ha text h

/-- What is done with a result cannot fail. -/
theorem bind_pure {x : Except SyntaxError α} {f : α → β} (hx : BracketsFound x) :
    BracketsFound (x >>= fun a => pure (f a)) :=
  hx.bind fun _ _ _ h => by cases h

theorem mapM {f : α → Except SyntaxError β} {as : List α} (h : ∀ a ∈ as, BracketsFound (f a)) :
    BracketsFound (as.mapM f) := by
  intro text herror
  obtain ⟨before, a, after, rfl, -, ha⟩ := mapM_eq_error_iff.1 herror
  exact h a (by simp) text ha

end BracketsFound

theorem bracketsFound_splitList (h : Nested s) : BracketsFound (splitList s) := by
  intro text herror
  rw [splitList] at herror
  split at herror
  · cases herror
  · rename_i hnone
    exact (splitOutside_eq_none_iff ⟨rfl, rfl⟩).1 hnone h

section Parts

variable {read : List Char → Except SyntaxError CppType} {q : Qualifiers}
  (hread : ∀ s, Searchable s → BracketsFound (read s))
include hread

theorem bracketsFound_readTemplate (h : Searchable core) (hshape : shapeOf core = .template) :
    BracketsFound (readTemplate read core q) := by
  obtain ⟨inside, after, hgroup, hinside⟩ := exists_group_of_template h hshape
  rw [readTemplate, hgroup]
  simp only []
  split
  · exact fun _ h => by cases h
  split
  · exact fun _ h => by cases h
  split
  · exact fun _ h => by cases h
  refine (bracketsFound_splitList hinside.nested).bind fun pieces hpieces => ?_
  refine BracketsFound.bind_pure (.mapM fun a ha => hread a ?_)
  exact hinside.of_mem_splitOutside ⟨rfl, rfl⟩ (splitList_eq_ok_iff.1 hpieces) a ha

theorem bracketsFound_readArgument (h : Searchable s) (i : Nat) : BracketsFound (readArgument read i s) := by
  rw [readArgument]
  cases hsplit : splitOutside ' ' (Qualifiers.strip s).1 with
  | none => exact absurd h.core.nested ((splitOutside_eq_none_iff ⟨rfl, rfl⟩).1 hsplit)
  | some tokens =>
      have htokens := Searchable.of_mem_glueMarks (h.core.of_mem_splitOutside ⟨rfl, rfl⟩ hsplit)
      simp only [hsplit]
      split
      · rename_i ty hglue
        exact (hread ty (htokens ty (by simp [hglue]))).bind_pure
      · rename_i ty name hglue
        split
        · exact (hread ty (htokens ty (by simp [hglue]))).bind_pure
        · exact fun _ h => by cases h
      · exact fun _ h => by cases h

theorem bracketsFound_readFunction (h : Searchable core) (hshape : shapeOf core = .function) :
    BracketsFound (readFunction read core q) := by
  obtain ⟨before, rest, inside, after, hcut, hgroup, hbefore, hinside⟩ := exists_group_of_function h hshape
  rw [readFunction, hcut]
  simp only [hgroup]
  split
  · exact fun _ h => by cases h
  split
  · exact fun _ h => by cases h
  refine (hread _ hbefore.trim).bind fun result _ => ?_
  refine (bracketsFound_splitList hinside.nested).bind fun pieces hpieces => ?_
  refine BracketsFound.bind_pure (.mapM fun ⟨a, i⟩ ha => bracketsFound_readArgument hread ?_ i)
  exact hinside.of_mem_splitOutside ⟨rfl, rfl⟩ (splitList_eq_ok_iff.1 hpieces) a
    (List.fst_mem_of_mem_zipIdx ha)

end Parts

/-- At no depth of the reading does a search for a bracket fail. -/
theorem bracketsFound_readSegment (fuel : Nat) (h : Searchable s) : BracketsFound (readSegment fuel s) := by
  induction fuel generalizing s with
  | zero => exact fun _ h => by cases h
  | succ fuel ih =>
      rw [readSegment]
      simp only []
      split
      · exact fun _ h => by cases h
      · split
        · exact fun _ h => by cases h
        · rename_i hshape
          exact bracketsFound_readTemplate (fun s hs => ih hs) h.core hshape
        · rename_i hshape
          exact bracketsFound_readFunction (fun s hs => ih hs) h.core hshape

/-- A text whose brackets are not nested properly is unbalanced as a whole.  If its brackets are nested properly
and no `<` and no `(` stands inside of square brackets, neither it nor any part of it is found unbalanced. -/
theorem parse_unbalanced (text : String) :
    (¬ Nested text.toList → parse text = .error (.unbalanced text)) ∧
    (Nested text.toList → ClearSquares text.toList → ∀ part, parse text ≠ .error (.unbalanced part)) := by
  constructor
  · intro h
    rw [parse, readChars, splitList, (splitOutside_eq_none_iff ⟨rfl, rfl⟩).2 h, String.ofList_toList]
    rfl
  · intro hnested hsquares
    have h : Searchable text.toList := ⟨hnested, hsquares⟩
    refine (bracketsFound_splitList hnested).bind fun pieces hpieces => ?_
    have hparts := h.of_mem_splitOutside ⟨rfl, rfl⟩ (splitList_eq_ok_iff.1 hpieces)
    split
    · exact fun _ h => by cases h
    · exact bracketsFound_readSegment _ (hparts _ (by simp))
    · exact fun _ h => by cases h

/-- A group that is left open, and square brackets without groups inside. -/
theorem parse_unbalanced_cells :
    (¬ Nested "std::vector<int".toList ∧ parse "std::vector<int" = .error (.unbalanced "std::vector<int")) ∧
      Nested "Grid<cell[3]>".toList ∧ ClearSquares "Grid<cell[3]>".toList ∧
      ∀ part, parse "Grid<cell[3]>" ≠ .error (.unbalanced part) := by
  have hopen : ¬ Nested "std::vector<int".toList := by decide
  have hnested : Nested "Grid<cell[3]>".toList := by decide
  have hsquares : ClearSquares "Grid<cell[3]>".toList := clearSquares_of_dropWhile (by decide)
  exact ⟨⟨hopen, (parse_unbalanced _).1 hopen⟩, hnested, hsquares, (parse_unbalanced _).2 hnested hsquares⟩

/-- With a parenthesis inside of square brackets, a function is looked for that is none. -/
example : parse "cell[(3)]" = .error (.unbalanced "cell[(3)]") := by decide +kernel

end ScriptBindings.CppType
