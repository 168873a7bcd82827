import Mathlib
import ScriptBindings.CppType.Words
import ScriptBindings.Name.Encoded
import ScriptBindings.Proofs.Name.Segments

/-!
# Encoded names, read again

Documentation writes `:` as `_1`, `_` as `__` and an upper-case letter as `_` and the lower-case one.  A
reader that goes from character to character would find every name again.  Decoding goes over the whole text
four times instead, and each pass meets what belongs to neighbours: `_1` that is an underscore and a digit, a
mark that follows an underscore, and a mark that follows a letter which has itself just been read as a
capital.  So exactly those names are found again in which no `1` and no capital follows an underscore, and no
capital follows another one except at the very start.
-/

namespace ScriptBindings.Name

/-! ## Writing -/

/-- How a character of a name is written. -/
def encodeChar (c : Char) : List Char :=
  if c = ':' then ['_', '1']
  else if c = '_' then ['_', '_']
  else if c.isUpper then ['_', c.toLower]
  else [c]

/-- How a name is written, without the kind of compound in front. -/
def encode (name : String) : String :=
  String.ofList (name.toList.flatMap encodeChar)

/-- Identifiers, with `::` between them. -/
def IsQualified (name : String) : Prop :=
  ∃ parts, parts ≠ [] ∧ (∀ part ∈ parts, CppType.isIdentifier part.toList = true) ∧
    name = joinScopes parts

/-- The characters of qualified names. -/
def IsNameChar (c : Char) : Prop :=
  c.isAlphanum = true ∨ c = '_' ∨ c = ':'

/-- A name in which no `1` and no capital follows an underscore, and no capital follows another one, except
at the very start. -/
structure Readable (name : List Char) : Prop where
  digit : ¬ ['_', '1'] <:+: name
  mark : ∀ c, c.isUpper = true → ¬ ['_', c] <:+: name
  capitals : ∀ c d, c.isUpper = true → d.isUpper = true → ¬ [c, d] <:+: name.tail

variable {c d : Char} {s name : List Char}

/-! ## Characters -/

theorem isAlphanum_of_isUpper (h : c.isUpper = true) : c.isAlphanum = true := by
  rw [Char.isAlphanum, Char.isAlpha, h]
  rfl

theorem isAlpha_toLower (h : c.isUpper = true) : c.toLower.isAlpha = true := by
  rw [Char.isAlpha_toLower_eq_isAlpha, Char.isAlpha, h]
  rfl

theorem isAlphanum_toLower (h : c.isUpper = true) : c.toLower.isAlphanum = true := by
  rw [Char.isAlphanum, isAlpha_toLower h]
  rfl

theorem isAlphanum_toUpper (h : c.isAlphanum = true) : c.toUpper.isAlphanum = true := by
  by_cases hlower : c.isLower = true
  · have hletter : c.isAlpha = true := by rw [Char.isAlpha, hlower, Bool.or_true]
    rw [Char.isAlphanum, Char.isAlpha_toUpper_eq_isAlpha, hletter]
    rfl
  · rw [Char.toUpper_eq_of_not_isLower hlower]
    exact h

theorem toUpper_toLower (h : c.isUpper = true) : c.toLower.toUpper = c := by
  rw [Char.toUpper_toLower_eq_toUpper]
  exact Char.toUpper_eq_of_not_isLower (Char.not_isLower_of_isUpper h)

theorem ne_of_test {p : Char → Bool} (hc : p c = true) (hd : p d = false) : c ≠ d := by
  rintro rfl
  rw [hc] at hd
  cases hd

theorem encodeChar_upper (h : c.isUpper = true) : encodeChar c = ['_', c.toLower] := by
  have hletter := isAlphanum_of_isUpper h
  rw [encodeChar, if_neg (ne_of_test hletter rfl), if_neg (ne_of_test hletter rfl), if_pos h]

/-- Everything that may become of a character. -/
theorem encodeChar_cases (c : Char) : c = ':' ∨ c = '_' ∨ c.isUpper = true ∨
    c ≠ '_' ∧ c ≠ ':' ∧ c.isUpper = false ∧ encodeChar c = [c] := by
  by_cases hcolon : c = ':'
  · exact Or.inl hcolon
  by_cases hmark : c = '_'
  · exact Or.inr (Or.inl hmark)
  by_cases hupper : c.isUpper = true
  · exact Or.inr (Or.inr (Or.inl hupper))
  · exact Or.inr (Or.inr (Or.inr ⟨hmark, hcolon, Bool.eq_false_of_not_eq_true hupper,
      by rw [encodeChar, if_neg hcolon, if_neg hmark, if_neg hupper]⟩))

/-! ## The first pass -/

/-- How a character is written once colons are read. -/
def marked (c : Char) : List Char :=
  if c = ':' then [':'] else encodeChar c

/-- What the first pass makes of a name that is written: it takes a `1` behind an underscore for the end of a
colon, too. -/
def colonsRead : List Char → List Char
  | [] => []
  | '_' :: '1' :: s => '_' :: ':' :: colonsRead s
  | c :: s => marked c ++ colonsRead s

theorem marked_of_ne (h : c ≠ ':') : marked c = encodeChar c :=
  if_neg h

theorem replace_colon_cons (h : ∀ rest, c :: s ≠ '_' :: '1' :: rest) :
    Text.replace ['_', '1'] [':'] (c :: s) = c :: Text.replace ['_', '1'] [':'] s :=
  Text.replace_cons fun ⟨rest, hrest⟩ => h rest hrest.symm

/-- What is written begins with `1` only if the name does. -/
theorem flatMap_encodeChar_ne (h : ∀ rest, s ≠ '1' :: rest) (rest : List Char) :
    s.flatMap encodeChar ≠ '1' :: rest := by
  cases s with
  | nil => exact fun h => nomatch h
  | cons c s =>
      rw [List.flatMap_cons]
      rcases encodeChar_cases c with rfl | rfl | hupper | ⟨-, -, -, hplain⟩
      · exact fun heq => absurd (List.cons.inj heq).1 (by decide)
      · exact fun heq => absurd (List.cons.inj heq).1 (by decide)
      · rw [encodeChar_upper hupper]
        exact fun heq => absurd (List.cons.inj heq).1 (by decide)
      · rw [hplain]
        exact fun heq => h s (by rw [(List.cons.inj heq).1])

theorem replace_flatMap_encodeChar (s : List Char) :
    Text.replace ['_', '1'] [':'] (s.flatMap encodeChar) = colonsRead s := by
  induction s using colonsRead.induct with
  | case1 => rfl
  | case2 s ih =>
      rw [colonsRead, ← ih]
      rfl
  | case3 c s hc ih =>
      rw [colonsRead, ← ih, List.flatMap_cons]
      · rcases encodeChar_cases c with rfl | rfl | hupper | ⟨hmark, hcolon, -, hplain⟩
        · rfl
        · -- Of the two underscores only the second one might stand in front of a `1`.
          have hdigit : ∀ rest, s.flatMap encodeChar ≠ '1' :: rest :=
            flatMap_encodeChar_ne fun rest hs => hc rest rfl hs
          show Text.replace ['_', '1'] [':'] ('_' :: '_' :: s.flatMap encodeChar) = _
          rw [replace_colon_cons fun rest => by simp, replace_colon_cons fun rest heq =>
            hdigit rest (List.cons.inj heq).2]
          rfl
        · have hlower : c.toLower ≠ '_' := ne_of_test (isAlpha_toLower hupper) rfl
          have hdigit : c.toLower ≠ '1' := ne_of_test (isAlpha_toLower hupper) rfl
          rw [marked_of_ne (ne_of_test (isAlphanum_of_isUpper hupper) rfl), encodeChar_upper hupper]
          show Text.replace ['_', '1'] [':'] ('_' :: c.toLower :: s.flatMap encodeChar) = _
          rw [replace_colon_cons fun rest => by simp [hdigit],
            replace_colon_cons fun rest => by simp [hlower]]
          rfl
        · rw [marked_of_ne hcolon, hplain]
          exact replace_colon_cons fun rest => by simp [hmark]
      · exact hc

theorem marked_cases (c : Char) : c = '_' ∨ c.isUpper = true ∨
    c ≠ '_' ∧ c.isUpper = false ∧ marked c = [c] := by
  rcases encodeChar_cases c with rfl | rfl | hupper | ⟨hmark, hcolon, hupper, hplain⟩
  · exact Or.inr (Or.inr ⟨by decide, rfl, rfl⟩)
  · exact Or.inl rfl
  · exact Or.inr (Or.inl hupper)
  · exact Or.inr (Or.inr ⟨hmark, hupper, by rw [marked_of_ne hcolon, hplain]⟩)

theorem marked_upper (h : c.isUpper = true) : marked c = ['_', c.toLower] := by
  rw [marked_of_ne (ne_of_test (isAlphanum_of_isUpper h) rfl), encodeChar_upper h]

/-- Without a `1` behind an underscore exactly the colons are read. -/
theorem colonsRead_eq_flatMap (h : ¬ ['_', '1'] <:+: s) : colonsRead s = s.flatMap marked := by
  induction s using colonsRead.induct with
  | case1 => rfl
  | case2 s ih => exact absurd ⟨[], s, rfl⟩ h
  | case3 c s hc ih =>
      rw [colonsRead, ih fun hinfix => h (List.infix_cons hinfix), List.flatMap_cons]
      exact hc

theorem count_colon_marked (c : Char) : (marked c).count ':' = [c].count ':' := by
  rcases marked_cases c with rfl | hupper | ⟨-, -, hplain⟩
  · rfl
  · have hlower : c.toLower ≠ ':' := ne_of_test (isAlpha_toLower hupper) rfl
    have hne : c ≠ ':' := ne_of_test (isAlphanum_of_isUpper hupper) rfl
    rw [marked_upper hupper]
    simp [hlower, hne]
  · rw [hplain]

/-- A `1` behind an underscore brings a colon that the name does not have. -/
theorem count_colon_colonsRead (s : List Char) : s.count ':' ≤ (colonsRead s).count ':' ∧
    (['_', '1'] <:+: s → s.count ':' < (colonsRead s).count ':') := by
  induction s using colonsRead.induct with
  | case1 => exact ⟨Nat.le_refl _, fun h => by simp at h⟩
  | case2 s ih =>
      rw [colonsRead]
      have hle := ih.1
      simp only [List.count_cons] at hle ⊢
      exact ⟨by simp; omega, fun _ => by simp; omega⟩
  | case3 c s hc ih =>
      rw [colonsRead]
      · have hcons : (c :: s).count ':' = [c].count ':' + s.count ':' := by
          rw [← List.count_append, List.singleton_append]
        rw [List.count_append, count_colon_marked, hcons]
        refine ⟨Nat.add_le_add_left ih.1 _, fun hinfix => Nat.add_lt_add_left (ih.2 ?_) _⟩
        -- The underscore and the `1` do not begin here, so they stand in the rest.
        rcases List.infix_cons_iff.1 hinfix with ⟨rest, hrest⟩ | hinfix
        · obtain ⟨rfl, rfl⟩ := List.cons.inj hrest
          exact absurd rfl (hc _ rfl)
        · exact hinfix
      · exact hc

/-! ## The second pass and the third -/

/-- A character behind which the second pass reads a mark. -/
def opens (c : Char) : Bool :=
  c ≠ '_' && !c.isUpper

theorem opens_toLower (h : c ≠ '_') : opens c.toLower = true := by
  have hne : c.toLower ≠ '_' := by
    by_cases hupper : c.isUpper = true
    · exact ne_of_test (isAlpha_toLower hupper) rfl
    · rwa [Char.toLower_eq_of_not_isUpper hupper]
  simp [opens, hne]

/-- What the second pass makes of a name behind some character: a capital is read unless it follows an
underscore or a capital that has just been read. -/
def raisedAfter : Char → List Char → List Char
  | _, [] => []
  | before, c :: s =>
      if c.isUpper then
        if opens before then c :: raisedAfter c s else '_' :: c.toLower :: raisedAfter c.toLower s
      else if c = '_' then '_' :: '_' :: raisedAfter '_' s
      else c :: raisedAfter c s

theorem raiseMarked_cons (h : precedesMark c = false) (s : List Char) :
    raiseMarked (c :: s) = c :: raiseMarked s := by
  by_cases hs : ∃ d rest, s = '_' :: d :: rest
  · obtain ⟨d, rest, rfl⟩ := hs
    rw [raiseMarked, h]
    rfl
  · rw [raiseMarked]
    exact fun d rest heq => hs ⟨d, rest, heq⟩

theorem raiseMarked_cons_of_ne (h : d ≠ '_') (c : Char) (s : List Char) :
    raiseMarked (c :: d :: s) = c :: raiseMarked (d :: s) := by
  rw [raiseMarked]
  exact fun e rest heq => h (List.cons.inj heq).1

theorem raiseMarked_mark (hd : d.isAlphanum = false) (c : Char) (s : List Char) :
    raiseMarked (c :: '_' :: d :: s) = c :: raiseMarked ('_' :: d :: s) := by
  rw [raiseMarked, hd, Bool.and_false]
  rfl

/-- What the second pass makes of a marked text: it goes on behind a character that it has passed over, or
that can stand in front of a mark. -/
structure IsRaised (s : List Char) : Prop where
  past : ∀ before, opens before = false → raiseMarked (s.flatMap marked) = raisedAfter before s
  behind : ∀ before, opens before = true → precedesMark before = true →
    raiseMarked (before :: s.flatMap marked) = before :: raisedAfter before s

namespace IsRaised

theorem nil : IsRaised [] := by
  constructor
  · intro before _
    rw [List.flatMap_nil, raiseMarked, raisedAfter]
  · intro before _ _
    rw [List.flatMap_nil, raiseMarked, raiseMarked, raisedAfter]
    exact fun _ _ h => List.cons_ne_nil _ _ h.symm

/-- Two underscores: neither of them marks anything. -/
theorem underscore (h : IsRaised s) : IsRaised ('_' :: s) := by
  have hmark : precedesMark '_' = false := rfl
  have hpair : raiseMarked ('_' :: '_' :: s.flatMap marked) = '_' :: '_' :: raisedAfter '_' s := by
    rw [raiseMarked_cons hmark, raiseMarked_cons hmark, h.past '_' rfl]
  constructor
  · intro before _
    exact hpair
  · intro before _ _
    show raiseMarked (before :: '_' :: '_' :: s.flatMap marked) = _
    rw [raiseMarked_mark rfl, hpair]
    rfl

/-- A capital: the mark is read behind a character that it can follow, and left alone otherwise. -/
theorem capital (h : IsRaised s) (hupper : c.isUpper = true) : IsRaised (c :: s) := by
  have hmark : precedesMark '_' = false := rfl
  have hletter := isAlphanum_toLower hupper
  constructor
  · intro before hbefore
    have hopens : opens c.toLower = true := opens_toLower (ne_of_test hupper rfl)
    have hprecedes : precedesMark c.toLower = true := by rw [precedesMark, hletter, Bool.or_true]
    rw [List.flatMap_cons, marked_upper hupper]
    show raiseMarked ('_' :: c.toLower :: s.flatMap marked) = _
    rw [raiseMarked_cons hmark, h.behind _ hopens hprecedes, raisedAfter, if_pos hupper, hbefore]
    rfl
  · intro before hbefore hprecedes
    have hcloses : opens c = false := by rw [opens, hupper, Bool.not_true, Bool.and_false]
    rw [List.flatMap_cons, marked_upper hupper]
    show raiseMarked (before :: '_' :: c.toLower :: s.flatMap marked) = _
    rw [raiseMarked, hprecedes, hletter, toUpper_toLower hupper, h.past c hcloses, raisedAfter,
      if_pos hupper, if_pos hbefore]
    rfl

/-- Any other character is passed over, and can stand in front of a mark. -/
theorem other (h : IsRaised s) (hne : c ≠ '_') (hlower : c.isUpper = false) (hplain : marked c = [c])
    (hprecedes : precedesMark c = true) : IsRaised (c :: s) := by
  have hopens : opens c = true := by simp [opens, hne, hlower]
  constructor
  · intro before _
    rw [List.flatMap_cons, hplain]
    show raiseMarked (c :: s.flatMap marked) = _
    rw [h.behind c hopens hprecedes, raisedAfter, if_neg (by simp [hlower]), if_neg hne]
  · intro before _ _
    rw [List.flatMap_cons, hplain]
    show raiseMarked (before :: c :: s.flatMap marked) = _
    rw [raiseMarked_cons_of_ne hne, h.behind c hopens hprecedes, raisedAfter,
      if_neg (by simp [hlower]), if_neg hne]

end IsRaised

theorem isRaised (hs : ∀ c ∈ s, IsNameChar c) : IsRaised s := by
  induction s with
  | nil => exact .nil
  | cons c s ih =>
      have hrest := ih fun d hd => hs d (List.mem_cons_of_mem c hd)
      rcases marked_cases c with rfl | hupper | ⟨hne, hlower, hplain⟩
      · exact hrest.underscore
      · exact hrest.capital hupper
      · refine hrest.other hne hlower hplain ?_
        rcases hs c List.mem_cons_self with hletter | hunderscore | rfl
        · rw [precedesMark, hletter, Bool.or_true]
        · exact absurd hunderscore hne
        · rfl

/-- How a character is written once capitals are read, too. -/
def doubled (c : Char) : List Char :=
  if c = '_' then ['_', '_'] else [c]

/-- The third pass reads a capital at the start. -/
theorem raiseFirst_raisedAfter (c : Char) (s : List Char) :
    raiseFirst (raisedAfter '_' (c :: s)) = doubled c ++ raisedAfter c.toLower s := by
  rw [raisedAfter]
  by_cases hupper : c.isUpper = true
  · have hne : c ≠ '_' := ne_of_test hupper rfl
    rw [if_pos hupper, if_neg (by decide), raiseFirst, if_pos (isAlphanum_toLower hupper),
      toUpper_toLower hupper, doubled, if_neg hne]
    rfl
  · rw [if_neg hupper, Char.toLower_eq_of_not_isUpper hupper]
    by_cases hne : c = '_'
    · subst hne
      rw [if_pos rfl, doubled, if_pos rfl]
      rfl
    · rw [if_neg hne, doubled, if_neg hne, raiseFirst]
      · rfl
      · exact fun d rest heq => hne (List.cons.inj heq).1

theorem countP_doubled (c : Char) :
    (doubled c).countP Char.isUpper = if c.isUpper then 1 else 0 := by
  rw [doubled]
  by_cases hne : c = '_'
  · subst hne
    rfl
  · rw [if_neg hne, List.countP_singleton]

/-! ## Which capitals are read -/

/-- A capital stands behind a character behind which a mark is read. -/
def Apart (c d : Char) : Prop :=
  d.isUpper = true → opens c = true

instance (c d : Char) : Decidable (Apart c d) :=
  inferInstanceAs (Decidable (_ → _))

theorem raisedAfter_of_apart {before : Char} (h : (before :: s).IsChain Apart) :
    raisedAfter before s = s.flatMap doubled := by
  induction s generalizing before with
  | nil => rfl
  | cons c s ih =>
      obtain ⟨hapart, hs⟩ := List.isChain_cons_cons.1 h
      rw [raisedAfter, List.flatMap_cons, doubled]
      by_cases hupper : c.isUpper = true
      · have hne : c ≠ '_' := ne_of_test hupper rfl
        rw [if_pos hupper, if_pos (hapart hupper), if_neg hne, ih hs]
        rfl
      · by_cases hne : c = '_'
        · subst hne
          rw [if_neg hupper, if_pos rfl, if_pos rfl, ih hs]
          rfl
        · rw [if_neg hupper, if_neg hne, if_neg hne, ih hs]
          rfl

/-- Capitals that are not read are missing. -/
theorem countP_raisedAfter (before : Char) (s : List Char) :
    (raisedAfter before s).countP Char.isUpper ≤ s.countP Char.isUpper ∧
      (¬ (before :: s).IsChain Apart →
        (raisedAfter before s).countP Char.isUpper < s.countP Char.isUpper) := by
  induction s generalizing before with
  | nil => exact ⟨Nat.le_refl _, fun h => absurd (List.isChain_singleton before) h⟩
  | cons c s ih =>
      rw [raisedAfter, List.isChain_cons_cons]
      by_cases hupper : c.isUpper = true
      · rw [if_pos hupper, List.countP_cons_of_pos hupper]
        by_cases hopens : opens before = true
        · obtain ⟨hle, hlt⟩ := ih c
          rw [if_pos hopens, List.countP_cons_of_pos hupper]
          exact ⟨by omega, fun h => Nat.succ_lt_succ (hlt fun hs => h ⟨fun _ => hopens, hs⟩)⟩
        · -- The mark and its letter stay, and the capital is missing.
          have hle := (ih c.toLower).1
          have hlower : ¬ c.toLower.isUpper = true := by simp
          rw [if_neg hopens, List.countP_cons_of_neg (by decide), List.countP_cons_of_neg hlower]
          exact ⟨by omega, fun _ => by omega⟩
      · have hapart : Apart before c := fun h => absurd h hupper
        rw [if_neg hupper, List.countP_cons_of_neg hupper]
        by_cases hne : c = '_'
        · subst hne
          obtain ⟨hle, hlt⟩ := ih '_'
          rw [if_pos rfl, List.countP_cons_of_neg (by decide), List.countP_cons_of_neg (by decide)]
          exact ⟨hle, fun h => hlt fun hs => h ⟨hapart, hs⟩⟩
        · obtain ⟨hle, hlt⟩ := ih c
          rw [if_neg hne, List.countP_cons_of_neg hupper]
          exact ⟨hle, fun h => hlt fun hs => h ⟨hapart, hs⟩⟩

theorem isChain_iff_neighbours {R : Char → Char → Prop} :
    s.IsChain R ↔ ∀ c d, [c, d] <:+: s → R c d := by
  rw [List.isChain_iff_forall_rel_of_append_cons_cons]
  constructor
  · rintro h c d ⟨front, back, rfl⟩
    exact h (List.append_assoc front [c, d] back)
  · rintro h c d front back rfl
    exact h c d ⟨front, back, List.append_assoc front [c, d] back⟩

/-- All capitals are read if none follows an underscore or another capital; the first character is lowered
before, and may be followed by a capital in any case. -/
theorem isChain_apart_iff : (c.toLower :: s).IsChain Apart ↔
    (∀ d, d.isUpper = true → ¬ ['_', d] <:+: c :: s) ∧
      ∀ d e, d.isUpper = true → e.isUpper = true → ¬ [d, e] <:+: s := by
  rw [isChain_iff_neighbours]
  constructor
  · intro h
    constructor
    · intro d hd hinfix
      rcases List.infix_cons_iff.1 hinfix with ⟨rest, hrest⟩ | hinfix
      · obtain ⟨rfl, rfl⟩ := List.cons.inj hrest
        exact absurd (h '_' d ⟨[], rest, rfl⟩ hd) (by decide)
      · exact absurd (h '_' d (List.infix_cons hinfix) hd) (by decide)
    · intro d e hd he hinfix
      have hopens := h d e (List.infix_cons hinfix) he
      rw [opens, hd, Bool.not_true, Bool.and_false] at hopens
      cases hopens
  · rintro ⟨hmark, hcapitals⟩ d e hinfix he
    rcases List.infix_cons_iff.1 hinfix with ⟨rest, hrest⟩ | hinfix
    · obtain ⟨rfl, rfl⟩ := List.cons.inj hrest
      -- The first character is lowered, so that only an underscore keeps a mark from being read.
      refine opens_toLower ?_
      rintro rfl
      exact hmark e he ⟨[], rest, rfl⟩
    · have hne : d ≠ '_' := by
        rintro rfl
        exact hmark e he (List.infix_cons hinfix)
      have hlower : ¬ d.isUpper = true := fun hd => hcapitals d e hd he hinfix
      simp [opens, hne, hlower]

theorem readable_cons_iff : Readable (c :: s) ↔
    ¬ ['_', '1'] <:+: c :: s ∧ (c.toLower :: s).IsChain Apart := by
  rw [isChain_apart_iff]
  exact ⟨fun h => ⟨h.digit, h.mark, h.capitals⟩, fun h => ⟨h.1, h.2.1, h.2.2⟩⟩

/-! ## Decoding -/

theorem count_colon_toUpper (h : c.isAlphanum = true) (s : List Char) :
    (c.toUpper :: s).count ':' = (c :: s).count ':' := by
  have hc : c ≠ ':' := ne_of_test h rfl
  have hupper : c.toUpper ≠ ':' := ne_of_test (isAlphanum_toUpper h) rfl
  rw [List.count_cons_of_ne hupper, List.count_cons_of_ne hc]

theorem count_colon_raiseMarked (s : List Char) : (raiseMarked s).count ':' = s.count ':' := by
  induction s using raiseMarked.induct with
  | case1 a b s h ih =>
      obtain ⟨ha, hb⟩ := Bool.and_eq_true_iff.1 h
      rw [raiseMarked, if_pos h, List.count_cons, count_colon_toUpper hb, List.count_cons, ih]
      simp [List.count_cons]
  | case2 a b s h ih => rw [raiseMarked, if_neg h, List.count_cons, ih, ← List.count_cons]
  | case3 c s hc ih =>
      rw [raiseMarked, List.count_cons, ih, ← List.count_cons]
      exact hc
  | case4 => rw [raiseMarked]

theorem count_colon_raiseFirst (s : List Char) : (raiseFirst s).count ':' = s.count ':' := by
  unfold raiseFirst
  split
  · rename_i c s
    split
    · rename_i h
      rw [count_colon_toUpper h]
      simp
    · rfl
  · rfl

theorem replace_flatMap_doubled (s : List Char) :
    Text.replace ['_', '_'] ['_'] (s.flatMap doubled) = s := by
  induction s with
  | nil => rfl
  | cons c s ih =>
      rw [List.flatMap_cons, doubled]
      by_cases hne : c = '_'
      · subst hne
        rw [if_pos rfl, Text.replace_append (by decide), ih]
        rfl
      · rw [if_neg hne]
        show Text.replace ['_', '_'] ['_'] (c :: s.flatMap doubled) = _
        rw [Text.replace_cons, ih]
        rintro ⟨rest, hrest⟩
        exact hne (List.cons.inj hrest).1.symm

/-- The last pass changes underscores only. -/
theorem countP_singleUnderscores {p : Char → Bool} (hp : p '_' = false) (s : List Char) :
    (Text.replace ['_', '_'] ['_'] s).countP p = s.countP p := by
  have hsame : ['_'].countP p = ['_', '_'].countP p := by simp [hp]
  exact Text.countP_replace (List.cons_ne_nil _ _) hsame s

/-- The passes over a name that is written, without the kind of compound. -/
theorem passes_eq_iff (hne : name ≠ []) (hname : ∀ c ∈ name, IsNameChar c) :
    Text.replace ['_', '_'] ['_'] (raiseFirst (raiseMarked
        (Text.replace ['_', '1'] [':'] (name.flatMap encodeChar)))) = name ↔ Readable name := by
  obtain ⟨c, s, rfl⟩ := List.exists_cons_of_ne_nil hne
  rw [replace_flatMap_encodeChar, readable_cons_iff]
  have hpasses (h : ¬ ['_', '1'] <:+: c :: s) :
      raiseFirst (raiseMarked (colonsRead (c :: s))) = doubled c ++ raisedAfter c.toLower s := by
    rw [colonsRead_eq_flatMap h, (isRaised hname).past '_' rfl, raiseFirst_raisedAfter]
  constructor
  · intro h
    -- By the number of colons, which the later passes do not change.
    have hdigit : ¬ ['_', '1'] <:+: c :: s := by
      intro hinfix
      have hcount : (colonsRead (c :: s)).count ':' = (c :: s).count ':' :=
        calc (colonsRead (c :: s)).count ':'
            = (raiseFirst (raiseMarked (colonsRead (c :: s)))).count ':' := by
              rw [count_colon_raiseFirst, count_colon_raiseMarked]
          _ = (Text.replace ['_', '_'] ['_']
                (raiseFirst (raiseMarked (colonsRead (c :: s))))).count ':' :=
              (countP_singleUnderscores rfl _).symm
          _ = (c :: s).count ':' := by rw [h]
      have hmore := (count_colon_colonsRead (c :: s)).2 hinfix
      omega
    -- By the number of capitals, which the last pass does not change.
    have hchain : (c.toLower :: s).IsChain Apart := by
      by_contra hnot
      have hcount : (doubled c).countP Char.isUpper + (raisedAfter c.toLower s).countP Char.isUpper =
          (c :: s).countP Char.isUpper :=
        calc (doubled c).countP Char.isUpper + (raisedAfter c.toLower s).countP Char.isUpper
            = (raiseFirst (raiseMarked (colonsRead (c :: s)))).countP Char.isUpper := by
              rw [hpasses hdigit, List.countP_append]
          _ = (Text.replace ['_', '_'] ['_']
                (raiseFirst (raiseMarked (colonsRead (c :: s))))).countP Char.isUpper :=
              (countP_singleUnderscores rfl _).symm
          _ = (c :: s).countP Char.isUpper := by rw [h]
      have hmissing := (countP_raisedAfter c.toLower s).2 hnot
      rw [countP_doubled, List.countP_cons] at hcount
      omega
    exact ⟨hdigit, hchain⟩
  · rintro ⟨hdigit, hchain⟩
    rw [hpasses hdigit, raisedAfter_of_apart hchain]
    exact replace_flatMap_doubled (c :: s)

/-! ## Qualified names -/

theorem withoutKind_append {kind : String} (h : kind = "class" ∨ kind = "struct" ∨ kind = "namespace")
    (id : List Char) : withoutKind (kind.toList ++ id) = id := by
  rcases h with rfl | rfl | rfl <;> rfl

theorem isNameChar_of_isIdentifier (h : CppType.isIdentifier s = true) (hc : c ∈ s) : IsNameChar c := by
  cases s with
  | nil => cases hc
  | cons d s =>
      rw [CppType.isIdentifier, Bool.and_eq_true, List.all_eq_true] at h
      have hident := h.2 c hc
      rw [CppType.isIdentChar, Bool.or_eq_true, beq_iff_eq] at hident
      exact hident.imp_right Or.inl

theorem isNameChar_of_mem_joinScopes {parts : List String}
    (h : ∀ part ∈ parts, CppType.isIdentifier part.toList = true) (hc : c ∈ (joinScopes parts).toList) :
    IsNameChar c := by
  induction parts with
  | nil => cases hc
  | cons part parts ih =>
      have hpart := h part List.mem_cons_self
      by_cases hparts : parts = []
      · subst hparts
        rw [joinScopes, String.intercalate_singleton] at hc
        exact isNameChar_of_isIdentifier hpart hc
      · rw [toList_joinScopes_cons part hparts, List.mem_append, List.mem_cons, List.mem_cons] at hc
        rcases hc with hc | hc | hc | hc
        · exact isNameChar_of_isIdentifier hpart hc
        · exact Or.inr (Or.inr hc)
        · exact Or.inr (Or.inr hc)
        · exact ih (fun part hmem => h part (List.mem_cons_of_mem _ hmem)) hc

theorem joinScopes_ne_nil {parts : List String} (hne : parts ≠ [])
    (h : ∀ part ∈ parts, CppType.isIdentifier part.toList = true) : (joinScopes parts).toList ≠ [] := by
  obtain ⟨part, parts, rfl⟩ := List.exists_cons_of_ne_nil hne
  by_cases hparts : parts = []
  · subst hparts
    have hpart := h part List.mem_cons_self
    rw [joinScopes, String.intercalate_singleton]
    intro hnil
    rw [hnil] at hpart
    cases hpart
  · rw [toList_joinScopes_cons part hparts]
    simp

/-- The name of a compound, written with the kind of compound in front, is found again exactly if no `1` and no
capital follows an underscore in it, and no capital follows another one except at the very start. -/
theorem decode_encode_iff {name kind : String} (h : IsQualified name)
    (hkind : kind = "class" ∨ kind = "struct" ∨ kind = "namespace") :
    decode (kind ++ encode name) = name ↔ Readable name.toList := by
  have hchars : (kind ++ encode name).toList = kind.toList ++ name.toList.flatMap encodeChar := by
    rw [String.toList_append, encode, String.toList_ofList]
  rw [← String.toList_inj, decode, String.toList_ofList, hchars, decodeChars, withoutKind_append hkind]
  obtain ⟨parts, hne, hparts, rfl⟩ := h
  exact passes_eq_iff (joinScopes_ne_nil hne hparts) fun c hc => isNameChar_of_mem_joinScopes hparts hc

theorem decode_encode_vec2 :
    IsQualified "GLtexture::_pool::Vec2" ∧ Readable "GLtexture::_pool::Vec2".toList ∧
      decode ("struct" ++ encode "GLtexture::_pool::Vec2") = "GLtexture::_pool::Vec2" := by
  have hqualified : IsQualified "GLtexture::_pool::Vec2" :=
    ⟨["GLtexture", "_pool", "Vec2"], by decide, by decide, by decide⟩
  have hreadable : Readable "GLtexture::_pool::Vec2".toList := readable_cons_iff.2 (by decide)
  exact ⟨hqualified, hreadable, (decode_encode_iff hqualified (Or.inr (Or.inl rfl))).2 hreadable⟩

/-- Of adjacent capitals every second one is lost. -/
theorem not_decode_encode : ¬ ∀ name kind, IsQualified name →
    (kind = "class" ∨ kind = "struct" ∨ kind = "namespace") → decode (kind ++ encode name) = name := by
  intro h
  have hqualified : IsQualified "obe::XMLReader" := ⟨["obe", "XMLReader"], by decide, by decide, by decide⟩
  have hread : decode ("class" ++ encode "obe::XMLReader") = "obe::X_mL_reader" := by cbv
  have hsame := h "obe::XMLReader" "class" hqualified (Or.inl rfl)
  rw [hread] at hsame
  exact absurd hsame (by decide)

end ScriptBindings.Name
