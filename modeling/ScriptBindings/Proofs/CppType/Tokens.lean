import Mathlib
import ScriptBindings.CppType.Printer
import ScriptBindings.CppType.Reader
import ScriptBindings.Proofs.CppType.Nesting
import ScriptBindings.Proofs.Text.Spacing

/-!
# Pieces and tokens

Two separators cut a text into parts that are read on their own: the comma between arguments, and the
space between the type and the name of a function argument.  `splitOutside` undoes joining with either of
them, and every part that it gives inherits the spacing and the nesting of the whole.

Tokens that stand apart because of a space in front of a mark are glued.  Gluing does nothing where no
token begins with a mark, so a space in front of a word is what separates a name from a type.
-/

namespace ScriptBindings.CppType

/-! ## Parts of nested texts -/

theorem isPlain_of_isBlank {c : Char} (h : Text.isBlank c = true) : IsPlain c := by
  rw [isPlain_iff]
  intro hmem
  have hnone : ∀ b ∈ ['<', '(', '[', '>', ')', ']'], Text.isBlank b = false := by decide
  rw [hnone c hmem] at h
  contradiction

theorem isBlank_of_isIdentChar {c : Char} (h : isIdentChar c = true) : Text.isBlank c = false := by
  have hcode : 48 ≤ c.toNat ∧ c.toNat ≤ 122 := by
    simp only [isIdentChar, Char.isAlphanum, Char.isAlpha, Char.isUpper, Char.isLower, Char.isDigit,
      Bool.or_eq_true, decide_eq_true_eq, Bool.and_eq_true, beq_iff_eq, ge_iff_le,
      UInt32.le_iff_toNat_le] at h
    rcases h with ((h | h) | h) | rfl
    · exact ⟨h.1.trans' (by decide), h.2.trans (by decide)⟩
    · exact ⟨h.1.trans' (by decide), h.2.trans (by decide)⟩
    · exact ⟨h.1.trans' (by decide), h.2.trans (by decide)⟩
    · decide
  by_contra hblank
  simp only [Text.isBlank, Bool.not_eq_false, Bool.or_eq_true, Bool.and_eq_true, decide_eq_true_eq,
    beq_iff_eq] at hblank
  omega

theorem isIdentChar_of_isBlank {c : Char} (h : Text.isBlank c = true) : isIdentChar c = false := by
  by_contra hident
  rw [isBlank_of_isIdentChar (by simpa using hident)] at h
  cases h

theorem isPlain_of_isIdentChar {c : Char} (h : isIdentChar c = true) : IsPlain c := by
  rw [isPlain_iff]
  intro hmem
  have hnone : ∀ b ∈ ['<', '(', '[', '>', ')', ']'], isIdentChar b = false := by decide
  rw [hnone c hmem] at h
  contradiction

theorem isPlain_of_isMarkChar {c : Char} (h : isMarkChar c = true) : IsPlain c := by
  simp only [isMarkChar, Bool.or_eq_true, beq_iff_eq] at h
  rcases h with rfl | rfl <;> exact ⟨rfl, rfl⟩

theorem Outside.trim {p : Char → Bool} {s : List Char} (h : Outside p s) :
    Outside p (Text.trim s) := by
  obtain ⟨front, back, hfront, hback, hs⟩ := Text.exists_trim s
  rw [hs] at h
  exact h.of_middle (fun c hc => isPlain_of_isBlank (hfront c hc))
    fun c hc => isPlain_of_isBlank (hback c hc)

/-- A nested text with no blank outside of its brackets begins and ends without one. -/
theorem Outside.bare {s : List Char} (h : Outside (fun c => !Text.isBlank c) s) : Text.Bare s := by
  constructor
  · intro c hc
    cases s with
    | nil => contradiction
    | cons x s =>
        obtain rfl : x = c := by simpa using hc
        rw [Outside, awaiting_cons] at h
        obtain ⟨middle, hmiddle, -⟩ := Option.bind_eq_some_iff.1 h
        rcases await_eq_some hmiddle with ⟨d, -, hx, -⟩ | ⟨-, heq⟩ | ⟨-, hx, -⟩
        · simpa using hx rfl
        · contradiction
        · simpa using hx rfl
  · intro c hc
    rcases s.eq_nil_or_concat with rfl | ⟨s, x, rfl⟩
    · contradiction
    · obtain rfl : x = c := by simpa using hc
      rw [List.concat_eq_append, Outside, awaiting_append] at h
      obtain ⟨middle, -, hlast⟩ := Option.bind_eq_some_iff.1 h
      rw [awaiting_cons] at hlast
      obtain ⟨after, hafter, hnil⟩ := Option.bind_eq_some_iff.1 hlast
      obtain rfl : after = [] := by simpa using hnil
      rcases await_eq_some hafter with ⟨d, -, -, heq⟩ | ⟨hclose, -⟩ | ⟨-, hx, heq⟩
      · contradiction
      -- A closing bracket is no blank.
      · by_contra hblank
        have hplain := isPlain_of_isBlank (by simpa using hblank)
        rw [hplain.2] at hclose
        contradiction
      · simpa using hx heq.symm

/-- In a spaced text a space is the only blank. -/
theorem Outside.of_spaced {s : List Char} (h : Outside (· != ' ') s) (hs : Text.Spaced s) :
    Outside (fun c => !Text.isBlank c) s := by
  refine h.mono_of_mem fun c hc hspace => ?_
  by_contra hblank
  have hcSpace : c = ' ' := hs.1 c hc (by simpa using hblank)
  simp [hcSpace] at hspace

/-! ## Splitting -/

/-- Nested parts of a text that are joined have what the text has. -/
theorem Outside.of_mem_intercalate {p : Char → Bool} {sep : Char} (hsep : IsPlain sep)
    {pieces : List (List Char)} (h : Outside p ([sep].intercalate pieces))
    (hpieces : ∀ a ∈ pieces, Balanced a) : ∀ a ∈ pieces, Outside p a := by
  induction pieces with
  | nil => simp
  | cons a rest ih =>
      cases rest with
      | nil =>
          rw [List.intercalate_singleton] at h
          simpa using h
      | cons b rest =>
          rw [List.intercalate_cons_cons, List.append_assoc] at h
          have ha : Outside p a := h.of_append_balanced (hpieces a (by simp))
          have htail := h.of_append_left ha
          have hsepBalanced : Balanced [sep] := Outside.balanced_of_plain (by simpa using hsep)
          have hrest := htail.of_append_left (htail.of_append_balanced hsepBalanced)
          intro x hx
          rcases List.mem_cons.1 hx with rfl | hx
          · exact ha
          · exact ih hrest (fun y hy => hpieces y (by simp [hy])) x hx

/-- Parts that are joined with the separator are split apart again. -/
theorem splitOutside_intercalate {sep : Char} (hsep : IsPlain sep) {tokens : List (List Char)}
    (h : ∀ t ∈ tokens, t ≠ [] ∧ Text.Bare t ∧ Outside (· != sep) t) :
    splitOutside sep ([sep].intercalate tokens) = some tokens := by
  by_cases hne : tokens = []
  · subst hne
    rfl
  · rw [splitOutside, cutOutside_intercalate hsep hne fun t ht => (h t ht).2.2, Option.map_some]
    have htrim : tokens.map Text.trim = tokens := by
      rw [List.map_congr_left fun t ht => (h t ht).2.1.trim_eq, List.map_id']
    rw [htrim, List.filter_eq_self.2 fun t ht => by simpa using (h t ht).1]

theorem commaSeparated_cons (a : List Char) (rest : List (List Char)) :
    commaSeparated (a :: rest) = [','].intercalate (a :: rest.map (' ' :: ·)) := by
  induction rest generalizing a with
  | nil => simp [commaSeparated]
  | cons b rest ih =>
      have hrest := ih b
      cases rest <;> simp_all [commaSeparated, List.intercalate_cons_cons]

/-- Texts between commas and spaces are split apart again. -/
theorem splitOutside_commaSeparated {texts : List (List Char)}
    (h : ∀ t ∈ texts, t ≠ [] ∧ Text.Bare t ∧ Outside (· != ',') t) :
    splitOutside ',' (commaSeparated texts) = some texts := by
  cases texts with
  | nil => rfl
  | cons a rest =>
      have hsep : IsPlain ',' := ⟨rfl, rfl⟩
      have hspace : Outside (· != ',') [' '] := Outside.of_plain (by simp [isPlain_iff])
      have hpieces : ∀ t ∈ a :: rest.map (' ' :: ·), Outside (· != ',') t := by
        intro t ht
        rcases List.mem_cons.1 ht with rfl | ht
        · exact (h _ (by simp)).2.2
        · obtain ⟨x, hx, rfl⟩ := List.mem_map.1 ht
          exact hspace.append (h x (by simp [hx])).2.2
      -- The space behind a comma goes to the next piece, and is trimmed off.
      have htrim : (a :: rest.map (' ' :: ·)).map Text.trim = a :: rest := by
        rw [List.map_cons, List.map_map, (h a (by simp)).2.1.trim_eq]
        congr 1
        calc rest.map (Text.trim ∘ (' ' :: ·)) = rest.map id := by
              refine List.map_congr_left fun t ht => ?_
              show Text.trim (' ' :: t) = t
              rw [Text.trim, Text.trimStart_of_blank rfl]
              exact (h t (by simp [ht])).2.1.trim_eq
          _ = rest := List.map_id _
      rw [splitOutside, commaSeparated_cons, cutOutside_intercalate hsep (by simp) hpieces,
        Option.map_some, htrim, List.filter_eq_self.2 fun t ht => by simpa using (h t ht).1]

/-- What is split apart was joined, up to blanks around the parts. -/
theorem splitOutside_eq_some {sep : Char} (hsep : IsPlain sep) {s : List Char}
    {tokens : List (List Char)} (h : splitOutside sep s = some tokens) :
    ∃ pieces, s = [sep].intercalate pieces ∧ (∀ a ∈ pieces, Outside (· != sep) a) ∧
      tokens = (pieces.map Text.trim).filter fun t => !t.isEmpty := by
  rw [splitOutside] at h
  obtain ⟨pieces, hcut, rfl⟩ := Option.map_eq_some_iff.1 h
  obtain ⟨first, rest, rfl, hs, hfirst, hrest⟩ := cutOutside_eq_some hsep hcut
  refine ⟨first :: rest, hs, fun a ha => ?_, rfl⟩
  rcases List.mem_cons.1 ha with rfl | ha
  · exact hfirst
  · exact hrest a ha

theorem infix_intercalate {sep a : List Char} {pieces : List (List Char)} (ha : a ∈ pieces) :
    a <:+: sep.intercalate pieces := by
  induction pieces with
  | nil => simp at ha
  | cons b rest ih =>
      cases rest with
      | nil =>
          obtain rfl : a = b := by simpa using ha
          rw [List.intercalate_singleton]
      | cons c rest =>
          rw [List.intercalate_cons_cons]
          rcases List.mem_cons.1 ha with rfl | ha
          · exact ⟨[], sep ++ sep.intercalate (c :: rest), by simp⟩
          · exact (ih ha).trans (List.suffix_append _ _).isInfix

/-- Every part that is split off is bare and not empty, and inherits the spacing of the text and what
holds outside of its brackets. -/
theorem of_mem_splitOutside {sep : Char} (hsep : IsPlain sep) {p : Char → Bool} {s t : List Char}
    {tokens : List (List Char)} (h : splitOutside sep s = some tokens) (ht : t ∈ tokens) :
    t ≠ [] ∧ Text.Bare t ∧ Outside (· != sep) t ∧ (Text.Spaced s → Text.Spaced t) ∧
      (Outside p s → Outside p t) := by
  obtain ⟨pieces, rfl, hpieces, rfl⟩ := splitOutside_eq_some hsep h
  obtain ⟨hmem, hne⟩ := List.mem_filter.1 ht
  obtain ⟨a, ha, rfl⟩ := List.mem_map.1 hmem
  refine ⟨by simpa using hne, Text.bare_trim a, (hpieces a ha).trim, fun hs => ?_, fun hp => ?_⟩
  · exact (hs.part (infix_intercalate ha)).trim
  · exact (hp.of_mem_intercalate hsep (fun x hx => (hpieces x hx).balanced) a ha).trim

/-- Between the words of a bare and spaced text stands one space each, so splitting at spaces loses
nothing else. -/
theorem intercalate_of_splitOutside {s : List Char} {tokens : List (List Char)} (hb : Text.Bare s)
    (hs : Text.Spaced s) (hne : s ≠ []) (h : splitOutside ' ' s = some tokens) :
    s = [' '].intercalate tokens := by
  obtain ⟨pieces, hjoin, hpieces, rfl⟩ := splitOutside_eq_some ⟨rfl, rfl⟩ h
  have hbare : ∀ a ∈ pieces, Text.Bare a := fun a ha =>
    ((hpieces a ha).of_spaced (hs.part (hjoin ▸ infix_intercalate ha))).bare
  have htrim : pieces.map Text.trim = pieces := by
    rw [List.map_congr_left fun a ha => (hbare a ha).trim_eq, List.map_id']
  -- No piece is empty: no two spaces follow each other, and none stands at an end.
  have hfull : ∀ a ∈ pieces, a ≠ [] := by
    clear h hpieces hbare htrim
    induction pieces generalizing s with
    | nil => simp
    | cons a rest ih =>
        cases rest with
        | nil =>
            rw [List.intercalate_singleton] at hjoin
            simpa [← hjoin] using hne
        | cons b rest =>
            rw [List.intercalate_cons_cons, List.append_assoc, List.singleton_append] at hjoin
            subst hjoin
            obtain ⟨-, hrestNe, hrestBare, hrestSpaced⟩ := Text.Bare.of_append_blank hb hs rfl
            intro x hx
            rcases List.mem_cons.1 hx with rfl | hx
            · rintro rfl
              have hblank := hb.1 ' ' rfl
              contradiction
            · exact ih hrestBare hrestSpaced hrestNe rfl x hx
  rw [htrim, List.filter_eq_self.2 fun a ha => by simpa using hfull a ha]
  exact hjoin

/-! ## Gluing -/

/-- A token that does not begin with a mark stays a token. -/
theorem glueToken_word {before : List (List Char)} {t : List Char}
    (h : ∀ c ∈ t.head?, isMarkChar c = false) : glueToken before t = t :: before := by
  have hmarks : t.takeWhile isMarkChar = [] := by
    cases t with
    | nil => rfl
    | cons c t => simp [h c rfl]
  cases before <;> simp [glueToken, hmarks]

/-- Without marks in front of tokens there is nothing to glue. -/
theorem glueMarks_eq_self {first : List Char} {rest : List (List Char)}
    (h : ∀ t ∈ rest, ∀ c ∈ t.head?, isMarkChar c = false) :
    glueMarks (first :: rest) = first :: rest := by
  have hfold : ∀ before, rest.foldl glueToken before = rest.reverse ++ before := by
    induction rest with
    | nil => simp
    | cons t rest ih =>
        intro before
        rw [List.foldl_cons, glueToken_word (h t (by simp)),
          ih (fun x hx => h x (by simp [hx]))]
        simp
  rw [glueMarks, List.foldl_cons, hfold]
  simp [glueToken]

/-- A token behind another one is cut in two: its marks go to the token before it, and the rest, if there
is one, is a token of its own. -/
theorem glueToken_cons (previous : List Char) (earlier : List (List Char)) (t : List Char) :
    ∃ marks rest, t = marks ++ rest ∧ (∀ c ∈ marks, isMarkChar c = true) ∧
      ((marks = [] ∨ rest ≠ []) ∧
          glueToken (previous :: earlier) t = rest :: (previous ++ marks) :: earlier ∨
        rest = [] ∧ marks ≠ [] ∧
          glueToken (previous :: earlier) t = (previous ++ marks) :: earlier) := by
  refine ⟨t.takeWhile isMarkChar, t.dropWhile isMarkChar, List.takeWhile_append_dropWhile.symm,
    fun c hc => List.all_eq_true.1 List.all_takeWhile c hc, ?_⟩
  have hsplit := List.takeWhile_append_dropWhile (p := isMarkChar) (l := t)
  by_cases hmarks : t.takeWhile isMarkChar = []
  · rw [hmarks, List.nil_append] at hsplit
    simp [glueToken, hmarks, hsplit]
  · by_cases hrest : t.dropWhile isMarkChar = []
    · simp [glueToken, hmarks, hrest]
    · simp [glueToken, hmarks, hrest]

theorem glueToken_ne_nil (before : List (List Char)) (t : List Char) : glueToken before t ≠ [] := by
  cases before with
  | nil => simp [glueToken]
  | cons previous earlier =>
      obtain ⟨marks, rest, -, -, ⟨-, heq⟩ | ⟨-, -, heq⟩⟩ := glueToken_cons previous earlier t <;>
        simp [heq]

/-- The last token is glued to what was made of the tokens before it. -/
theorem glueMarks_concat {tokens : List (List Char)} (hne : tokens ≠ []) (t : List Char) :
    ∃ previous earlier, glueMarks (tokens ++ [t]) = (glueToken (previous :: earlier) t).reverse := by
  have hfold : tokens.foldl glueToken [] ≠ [] := by
    obtain ⟨front, last, rfl⟩ := tokens.eq_nil_or_concat.resolve_left hne
    rw [List.concat_eq_append, List.foldl_append]
    exact glueToken_ne_nil _ last
  obtain ⟨previous, earlier, heq⟩ := List.exists_cons_of_ne_nil hfold
  exact ⟨previous, earlier, by rw [glueMarks, List.foldl_append, heq]; rfl⟩

/-- What is kept by cutting marks off the front of a token and by adding marks behind it holds for all
tokens after gluing. -/
theorem forall_glueMarks {P : List Char → Prop} {tokens : List (List Char)}
    (hcut : ∀ marks rest, (∀ c ∈ marks, isMarkChar c = true) → rest ≠ [] → P (marks ++ rest) → P rest)
    (hglue : ∀ t marks, (∀ c ∈ marks, isMarkChar c = true) → P t → P (t ++ marks))
    (h : ∀ t ∈ tokens, P t) : ∀ t ∈ glueMarks tokens, P t := by
  -- By induction on the tokens, for whatever was collected before them.
  suffices hfold : ∀ before, (∀ t ∈ before, P t) → ∀ t ∈ tokens.foldl glueToken before, P t by
    intro t ht
    exact hfold [] (by simp) t (List.mem_reverse.1 ht)
  induction tokens with
  | nil => exact fun before hbefore => hbefore
  | cons t rest ih =>
      intro before hbefore
      refine ih (fun x hx => h x (by simp [hx])) _ fun x hx => ?_
      have ht : P t := h t (by simp)
      cases before with
      | nil =>
          obtain rfl : x = t := by simpa [glueToken] using hx
          exact ht
      | cons previous earlier =>
          have hprevious : P previous := hbefore previous (by simp)
          obtain ⟨marks, own, rfl, hmarks, ⟨hown, heq⟩ | ⟨-, -, heq⟩⟩ :=
            glueToken_cons previous earlier t
          · rw [heq] at hx
            simp only [List.mem_cons] at hx
            rcases hx with rfl | rfl | hx
            · rcases hown with rfl | hown
              · simpa using ht
              · exact hcut marks _ hmarks hown ht
            · exact hglue previous marks hmarks hprevious
            · exact hbefore x (by simp [hx])
          · rw [heq] at hx
            rcases List.mem_cons.1 hx with rfl | hx
            · exact hglue previous marks hmarks hprevious
            · exact hbefore x (by simp [hx])

/-- The first token keeps its place, with marks behind it at most. -/
theorem glueMarks_first (first : List Char) (rest : List (List Char)) :
    ∃ marks later, (∀ c ∈ marks, isMarkChar c = true) ∧
      glueMarks (first :: rest) = (first ++ marks) :: later := by
  -- The first token stays at the bottom of what is collected, with marks behind it.
  suffices hfold : ∀ before marks, (∀ c ∈ marks, isMarkChar c = true) →
      ∃ marks' later, (∀ c ∈ marks', isMarkChar c = true) ∧
        rest.foldl glueToken (before ++ [first ++ marks]) = later ++ [first ++ marks'] by
    obtain ⟨marks, later, hmarks, heq⟩ := hfold [] [] (by simp)
    refine ⟨marks, later.reverse, hmarks, ?_⟩
    rw [List.nil_append, List.append_nil] at heq
    rw [glueMarks, List.foldl_cons, show glueToken [] first = [first] from rfl, heq]
    simp
  induction rest with
  | nil => exact fun before marks hmarks => ⟨marks, before, hmarks, rfl⟩
  | cons t rest ih =>
      intro before marks hmarks
      rw [List.foldl_cons]
      cases before with
      | nil =>
          obtain ⟨more, own, -, hmore, ⟨-, heq⟩ | ⟨-, -, heq⟩⟩ := glueToken_cons (first ++ marks) [] t
          all_goals
            have hall : ∀ c ∈ marks ++ more, isMarkChar c = true := by
              intro c hc
              rcases List.mem_append.1 hc with hc | hc
              · exact hmarks c hc
              · exact hmore c hc
            rw [List.nil_append, heq, List.append_assoc]
          · exact ih [own] (marks ++ more) hall
          · exact ih [] (marks ++ more) hall
      | cons previous earlier =>
          obtain ⟨more, own, -, -, ⟨-, heq⟩ | ⟨-, -, heq⟩⟩ :=
            glueToken_cons previous (earlier ++ [first ++ marks]) t
          · rw [List.cons_append, heq]
            exact ih (own :: (previous ++ more) :: earlier) marks hmarks
          · rw [List.cons_append, heq]
            exact ih ((previous ++ more) :: earlier) marks hmarks

/-- If everything was glued to one token, a token behind the first one consists of marks. -/
theorem marks_of_glueMarks_single {tokens : List (List Char)} {t ty : List Char} (hne : tokens ≠ [])
    (h : glueMarks (tokens ++ [t]) = [ty]) : ∀ c ∈ t, isMarkChar c = true := by
  obtain ⟨previous, earlier, hglue⟩ := glueMarks_concat hne t
  obtain ⟨marks, rest, rfl, hmarks, ⟨-, heq⟩ | ⟨rfl, -, -⟩⟩ := glueToken_cons previous earlier t
  · have hlength := congrArg List.length h
    rw [hglue, heq] at hlength
    simp at hlength
  · simpa using hmarks

/-- A last token that does not end with a mark has lost at most the marks in front of it. -/
theorem last_of_glueMarks {tokens front : List (List Char)} {t name : List Char}
    (hne : tokens ≠ []) (h : glueMarks (tokens ++ [t]) = front ++ [name])
    (hname : ∀ c ∈ name.getLast?, isMarkChar c = false) :
    ∃ marks, t = marks ++ name ∧ ∀ c ∈ marks, isMarkChar c = true := by
  obtain ⟨previous, earlier, hglue⟩ := glueMarks_concat hne t
  rw [h] at hglue
  obtain ⟨marks, rest, rfl, hmarks, ⟨-, heq⟩ | ⟨rfl, hfull, heq⟩⟩ := glueToken_cons previous earlier t
  · rw [heq, List.reverse_cons] at hglue
    obtain rfl : name = rest := List.singleton_inj.1 (List.append_inj_right' hglue rfl)
    exact ⟨marks, rfl, hmarks⟩
  · rw [heq, List.reverse_cons] at hglue
    obtain rfl : name = previous ++ marks := List.singleton_inj.1 (List.append_inj_right' hglue rfl)
    have hlast := hname (marks.getLast hfull) (by
      rw [List.getLast?_append_of_ne_nil _ hfull, List.getLast?_eq_getLast_of_ne_nil hfull]
      rfl)
    rw [hmarks _ (List.getLast_mem hfull)] at hlast
    contradiction

/-! ## Texts whose tokens are words -/

/-- A text with a first token and further ones, all of which begin like an identifier. -/
structure Stepped (s first : List Char) (rest : List (List Char)) : Prop where
  text : s = first ++ rest.flatMap (' ' :: ·)
  tokens : ∀ t ∈ first :: rest, t ≠ [] ∧ Text.Bare t ∧ Outside (· != ' ') t
  words : ∀ t ∈ rest, t.head?.any isIdentChar = true

theorem intercalate_cons_flatMap (sep : Char) (a : List Char) (rest : List (List Char)) :
    [sep].intercalate (a :: rest) = a ++ rest.flatMap (sep :: ·) := by
  induction rest generalizing a with
  | nil => simp
  | cons b rest ih =>
      rw [List.intercalate_cons_cons, ih b, List.flatMap_cons]
      simp

namespace Stepped

variable {s first : List Char} {rest : List (List Char)}

/-- A text without a space outside of its brackets is one token. -/
theorem single (hne : s ≠ []) (hb : Text.Bare s) (h : Outside (· != ' ') s) : Stepped s s [] :=
  ⟨by simp, by simpa using ⟨hne, hb, h⟩, by simp⟩

/-- The last token goes on behind the text. -/
theorem append {b : List Char} (h : Stepped s first rest) (hb : Outside (· != ' ') b)
    (hne : b ≠ []) (hlast : ∀ c ∈ b.getLast?, Text.isBlank c = false) :
    ∃ first' rest', Stepped (s ++ b) first' rest' := by
  have longer : ∀ t, t ≠ [] ∧ Text.Bare t ∧ Outside (· != ' ') t →
      t ++ b ≠ [] ∧ Text.Bare (t ++ b) ∧ Outside (· != ' ') (t ++ b) := by
    rintro t ⟨ht, hbare, hout⟩
    exact ⟨by simp [ht], Text.bare_of_ends [] ht hne hbare.1 hlast, hout.append hb⟩
  rcases rest.eq_nil_or_concat with rfl | ⟨front, last, rfl⟩
  · refine ⟨first ++ b, [], by simp [h.text], ?_, by simp⟩
    simpa using longer first (h.tokens first (by simp))
  · rw [List.concat_eq_append] at h
    have hlastToken := h.tokens last (by simp)
    refine ⟨first, front ++ [last ++ b], ?_, ?_, ?_⟩
    · rw [h.text]
      simp
    · intro t ht
      simp only [List.mem_cons, List.mem_append, List.not_mem_nil, or_false] at ht
      rcases ht with rfl | ht | rfl
      · exact h.tokens _ (by simp)
      · exact h.tokens t (by simp [ht])
      · exact longer last hlastToken
    · intro t ht
      simp only [List.mem_append, List.mem_cons, List.not_mem_nil, or_false] at ht
      rcases ht with ht | rfl
      · exact h.words t (by simp [ht])
      · rw [List.head?_append_of_ne_nil _ hlastToken.1]
        exact h.words last (by simp)

/-- A group behind the text belongs to the last token. -/
theorem group {o d : Char} {inside : List Char} (h : Stepped s first rest)
    (hd : closer? o = some d) (hinside : Balanced inside) :
    ∃ first' rest', Stepped (s ++ o :: inside ++ [d]) first' rest' := by
  have ho : (o != ' ') = true := by
    by_contra hspace
    obtain rfl : o = ' ' := by simpa using hspace
    contradiction
  have hblank : Text.isBlank d = false := by
    by_contra hblank
    have hclose := (closer?_eq_some hd).2.1
    rw [(isPlain_of_isBlank (by simpa using hblank)).2] at hclose
    contradiction
  have hlast : ∀ c ∈ (o :: inside ++ [d]).getLast?, Text.isBlank c = false := by
    intro c hc
    rw [List.getLast?_concat] at hc
    rwa [← Option.some.inj hc]
  rw [List.append_assoc]
  exact h.append (Outside.group hd ho hinside) (by simp) hlast

/-- A word behind a space is a new token. -/
theorem word {w : List Char} (h : Stepped s first rest) (hw : w.head?.any isIdentChar = true)
    (hb : Text.Bare w) (ho : Outside (· != ' ') w) :
    Stepped (s ++ ' ' :: w) first (rest ++ [w]) := by
  have hne : w ≠ [] := by
    rintro rfl
    simp at hw
  refine ⟨by simp [h.text], fun t ht => ?_, fun t ht => ?_⟩
  · rw [← List.cons_append, List.mem_append] at ht
    rcases ht with ht | ht
    · exact h.tokens t ht
    · rw [List.mem_singleton.1 ht]
      exact ⟨hne, hb, ho⟩
  · rcases List.mem_append.1 ht with ht | ht
    · exact h.words t ht
    · rwa [List.mem_singleton.1 ht]

theorem split (h : Stepped s first rest) : splitOutside ' ' s = some (first :: rest) := by
  rw [h.text, ← intercalate_cons_flatMap]
  exact splitOutside_intercalate ⟨rfl, rfl⟩ h.tokens

theorem glue (h : Stepped s first rest) : glueMarks (first :: rest) = first :: rest := by
  refine glueMarks_eq_self fun t ht c hc => ?_
  have hword := h.words t ht
  rw [Option.mem_def.1 hc] at hword
  by_contra hmark
  simp only [isMarkChar, Bool.not_eq_false, Bool.or_eq_true, beq_iff_eq] at hmark
  rcases hmark with rfl | rfl <;> simp [isIdentChar] at hword

/-- There is a second token if there is a space outside of brackets. -/
theorem rest_ne_nil (h : Stepped s first rest) (hout : ¬ Outside (· != ' ') s) : rest ≠ [] := by
  rintro rfl
  refine hout ?_
  rw [h.text]
  simpa using (h.tokens first (by simp)).2.2

end Stepped

end ScriptBindings.CppType
