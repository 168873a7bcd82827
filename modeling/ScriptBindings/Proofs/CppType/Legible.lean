import Mathlib
import ScriptBindings.Proofs.CppType.Qualifiers
import ScriptBindings.Proofs.CppType.Reading
import ScriptBindings.Proofs.CppType.Tokens

/-!
# Types that can be read back

A legible type has no part that its printed form would hide: its names are texts that are read as names,
its qualifiers are known and fit what they stand around, and the arguments of its functions are named in
a way that separates them from their types.  Whatever is read from a text with single spaces is legible.

A legible type is read back from its printed form exactly if it is also reprintable: no mark glues to the
mark in front of it, and no argument of a function has a type that is printed with a space outside of its
brackets.
-/

namespace ScriptBindings

namespace CppType

/-! ## Printed forms and their cores -/

/-- The printed form without the qualifiers of the whole. -/
def core : CppType → List Char
  | .base n _ => n.toList
  | .template n _ args => n.toList ++ '<' :: commaSeparated (charsOfList args) ++ ['>']
  | .function r _ args => r.chars ++ '(' :: commaSeparated (charsOfArgs args) ++ [')']

@[simp]
theorem quals_base (n : String) (q : Qualifiers) : (base n q).quals = q := rfl

@[simp]
theorem quals_template (n : String) (q : Qualifiers) (args : List CppType) :
    (template n q args).quals = q := rfl

@[simp]
theorem quals_function (r : CppType) (q : Qualifiers) (args : List FunctionArg) :
    (function r q args).quals = q := rfl

theorem chars_eq (t : CppType) : t.chars = t.quals.wrap t.core := by
  cases t <;> rfl

theorem chars_of_no_words {t : CppType} (h : t.quals.leading = []) :
    t.chars = t.core ++ Qualifiers.written t.quals.trailing := by
  rw [chars_eq, Qualifiers.wrap_eq, h]
  rfl

@[simp]
theorem quals_withQuals (t : CppType) (q : Qualifiers) : (t.withQuals q).quals = q := by
  cases t <;> rfl

@[simp]
theorem withQuals_quals (t : CppType) : t.withQuals t.quals = t := by
  cases t <;> rfl

@[simp]
theorem withQuals_withQuals (t : CppType) (q q' : Qualifiers) :
    (t.withQuals q).withQuals q' = t.withQuals q' := by
  cases t <;> rfl

@[simp]
theorem baseName_withQuals (t : CppType) (q : Qualifiers) : (t.withQuals q).baseName = t.baseName := by
  cases t <;> rfl

@[simp]
theorem core_withQuals (t : CppType) (q : Qualifiers) : (t.withQuals q).core = t.core := by
  cases t <;> rfl

theorem chars_unqualified (t : CppType) : t.unqualified.chars = t.core := by
  cases t <;> simp [unqualified, withQuals, chars, core, Qualifiers.wrap]

end CppType

namespace FunctionArg

/-- The printed form without the qualifiers of the argument. -/
def core (a : FunctionArg) : List Char :=
  if a.generated then a.ty.chars else a.ty.chars ++ ' ' :: a.name.toList

end FunctionArg

namespace CppType

theorem charsOfArgs_cons (a : FunctionArg) (rest : List FunctionArg) :
    charsOfArgs (a :: rest) = a.quals.wrap a.core :: charsOfArgs rest := by
  cases a
  rfl

theorem charsOfArgs_eq_map (args : List FunctionArg) :
    charsOfArgs args = args.map fun a => a.quals.wrap a.core := by
  induction args with
  | nil => rfl
  | cons a rest ih => rw [charsOfArgs_cons, ih, List.map_cons]

theorem charsOfList_eq_map (ts : List CppType) : charsOfList ts = ts.map chars := by
  induction ts with
  | nil => rfl
  | cons t ts ih => rw [charsOfList, ih, List.map_cons]

/-! ## Legible and reprintable types -/

/-- The text is read as a name: it has no arguments, or they are followed by the name of a member. -/
def ReadsAsName (s : List Char) : Prop :=
  shapeOf s = .name ∨
    shapeOf s = .template ∧ Text.trim (s.takeWhile (· ≠ '<')) ≠ [] ∧
      ∃ inside after, takeGroup ['>'] ((s.dropWhile (· ≠ '<')).drop 1) = some (inside, after) ∧
        [':', ':'].isPrefixOf (Text.trim after) = true

/-- The name of a template, which ends at its arguments. -/
structure IsTemplateName (s : List Char) : Prop where
  nonempty : s ≠ []
  bare : Text.Bare s
  spaced : Text.Spaced s
  noGroup : ∀ c ∈ s, c ≠ '<' ∧ c ≠ '('
  outside : Outside (· != ',') s
  noWord : Qualifiers.takeLeading? s = none

/-- The name that the type of an argument starts with is a single token. -/
def Tight : CppType → Prop
  | .base n _ => Outside (· != ' ') n.toList
  | .template n _ _ => Outside (· != ' ') n.toList
  | .function r _ _ => r.Tight

/-- The argument at a position has its generated name, and then a type without qualifiers of its own, or
an identifier that is no built-in type. -/
def IsNamedAt (i : Nat) (a : FunctionArg) : Prop :=
  if a.generated then a.name = positionName i ∧ a.ty.quals = {}
  else isIdentifier a.name.toList = true ∧ isPrimitiveWord a.name.toList = false

theorem IsNamedAt.of_generated {i : Nat} {a : FunctionArg} (h : IsNamedAt i a)
    (hgenerated : a.generated = true) : a.name = positionName i ∧ a.ty.quals = {} := by
  rwa [IsNamedAt, if_pos hgenerated] at h

theorem IsNamedAt.of_named {i : Nat} {a : FunctionArg} (h : IsNamedAt i a)
    (hnamed : a.generated = false) :
    isIdentifier a.name.toList = true ∧ isPrimitiveWord a.name.toList = false := by
  rwa [IsNamedAt, if_neg (by simp [hnamed])] at h

mutual

/-- Every part of the type can be told from the printed form. -/
def Legible : CppType → Prop
  | .base n q =>
      q.Fits n.toList ∧ Text.Spaced n.toList ∧ Outside (· != ',') n.toList ∧ ReadsAsName n.toList
  | .template n q args => q.Known ∧ IsTemplateName n.toList ∧ LegibleList args
  | .function r q args =>
      q.Known ∧ r.Legible ∧ r.quals.leading = [] ∧ Outside (· != '(') r.chars ∧ LegibleArgs 0 args

/-- `Legible` for several types. -/
def LegibleList : List CppType → Prop
  | [] => True
  | t :: ts => t.Legible ∧ LegibleList ts

/-- `Legible` for the arguments of a function, from a position on. -/
def LegibleArgs : Nat → List FunctionArg → Prop
  | _, [] => True
  | i, ⟨ty, q, name, generated⟩ :: rest =>
      ty.Legible ∧ ty.Tight ∧ q.Fits (FunctionArg.core ⟨ty, q, name, generated⟩) ∧
        IsNamedAt i ⟨ty, q, name, generated⟩ ∧ LegibleArgs (i + 1) rest

end

mutual

/-- No mark glues to the one in front of it, and no argument of a function has a type that is printed with
a space outside of its brackets. -/
def Reprintable : CppType → Prop
  | .base _ q => Qualifiers.Unglued q.trailing
  | .template _ q args => Qualifiers.Unglued q.trailing ∧ ReprintableList args
  | .function r q args => Qualifiers.Unglued q.trailing ∧ r.Reprintable ∧ ReprintableArgs args

/-- `Reprintable` for several types. -/
def ReprintableList : List CppType → Prop
  | [] => True
  | t :: ts => t.Reprintable ∧ ReprintableList ts

/-- `Reprintable` for the arguments of a function. -/
def ReprintableArgs : List FunctionArg → Prop
  | [] => True
  | ⟨ty, q, _, _⟩ :: rest =>
      Qualifiers.Unglued q.trailing ∧ Outside (· != ' ') ty.chars ∧ ty.Reprintable ∧
        ReprintableArgs rest

end

mutual

/-- Whether a type is reprintable is decidable. -/
def decReprintable : (t : CppType) → Decidable t.Reprintable
  | .base _ q => inferInstanceAs (Decidable (Qualifiers.Unglued q.trailing))
  | .template _ q args =>
      have := decReprintableList args
      inferInstanceAs (Decidable (Qualifiers.Unglued q.trailing ∧ ReprintableList args))
  | .function r q args =>
      have := decReprintable r
      have := decReprintableArgs args
      inferInstanceAs (Decidable (Qualifiers.Unglued q.trailing ∧ r.Reprintable ∧ ReprintableArgs args))

/-- Whether several types are reprintable is decidable. -/
def decReprintableList : (ts : List CppType) → Decidable (ReprintableList ts)
  | [] => isTrue trivial
  | t :: ts =>
      have := decReprintable t
      have := decReprintableList ts
      inferInstanceAs (Decidable (t.Reprintable ∧ ReprintableList ts))

/-- Whether the arguments of a function are reprintable is decidable. -/
def decReprintableArgs : (args : List FunctionArg) → Decidable (ReprintableArgs args)
  | [] => isTrue trivial
  | ⟨ty, q, _, _⟩ :: rest =>
      have := decReprintable ty
      have := decReprintableArgs rest
      inferInstanceAs (Decidable (Qualifiers.Unglued q.trailing ∧ Outside (· != ' ') ty.chars ∧
        ty.Reprintable ∧ ReprintableArgs rest))

end

instance : DecidablePred Reprintable := decReprintable

theorem LegibleList.of_mem {ts : List CppType} (h : LegibleList ts) : ∀ t ∈ ts, t.Legible := by
  induction ts with
  | nil => simp
  | cons t ts ih =>
      intro x hx
      rcases List.mem_cons.1 hx with rfl | hx
      · exact h.1
      · exact ih h.2 x hx

theorem LegibleArgs.of_mem {i : Nat} {args : List FunctionArg} (h : LegibleArgs i args) :
    ∀ a ∈ args, a.ty.Legible ∧ a.quals.Fits a.core := by
  induction args generalizing i with
  | nil => simp
  | cons a rest ih =>
      obtain ⟨ty, q, name, generated⟩ := a
      intro x hx
      rcases List.mem_cons.1 hx with rfl | hx
      · exact ⟨h.1, h.2.2.1⟩
      · exact ih h.2.2.2.2 x hx

theorem Reprintable.unglued {t : CppType} (h : t.Reprintable) :
    Qualifiers.Unglued t.quals.trailing := by
  cases t with
  | base n q => exact h
  | template n q args => exact h.1
  | function r q args => exact h.1

/-! ## Qualifiers and brackets of printed forms -/

theorem isIdentChar_of_isIdentifier {s : List Char} (h : isIdentifier s = true) :
    ∀ c ∈ s, isIdentChar c = true := by
  cases s with
  | nil => simp
  | cons c s => exact List.all_eq_true.1 (Bool.and_eq_true_iff.1 h).2

theorem isPlain_of_isFiller {c : Char} (h : Qualifiers.IsFiller c) : IsPlain c := by
  rcases h with h | h | rfl | rfl
  · exact isPlain_of_isBlank h
  · exact isPlain_of_isIdentChar h
  · exact ⟨rfl, rfl⟩
  · exact ⟨rfl, rfl⟩

theorem ne_of_isFiller {c sep : Char} (hc : Qualifiers.IsFiller c)
    (hsep : sep ∈ [',', '(']) : (c != sep) = true := by
  by_contra heq
  obtain rfl : c = sep := by simpa using heq
  simp only [List.mem_cons, List.not_mem_nil, or_false] at hsep
  unfold Qualifiers.IsFiller at hc
  rcases hsep with rfl | rfl <;> exact absurd hc (by decide)

theorem isFiller_of_mem_written {marks : List String} (h : ∀ m ∈ marks, m ∈ trailingMarks) :
    ∀ c ∈ Qualifiers.written marks, Qualifiers.IsFiller c := by
  intro c hc
  obtain ⟨m, hm, hcm⟩ := List.mem_flatMap.1 hc
  rw [Qualifiers.attached_eq (h m hm), List.mem_append] at hcm
  rcases hcm with hcm | hcm
  · split at hcm
    · obtain rfl := List.mem_singleton.1 hcm
      exact Or.inl rfl
    · contradiction
  · exact Qualifiers.isFiller_of_mem_trailingMark (h m hm) c hcm

theorem isFiller_of_mem_writtenWords {words : List String} (h : ∀ w ∈ words, w ∈ leadingWords) :
    ∀ c ∈ Qualifiers.writtenWords words, Qualifiers.IsFiller c := by
  intro c hc
  obtain ⟨w, hw, hcw⟩ := List.mem_flatMap.1 hc
  rcases List.mem_append.1 hcw with hcw | hcw
  · exact Qualifiers.isFiller_of_mem_leadingWord (h w hw) c hcw
  · obtain rfl := List.mem_singleton.1 hcw
    exact Or.inl rfl

/-- Words and marks hold no bracket and no separator. -/
theorem outside_wrap {q : Qualifiers} {core : List Char} {sep : Char} (hq : q.Known)
    (hsep : sep ∈ [',', '(']) (h : Outside (· != sep) core) : Outside (· != sep) (q.wrap core) := by
  have filler : ∀ s : List Char, (∀ c ∈ s, Qualifiers.IsFiller c) → Outside (· != sep) s := by
    intro s hs
    exact Outside.of_plain fun c hc => ⟨isPlain_of_isFiller (hs c hc), ne_of_isFiller (hs c hc) hsep⟩
  rw [Qualifiers.wrap_eq]
  exact (filler _ (isFiller_of_mem_writtenWords hq.words)).append
    (h.append (filler _ (isFiller_of_mem_written hq.marks)))

theorem commaSeparated_balanced {texts : List (List Char)} (h : ∀ a ∈ texts, Balanced a) :
    Balanced (commaSeparated texts) := by
  have hsep : Balanced [',', ' '] := rfl
  rw [commaSeparated]
  induction texts with
  | nil => rfl
  | cons a rest ih =>
      cases rest with
      | nil =>
          rw [List.intercalate_singleton]
          exact h a (by simp)
      | cons b rest =>
          rw [List.intercalate_cons_cons]
          exact ((h a (by simp)).append hsep).append (ih fun x hx => h x (by simp [hx]))

/-- A group behind a text that begins without a word: qualifiers fit around both together. -/
theorem fits_group {q : Qualifiers} {front inside : List Char} {o d : Char} (hq : q.Known)
    (hne : front ≠ []) (hb : Text.Bare front) (hword : Qualifiers.takeLeading? front = none)
    (ho : isIdentChar o = false ∧ Text.isBlank o = false)
    (hd : d ∉ ['&', '*', 't', 'e'] ∧ Text.isBlank d = false) :
    q.Fits (front ++ o :: inside ++ [d]) := by
  refine ⟨hq, by simp, ?_, ?_, ?_⟩
  · rw [List.append_assoc]
    exact Text.bare_of_ends (o :: inside) hne (List.cons_ne_nil d []) hb.1 (by simpa using hd.2)
  · refine Qualifiers.takeTrailing?_eq_none_of_getLast? fun c hc => ?_
    rw [List.getLast?_concat] at hc
    obtain rfl := Option.some.inj hc
    exact hd.1
  · rw [List.append_assoc, List.append_assoc]
    exact Qualifiers.takeLeading?_append_eq_none hword (by simpa using ho.1)
      (Or.inl (by simpa using ho.2))

/-- What a legible type without words in front begins with is no word. -/
theorem takeLeading?_chars {t : CppType} (hfits : t.quals.Fits t.core) (h : t.quals.leading = []) :
    Qualifiers.takeLeading? t.chars = none := by
  rw [chars_of_no_words h]
  exact hfits.noWord

/-- The qualifiers of a legible type fit around its core. -/
theorem Legible.fits : (t : CppType) → t.Legible → t.quals.Fits t.core
  | .base _ _, h => h.1
  | .template _ _ _, h =>
      fits_group h.1 h.2.1.nonempty h.2.1.bare h.2.1.noWord (by decide) (by decide)
  | .function r _ _, h => by
      have hr : r.quals.Fits r.core := Legible.fits r h.2.1
      have hchars := chars_eq r
      refine fits_group h.1 ?_ ?_ (takeLeading?_chars hr h.2.2.1) (by decide) (by decide)
      · rw [hchars]
        exact hr.wrap_ne_nil
      · rw [hchars]
        exact hr.bare_wrap

mutual

/-- A legible type is printed without a comma outside of its brackets. -/
theorem Legible.outside : (t : CppType) → t.Legible → Outside (· != ',') t.chars
  | .base _ _, h => outside_wrap h.1.toKnown (by decide) h.2.2.1
  | .template n q args, h => by
      have hargs := commaSeparated_balanced fun a ha =>
        (LegibleList.outside args h.2.2 a ha).balanced
      refine outside_wrap h.1 (by decide) ?_
      rw [List.append_assoc]
      exact h.2.1.outside.append (Outside.group rfl rfl hargs)
  | .function r q args, h => by
      have hargs := commaSeparated_balanced fun a ha =>
        (LegibleArgs.outside 0 args h.2.2.2.2 a ha).balanced
      refine outside_wrap h.1 (by decide) ?_
      rw [List.append_assoc]
      exact (Legible.outside r h.2.1).append (Outside.group rfl rfl hargs)

theorem LegibleList.outside : (ts : List CppType) → LegibleList ts →
    ∀ a ∈ charsOfList ts, Outside (· != ',') a
  | [], _ => by simp [charsOfList]
  | t :: ts, h => by
      intro a ha
      rcases List.mem_cons.1 ha with rfl | ha
      · exact Legible.outside t h.1
      · exact LegibleList.outside ts h.2 a ha

theorem LegibleArgs.outside : (i : Nat) → (args : List FunctionArg) → LegibleArgs i args →
    ∀ a ∈ charsOfArgs args, Outside (· != ',') a
  | _, [], _ => by simp [charsOfArgs]
  | i, ⟨ty, q, name, generated⟩ :: rest, h => by
      intro a ha
      rcases List.mem_cons.1 ha with rfl | ha
      · have hty : Outside (· != ',') ty.chars := Legible.outside ty h.1
        refine outside_wrap h.2.2.1.toKnown (by decide) ?_
        cases generated with
        | true => exact hty
        | false =>
            have hname : isIdentifier name.toList = true := (h.2.2.2.1.of_named rfl).1
            refine hty.append (Outside.of_plain fun c hc => ?_)
            rcases List.mem_cons.1 hc with rfl | hc
            · exact ⟨⟨rfl, rfl⟩, rfl⟩
            · have hident := isIdentChar_of_isIdentifier hname c hc
              refine ⟨isPlain_of_isIdentChar hident, ?_⟩
              by_contra hcomma
              obtain rfl : c = ',' := by simpa using hcomma
              contradiction
      · exact LegibleArgs.outside (i + 1) rest h.2.2.2.2 a ha

end

/-! ## Tokens of the type of an argument -/

/-- What stands in front of another text without a word has no words in front of itself. -/
theorem leading_eq_nil {t : CppType} (hfits : t.quals.Fits t.core) {x : List Char}
    (h : Qualifiers.takeLeading? (t.chars ++ x) = none) : t.quals.leading = [] := by
  cases hwords : t.quals.leading with
  | nil => rfl
  | cons w ws =>
      have hw : w ∈ leadingWords := hfits.words w (by simp [hwords])
      have htake := Qualifiers.takeLeading?_word hw
        (Qualifiers.writtenWords ws ++ (t.core ++ Qualifiers.written t.quals.trailing) ++ x)
        Text.isBlank_space
      have htext : t.chars ++ x = w.toList ++
          ' ' :: (Qualifiers.writtenWords ws ++ (t.core ++ Qualifiers.written t.quals.trailing) ++ x) := by
        rw [chars_eq, Qualifiers.wrap_eq, hwords]
        simp [Qualifiers.writtenWords]
      rw [htext, htake] at h
      contradiction

/-- Qualifiers leave a blank or a sign around a core, so there are none if nothing but an identifier is
written. -/
theorem eq_empty_of_isIdentChar_wrap {q : Qualifiers} {s : List Char} (hq : q.Known)
    (h : ∀ c ∈ q.wrap s, isIdentChar c = true) : q = {} := by
  obtain ⟨words, marks⟩ := q
  rw [Qualifiers.wrap_eq] at h
  have hwords : words = [] := by
    cases words with
    | nil => rfl
    | cons v vs =>
        have hcontra := h ' ' (by simp [Qualifiers.writtenWords])
        contradiction
  have hmarks : marks = [] := by
    cases marks with
    | nil => rfl
    | cons m ms =>
        have hsign : ∀ m ∈ trailingMarks, ∃ c ∈ Qualifiers.attached m, isIdentChar c = false := by
          decide
        obtain ⟨c, hc, hother⟩ := hsign m (hq.marks m (by simp))
        rw [h c (by simp [Qualifiers.written, hc])] at hother
        contradiction
  rw [hwords, hmarks]

/-- Only a bare name can be printed as one of the words in front of types. -/
theorem base_of_chars_eq_word {t : CppType} (hfits : t.quals.Fits t.core) {w : String}
    (hw : w ∈ leadingWords) (h : t.chars = w.toList) : ∃ n, t = .base n {} ∧ n.toList = w.toList := by
  have hident : ∀ c ∈ t.chars, isIdentChar c = true := by
    rw [h]
    exact fun c hc => (Qualifiers.isIdentChar_of_mem_leadingWord hw c hc).1
  have hquals : t.quals = {} :=
    eq_empty_of_isIdentChar_wrap hfits.toKnown (by rw [← chars_eq]; exact hident)
  have hcore : t.chars = t.core := by
    rw [chars_eq, hquals]
    simp [Qualifiers.wrap]
  rw [hcore] at hident h
  cases t with
  | base n q => exact ⟨n, congrArg (base n) hquals, h⟩
  | template n q args =>
      have hcontra := hident '<' (by simp [core])
      contradiction
  | function r q args =>
      have hcontra := hident '(' (by simp [core])
      contradiction

/-- Qualifiers fit around an argument unless its type is printed as a word in front of types, or its name
is a mark. -/
theorem fits_core {i : Nat} {a : FunctionArg} (hty : a.ty.quals.Fits a.ty.core)
    (hlead : a.ty.quals.leading = []) (hword : ∀ w ∈ leadingWords, a.ty.chars ≠ w.toList)
    (hq : a.quals.Known) (hname : IsNamedAt i a)
    (hmark : a.generated = false → a.name ≠ "const" ∧ a.name ≠ "volatile") :
    a.quals.Fits a.core := by
  have hne : a.ty.chars ≠ [] := by
    rw [chars_eq]
    exact hty.wrap_ne_nil
  have hb : Text.Bare a.ty.chars := by
    rw [chars_eq]
    exact hty.bare_wrap
  have hnone := takeLeading?_chars hty hlead
  cases hgenerated : a.generated with
  | true =>
      have hcore : a.core = a.ty.core := by
        rw [FunctionArg.core, if_pos hgenerated, chars_eq, (hname.of_generated hgenerated).2]
        simp [Qualifiers.wrap]
      have hchars : a.core = a.ty.chars := if_pos hgenerated
      refine ⟨hq, hchars ▸ hne, hchars ▸ hb, hcore ▸ hty.noMark, ?_⟩
      rw [hchars]
      exact Qualifiers.takeLeading?_append_eq_none hnone
        (fun c hc => Qualifiers.not_isIdentChar_of_head?_written hq.marks hc) (Or.inr hword)
  | false =>
      obtain ⟨hidentifier, -⟩ := hname.of_named hgenerated
      have hident := isIdentChar_of_isIdentifier hidentifier
      have hnameNe : a.name.toList ≠ [] := by
        intro hnil
        rw [hnil] at hidentifier
        contradiction
      have hcore : a.core = a.ty.chars ++ ' ' :: a.name.toList := if_neg (by simp [hgenerated])
      rw [hcore]
      refine ⟨hq, by simp, ?_, ?_, ?_⟩
      · exact Text.bare_of_ends [' '] hne hnameNe hb.1 fun c hc =>
          isBlank_of_isIdentChar (hident c (List.mem_of_mem_getLast? hc))
      · rw [Qualifiers.takeTrailing?_append_identifier rfl hident hnameNe]
        obtain ⟨hconst, hvolatile⟩ := hmark hgenerated
        exact ⟨fun h => hconst (String.toList_inj.1 h), fun h => hvolatile (String.toList_inj.1 h)⟩
      · rw [List.append_assoc]
        exact Qualifiers.takeLeading?_append_eq_none hnone (by simp [isIdentChar]) (Or.inr hword)

/-- Marks that are written behind tokens go on with the last one or are tokens that begin like an
identifier. -/
theorem stepped_written {core first : List Char} {rest : List (List Char)} {marks : List String}
    (h : Stepped core first rest) (hmarks : ∀ m ∈ marks, m ∈ trailingMarks) :
    ∃ first' rest', Stepped (core ++ Qualifiers.written marks) first' rest' := by
  have hlast : ∀ m ∈ trailingMarks, ∀ c ∈ m.toList.getLast?, Text.isBlank c = false := by decide
  have hhead : ∀ m ∈ trailingMarks, ∀ c ∈ m.toList.head?, Text.isBlank c = false := by decide
  have hspaces : ∀ m ∈ trailingMarks, ∀ c ∈ m.toList, c ∉ [' ', '<', '(', '[', '>', ')', ']'] := by
    decide
  have hfull : ∀ m ∈ trailingMarks, m.toList ≠ [] := by decide
  -- Each mark goes behind the core with the marks before it, so the core varies.
  induction marks generalizing core first rest with
  | nil => exact ⟨first, rest, by simpa using h⟩
  | cons m marks ih =>
      have hm : m ∈ trailingMarks := hmarks m (by simp)
      have hout : Outside (· != ' ') m.toList := by
        refine Outside.of_plain fun c hc => ?_
        have hmem := hspaces m hm c hc
        rw [isPlain_iff]
        simp_all
      obtain ⟨first', rest', hstep⟩ :
          ∃ first' rest', Stepped (core ++ Qualifiers.attached m) first' rest' := by
        rw [Qualifiers.attached_eq hm]
        by_cases hident : m.toList.head?.any isIdentChar = true
        · rw [if_pos hident]
          exact ⟨first, rest ++ [m.toList], h.word hident ⟨hhead m hm, hlast m hm⟩ hout⟩
        · rw [if_neg hident]
          exact h.append hout (hfull m hm) (hlast m hm)
      have hrest := ih hstep fun x hx => hmarks x (by simp [hx])
      rwa [List.append_assoc, ← Qualifiers.written_singleton, ← Qualifiers.written_append,
        List.singleton_append] at hrest

/-- A type with a tight name is printed as tokens that begin like an identifier, except for the first. -/
theorem Tight.stepped : (t : CppType) → t.Legible → t.quals.leading = [] → t.Tight →
    ∃ first rest, Stepped t.chars first rest
  | .base n q, h, hlead, htight => by
      have hcore : Stepped n.toList n.toList [] := Stepped.single h.1.nonempty h.1.bare htight
      rw [chars_of_no_words hlead]
      exact stepped_written hcore h.1.marks
  | .template n q args, h, hlead, htight => by
      have hargs := commaSeparated_balanced fun a ha =>
        (LegibleList.outside args h.2.2 a ha).balanced
      have hname : Stepped n.toList n.toList [] :=
        Stepped.single h.2.1.nonempty h.2.1.bare htight
      obtain ⟨first, rest, hcore⟩ := hname.group (o := '<') rfl hargs
      rw [chars_of_no_words hlead]
      exact stepped_written hcore h.1.marks
  | .function r q args, h, hlead, htight => by
      have hargs := commaSeparated_balanced fun a ha =>
        (LegibleArgs.outside 0 args h.2.2.2.2 a ha).balanced
      obtain ⟨first, rest, hresult⟩ := Tight.stepped r h.2.1 h.2.2.1 htight
      obtain ⟨first', rest', hcore⟩ := hresult.group (o := '(') rfl hargs
      rw [chars_of_no_words hlead]
      exact stepped_written hcore h.1.marks

/-! ## Reading printed forms -/

theorem shapeOf_template {n inside : List Char} (hn : ∀ c ∈ n, c ≠ '<' ∧ c ≠ '(') :
    shapeOf (n ++ '<' :: inside ++ ['>']) = .template := by
  have hname : n.find? (fun c => c == '<' || c == '(') = none := by
    rw [List.find?_eq_none]
    intro c hc
    simpa using hn c hc
  have hfirst : (n ++ '<' :: inside ++ ['>']).find? (fun c => c == '<' || c == '(') = some '<' := by
    simp [List.find?_append, hname]
  have hlast : (n ++ '<' :: inside ++ ['>']).getLast? = some '>' := List.getLast?_concat
  rw [shapeOf, hfirst, hlast]
  simp

theorem shapeOf_function (before inside : List Char) :
    shapeOf (before ++ '(' :: inside ++ [')']) = .function := by
  have hmem : '(' ∈ before ++ '(' :: inside ++ [')'] := by simp
  have hlast : (before ++ '(' :: inside ++ [')']).getLast? = some ')' := List.getLast?_concat
  have hsome : ((before ++ '(' :: inside ++ [')']).find? fun c => c == '<' || c == '(') ≠ none := by
    rw [ne_eq, List.find?_eq_none]
    exact fun h => h '(' hmem rfl
  obtain ⟨c, hc⟩ := Option.ne_none_iff_exists'.1 hsome
  rw [shapeOf, hc]
  simp only []
  rw [if_pos (Or.inr ⟨hmem, hlast⟩)]

variable {read : List Char → Except SyntaxError CppType} {q : Qualifiers}

/-- A template is read from its name and from its arguments one by one. -/
theorem readTemplate_group_iff {n : String} {texts : List (List Char)} {args : List CppType}
    (hn : IsTemplateName n.toList)
    (htexts : ∀ a ∈ texts, a ≠ [] ∧ Text.Bare a ∧ Outside (· != ',') a) :
    readTemplate read (n.toList ++ '<' :: commaSeparated texts ++ ['>']) q =
        .ok (.template n q args) ↔ texts.mapM read = .ok args := by
  have hstop : ∀ c ∈ n.toList, decide (c ≠ '<') = true := fun c hc => by
    simpa using (hn.noGroup c hc).1
  have hname : Text.trim ((n.toList ++ '<' :: commaSeparated texts ++ ['>']).takeWhile (· ≠ '<')) =
      n.toList := by
    rw [List.append_assoc, List.takeWhile_append_of_pos hstop]
    simpa using hn.bare.trim_eq
  have hrest : ((n.toList ++ '<' :: commaSeparated texts ++ ['>']).dropWhile (· ≠ '<')).drop 1 =
      commaSeparated texts ++ ['>'] := by
    rw [List.append_assoc, List.dropWhile_append_of_pos hstop]
    simp
  have hgroup : takeGroup ['>'] (commaSeparated texts ++ ['>']) = some (commaSeparated texts, []) :=
    takeGroup_balanced rfl [] (commaSeparated_balanced fun a ha => (htexts a ha).2.2.balanced)
  have hcollapse : String.ofList (Text.collapse n.toList) = n := by
    rw [Text.collapse_eq_self hn.bare hn.spaced, String.ofList_toList]
  rw [readTemplate_eq_ok_iff, hrest, hgroup, hname, hcollapse]
  -- Nothing stands behind the group, so the text is no member of a template.
  constructor
  · rintro ⟨inside, after, hsome, -, ⟨hmember, -⟩ | ⟨-, pieces, args', hsplit, hread, heq⟩⟩
    · obtain ⟨rfl, rfl⟩ : commaSeparated texts = inside ∧ [] = after := by simpa using hsome
      contradiction
    · obtain ⟨rfl, rfl⟩ : commaSeparated texts = inside ∧ [] = after := by simpa using hsome
      rw [splitOutside_commaSeparated htexts] at hsplit
      obtain rfl : texts = pieces := Option.some.inj hsplit
      obtain rfl : args = args' := by simpa using heq
      exact hread
  · intro hread
    exact ⟨_, _, rfl, hn.nonempty, Or.inr ⟨rfl, texts, args, splitOutside_commaSeparated htexts, hread,
      rfl⟩⟩

/-- A function is read from its result and from its arguments one by one. -/
theorem readFunction_group_iff {r : CppType} {texts : List (List Char)} {args : List FunctionArg}
    (hne : r.chars ≠ []) (hb : Text.Bare r.chars) (hr : Outside (· != '(') r.chars)
    (htexts : ∀ a ∈ texts, a ≠ [] ∧ Text.Bare a ∧ Outside (· != ',') a) :
    readFunction read (r.chars ++ '(' :: commaSeparated texts ++ [')']) q =
        .ok (.function r q args) ↔
      read r.chars = .ok r ∧
        (texts.zipIdx.mapM fun (arg, i) => readArgument read i arg) = .ok args := by
  have hcut : cutAtParen? 0 (r.chars ++ '(' :: commaSeparated texts ++ [')']) =
      some (r.chars, commaSeparated texts ++ [')']) := by
    rw [List.append_assoc]
    exact cutAtParen?_outside _ hr
  have hgroup : takeGroup [')'] (commaSeparated texts ++ [')']) = some (commaSeparated texts, []) :=
    takeGroup_balanced rfl [] (commaSeparated_balanced fun a ha => (htexts a ha).2.2.balanced)
  rw [readFunction_eq_ok_iff, hcut]
  constructor
  · rintro ⟨before, rest, inside, after, hbefore, hrest, -, -, result, pieces, args', hresult, hsplit,
      hargs, heq⟩
    obtain ⟨rfl, rfl⟩ : r.chars = before ∧ commaSeparated texts ++ [')'] = rest := by
      simpa using hbefore
    rw [hgroup] at hrest
    obtain ⟨rfl, rfl⟩ : commaSeparated texts = inside ∧ [] = after := by simpa using hrest
    rw [splitOutside_commaSeparated htexts] at hsplit
    obtain rfl : texts = pieces := Option.some.inj hsplit
    obtain ⟨rfl, rfl⟩ : r = result ∧ args = args' := by simpa using heq
    rw [hb.trim_eq] at hresult
    exact ⟨hresult, hargs⟩
  · rintro ⟨hresult, hargs⟩
    refine ⟨_, _, _, _, rfl, hgroup, rfl, ?_, r, texts, args, ?_, splitOutside_commaSeparated htexts,
      hargs, rfl⟩
    · rwa [hb.trim_eq]
    · rwa [hb.trim_eq]

/-- The tokens of an argument are those of its type, and its name unless that is generated. -/
theorem stepped_core {i : Nat} {a : FunctionArg} {first : List Char} {rest : List (List Char)}
    (h : Stepped a.ty.chars first rest) (hname : IsNamedAt i a) :
    Stepped a.core first (rest ++ if a.generated then [] else [a.name.toList]) := by
  cases hgenerated : a.generated with
  | true => simpa [FunctionArg.core, hgenerated] using h
  | false =>
      obtain ⟨hidentifier, -⟩ := hname.of_named hgenerated
      have hident := isIdentChar_of_isIdentifier hidentifier
      have hhead : a.name.toList.head?.any isIdentChar = true := by
        cases hchars : a.name.toList with
        | nil =>
            rw [hchars] at hidentifier
            contradiction
        | cons c s => simpa [hchars] using hident c (by simp [hchars])
      have hout : Outside (· != ' ') a.name.toList := by
        refine Outside.of_plain fun c hc => ⟨isPlain_of_isIdentChar (hident c hc), ?_⟩
        by_contra hspace
        obtain rfl : c = ' ' := by simpa using hspace
        have hcontra := hident ' ' hc
        contradiction
      have hcore := h.word hhead
        ⟨fun c hc => isBlank_of_isIdentChar (hident c (List.mem_of_mem_head? hc)),
          fun c hc => isBlank_of_isIdentChar (hident c (List.mem_of_mem_getLast? hc))⟩ hout
      simpa [FunctionArg.core, hgenerated] using hcore

/-- Nothing stands in front of the type of an argument: its leading words are those of the argument. -/
theorem IsNamedAt.leading_eq_nil {i : Nat} {a : FunctionArg} (hname : IsNamedAt i a)
    (hty : a.ty.quals.Fits a.ty.core) (hfits : a.quals.Fits a.core) : a.ty.quals.leading = [] := by
  cases hgenerated : a.generated with
  | true => rw [(hname.of_generated hgenerated).2]
  | false =>
      have hword := hfits.noWord
      rw [FunctionArg.core, if_neg (by simp [hgenerated]), List.append_assoc] at hword
      exact CppType.leading_eq_nil hty hword

/-- An argument that is read back is split into as many tokens as it has parts, so its type is the first
of them. -/
theorem single_of_readArgument_wrap {i : Nat} {a : FunctionArg} {first : List Char}
    {rest : List (List Char)} (hfits : a.quals.Fits a.core)
    (hfree : Qualifiers.Unglued a.quals.trailing)
    (hcore : Stepped a.core first (rest ++ if a.generated then [] else [a.name.toList]))
    (h : readArgument read i (a.quals.wrap a.core) = .ok a) : rest = [] ∧ read first = .ok a.ty := by
  obtain ⟨tokens, ty, hsplit, hcases⟩ := readArgument_eq_ok_iff.1 h
  rw [hfits.strip_wrap hfree] at hsplit hcases
  rw [hcore.split] at hsplit
  obtain rfl := Option.some.inj hsplit
  rw [hcore.glue] at hcases
  rcases hcases with ⟨hglue, t, hfirst, heq⟩ | ⟨name, hglue, -, -, t, hfirst, heq⟩
  · have hgenerated : a.generated = true := by rw [heq]
    have hty : t = a.ty := by rw [heq]
    obtain ⟨rfl, hrest⟩ : first = ty ∧ rest = [] := by simpa [hgenerated] using hglue
    exact ⟨hrest, hty ▸ hfirst⟩
  · have hgenerated : a.generated = false := by rw [heq]
    have hty : t = a.ty := by rw [heq]
    rw [hgenerated] at hglue
    obtain ⟨rfl, hrest⟩ : first = ty ∧ rest ++ [a.name.toList] = [name] := by simpa using hglue
    have hlength := congrArg List.length hrest
    refine ⟨List.length_eq_zero_iff.1 ?_, hty ▸ hfirst⟩
    simpa using hlength

/-- An argument whose type is a single token is read back if the type is. -/
theorem readArgument_wrap {i : Nat} {a : FunctionArg} (hfits : a.quals.Fits a.core)
    (hname : IsNamedAt i a) (hfree : Qualifiers.Unglued a.quals.trailing)
    (hty : Stepped a.ty.chars a.ty.chars []) (hread : read a.ty.chars = .ok a.ty) :
    readArgument read i (a.quals.wrap a.core) = .ok a := by
  have hcore := stepped_core hty hname
  rw [readArgument_eq_ok_iff, hfits.strip_wrap hfree]
  refine ⟨_, a.ty.chars, hcore.split, ?_⟩
  rw [hcore.glue]
  cases hgenerated : a.generated with
  | true =>
      refine Or.inl ⟨by simp, a.ty, hread, ?_⟩
      rw [← (hname.of_generated hgenerated).1, ← hgenerated]
      cases a
      rfl
  | false =>
      obtain ⟨hidentifier, hprimitive⟩ := hname.of_named hgenerated
      refine Or.inr ⟨a.name.toList, by simp, hidentifier, hprimitive, a.ty, hread, ?_⟩
      rw [String.ofList_toList, ← hgenerated]
      cases a
      rfl

/-- An argument is read back if its qualifiers and its type are, and if no space divides the type. -/
theorem readArgument_wrap_iff {i : Nat} {a : FunctionArg} (hty : a.ty.Legible) (htight : a.ty.Tight)
    (hfits : a.quals.Fits a.core) (hname : IsNamedAt i a)
    (hread : read a.ty.chars = .ok a.ty ↔ a.ty.Reprintable) :
    readArgument read i (a.quals.wrap a.core) = .ok a ↔
      Qualifiers.Unglued a.quals.trailing ∧ Outside (· != ' ') a.ty.chars ∧ a.ty.Reprintable := by
  have htyFits := Legible.fits a.ty hty
  constructor
  · intro h
    have hfree := hfits.unglued_of_strip_wrap (quals_of_readArgument h).symm
    obtain ⟨first, rest, hstep⟩ :=
      Tight.stepped a.ty hty (hname.leading_eq_nil htyFits hfits) htight
    obtain ⟨hrest, hfirst⟩ := single_of_readArgument_wrap hfits hfree (stepped_core hstep hname) h
    have hout : Outside (· != ' ') a.ty.chars := by
      by_contra hout
      exact hstep.rest_ne_nil hout hrest
    have hwhole : first = a.ty.chars := by
      rw [hstep.text, hrest]
      simp
    rw [hwhole, hread] at hfirst
    exact ⟨hfree, hout, hfirst⟩
  · rintro ⟨hfree, hout, hreprintable⟩
    have htyNe : a.ty.chars ≠ [] := by
      rw [chars_eq]
      exact htyFits.wrap_ne_nil
    have htyBare : Text.Bare a.ty.chars := by
      rw [chars_eq]
      exact htyFits.bare_wrap
    exact readArgument_wrap hfits hname hfree (Stepped.single htyNe htyBare hout)
      (hread.2 hreprintable)

/-- Several types are read back if each of them is. -/
theorem mapM_read_iff {ts : List CppType}
    (hread : ∀ t ∈ ts, (read t.chars = .ok t ↔ t.Reprintable)) :
    (charsOfList ts).mapM read = .ok ts ↔ ReprintableList ts := by
  induction ts with
  | nil => exact iff_of_true (mapM_nil_eq_ok_iff.2 rfl) trivial
  | cons t ts ih =>
      have hrest := ih fun x hx => hread x (by simp [hx])
      rw [charsOfList, mapM_cons_eq_ok_iff, ReprintableList, ← hread t (by simp), ← hrest]
      constructor
      · rintro ⟨t', rest, hfirst, hrest, heq⟩
        obtain ⟨rfl, rfl⟩ := List.cons.inj heq
        exact ⟨hfirst, hrest⟩
      · rintro ⟨hfirst, hrest⟩
        exact ⟨t, ts, hfirst, hrest, rfl⟩

/-- Several arguments are read back if each of them is. -/
theorem mapM_readArgument_iff {i : Nat} {args : List FunctionArg} (hargs : LegibleArgs i args)
    (hread : ∀ a ∈ args, (read a.ty.chars = .ok a.ty ↔ a.ty.Reprintable)) :
    (((charsOfArgs args).zipIdx i).mapM fun (arg, i) => readArgument read i arg) = .ok args ↔
      ReprintableArgs args := by
  induction args generalizing i with
  | nil => exact iff_of_true (mapM_nil_eq_ok_iff.2 rfl) trivial
  | cons a rest ih =>
      obtain ⟨ty, q, name, generated⟩ := a
      obtain ⟨hty, htight, hfits, hname, hlegible⟩ := hargs
      have hfirst := readArgument_wrap_iff hty htight hfits hname (hread _ (by simp))
      have hrest := ih hlegible fun x hx => hread x (by simp [hx])
      rw [charsOfArgs_cons, List.zipIdx_cons, mapM_cons_eq_ok_iff, ReprintableArgs, ← hrest]
      constructor
      · rintro ⟨a', rest', hread', hreads, heq⟩
        obtain ⟨rfl, rfl⟩ := List.cons.inj heq
        obtain ⟨hfree, hout, hreprintable⟩ := hfirst.1 hread'
        exact ⟨hfree, hout, hreprintable, hreads⟩
      · rintro ⟨hfree, hout, hreprintable, hreads⟩
        exact ⟨_, _, hfirst.2 ⟨hfree, hout, hreprintable⟩, hreads, rfl⟩

theorem length_le_commaSeparated {a : List Char} {texts : List (List Char)} (ha : a ∈ texts) :
    a.length ≤ (commaSeparated texts).length :=
  (infix_intercalate ha).length_le

theorem length_le_wrap (q : Qualifiers) (core : List Char) :
    core.length ≤ (q.wrap core).length := by
  rw [Qualifiers.wrap_eq, List.length_append, List.length_append]
  omega

theorem length_le_core (a : FunctionArg) : a.ty.chars.length ≤ a.core.length := by
  unfold FunctionArg.core
  split
  · exact le_rfl
  · rw [List.length_append]
    omega

/-- What is written between the brackets of a template can be split apart. -/
theorem LegibleList.texts {ts : List CppType} (h : LegibleList ts) :
    ∀ a ∈ charsOfList ts, a ≠ [] ∧ Text.Bare a ∧ Outside (· != ',') a := by
  intro a ha
  have hout := LegibleList.outside ts h a ha
  rw [charsOfList_eq_map] at ha
  obtain ⟨t, ht, rfl⟩ := List.mem_map.1 ha
  have hfits := Legible.fits t (h.of_mem t ht)
  rw [chars_eq] at hout ⊢
  exact ⟨hfits.wrap_ne_nil, hfits.bare_wrap, hout⟩

/-- What is written between the brackets of a function can be split apart. -/
theorem LegibleArgs.texts {i : Nat} {args : List FunctionArg} (h : LegibleArgs i args) :
    ∀ a ∈ charsOfArgs args, a ≠ [] ∧ Text.Bare a ∧ Outside (· != ',') a := by
  intro a ha
  have hout := LegibleArgs.outside i args h a ha
  rw [charsOfArgs_eq_map] at ha
  obtain ⟨x, hx, rfl⟩ := List.mem_map.1 ha
  have hfits := (h.of_mem x hx).2
  exact ⟨hfits.wrap_ne_nil, hfits.bare_wrap, hout⟩

theorem readTemplate_core_iff {n : String} {args : List CppType}
    (h : (template n q args).Legible)
    (hread : ∀ t ∈ args, (read t.chars = .ok t ↔ t.Reprintable)) :
    readTemplate read (template n q args).core q = .ok (.template n q args) ↔ ReprintableList args := by
  obtain ⟨-, hn, hargs⟩ := h
  exact (readTemplate_group_iff hn hargs.texts).trans (mapM_read_iff hread)

theorem readFunction_core_iff {r : CppType} {args : List FunctionArg}
    (h : (function r q args).Legible) (hresult : read r.chars = .ok r ↔ r.Reprintable)
    (hread : ∀ a ∈ args, (read a.ty.chars = .ok a.ty ↔ a.ty.Reprintable)) :
    readFunction read (function r q args).core q = .ok (.function r q args) ↔
      r.Reprintable ∧ ReprintableArgs args := by
  obtain ⟨-, hr, -, hout, hargs⟩ := h
  have hfits := Legible.fits r hr
  have hne : r.chars ≠ [] := by
    rw [chars_eq]
    exact hfits.wrap_ne_nil
  have hb : Text.Bare r.chars := by
    rw [chars_eq]
    exact hfits.bare_wrap
  exact (readFunction_group_iff hne hb hout hargs.texts).trans
    (and_congr hresult (mapM_readArgument_iff hargs hread))

/-- A legible type is read back from its printed form exactly if it is reprintable.  By induction on the
depth of the reading, since the parts of a printed form are printed forms themselves. -/
theorem readSegment_chars_iff {fuel : Nat} {t : CppType} (ht : t.Legible)
    (hfuel : t.chars.length < fuel) : readSegment fuel t.chars = .ok t ↔ t.Reprintable := by
  induction fuel generalizing t with
  | zero => omega
  | succ fuel ih =>
      have hfits := Legible.fits t ht
      have hlength := length_le_wrap t.quals t.core
      rw [← chars_eq] at hlength
      by_cases hfree : Qualifiers.Unglued t.quals.trailing
      · rw [readSegment_eq_ok_iff, chars_eq, hfits.strip_wrap hfree]
        cases t with
        | base n q =>
            have hcollapse : n = String.ofList (Text.collapse n.toList) := by
              rw [Text.collapse_eq_self ht.1.bare ht.2.1, String.ofList_toList]
            refine iff_of_true ⟨hfits.nonempty, ?_⟩ hfree
            rcases ht.2.2.2 with hshape | ⟨hshape, hne, inside, after, hgroup, hmember⟩
            · exact Or.inl ⟨hshape, congrArg (base · q) hcollapse⟩
            · refine Or.inr (Or.inl ⟨hshape, readTemplate_eq_ok_iff.2 ?_⟩)
              exact ⟨inside, after, hgroup, hne, Or.inl ⟨hmember, congrArg (base · q) hcollapse⟩⟩
        | template n q args =>
            have hshape : (template n q args).core ≠ [] ∧ shapeOf (template n q args).core = .template :=
              ⟨hfits.nonempty, shapeOf_template ht.2.1.noGroup⟩
            have hread : ∀ t ∈ args, (readSegment fuel t.chars = .ok t ↔ t.Reprintable) := by
              intro t hmem
              refine ih (ht.2.2.of_mem t hmem) ?_
              have hshort := length_le_commaSeparated (charsOfList_eq_map args ▸ List.mem_map_of_mem hmem)
              simp only [core, List.length_append, List.length_cons] at hlength
              omega
            have hcore := readTemplate_core_iff ht hread
            simp [hshape, hcore, Reprintable, show Qualifiers.Unglued q.trailing from hfree]
        | function r q args =>
            have hshape : (function r q args).core ≠ [] ∧ shapeOf (function r q args).core = .function :=
              ⟨hfits.nonempty, shapeOf_function _ _⟩
            simp only [core, List.length_append, List.length_cons] at hlength
            have hresult := ih ht.2.1 (by omega)
            have hread : ∀ a ∈ args, (readSegment fuel a.ty.chars = .ok a.ty ↔ a.ty.Reprintable) := by
              intro a hmem
              refine ih (ht.2.2.2.2.of_mem a hmem).1 ?_
              have hshort := length_le_commaSeparated (charsOfArgs_eq_map args ▸ List.mem_map_of_mem hmem)
              have hcore := length_le_core a
              have hwrap := length_le_wrap a.quals a.core
              omega
            have hcore := readFunction_core_iff ht hresult hread
            simp [hshape, hcore, Reprintable, show Qualifiers.Unglued q.trailing from hfree]
      · refine iff_of_false (fun h => ?_) fun h => hfree h.unglued
        refine hfree (hfits.unglued_of_strip_wrap ?_)
        rw [← chars_eq]
        exact (quals_of_readSegment h).symm

/-- A legible type is read back from its text exactly if it is reprintable. -/
theorem parse_text_iff {t : CppType} (ht : t.Legible) : parse t.text = .ok t ↔ t.Reprintable := by
  have hfits := Legible.fits t ht
  have hout := Legible.outside t ht
  have hsplit : splitOutside ',' t.chars = some [t.chars] := by
    have hsingle := @splitOutside_intercalate ',' ⟨rfl, rfl⟩ [t.chars]
    rw [List.intercalate_singleton] at hsingle
    refine hsingle fun a ha => ?_
    obtain rfl := List.mem_singleton.1 ha
    refine ⟨?_, ?_, hout⟩
    · rw [chars_eq]
      exact hfits.wrap_ne_nil
    · rw [chars_eq]
      exact hfits.bare_wrap
  rw [parse, text, String.toList_ofList, readChars_eq_ok_iff, hsplit]
  constructor
  · rintro ⟨segment, hsegment, hread⟩
    obtain rfl : t.chars = segment := by simpa using hsegment
    exact (readSegment_chars_iff ht (Nat.lt_succ_self _)).1 hread
  · intro h
    exact ⟨t.chars, rfl, (readSegment_chars_iff ht (Nat.lt_succ_self _)).2 h⟩

end CppType

end ScriptBindings
