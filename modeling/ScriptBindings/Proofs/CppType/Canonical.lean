import Mathlib
import ScriptBindings.Proofs.CppType.Legible

/-!
# Canonical types

A canonical type has plain names, known qualifiers that do not glue, and function arguments that can be
told from their names.  Nothing in the definition speaks of reading, and canonical types are recognised by
going through the type once.  Printing one and reading the text gives the type back.
-/

namespace ScriptBindings.CppType

/-! ## Canonical names -/

/-- Words joined by single spaces, made of identifier characters and colons; none of the runs of
identifier characters in them is a word that stands in front of types. -/
structure IsCanonicalName (s : List Char) : Prop where
  nonempty : s ≠ []
  joined : Text.collapse s = s
  chars : ∀ c ∈ s, isIdentChar c = true ∨ c = ':' ∨ c = ' '
  runs : ∀ run ∈ s.splitOnP fun c => !isIdentChar c, String.ofList run ∉ leadingWords

instance (s : List Char) : Decidable (IsCanonicalName s) :=
  decidable_of_iff
    (s ≠ [] ∧ Text.collapse s = s ∧ (∀ c ∈ s, isIdentChar c = true ∨ c = ':' ∨ c = ' ') ∧
      ∀ run ∈ s.splitOnP fun c => !isIdentChar c, String.ofList run ∉ leadingWords)
    ⟨fun ⟨h, h', h'', h'''⟩ => ⟨h, h', h'', h'''⟩, fun ⟨h, h', h'', h'''⟩ => ⟨h, h', h'', h'''⟩⟩

/-- A run of identifier characters between other characters is one of the pieces between those. -/
theorem mem_splitOnP_of_run {p : Char → Bool} {before run behind : List Char}
    (hrun : ∀ c ∈ run, p c = true) (hbefore : before.getLast?.any p = false)
    (hbehind : behind.head?.any p = false) :
    run ∈ (before ++ run ++ behind).splitOnP fun c => !p c := by
  have hpieces : run ∈ (run ++ behind).splitOnP fun c => !p c := by
    cases behind with
    | nil => simp [List.splitOnP_eq_singleton (p := fun c => !p c) fun c hc => by simpa using hrun c hc]
    | cons x behind =>
        have hx : (!p x) = true := by simpa using hbehind
        rw [List.splitOnP_append_cons_of_forall_mem (fun c hc => by simpa using hrun c hc) x hx]
        simp
  rcases before.eq_nil_or_concat with rfl | ⟨before, x, rfl⟩
  · exact hpieces
  · have hx : (!p x) = true := by simpa using hbefore
    have htext : before.concat x ++ run ++ behind = before ++ x :: (run ++ behind) := by simp
    rw [htext, List.splitOnP_append_cons (p := fun c => !p c) before (run ++ behind) hx]
    simp [hpieces]

namespace IsCanonicalName

variable {s : List Char}

theorem bare (h : IsCanonicalName s) : Text.Bare s :=
  (Text.collapse_eq_self_iff.1 h.joined).1

theorem spaced (h : IsCanonicalName s) : Text.Spaced s :=
  (Text.collapse_eq_self_iff.1 h.joined).2

theorem not_mem (h : IsCanonicalName s) {c : Char} (hc : c ∈ ['<', '(', '[', '>', ')', ']', ',']) :
    c ∉ s := by
  intro hmem
  have hother : ∀ c ∈ ['<', '(', '[', '>', ')', ']', ','],
      ¬ (isIdentChar c = true ∨ c = ':' ∨ c = ' ') := by decide
  exact hother c hc (h.chars c hmem)

theorem outside {sep : Char} (h : IsCanonicalName s) (hsep : sep ∈ [',', '(']) :
    Outside (· != sep) s := by
  refine Outside.of_plain fun c hc => ⟨isPlain_iff.2 fun hbracket => ?_, ?_⟩
  · exact h.not_mem (List.mem_append_left [','] hbracket) hc
  · by_contra heq
    obtain rfl : c = sep := by simpa using heq
    simp only [List.mem_cons, List.not_mem_nil, or_false] at hsep
    rcases hsep with rfl | rfl <;> exact h.not_mem (by decide) hc

/-- A word in front of types is no run of the name. -/
theorem not_run (h : IsCanonicalName s) {w : String} (hw : w ∈ leadingWords)
    (before behind : List Char) (hbefore : before.getLast?.any isIdentChar = false)
    (hbehind : behind.head?.any isIdentChar = false) : s ≠ before ++ w.toList ++ behind := by
  intro hs
  have hmem := mem_splitOnP_of_run
    (fun c hc => (Qualifiers.isIdentChar_of_mem_leadingWord hw c hc).1) hbefore hbehind
  rw [← hs] at hmem
  have hrun := h.runs _ hmem
  rw [String.ofList_toList] at hrun
  exact hrun hw

theorem ne_word (h : IsCanonicalName s) : ∀ w ∈ leadingWords, s ≠ w.toList := by
  intro w hw hs
  exact h.not_run hw [] [] rfl rfl (by simpa using hs)

theorem noWord (h : IsCanonicalName s) : Qualifiers.takeLeading? s = none := by
  rw [Qualifiers.takeLeading?_eq_none_iff]
  intro w hw b rest hb hs
  refine h.not_run hw [] (b :: rest) rfl ?_ (by simpa using hs)
  by_contra hident
  rw [isBlank_of_isIdentChar (by simpa using hident)] at hb
  contradiction

theorem noMark (h : IsCanonicalName s) : Qualifiers.takeTrailing? s = none := by
  rw [Qualifiers.takeTrailing?_eq_none_iff]
  rintro mark hmark ⟨before, rfl, hrun⟩
  have hkinds : ∀ mark ∈ trailingMarks, mark ∈ leadingWords ∧ mark.toList.head?.any isIdentChar = true ∨
      ∃ c ∈ mark.toList, ¬ (isIdentChar c = true ∨ c = ':' ∨ c = ' ') := by decide
  rcases hkinds mark hmark with ⟨hword, hhead⟩ | ⟨c, hc, hother⟩
  · refine h.not_run hword before [] ?_ rfl (by simp)
    simpa [Qualifiers.runsOn, hhead] using hrun
  · exact hother (h.chars c (by simp [hc]))

/-- Any known qualifiers fit around a canonical name. -/
theorem fits (h : IsCanonicalName s) {q : Qualifiers} (hq : q.Known) : q.Fits s := by
  refine ⟨hq, h.nonempty, h.bare, h.noMark, ?_⟩
  refine Qualifiers.takeLeading?_append_eq_none h.noWord (fun c hc => ?_) (Or.inr h.ne_word)
  exact Qualifiers.not_isIdentChar_of_head?_written hq.marks hc

theorem readsAsName (h : IsCanonicalName s) : ReadsAsName s := by
  have hnone : s.find? (fun c => c == '<' || c == '(') = none := by
    rw [List.find?_eq_none]
    rintro c hc hgroup
    simp only [Bool.or_eq_true, beq_iff_eq] at hgroup
    rcases hgroup with rfl | rfl <;> exact h.not_mem (by decide) hc
  left
  rw [shapeOf, hnone]

theorem isTemplateName (h : IsCanonicalName s) : IsTemplateName s := by
  refine ⟨h.nonempty, h.bare, h.spaced, fun c hc => ⟨?_, ?_⟩, h.outside (by decide), h.noWord⟩
  · rintro rfl
    exact h.not_mem (by decide) hc
  · rintro rfl
    exact h.not_mem (by decide) hc

end IsCanonicalName

/-! ## Canonical types -/

/-- A function type, as opposed to a name or a template. -/
def isFunction : CppType → Bool
  | .function .. => true
  | _ => false

/-- An anonymous argument has the name generated for its position and a type without qualifiers; a named
one has an identifier that is neither a built-in type nor a mark. -/
def IsCanonicallyNamed (i : Nat) (a : FunctionArg) : Prop :=
  if a.generated then a.name = positionName i ∧ a.ty.quals = {}
  else isIdentifier a.name.toList = true ∧ isPrimitiveWord a.name.toList = false ∧
    a.name ≠ "const" ∧ a.name ≠ "volatile"

mutual

/-- Names are canonical, and qualifiers are known and do not glue.  The result of a function is no function
and has no words in front; nor have the types of its arguments, which are printed without a space outside
of their brackets. -/
def Canonical : CppType → Prop
  | .base n q => IsCanonicalName n.toList ∧ q.Known ∧ Qualifiers.Unglued q.trailing
  | .template n q args =>
      IsCanonicalName n.toList ∧ q.Known ∧ Qualifiers.Unglued q.trailing ∧ CanonicalList args
  | .function r q args =>
      r.Canonical ∧ r.isFunction = false ∧ r.quals.leading = [] ∧
        q.Known ∧ Qualifiers.Unglued q.trailing ∧ CanonicalArgs 0 args

/-- `Canonical` for several types. -/
def CanonicalList : List CppType → Prop
  | [] => True
  | t :: ts => t.Canonical ∧ CanonicalList ts

/-- `Canonical` for the arguments of a function, from a position on. -/
def CanonicalArgs : Nat → List FunctionArg → Prop
  | _, [] => True
  | i, ⟨ty, q, name, generated⟩ :: rest =>
      ty.Canonical ∧ ty.quals.leading = [] ∧ Outside (· != ' ') ty.chars ∧
        q.Known ∧ Qualifiers.Unglued q.trailing ∧
        IsCanonicallyNamed i ⟨ty, q, name, generated⟩ ∧ CanonicalArgs (i + 1) rest

end

instance (i : Nat) (a : FunctionArg) : Decidable (IsCanonicallyNamed i a) :=
  inferInstanceAs (Decidable (if a.generated then a.name = positionName i ∧ a.ty.quals = {}
    else isIdentifier a.name.toList = true ∧ isPrimitiveWord a.name.toList = false ∧
      a.name ≠ "const" ∧ a.name ≠ "volatile"))

mutual

/-- Whether a type is canonical is decidable. -/
def decCanonical : (t : CppType) → Decidable t.Canonical
  | .base n q =>
      inferInstanceAs (Decidable (IsCanonicalName n.toList ∧ q.Known ∧ Qualifiers.Unglued q.trailing))
  | .template n q args =>
      have := decCanonicalList args
      inferInstanceAs (Decidable (IsCanonicalName n.toList ∧ q.Known ∧
        Qualifiers.Unglued q.trailing ∧ CanonicalList args))
  | .function r q args =>
      have := decCanonical r
      have := decCanonicalArgs 0 args
      inferInstanceAs (Decidable (r.Canonical ∧ r.isFunction = false ∧ r.quals.leading = [] ∧
        q.Known ∧ Qualifiers.Unglued q.trailing ∧ CanonicalArgs 0 args))

/-- Whether several types are canonical is decidable. -/
def decCanonicalList : (ts : List CppType) → Decidable (CanonicalList ts)
  | [] => isTrue trivial
  | t :: ts =>
      have := decCanonical t
      have := decCanonicalList ts
      inferInstanceAs (Decidable (t.Canonical ∧ CanonicalList ts))

/-- Whether the arguments of a function are canonical is decidable. -/
def decCanonicalArgs : (i : Nat) → (args : List FunctionArg) → Decidable (CanonicalArgs i args)
  | _, [] => isTrue trivial
  | i, ⟨ty, q, name, generated⟩ :: rest =>
      have := decCanonical ty
      have := decCanonicalArgs (i + 1) rest
      inferInstanceAs (Decidable (ty.Canonical ∧ ty.quals.leading = [] ∧
        Outside (· != ' ') ty.chars ∧ q.Known ∧ Qualifiers.Unglued q.trailing ∧
        IsCanonicallyNamed i ⟨ty, q, name, generated⟩ ∧ CanonicalArgs (i + 1) rest))

end

instance : DecidablePred Canonical := decCanonical

/-- A type printed without a space outside of its brackets starts with a single token. -/
theorem tight_of_outside : (t : CppType) → t.Legible → t.quals.leading = [] →
    Outside (· != ' ') t.chars → t.Tight
  | .base n q, h, hlead, hout => by
      rw [chars_of_no_words hlead] at hout
      exact hout.of_append_balanced h.2.2.1.balanced
  | .template n q args, h, hlead, hout => by
      rw [chars_of_no_words hlead, core, List.append_assoc, List.append_assoc] at hout
      exact hout.of_append_balanced h.2.1.outside.balanced
  | .function r q args, h, hlead, hout => by
      rw [chars_of_no_words hlead, core, List.append_assoc, List.append_assoc] at hout
      exact tight_of_outside r h.2.1 h.2.2.1
        (hout.of_append_balanced (Legible.outside r h.2.1).balanced)

theorem IsCanonicallyNamed.isNamedAt {i : Nat} {a : FunctionArg} (h : IsCanonicallyNamed i a) :
    IsNamedAt i a := by
  unfold IsCanonicallyNamed at h
  unfold IsNamedAt
  split
  · rwa [if_pos ‹_›] at h
  · rw [if_neg ‹_›] at h
    exact ⟨h.1, h.2.1⟩

theorem IsCanonicallyNamed.not_mark {i : Nat} {a : FunctionArg} (h : IsCanonicallyNamed i a)
    (hnamed : a.generated = false) : a.name ≠ "const" ∧ a.name ≠ "volatile" := by
  rw [IsCanonicallyNamed, if_neg (by simp [hnamed])] at h
  exact h.2.2

/-- A canonical type is not printed as a word in front of types. -/
theorem Canonical.chars_ne_word {t : CppType} (h : t.Canonical) (hfits : t.quals.Fits t.core) :
    ∀ w ∈ leadingWords, t.chars ≠ w.toList := by
  intro w hw hchars
  obtain ⟨n, rfl, hn⟩ := base_of_chars_eq_word hfits hw hchars
  exact h.1.ne_word w hw hn

/-- There is no parenthesis outside of the brackets of a canonical type that is no function. -/
theorem Canonical.outside_paren {t : CppType} (h : t.Canonical) (hlegible : t.Legible)
    (hfunction : t.isFunction = false) : Outside (· != '(') t.chars := by
  cases t with
  | base n q => exact outside_wrap h.2.1 (by decide) (h.1.outside (by decide))
  | template n q args =>
      have hargs := commaSeparated_balanced fun a ha =>
        (LegibleList.outside args hlegible.2.2 a ha).balanced
      refine outside_wrap h.2.1 (by decide) ?_
      rw [List.append_assoc]
      exact (h.1.outside (by decide)).append (Outside.group rfl rfl hargs)
  | function r q args => contradiction

mutual

theorem Canonical.legible : (t : CppType) → t.Canonical → t.Legible
  | .base n q, h => ⟨h.1.fits h.2.1, h.1.spaced, h.1.outside (by decide), h.1.readsAsName⟩
  | .template n q args, h => ⟨h.2.1, h.1.isTemplateName, CanonicalList.legible args h.2.2.2⟩
  | .function r q args, h => by
      have hr : r.Legible := Canonical.legible r h.1
      exact ⟨h.2.2.2.1, hr, h.2.2.1, h.1.outside_paren hr h.2.1,
        CanonicalArgs.legible 0 args h.2.2.2.2.2⟩

theorem CanonicalList.legible : (ts : List CppType) → CanonicalList ts → LegibleList ts
  | [], _ => trivial
  | t :: ts, h => ⟨Canonical.legible t h.1, CanonicalList.legible ts h.2⟩

theorem CanonicalArgs.legible : (i : Nat) → (args : List FunctionArg) → CanonicalArgs i args →
    LegibleArgs i args
  | _, [], _ => trivial
  | i, ⟨ty, q, name, generated⟩ :: rest, h => by
      obtain ⟨hty, hlead, hout, hq, -, hname, hrest⟩ := h
      have hlegible : ty.Legible := Canonical.legible ty hty
      have hfits := Legible.fits ty hlegible
      refine ⟨hlegible, tight_of_outside ty hlegible hlead hout, ?_, hname.isNamedAt,
        CanonicalArgs.legible (i + 1) rest hrest⟩
      exact fits_core hfits hlead (hty.chars_ne_word hfits) hq hname.isNamedAt hname.not_mark

end

mutual

theorem Canonical.reprintable : (t : CppType) → t.Canonical → t.Reprintable
  | .base _ _, h => h.2.2
  | .template _ _ args, h => ⟨h.2.2.1, CanonicalList.reprintable args h.2.2.2⟩
  | .function r _ args, h =>
      ⟨h.2.2.2.2.1, Canonical.reprintable r h.1, CanonicalArgs.reprintable 0 args h.2.2.2.2.2⟩

theorem CanonicalList.reprintable : (ts : List CppType) → CanonicalList ts → ReprintableList ts
  | [], _ => trivial
  | t :: ts, h => ⟨Canonical.reprintable t h.1, CanonicalList.reprintable ts h.2⟩

theorem CanonicalArgs.reprintable : (i : Nat) → (args : List FunctionArg) → CanonicalArgs i args →
    ReprintableArgs args
  | _, [], _ => trivial
  | i, ⟨ty, _, _, _⟩ :: rest, h =>
      ⟨h.2.2.2.2.1, h.2.2.1, Canonical.reprintable ty h.1,
        CanonicalArgs.reprintable (i + 1) rest h.2.2.2.2.2.2⟩

end

/-- A canonical type is read back from its printed form. -/
theorem Canonical.parse_text {t : CppType} (h : t.Canonical) : parse t.text = .ok t :=
  (parse_text_iff (Canonical.legible t h)).2 (Canonical.reprintable t h)

/-- A function with a qualified result, a named argument and an anonymous one. -/
theorem parse_text_callback :
    let callback : CppType :=
      .function (.base "unsigned int" ⟨[], ["*", "const"]⟩) ⟨["static"], ["&"]⟩
        [⟨.template "Table" {} [.base "Key" {}, .base "char" ⟨["const"], ["*"]⟩],
            ⟨["const"], ["&&"]⟩, "table", false⟩,
          ⟨.base "long" {}, {}, "p1", true⟩]
    callback.text = "static unsigned int* const(const Table<Key, const char*> table&&, long)&" ∧
      callback.Canonical ∧ parse callback.text = .ok callback := by
  intro callback
  have hcanonical : callback.Canonical := by decide +kernel
  exact ⟨by decide +kernel, hcanonical, hcanonical.parse_text⟩

end ScriptBindings.CppType
