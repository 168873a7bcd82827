import Mathlib
import ScriptBindings.Proofs.CppType.Legible

/-!
# Reading what was read again

Whatever is read from a text with single spaces is legible, so it is reprintability alone that decides
whether printing and reading gives the type back.  The induction is on the depth of the reading.  What a
text has outside of its brackets is passed on to the parts that are read from it, which is how a type in
front of an argument's name is known to be a single token.
-/

namespace ScriptBindings.CppType

/-- A text as it is handed to the reader of one type: trimmed, with single spaces, and with no comma
outside of its brackets. -/
structure Clean (s : List Char) : Prop where
  bare : Text.Bare s
  spaced : Text.Spaced s
  outside : Outside (· != ',') s

/-- The type tells everything about the text that it was read from that matters for reading it again. -/
structure Faithful (s : List Char) (t : CppType) : Prop where
  legible : t.Legible
  paren : Outside (· != '(') s → Outside (· != '(') t.chars
  tight : Outside (· != ' ') s → t.Tight

/-- The parts of a clean text that are split off at commas are clean. -/
theorem clean_of_mem_split {s a : List Char} {pieces : List (List Char)} (hs : Text.Spaced s)
    (h : splitOutside ',' s = some pieces) (ha : a ∈ pieces) : Clean a := by
  obtain ⟨-, hbare, hout, hspaced, -⟩ := of_mem_splitOutside (p := fun _ => true) ⟨rfl, rfl⟩ h ha
  exact ⟨hbare, hspaced hs, hout⟩

/-- Inside of a core there is what there is in the text. -/
theorem outside_core {p : Char → Bool} {s front core back : List Char}
    (hs : s = front ++ core ++ back) (hfront : ∀ c ∈ front, Qualifiers.IsFiller c)
    (hback : ∀ c ∈ back, Qualifiers.IsFiller c) (h : Outside p s) : Outside p core := by
  rw [hs] at h
  exact h.of_middle (fun c hc => isPlain_of_isFiller (hfront c hc))
    fun c hc => isPlain_of_isFiller (hback c hc)

/-- The core of a clean text is clean, and the qualifiers around it fit. -/
theorem Clean.core {s core : List Char} {q : Qualifiers} (h : Clean s)
    (hstrip : Qualifiers.strip s = (core, q)) (hne : core ≠ []) :
    q.Fits core ∧ Clean core ∧ ∀ p, Outside p s → Outside p core := by
  obtain ⟨hfits, front, back, hs, hfront, hback⟩ := Qualifiers.strip_eq hstrip hne
  have hinfix : core <:+: s := ⟨front, back, hs.symm⟩
  exact ⟨hfits, ⟨hfits.bare, h.spaced.part hinfix, outside_core hs hfront hback h.outside⟩,
    fun p hp => outside_core hs hfront hback hp⟩

/-! ## Templates and functions -/

/-- A core with a group at its end: in front of the group there is what there is outside of the brackets
of the core. -/
theorem outside_front {p : Char → Bool} {front inside after : List Char} {o d : Char}
    (hd : closer? o = some d) (hinside : Balanced inside) (hafter : Text.trim after = [])
    (h : Outside p (front ++ o :: (inside ++ d :: after))) : Outside p front := by
  have hblank : ∀ c ∈ after, IsPlain c := by
    obtain ⟨lead, tail, hlead, htail, hs⟩ := Text.exists_trim after
    rw [hafter, List.append_nil] at hs
    intro c hc
    rw [hs, List.mem_append] at hc
    rcases hc with hc | hc
    · exact isPlain_of_isBlank (hlead c hc)
    · exact isPlain_of_isBlank (htail c hc)
  refine h.of_append_right ?_
  have hgroup : Balanced (o :: inside ++ [d]) := Outside.group hd rfl hinside
  have hall := hgroup.append (Outside.balanced_of_plain hblank)
  rwa [List.append_assoc, List.cons_append, List.singleton_append] at hall

/-- Up to its first group, a core that is a template has neither of the two brackets. -/
theorem noGroup_of_shapeOf {core : List Char} (h : shapeOf core = .template) :
    ∀ c ∈ core.takeWhile (· ≠ '<'), c ≠ '<' ∧ c ≠ '(' := by
  intro c hc
  have hother : c ≠ '<' := by
    simpa using List.all_eq_true.1 List.all_takeWhile c hc
  refine ⟨hother, ?_⟩
  rintro rfl
  have hsplit := List.takeWhile_append_dropWhile (p := (· ≠ '<')) (l := core)
  have hfind : core.find? (fun c => c == '<' || c == '(') = some '(' := by
    have hfront : (core.takeWhile (· ≠ '<')).find? (fun c => c == '<' || c == '(') = some '(' := by
      obtain ⟨x, hx⟩ : ∃ x, (core.takeWhile (· ≠ '<')).find? (fun c => c == '<' || c == '(') = some x :=
        Option.ne_none_iff_exists'.1 (by
          rw [ne_eq, List.find?_eq_none]
          exact fun hnone => hnone '(' hc rfl)
      have hmem := List.mem_of_find?_eq_some hx
      have hne : x ≠ '<' := by simpa using List.all_eq_true.1 List.all_takeWhile x hmem
      have hbracket := List.find?_some hx
      have hparen : x = '(' := by simpa [hne] using hbracket
      rw [hx, hparen]
    rw [← hsplit, List.find?_append, hfront]
    rfl
  rw [shapeOf, hfind] at h
  simp at h

/-- A text with a group behind its first `<`. -/
theorem template_text {core inside after : List Char}
    (h : takeGroup ['>'] ((core.dropWhile (· ≠ '<')).drop 1) = some (inside, after)) :
    core = core.takeWhile (· ≠ '<') ++ '<' :: (inside ++ '>' :: after) ∧ Balanced inside := by
  have hsplit := List.takeWhile_append_dropWhile (p := (· ≠ '<')) (l := core)
  cases hrest : core.dropWhile (· ≠ '<') with
  | nil =>
      rw [hrest] at h
      contradiction
  | cons c rest =>
      have hhead := List.head?_dropWhile_not (· ≠ '<') core
      rw [hrest] at hhead hsplit h
      obtain rfl : c = '<' := by simpa using hhead
      obtain ⟨htext, hinside⟩ := takeGroup_single_eq_some h
      rw [List.drop_one, List.tail_cons] at htext
      rw [htext] at hsplit
      exact ⟨hsplit.symm, hinside⟩

/-- Types that are read from clean texts are legible together. -/
theorem legibleList_of_mapM {read : List Char → Except SyntaxError CppType}
    {pieces : List (List Char)} {ts : List CppType}
    (hread : ∀ s t, Clean s → read s = .ok t → t.Legible) (hpieces : ∀ a ∈ pieces, Clean a)
    (h : pieces.mapM read = .ok ts) : LegibleList ts := by
  induction pieces generalizing ts with
  | nil =>
      rw [mapM_nil_eq_ok_iff] at h
      rw [h]
      trivial
  | cons a rest ih =>
      obtain ⟨t, ts', hfirst, hrest, rfl⟩ := mapM_cons_eq_ok_iff.1 h
      exact ⟨hread a t (hpieces a (by simp)) hfirst, ih (fun x hx => hpieces x (by simp [hx])) hrest⟩

/-- A core that is read as a name is the name. -/
theorem faithful_name {core : List Char} {q : Qualifiers} (hcore : Clean core) (hfits : q.Fits core)
    (hname : ReadsAsName core) :
    Faithful core (.base (String.ofList (Text.collapse core)) q) := by
  rw [Text.collapse_eq_self hcore.bare hcore.spaced]
  refine ⟨?_, fun hout => ?_, fun hout => ?_⟩
  · rw [Legible, String.toList_ofList]
    exact ⟨hfits, hcore.spaced, hcore.outside, hname⟩
  · rw [chars, String.toList_ofList]
    exact outside_wrap hfits.toKnown (by decide) hout
  · rw [Tight, String.toList_ofList]
    exact hout

theorem faithful_template {read : List Char → Except SyntaxError CppType} {core : List Char}
    {q : Qualifiers} {t : CppType} (hread : ∀ s t, Clean s → read s = .ok t → t.Legible)
    (hcore : Clean core) (hfits : q.Fits core) (hshape : shapeOf core = .template)
    (h : readTemplate read core q = .ok t) : Faithful core t := by
  obtain ⟨inside, after, hgroup, hname, ⟨hmember, rfl⟩ | ⟨hafter, pieces, args, hsplit, hargs, rfl⟩⟩ :=
    readTemplate_eq_ok_iff.1 h
  · exact faithful_name hcore hfits (Or.inr ⟨hshape, hname, inside, after, hgroup, hmember⟩)
  · obtain ⟨htext, hinside⟩ := template_text hgroup
    have hnoGroup := noGroup_of_shapeOf hshape
    have hnone := Qualifiers.takeLeading?_of_append hfits.noWord
    generalize core.takeWhile (· ≠ '<') = front at htext hnoGroup hname
    subst htext
    have hspaced : Text.Spaced (Text.trim front) := (hcore.spaced.part (List.infix_append' [] _ _)).trim
    have hfront : ∀ p, Outside p (front ++ '<' :: (inside ++ '>' :: after)) →
        Outside p (Text.trim front) := fun p hp =>
      (outside_front (o := '<') rfl hinside hafter hp).trim
    have hsub : ∀ c ∈ Text.trim front, c ∈ front := by
      obtain ⟨lead, tail, -, -, hs⟩ := Text.exists_trim front
      intro c hc
      rw [hs]
      simp [hc]
    have hlist : LegibleList args := by
      have hinner : Text.Spaced inside := hcore.spaced.part ⟨front ++ ['<'], '>' :: after, by simp⟩
      exact legibleList_of_mapM hread (fun a ha => clean_of_mem_split hinner hsplit ha) hargs
    rw [Text.collapse_eq_self (Text.bare_trim front) hspaced]
    refine ⟨?_, fun hout => ?_, fun hout => ?_⟩
    · rw [Legible, String.toList_ofList]
      refine ⟨hfits.toKnown, ⟨hname, Text.bare_trim front, hspaced, fun c hc => hnoGroup c (hsub c hc),
        hfront _ hcore.outside, ?_⟩, hlist⟩
      exact Qualifiers.takeLeading?_trim_front hcore.bare hnone
    · have hbalanced := commaSeparated_balanced fun a ha => (LegibleList.outside args hlist a ha).balanced
      rw [chars, String.toList_ofList, List.append_assoc]
      exact outside_wrap hfits.toKnown (by decide)
        ((hfront _ hout).append (Outside.group rfl rfl hbalanced))
    · rw [Tight, String.toList_ofList]
      exact hfront _ hout

/-! ## Arguments -/

/-- A token of a core, before or after gluing. -/
structure IsToken (s : List Char) : Prop where
  nonempty : s ≠ []
  spaced : Text.Spaced s
  tight : Outside (· != ' ') s
  outside : Outside (· != ',') s

theorem IsToken.bare {s : List Char} (h : IsToken s) : Text.Bare s :=
  (h.tight.of_spaced h.spaced).bare

theorem IsToken.clean {s : List Char} (h : IsToken s) : Clean s :=
  ⟨h.bare, h.spaced, h.outside⟩

/-- No word stands in front of a token, since there is no blank behind it. -/
theorem IsToken.noWord {s : List Char} (h : IsToken s) : Qualifiers.takeLeading? s = none := by
  rw [Qualifiers.takeLeading?_eq_none_iff]
  rintro w hw b rest hb rfl
  have hout := h.tight.of_spaced h.spaced
  have hword : Balanced w.toList := Outside.balanced_of_plain fun c hc =>
    isPlain_of_isIdentChar (Qualifiers.isIdentChar_of_mem_leadingWord hw c hc).1
  have hbare := (hout.of_append_left (hout.of_append_balanced hword)).bare
  have hblank := hbare.1 b rfl
  rw [hb] at hblank
  contradiction

/-- Gluing makes tokens of tokens. -/
theorem isToken_of_mem_glueMarks {tokens : List (List Char)} (h : ∀ t ∈ tokens, IsToken t) :
    ∀ t ∈ glueMarks tokens, IsToken t := by
  have signs : ∀ c, isMarkChar c = true → Text.isBlank c = false ∧ c ≠ ' ' ∧ c ≠ ',' := by
    intro c hc
    simp only [isMarkChar, Bool.or_eq_true, beq_iff_eq] at hc
    rcases hc with rfl | rfl <;> decide
  refine forall_glueMarks (fun marks rest hmarks hrest ht => ?_) (fun t marks hmarks ht => ?_) h
  · have hbalanced : Balanced marks := Outside.balanced_of_plain fun c hc =>
      isPlain_of_isMarkChar (hmarks c hc)
    exact ⟨hrest, ht.spaced.part (List.suffix_append _ _).isInfix,
      ht.tight.of_append_left (ht.tight.of_append_balanced hbalanced),
      ht.outside.of_append_left (ht.outside.of_append_balanced hbalanced)⟩
  · refine ⟨by simp [ht.nonempty], ?_, ht.tight.append ?_, ht.outside.append ?_⟩
    · refine ht.spaced.append
        (Text.spaced_of_not_blank fun c hc => (signs c (hmarks c hc)).1) fun x hx y _ hblank => ?_
      rw [ht.bare.2 x hx] at hblank
      exact Bool.false_ne_true hblank.1
    · exact Outside.of_plain fun c hc =>
        ⟨isPlain_of_isMarkChar (hmarks c hc), by simpa using (signs c (hmarks c hc)).2.1⟩
    · exact Outside.of_plain fun c hc =>
        ⟨isPlain_of_isMarkChar (hmarks c hc), by simpa using (signs c (hmarks c hc)).2.2⟩

/-- The tokens of a clean core. -/
theorem isToken_of_mem_split {core : List Char} {tokens : List (List Char)} (hcore : Clean core)
    (h : splitOutside ' ' core = some tokens) : ∀ t ∈ tokens, IsToken t := by
  intro t ht
  obtain ⟨hne, -, htight, hspaced, hout⟩ :=
    of_mem_splitOutside (p := (· != ',')) ⟨rfl, rfl⟩ h ht
  exact ⟨hne, hspaced hcore.spaced, htight, hout hcore.outside⟩

/-- A core that is glued to one token is that token: it does not end with marks. -/
theorem core_of_glueMarks_single {core ty : List Char} {tokens : List (List Char)}
    (hcore : Clean core) (hne : core ≠ []) (hmark : Qualifiers.takeTrailing? core = none)
    (hsplit : splitOutside ' ' core = some tokens) (hglue : glueMarks tokens = [ty]) : core = ty := by
  have hjoin := intercalate_of_splitOutside hcore.bare hcore.spaced hne hsplit
  rcases tokens.eq_nil_or_concat with rfl | ⟨front, last, rfl⟩
  · contradiction
  · rw [List.concat_eq_append] at hglue hjoin hsplit
    by_cases hfront : front = []
    · subst hfront
      have hsame : glueMarks ([] ++ [last]) = [last] := rfl
      rw [hsame] at hglue
      rw [hjoin, ← List.singleton_inj.1 hglue, List.nil_append, List.intercalate_singleton]
    · have hmarks := marks_of_glueMarks_single hfront hglue
      have hlastNe : last ≠ [] := (isToken_of_mem_split hcore hsplit last (by simp)).nonempty
      obtain ⟨before, hbefore⟩ : ∃ before, core = before ++ last := by
        obtain ⟨x, xs, rfl⟩ := List.exists_cons_of_ne_nil hfront
        exact ⟨x ++ xs.flatMap (' ' :: ·) ++ [' '], by
          rw [hjoin, List.cons_append, intercalate_cons_flatMap]
          simp⟩
      have hsign := hmarks (last.getLast hlastNe) (List.getLast_mem hlastNe)
      have hlast : core.getLast? = some (last.getLast hlastNe) := by
        rw [hbefore, List.getLast?_append_of_ne_nil _ hlastNe,
          List.getLast?_eq_some_getLast hlastNe]
      exact absurd hmark (Qualifiers.takeTrailing?_ne_none_of_sign hlast hsign)

/-- A core that is glued to a type and a name: the type starts with the first token of the core, behind
which stands a space, and the name stands behind a space or a mark. -/
theorem core_of_glueMarks_pair {core ty name : List Char} {tokens : List (List Char)}
    (hcore : Clean core) (hne : core ≠ []) (hsplit : splitOutside ' ' core = some tokens)
    (hglue : glueMarks tokens = [ty, name]) (hname : ∀ c ∈ name, isIdentChar c = true) :
    (∃ first marks rest, ty = first ++ marks ∧ (∀ c ∈ marks, isMarkChar c = true) ∧
      core = first ++ ' ' :: rest) ∧
      ∃ before c, isIdentChar c = false ∧ core = before ++ c :: name := by
  have hjoin := intercalate_of_splitOutside hcore.bare hcore.spaced hne hsplit
  cases tokens with
  | nil => contradiction
  | cons first rest =>
      have hrest : rest ≠ [] := by
        rintro rfl
        have hlength := congrArg List.length hglue
        simp [glueMarks, glueToken] at hlength
      rw [intercalate_cons_flatMap] at hjoin
      constructor
      · obtain ⟨marks, later, hmarks, hfirst⟩ := glueMarks_first first rest
        rw [hglue] at hfirst
        obtain ⟨second, others, rfl⟩ := List.exists_cons_of_ne_nil hrest
        exact ⟨first, marks, second ++ others.flatMap (' ' :: ·), (List.cons.inj hfirst).1, hmarks,
          by simpa using hjoin⟩
      · obtain ⟨front, last, rfl⟩ := rest.eq_nil_or_concat.resolve_left hrest
        rw [List.concat_eq_append] at hglue hjoin
        have hend : ∀ c ∈ name.getLast?, isMarkChar c = false := by
          intro c hc
          by_contra hmark
          have hident := hname c (List.mem_of_mem_getLast? hc)
          simp only [isMarkChar, Bool.not_eq_false, Bool.or_eq_true, beq_iff_eq] at hmark
          rcases hmark with rfl | rfl <;> contradiction
        have hpair : glueMarks ((first :: front) ++ [last]) = [ty] ++ [name] := hglue
        obtain ⟨marks, rfl, hmarks⟩ := last_of_glueMarks (by simp) hpair hend
        rcases marks.eq_nil_or_concat with rfl | ⟨marks, c, rfl⟩
        · exact ⟨first ++ front.flatMap (' ' :: ·), ' ', rfl, by simpa using hjoin⟩
        · have hc : isIdentChar c = false := by
            have hmark := hmarks c (by simp)
            simp only [isMarkChar, Bool.or_eq_true, beq_iff_eq] at hmark
            rcases hmark with rfl | rfl <;> rfl
          exact ⟨first ++ front.flatMap (' ' :: ·) ++ ' ' :: marks, c, hc, by simpa using hjoin⟩

/-- A token that is read as a type printed as a leading word is that word. -/
theorem IsToken.eq_word {fuel : Nat} {s : List Char} {t : CppType} (hs : IsToken s)
    (h : readSegment fuel s = .ok t) (hfits : t.quals.Fits t.core) {w : String}
    (hw : w ∈ leadingWords) (hchars : t.chars = w.toList) : s = w.toList := by
  obtain ⟨n, rfl, hn⟩ := base_of_chars_eq_word hfits hw hchars
  have hquals : ({} : Qualifiers) = (Qualifiers.strip s).2 := quals_of_readSegment h
  have hstrip : Qualifiers.strip s = ((Qualifiers.strip s).1, {}) := by rw [hquals]
  have hwhole : (Qualifiers.strip s).1 = s := by
    rw [Qualifiers.strip_of_isEmpty hstrip, hs.bare.trim_eq]
  have hname := name_of_readSegment h
  rw [hwhole, Text.collapse_eq_self hs.bare hs.spaced] at hname
  rw [← hn, hname, String.toList_ofList]

/-- An argument whose core is a single type: the type has no qualifiers, which are all around the core. -/
theorem legible_anonymous {fuel i : Nat} {core : List Char} {q : Qualifiers} {t : CppType}
    (ih : ∀ s t, Clean s → readSegment fuel s = .ok t → Faithful s t) (hcore : IsToken core)
    (hfits : q.Fits core) (hread : readSegment fuel core = .ok t) :
    t.Legible ∧ t.Tight ∧ q.Fits t.chars ∧ IsNamedAt i ⟨t, q, positionName i, true⟩ := by
  have hfaithful := ih core t hcore.clean hread
  have htFits := Legible.fits t hfaithful.legible
  have hquals : t.quals = {} := by
    rw [quals_of_readSegment hread, Qualifiers.strip_eq_self hcore.bare hcore.noWord hfits.noMark]
  have hnamed : IsNamedAt i ⟨t, q, positionName i, true⟩ := ⟨rfl, hquals⟩
  refine ⟨hfaithful.legible, hfaithful.tight hcore.tight, ?_, hnamed⟩
  by_cases hword : ∀ w ∈ leadingWords, t.chars ≠ w.toList
  · exact fits_core htFits (by rw [hquals]) hword hfits.toKnown hnamed fun h => by contradiction
  · -- The type is a bare name, so it is printed as it was written.
    simp only [not_forall, ne_eq, not_not] at hword
    obtain ⟨w, hw, hchars⟩ := hword
    rwa [hchars, ← hcore.eq_word hread htFits hw hchars]

/-- A leading word has no marks behind it. -/
theorem marks_eq_nil {w : String} (hw : w ∈ leadingWords) {first marks : List Char}
    (hmarks : ∀ c ∈ marks, isMarkChar c = true) (h : first ++ marks = w.toList) : marks = [] := by
  rw [List.eq_nil_iff_forall_not_mem]
  intro x hx
  have hmark := hmarks x hx
  have hident := (Qualifiers.isIdentChar_of_mem_leadingWord hw x (by simp [← h, hx])).1
  simp only [isMarkChar, Bool.or_eq_true, beq_iff_eq] at hmark
  rcases hmark with rfl | rfl <;> contradiction

/-- An argument whose core is a type and a name. -/
theorem legible_named {fuel i : Nat} {core ty name : List Char} {tokens : List (List Char)}
    {q : Qualifiers} {t : CppType}
    (ih : ∀ s t, Clean s → readSegment fuel s = .ok t → Faithful s t) (hcore : Clean core)
    (hne : core ≠ []) (hfits : q.Fits core) (hsplit : splitOutside ' ' core = some tokens)
    (hglue : glueMarks tokens = [ty, name]) (hidentifier : isIdentifier name = true)
    (hprimitive : isPrimitiveWord name = false) (hread : readSegment fuel ty = .ok t) :
    t.Legible ∧ t.Tight ∧ q.Fits (FunctionArg.core ⟨t, q, String.ofList name, false⟩) ∧
      IsNamedAt i ⟨t, q, String.ofList name, false⟩ := by
  have hident := isIdentChar_of_isIdentifier hidentifier
  have htoken := isToken_of_mem_glueMarks (isToken_of_mem_split hcore hsplit) ty (by simp [hglue])
  have hfaithful := ih ty t htoken.clean hread
  have htFits := Legible.fits t hfaithful.legible
  have hnamed : IsNamedAt i ⟨t, q, String.ofList name, false⟩ := by
    refine ⟨?_, ?_⟩ <;> simpa using ‹_›
  obtain ⟨⟨first, marks, rest, hty, hmarks, hfirst⟩, before, c, hc, hlast⟩ :=
    core_of_glueMarks_pair hcore hne hsplit hglue hident
  refine ⟨hfaithful.legible, hfaithful.tight htoken.tight, ?_, hnamed⟩
  refine fits_core htFits ?_ ?_ hfits.toKnown hnamed fun _ => ?_
  · rw [quals_of_readSegment hread]
    exact Qualifiers.leading_strip_eq_nil htoken.bare htoken.noWord
  · -- A type that is printed as a word would be one in front of the core, where there is none.
    intro w hw hchars
    have hword := htoken.eq_word hread htFits hw hchars
    have hfront : core = w.toList ++ ' ' :: rest := by
      rw [hfirst, ← hword, hty, marks_eq_nil hw hmarks (hty.symm.trans hword), List.append_nil]
    have hnoWord := Qualifiers.takeLeading?_of_append hfits.noWord
    rw [hfront, Qualifiers.takeLeading?_word hw rest Text.isBlank_space] at hnoWord
    contradiction
  · have hnoMark := hfits.noMark
    have hnameNe : name ≠ [] := by
      rintro rfl
      contradiction
    rw [hlast, Qualifiers.takeTrailing?_append_identifier hc hident hnameNe] at hnoMark
    exact ⟨fun h => hnoMark.1 (by simpa using congrArg String.toList h),
      fun h => hnoMark.2 (by simpa using congrArg String.toList h)⟩

/-- An argument that is read from a clean text can be told from its printed form. -/
theorem legible_argument {fuel i : Nat} {s : List Char} {a : FunctionArg}
    (ih : ∀ s t, Clean s → readSegment fuel s = .ok t → Faithful s t) (hs : Clean s)
    (h : readArgument (readSegment fuel) i s = .ok a) :
    a.ty.Legible ∧ a.ty.Tight ∧ a.quals.Fits a.core ∧ IsNamedAt i a := by
  obtain ⟨core, q, hstrip⟩ : ∃ core q, Qualifiers.strip s = (core, q) := ⟨_, _, rfl⟩
  obtain ⟨tokens, ty, hsplit, hcases⟩ := readArgument_eq_ok_iff.1 h
  rw [hstrip] at hsplit hcases
  have hne : core ≠ [] := by
    rintro rfl
    obtain rfl : [] = tokens := Option.some.inj hsplit
    simp [glueMarks] at hcases
  obtain ⟨hfits, hcore, -⟩ := hs.core hstrip hne
  rcases hcases with ⟨hglue, t, hread, rfl⟩ | ⟨name, hglue, hidentifier, hprimitive, t, hread, rfl⟩
  · obtain rfl := core_of_glueMarks_single hcore hne hfits.noMark hsplit hglue
    have htoken := isToken_of_mem_glueMarks (isToken_of_mem_split hcore hsplit) core (by simp [hglue])
    exact legible_anonymous ih htoken hfits hread
  · exact legible_named ih hcore hne hfits hsplit hglue hidentifier hprimitive hread

/-- Arguments that are read from clean texts are legible together. -/
theorem legibleArgs_of_mapM {fuel i : Nat} {pieces : List (List Char)} {args : List FunctionArg}
    (ih : ∀ s t, Clean s → readSegment fuel s = .ok t → Faithful s t)
    (hpieces : ∀ a ∈ pieces, Clean a)
    (h : ((pieces.zipIdx i).mapM fun (arg, i) => readArgument (readSegment fuel) i arg) = .ok args) :
    LegibleArgs i args := by
  induction pieces generalizing i args with
  | nil =>
      rw [List.zipIdx_nil, mapM_nil_eq_ok_iff] at h
      rw [h]
      trivial
  | cons a rest ihp =>
      rw [List.zipIdx_cons] at h
      obtain ⟨arg, args', hfirst, hrest, rfl⟩ := mapM_cons_eq_ok_iff.1 h
      obtain ⟨hty, htight, hfits, hname⟩ := legible_argument ih (hpieces a (by simp)) hfirst
      have hargs := ihp (fun x hx => hpieces x (by simp [hx])) hrest
      obtain ⟨ty, q, name, generated⟩ := arg
      exact ⟨hty, htight, hfits, hname, hargs⟩

/-! ## All types that are read -/

theorem faithful_function {fuel : Nat} {core : List Char} {q : Qualifiers} {t : CppType}
    (ih : ∀ s t, Clean s → readSegment fuel s = .ok t → Faithful s t)
    (hcore : Clean core) (hfits : q.Fits core)
    (h : readFunction (readSegment fuel) core q = .ok t) : Faithful core t := by
  obtain ⟨before, rest, inside, after, hcut, hgroup, hafter, hbefore, r, pieces, args, hresult, hsplit,
    hargs, rfl⟩ := readFunction_eq_ok_iff.1 h
  obtain ⟨rfl, hparen⟩ := cutAtParen?_zero_eq_some hcore.outside.balanced hcut
  obtain ⟨rfl, hinside⟩ := takeGroup_single_eq_some hgroup
  have hnone := Qualifiers.takeLeading?_of_append hfits.noWord
  have hfront : ∀ p, Outside p (before ++ '(' :: (inside ++ ')' :: after)) →
      Outside p (Text.trim before) := fun p hp =>
    (outside_front (o := '(') rfl hinside hafter hp).trim
  have hclean : Clean (Text.trim before) :=
    ⟨Text.bare_trim before, (hcore.spaced.part (List.infix_append' [] _ _)).trim,
      hfront _ hcore.outside⟩
  have hr := ih _ r hclean hresult
  have hinner : Text.Spaced inside := hcore.spaced.part ⟨before ++ ['('], ')' :: after, by simp⟩
  have hlist : LegibleArgs 0 args :=
    legibleArgs_of_mapM ih (fun a ha => clean_of_mem_split hinner hsplit ha) hargs
  refine ⟨⟨hfits.toKnown, hr.legible, ?_, hr.paren (Outside.trim hparen), hlist⟩, fun hout => ?_,
    fun hout => hr.tight (hfront _ hout)⟩
  · rw [quals_of_readSegment hresult]
    exact Qualifiers.leading_strip_eq_nil (Text.bare_trim before)
      (Qualifiers.takeLeading?_trim_front hcore.bare hnone)
  · -- The parenthesis at which the core was cut stands outside of its brackets.
    have hrest := hout.of_append_left hparen
    rw [Outside, awaiting_cons] at hrest
    contradiction

/-- Whatever is read from a clean text is legible. -/
theorem faithful_of_readSegment {fuel : Nat} {s : List Char} {t : CppType} (hs : Clean s)
    (h : readSegment fuel s = .ok t) : Faithful s t := by
  induction fuel generalizing s t with
  | zero => simp [readSegment] at h
  | succ fuel ih =>
      obtain ⟨core, q, hstrip⟩ : ∃ core q, Qualifiers.strip s = (core, q) := ⟨_, _, rfl⟩
      rw [readSegment_eq_ok_iff, hstrip] at h
      obtain ⟨hne, hcases⟩ := h
      obtain ⟨hfits, hcore, hout⟩ := hs.core hstrip hne
      have hfaithful : Faithful core t := by
        rcases hcases with ⟨hshape, rfl⟩ | ⟨hshape, hread⟩ | ⟨-, hread⟩
        · exact faithful_name hcore hfits (Or.inl hshape)
        · exact faithful_template (fun s t hs h => (ih hs h).legible) hcore hfits hshape hread
        · exact faithful_function (fun s t hs h => ih hs h) hcore hfits hread
      exact ⟨hfaithful.legible, fun hparen => hfaithful.paren (hout _ hparen),
        fun htight => hfaithful.tight (hout _ htight)⟩

/-- Whatever is read from a text with single spaces is legible. -/
theorem legible_of_parse {s : String} {t : CppType} (hs : Text.collapsed s = s)
    (h : parse s = .ok t) : t.Legible := by
  have hcollapse : Text.collapse s.toList = s.toList := by
    have hchars := congrArg String.toList hs
    rwa [Text.collapsed, String.toList_ofList] at hchars
  have hspaced := (Text.collapse_eq_self_iff.1 hcollapse).2
  obtain ⟨segment, hsplit, hread⟩ := readChars_eq_ok_iff.1 h
  exact (faithful_of_readSegment (clean_of_mem_split hspaced hsplit (by simp)) hread).legible

/-- What was read from a text with single spaces is read again from its printed form exactly if it is
reprintable. -/
theorem parse_text_of_parse {s : String} {t : CppType} (hs : Text.collapsed s = s)
    (h : parse s = .ok t) : parse t.text = .ok t ↔ t.Reprintable :=
  parse_text_iff (legible_of_parse hs h)

/-- Detached marks and qualifiers on both sides do no harm by themselves. -/
theorem parse_text_of_parse_detached :
    let t : CppType :=
      .function (.base "void" {}) ⟨["static"], ["const"]⟩
        [⟨.template "Table" ⟨[], ["*"]⟩ [.base "Key" ⟨[], ["*", "const"]⟩], ⟨["volatile"], []⟩, "t", false⟩]
    parse "static void (volatile Table<Key * const > * t ) const" = .ok t ∧
      parse t.text = .ok t := by
  intro t
  have hread : parse "static void (volatile Table<Key * const > * t ) const" = .ok t := rfl
  exact ⟨hread, (parse_text_of_parse (by decide +kernel) hread).2 (by decide +kernel)⟩

/-- A reference behind a detached `const` is printed behind it and read together with it. -/
theorem not_parse_text_of_parse :
    ¬ ∀ s t, Text.collapsed s = s → parse s = .ok t → parse t.text = .ok t := by
  intro h
  have hread : parse "int const &" = .ok (.base "int" ⟨[], ["const", "&"]⟩) := rfl
  have hagain : parse (text (.base "int" ⟨[], ["const", "&"]⟩)) = .ok (.base "int" ⟨[], ["const&"]⟩) :=
    rfl
  have hsame := h "int const &" _ rfl hread
  rw [hagain] at hsame
  exact absurd (Except.ok.inj hsame) (by decide)

end ScriptBindings.CppType
