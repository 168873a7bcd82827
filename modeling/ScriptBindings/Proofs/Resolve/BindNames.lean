import Mathlib
import ScriptBindings.Emit.Loader
import ScriptBindings.Proofs.Name.RunTogether
import ScriptBindings.Proofs.Name.Segments
import ScriptBindings.Resolve.Template

/-!
# Names of specialisations

Combinations that share a hint are told apart by their types.  Of a type only the words of its last segment are
kept, and the words of all types are run together behind the bind name.  So two names are the same as soon as the
words read the same: the scope of a type is lost, as is what stood between words and between types, and the case of
first letters.  The name of a loader loses all marks as well.
-/

namespace ScriptBindings

namespace Resolve

/-! ## Definitions -/

/-- What divides the words of a bind name. -/
def isGap (c : Char) : Bool :=
  c == ' ' || c == '_'

/-- What divides the words of a loader's name. -/
def isMark (c : Char) : Bool :=
  !c.isAlphanum

/-- The words in the last segments of a combination's types, each with its first letter in upper case. -/
def argumentWords (gap : Char → Bool) (b : Combination) : List (List Char) :=
  (argumentsOf b).flatMap fun type => Name.capitalWords gap (Name.lastSegment type).toList

/-- The classes that a class template is replaced by for one hint. -/
def specialisationsUnder (t : Class) (hint : TemplateHint) : List Class :=
  hint.combinations.map (specialiseClass t hint.bindName (1 < hint.combinations.length))

/-- A type that is a single word without scope: it begins with a lower-case letter and has no upper-case one. -/
structure IsWord (gap : Char → Bool) (type : String) : Prop where
  letter : ∃ c s, type.toList = c :: s ∧ c.isLower = true
  lower : ∀ c ∈ type.toList, c.isUpper = false
  whole : ∀ c ∈ type.toList, gap c = false
  unqualified : ':' ∉ type.toList

/-- The names of the loaders that classes have. -/
def loaderNames (s : Emit.Style) (classes : List Class) : List String :=
  (classes.filterMap s.classLoader?).map (·.name)

/-- How far names tell combinations apart.  They do if the words of two combinations never read the same when they
are run together.  Where the words can be told again, it is enough that they are not the same words; and where every
type is a single word, that they are not the same types. -/
structure ToldApart (gap : Char → Bool) (combinations : List Combination) (names : List String) : Prop where
  spelled : names.Nodup ↔ (combinations.map fun b => (argumentWords gap b).flatten).Nodup
  words : (∀ b ∈ combinations, ∀ w ∈ argumentWords gap b, Name.IsPlainWord w) →
    (names.Nodup ↔ (combinations.map (argumentWords gap)).Nodup)
  types : (∀ b ∈ combinations, ∀ type ∈ argumentsOf b, IsWord gap type) →
    (names.Nodup ↔ (combinations.map argumentsOf).Nodup)

variable {gap : Char → Bool} {b : Combination} {combinations : List Combination} {names : List String}
  {type : String}

/-! ## Single words -/

/-- A single word with its first letter in lower case. -/
def ofCapital : List Char → String
  | [] => ""
  | c :: s => String.ofList (c.toLower :: s)

namespace IsWord

/-- A word of lower-case letters. -/
theorem of_isLower (hgap : ∀ c, c.isAlpha = true → gap c = false) (hne : type.toList ≠ [])
    (h : ∀ c ∈ type.toList, c.isLower = true) : IsWord gap type where
  letter := by
    obtain ⟨c, s, htype⟩ := List.exists_cons_of_ne_nil hne
    exact ⟨c, s, htype, h c (htype ▸ List.mem_cons_self)⟩
  lower c hc := Bool.eq_false_iff.2 (Char.not_isUpper_of_isLower (h c hc))
  whole c hc := hgap c (by rw [Char.isAlpha, h c hc, Bool.or_true])
  unqualified hc := absurd (h ':' hc) (by decide)

theorem capitalWords (h : IsWord gap type) :
    Name.capitalWords gap (Name.lastSegment type).toList = [Name.capitalizeChars type.toList] := by
  obtain ⟨c, s, htype, -⟩ := h.letter
  rw [Name.lastSegment, Name.cutLast?_colons_eq_none h.unqualified,
    Name.capitalWords_of_forall (by rw [htype]; exact List.cons_ne_nil c s) h.whole]

theorem exists_capitalizeChars (h : IsWord gap type) :
    ∃ c s, type.toList = c :: s ∧ c.isLower = true ∧ Name.capitalizeChars type.toList = c.toUpper :: s := by
  obtain ⟨c, s, htype, hc⟩ := h.letter
  have hletter : c.isAlpha = true := by rw [Char.isAlpha, hc, Bool.or_true]
  exact ⟨c, s, htype, hc, by rw [htype, Name.capitalizeChars_letter hletter]⟩

theorem isPlainWord (h : IsWord gap type) : Name.IsPlainWord (Name.capitalizeChars type.toList) := by
  obtain ⟨c, s, htype, hc, hcapital⟩ := h.exists_capitalizeChars
  refine ⟨c.toUpper, s, hcapital, ?_, fun d hd => h.lower d (htype ▸ List.mem_cons_of_mem c hd)⟩
  rw [Char.isUpper_toUpper_eq_isAlpha, Char.isAlpha, hc, Bool.or_true]

theorem ofCapital_capitalizeChars (h : IsWord gap type) :
    ofCapital (Name.capitalizeChars type.toList) = type := by
  obtain ⟨c, s, htype, hc, hcapital⟩ := h.exists_capitalizeChars
  rw [hcapital, ofCapital, Char.toLower_toUpper_eq_toLower,
    Char.toLower_eq_of_not_isUpper (Char.not_isUpper_of_isLower hc), ← htype, String.ofList_toList]

end IsWord

theorem argumentWords_of_isWord (h : ∀ type ∈ argumentsOf b, IsWord gap type) :
    argumentWords gap b = (argumentsOf b).map fun type => Name.capitalizeChars type.toList := by
  rw [argumentWords, List.flatMap_congr fun type htype => (h type htype).capitalWords, ← List.map_eq_flatMap]

theorem map_ofCapital_argumentWords (h : ∀ type ∈ argumentsOf b, IsWord gap type) :
    (argumentWords gap b).map ofCapital = argumentsOf b := by
  rw [argumentWords_of_isWord h, List.map_map]
  exact (List.map_congr_left fun type htype => (h type htype).ofCapital_capitalizeChars).trans (List.map_id _)

/-! ## Telling combinations apart -/

/-- Words that can be told again are the same if they read the same. -/
theorem nodup_flatten_iff_of_isPlainWord
    (h : ∀ b ∈ combinations, ∀ w ∈ argumentWords gap b, Name.IsPlainWord w) :
    (combinations.map fun b => (argumentWords gap b).flatten).Nodup ↔
      (combinations.map (argumentWords gap)).Nodup := by
  have hmap : combinations.map (fun b => (argumentWords gap b).flatten) =
      (combinations.map (argumentWords gap)).map List.flatten := List.map_map.symm
  rw [hmap]
  refine ⟨List.Nodup.of_map _, List.Nodup.map_on fun v hv w hw heq => ?_⟩
  obtain ⟨b, hb, rfl⟩ := List.mem_map.1 hv
  obtain ⟨b', hb', rfl⟩ := List.mem_map.1 hw
  exact Name.eq_of_flatten_eq (h b hb) (h b' hb') heq

/-- Types that are single words are given back by their words. -/
theorem nodup_argumentWords_iff_of_isWord
    (h : ∀ b ∈ combinations, ∀ type ∈ argumentsOf b, IsWord gap type) :
    (combinations.map (argumentWords gap)).Nodup ↔ (combinations.map argumentsOf).Nodup := by
  have htypes : combinations.map argumentsOf =
      (combinations.map (argumentWords gap)).map (List.map ofCapital) := by
    rw [List.map_map]
    exact List.map_congr_left fun b hb => (map_ofCapital_argumentWords (h b hb)).symm
  have hwords : combinations.map (argumentWords gap) = (combinations.map argumentsOf).map fun types =>
      types.flatMap fun type => Name.capitalWords gap (Name.lastSegment type).toList := List.map_map.symm
  constructor
  · intro hnodup
    rw [hwords] at hnodup
    exact hnodup.of_map _
  · intro hnodup
    rw [htypes] at hnodup
    exact hnodup.of_map _

theorem toldApart_of_eq (lead : String)
    (h : names = combinations.map fun b => lead ++ String.ofList (argumentWords gap b).flatten) :
    ToldApart gap combinations names := by
  have hinj : Function.Injective fun s : List Char => lead ++ String.ofList s := by
    intro s t hst
    exact String.ofList_injective (by simpa using hst)
  have hspelled : names.Nodup ↔ (combinations.map fun b => (argumentWords gap b).flatten).Nodup := by
    rw [h, ← List.nodup_map_iff hinj, List.map_map]
    rfl
  constructor
  case spelled => exact hspelled
  case words =>
    intro hplain
    rw [hspelled, nodup_flatten_iff_of_isPlainWord hplain]
  case types =>
    intro htypes
    rw [hspelled, nodup_flatten_iff_of_isPlainWord, nodup_argumentWords_iff_of_isWord htypes]
    intro b hb w hw
    rw [argumentWords_of_isWord (htypes b hb)] at hw
    obtain ⟨type, htype, rfl⟩ := List.mem_map.1 hw
    exact (htypes b hb type htype).isPlainWord

/-! ## Bind names -/

/-- What each type of a combination adds to a name. -/
def argumentTexts (gap : Char → Bool) (b : Combination) : List (List Char) :=
  (argumentsOf b).map fun type => Name.runTogether gap false (Name.lastSegment type).toList

theorem flatten_argumentWords (gap : Char → Bool) (b : Combination) :
    (argumentWords gap b).flatten = (argumentTexts gap b).flatten := by
  rw [List.flatten_eq_flatMap, argumentWords, List.flatMap_assoc, argumentTexts, ← List.flatMap_def]
  exact List.flatMap_congr fun type _ => by
    rw [← List.flatten_eq_flatMap, Name.flatten_capitalWords]

theorem isCapital_of_mem_argumentTexts {t : List Char} (h : t ∈ argumentTexts gap b) : Name.IsCapital t := by
  obtain ⟨type, -, rfl⟩ := List.mem_map.1 h
  exact Name.isCapital_runTogether gap _

theorem toList_argumentSuffix (type : String) :
    (argumentSuffix type).toList = Name.runTogether isGap false (Name.lastSegment type).toList := by
  -- Blanks are made gaps first, and a letter that is put in upper case before the cut is so behind it as well.
  have hgap : (fun c => (if c = ' ' then '_' else c) == '_') = isGap := by
    funext c
    by_cases hc : c = ' ' <;> simp [isGap, hc]
  calc (argumentSuffix type).toList
      = Name.runTogether (· == '_') false (Name.capitalizeChars (Text.replace [' '] ['_']
          (Name.lastSegment type).toList)) := by
        rw [argumentSuffix, String.toList_join, Name.runTogether_eq_flatMap]
        simp [Text.pieces, Text.replaced, Name.capitalize, List.flatMap_map, List.splitOn]
    _ = Name.runTogether (· == '_') false (Text.replace [' '] ['_'] (Name.lastSegment type).toList) := by
        refine Name.runTogether_capitalizeChars (fun c hc => ?_) _
        exact beq_eq_false_iff_ne.2 (by rintro rfl; cases hc)
    _ = Name.runTogether isGap false (Name.lastSegment type).toList := by
        rw [Text.replace_char, Name.runTogether_map, ← hgap]
        · rfl
        · intro c hc
          by_cases hspace : c = ' '
          · rw [hspace] at hc
            cases hc
          · exact if_neg hspace

theorem bindName_specialiseClass (t : Class) (bindName : String) (b : Combination) :
    (specialiseClass t bindName true b).bindName =
      bindName ++ String.ofList (argumentWords isGap b).flatten := by
  have hsuffixes : String.join ((argumentsOf b).map argumentSuffix) =
      String.ofList (argumentWords isGap b).flatten := by
    rw [← String.toList_inj, String.toList_join, String.toList_ofList, flatten_argumentWords, List.flatMap_map,
      argumentTexts, ← List.flatMap_def]
    exact List.flatMap_congr fun type _ => toList_argumentSuffix type
  rw [← hsuffixes]
  rfl

/-! ## Names of loaders -/

theorem toList_loaderName (kind name : String) :
    (Emit.loaderName kind name).toList = kind.toList ++ Name.runTogether isMark false name.toList := by
  rw [Name.loaderName_eq, String.toList_append, String.toList_ofList]
  rfl

theorem isMark_of_isAlpha {c : Char} (h : c.isAlpha = true) : isMark c = false := by
  rw [isMark, Char.isAlphanum, h]
  rfl

theorem isMark_of_isGap {c : Char} (h : isGap c = true) : isMark c = true := by
  rw [isGap, Bool.or_eq_true, beq_iff_eq, beq_iff_eq] at h
  obtain rfl | rfl := h <;> rfl

theorem isGap_of_isAlpha {c : Char} (h : c.isAlpha = true) : isGap c = false :=
  Bool.eq_false_iff.2 fun hgap => absurd (isMark_of_isGap hgap) (Bool.eq_false_iff.1 (isMark_of_isAlpha h))

/-- Every gap is a mark, so that it does not matter that gaps have been left out before. -/
theorem runTogether_argumentWords (b : Combination) :
    Name.runTogether isMark false (argumentWords isGap b).flatten = (argumentWords isMark b).flatten := by
  rw [flatten_argumentWords, flatten_argumentWords,
    Name.runTogether_flatten fun _ => isCapital_of_mem_argumentTexts, argumentTexts, List.flatMap_map,
    argumentTexts, ← List.flatMap_def]
  exact List.flatMap_congr fun type _ =>
    Name.runTogether_runTogether (fun _ => isMark_of_isGap) (fun _ => isMark_of_isAlpha) false false _

theorem loaderName_specialiseClass (t : Class) (bindName : String) (b : Combination) :
    Emit.loaderName "Class" (specialiseClass t bindName true b).bindName =
      Emit.loaderName "Class" bindName ++ String.ofList (argumentWords isMark b).flatten := by
  have hcapital : Name.IsCapital (argumentWords isGap b).flatten := by
    rw [flatten_argumentWords]
    exact Name.isCapital_flatten fun _ => isCapital_of_mem_argumentTexts
  rw [bindName_specialiseClass, ← String.toList_inj, toList_loaderName, String.toList_append,
    String.toList_append, toList_loaderName, String.toList_ofList, String.toList_ofList, String.toList_ofList,
    Name.runTogether_append false bindName.toList hcapital, runTogether_argumentWords, List.append_assoc]

theorem loaderNames_specialisationsUnder (s : Emit.Style) {t : Class} (hint : TemplateHint)
    (hbound : t.flags.noBind = false) :
    loaderNames s (specialisationsUnder t hint) =
      (specialisationsUnder t hint).map fun c => Emit.loaderName "Class" c.bindName := by
  -- A specialisation is no template any more, so that it has a loader.
  have hloader : ∀ c ∈ specialisationsUnder t hint,
      (s.classLoader? c).map (·.name) = some (Emit.loaderName "Class" c.bindName) := by
    intro c hc
    obtain ⟨b, -, rfl⟩ := List.mem_map.1 hc
    rw [Emit.Style.classLoader?, if_neg (by simp [specialiseClass, hbound])]
    rfl
  rw [loaderNames, List.map_filterMap, List.filterMap_congr hloader, List.filterMap_eq_map']

/-! ## Distinct names -/

variable {t : Class} {hint : TemplateHint}

theorem specialisationsUnder_of_shared (h : 1 < hint.combinations.length) :
    specialisationsUnder t hint = hint.combinations.map (specialiseClass t hint.bindName true) := by
  rw [specialisationsUnder, decide_eq_true h]

/-- The specialisations of one hint have bind names of their own as far as the words of their types tell them
apart.  So have their loaders, for which more characters divide words. -/
theorem toldApart_specialisations (t : Class) (hint : TemplateHint) (hshared : 1 < hint.combinations.length) :
    ToldApart isGap hint.combinations ((specialisationsUnder t hint).map Class.bindName) ∧
    ∀ s : Emit.Style, t.flags.noBind = false →
      ToldApart isMark hint.combinations (loaderNames s (specialisationsUnder t hint)) := by
  constructor
  · refine toldApart_of_eq hint.bindName ?_
    rw [specialisationsUnder_of_shared hshared, List.map_map]
    exact List.map_congr_left fun b _ => bindName_specialiseClass t hint.bindName b
  · intro s hbound
    refine toldApart_of_eq (Emit.loaderName "Class" hint.bindName) ?_
    rw [loaderNames_specialisationsUnder s hint hbound, specialisationsUnder_of_shared hshared, List.map_map]
    exact List.map_congr_left fun b _ => loaderName_specialiseClass t hint.bindName b

/-- A template that is wanted for several types under one name. -/
def barePool : Class where
  name := "Pool"
  scope := "ns"
  isTemplate := true
  templateParams := ["T"]

/-- Types that are single words. -/
def numberHint : TemplateHint :=
  ⟨"Pool", [[("T", "int")], [("T", "float")], [("T", "double")]]⟩

/-- Types of the same name in two scopes. -/
def vectorHint : TemplateHint :=
  ⟨"Pool", [[("T", "a::Vec")], [("T", "b::Vec")]]⟩

/-- Types that differ in their marks. -/
def markHint : TemplateHint :=
  ⟨"Pool", [[("T", "int*")], [("T", "int&")]]⟩

theorem isWord_numberHint (hgap : ∀ c, c.isAlpha = true → gap c = false) :
    ∀ b ∈ numberHint.combinations, ∀ type ∈ argumentsOf b, IsWord gap type := by
  have hlower : ∀ b ∈ numberHint.combinations, ∀ type ∈ argumentsOf b,
      type.toList ≠ [] ∧ ∀ c ∈ type.toList, c.isLower = true := by decide
  intro b hb type htype
  obtain ⟨hne, hletters⟩ := hlower b hb type htype
  exact .of_isLower hgap hne hletters

theorem toldApart_specialisations_pool : 1 < numberHint.combinations.length ∧
    ((specialisationsUnder barePool numberHint).map Class.bindName).Nodup ∧
    ∀ s : Emit.Style, (loaderNames s (specialisationsUnder barePool numberHint)).Nodup := by
  have hshared : 1 < numberHint.combinations.length := by decide
  have hdistinct : (numberHint.combinations.map argumentsOf).Nodup := by decide
  obtain ⟨hnames, hloaders⟩ := toldApart_specialisations barePool numberHint hshared
  refine ⟨hshared, (hnames.types ?_).2 hdistinct, fun s => ((hloaders s rfl).types ?_).2 hdistinct⟩
  · exact isWord_numberHint fun _ => isGap_of_isAlpha
  · exact isWord_numberHint fun _ => isMark_of_isAlpha

/-- Two types whose last segments are the same give one bind name, and two bind names that differ in a mark one
name of a loader. -/
theorem not_nodup_bindNames :
    (¬ ∀ (t : Class) (hint : TemplateHint), 1 < hint.combinations.length →
      (hint.combinations.map argumentsOf).Nodup → ((specialisationsUnder t hint).map Class.bindName).Nodup) ∧
    ∀ s : Emit.Style, ¬ ∀ (t : Class) (hint : TemplateHint), 1 < hint.combinations.length →
      ((specialisationsUnder t hint).map Class.bindName).Nodup →
        (loaderNames s (specialisationsUnder t hint)).Nodup := by
  constructor
  · intro h
    exact absurd (h barePool vectorHint (by decide) (by decide)) (by decide +kernel)
  intro s h
  have hnodup := h barePool markHint (by decide) (by decide +kernel)
  rw [loaderNames_specialisationsUnder s markHint rfl] at hnodup
  exact absurd hnodup (by decide +kernel)

end Resolve

end ScriptBindings
