import Mathlib
import ScriptBindings.Compound.Files
import ScriptBindings.Proofs.CppType.Legible
import ScriptBindings.Proofs.Name.Encoding

/-!
# Which files are chosen

A file is chosen by its stem: the kind of compound, a namespace, and `_1_1` with more behind it.  The namespaces are
compared as they are configured, with `::` between their segments, while file names have `_1_1` there.  So a
namespace with several segments chooses no file of a documentation, in whose names no colon stands; and what is
asked for is chosen from every documentation exactly if each namespace lies inside one that is configured as a
single segment.
-/

namespace ScriptBindings.Compound

/-! ## Names of files -/

/-- The name of a file: a stem, and one or more endings `.xml`. -/
inductive HasStem (text : String) : String → Prop where
  | once : HasStem text (text ++ ".xml")
  | again {file : String} (h : HasStem text file) : HasStem text (file ++ ".xml")

/-- The file of a class or struct inside one of some namespaces, which are given as file names have them. -/
def IsClassFileOf (spaces : List String) (file : String) : Prop :=
  ∃ space ∈ spaces, ∃ kind, (kind = "class" ∨ kind = "struct") ∧
    ∃ rest, HasStem (kind ++ space ++ "_1_1" ++ rest) file

/-- The file of one of some namespaces, or of a namespace inside one of them. -/
def IsNamespaceFileOf (spaces : List String) (file : String) : Prop :=
  ∃ space ∈ spaces, HasStem ("namespace" ++ space) file ∨
    ∃ rest, HasStem ("namespace" ++ space ++ "_1_1" ++ rest) file

/-- Of some file names the own ones are chosen, in ascending order, and none of them as both kinds. -/
structure Selects (spaces names : List String) (files : Files) : Prop where
  classes : ∀ file, file ∈ files.classes ↔ file ∈ names ∧ IsClassFileOf spaces file
  namespaces : ∀ file, file ∈ files.namespaces ↔ file ∈ names ∧ IsNamespaceFileOf spaces file
  ascendingClasses : files.classes.Pairwise (· < ·)
  ascendingNamespaces : files.namespaces.Pairwise (· < ·)
  disjoint : files.classes.Disjoint files.namespaces

/-- The segments of a namespace that is configured: lower-case identifiers without underscores. -/
structure IsConfigured (parts : List String) : Prop where
  nonempty : parts ≠ []
  identifiers : ∀ part ∈ parts, CppType.isIdentifier part.toList = true
  letters : ∀ part ∈ parts, ∀ c ∈ part.toList, c.isUpper = false ∧ c ≠ '_'

/-- A namespace as file names have it. -/
def fileSpace (parts : List String) : String :=
  "_1_1".intercalate parts

/-! ## Stems -/

section Stem

variable {text file lead : String}

/-- Behind its stem, a file name has only characters of its endings. -/
theorem HasStem.toList_eq (h : HasStem text file) :
    ∃ tail, file.toList = text.toList ++ tail ∧ ∀ c ∈ tail, c ∈ ".xml".toList := by
  induction h with
  | once => exact ⟨".xml".toList, String.toList_append, fun c hc => hc⟩
  | again h ih =>
      obtain ⟨tail, hfile, htail⟩ := ih
      refine ⟨tail ++ ".xml".toList, ?_, fun c hc => ?_⟩
      · rw [String.toList_append, hfile, List.append_assoc]
      · exact (List.mem_append.1 hc).elim (htail c) id

theorem HasStem.endsWith (h : HasStem text file) : Text.endsWith ".xml" file = true := by
  cases h <;> simp [Text.endsWith]

theorem endsWith_iff : Text.endsWith ".xml" file = true ↔ ∃ front, file = front ++ ".xml" := by
  rw [Text.endsWith, List.isSuffixOf_iff_suffix]
  constructor
  · rintro ⟨front, hfront⟩
    exact ⟨String.ofList front, String.toList_injective (by simp [← hfront])⟩
  · rintro ⟨front, rfl⟩
    exact ⟨front.toList, by simp⟩

/-- What is left does not depend on how often the ending might be there at most. -/
theorem dropExtension_of_le {fuel fuel' : Nat} {s : List Char} (h : s.length ≤ fuel)
    (h' : s.length ≤ fuel') : dropExtension fuel s = dropExtension fuel' s := by
  induction fuel generalizing fuel' s with
  | zero =>
      obtain rfl : s = [] := List.length_eq_zero_iff.1 (Nat.le_zero.1 h)
      cases fuel' <;> rfl
  | succ fuel ih =>
      cases fuel' with
      | zero =>
          obtain rfl : s = [] := List.length_eq_zero_iff.1 (Nat.le_zero.1 h')
          rfl
      | succ fuel' =>
          rw [dropExtension, dropExtension]
          cases hbefore : Text.beforeTail? ".xml".toList s with
          | none => rfl
          | some before =>
              have hs : before ++ ".xml".toList = s := List.isSuffixOf?_eq_some_iff_append_eq.1 hbefore
              -- The ending is not empty, so that what is left fits both bounds again.
              have hlength := congrArg List.length hs
              simp only [List.length_append, String.length_toList] at hlength
              have hending : ".xml".length = 4 := by decide
              exact ih (by omega) (by omega)

theorem stem_append (front : String) : stem (front ++ ".xml") = stem front := by
  have hlength : (front ++ ".xml").length = front.toList.length + 3 + 1 := by
    rw [String.length_append, String.length_toList]
    rfl
  have hbefore : Text.beforeTail? ".xml".toList (front ++ ".xml").toList = some front.toList :=
    List.isSuffixOf?_eq_some_iff_append_eq.2 String.toList_append.symm
  rw [stem, stem, hlength, dropExtension, hbefore]
  simp only
  exact congrArg String.ofList (dropExtension_of_le (by omega) String.length_toList.le)

theorem stem_eq_self (h : Text.endsWith ".xml" file = false) : stem file = file := by
  have hnone : Text.beforeTail? ".xml".toList file.toList = none := by
    rwa [← Option.isNone_iff_eq_none, ← Option.not_isSome, Bool.not_eq_true', Text.beforeTail?,
      List.isSome_isSuffixOf?_eq_isSuffixOf]
  rw [stem]
  cases file.length with
  | zero => exact String.ofList_toList
  | succ fuel => rw [dropExtension, hnone]; exact String.ofList_toList

theorem HasStem.stem_eq (h : HasStem text file) : stem file = stem text := by
  induction h with
  | once => exact stem_append text
  | again h ih => rw [stem_append, ih]

/-- The stem is what is left of a file name when all its endings are dropped. -/
theorem hasStem_stem (h : Text.endsWith ".xml" file = true) : HasStem (stem file) file := by
  induction hlength : file.length using Nat.strong_induction_on generalizing file with
  | _ length ih =>
      obtain ⟨front, rfl⟩ := endsWith_iff.1 h
      rw [stem_append]
      cases hfront : Text.endsWith ".xml" front with
      | true =>
          have hshorter : front.length < length := by
            rw [← hlength, String.length_append]
            exact Nat.lt_add_of_pos_right (by decide)
          exact (ih front.length hshorter hfront rfl).again
      | false =>
          rw [stem_eq_self hfront]
          exact .once

/-- Dropping the endings leaves what a name begins with, up to a character that no ending has. -/
theorem startsWith_stem {c : Char} (hlast : lead.toList.getLast? = some c) (hc : c ∉ ".xml".toList)
    (rest : String) : Text.startsWith lead (stem (lead ++ rest)) = true := by
  rw [Text.startsWith, List.isPrefixOf_iff_prefix]
  cases hend : Text.endsWith ".xml" (lead ++ rest) with
  | false =>
      rw [stem_eq_self hend, String.toList_append]
      exact List.prefix_append _ _
  | true =>
      obtain ⟨tail, hsplit, htail⟩ := (hasStem_stem hend).toList_eq
      rw [String.toList_append] at hsplit
      rcases List.append_eq_append_iff.1 hsplit with ⟨more, hstem, -⟩ | ⟨more, hlead, hmore⟩
      · exact ⟨more, hstem.symm⟩
      · -- The last character of the lead would belong to an ending.
        cases more.eq_nil_or_concat with
        | inl hnil => exact ⟨[], by rw [hlead, hnil, List.append_nil, List.append_nil]⟩
        | inr hconcat =>
            obtain ⟨front, last, rfl⟩ := hconcat
            rw [hlead, List.concat_eq_append, ← List.append_assoc, List.getLast?_concat,
              Option.some.injEq] at hlast
            refine absurd (htail c ?_) hc
            rw [hmore, ← hlast]
            simp

end Stem

/-! ## Choosing by the stem -/

section Choosing

variable {spaces names : List String} {file kind : String}

/-- A stem is nested in a namespace if the file's name goes on behind the namespace. -/
theorem isNested_stem_iff (h : Text.endsWith ".xml" file = true) :
    isNested spaces kind (stem file) = true ↔
      ∃ space ∈ spaces, ∃ rest, HasStem (kind ++ space ++ "_1_1" ++ rest) file := by
  rw [isNested, List.any_eq_true]
  refine exists_congr fun space => and_congr_right fun _ => ?_
  constructor
  · intro hlead
    obtain ⟨rest, hrest⟩ := List.isPrefixOf_iff_prefix.1 hlead
    refine ⟨String.ofList rest, ?_⟩
    have hstem : kind ++ space ++ "_1_1" ++ String.ofList rest = stem file :=
      String.toList_injective (by rw [String.toList_append, String.toList_ofList, hrest])
    rw [hstem]
    exact hasStem_stem h
  · rintro ⟨rest, hrest⟩
    rw [hrest.stem_eq]
    have hlast : (kind ++ space ++ "_1_1").toList.getLast? = some '1' := by
      rw [String.toList_append, List.getLast?_append]
      rfl
    exact startsWith_stem hlast (by decide) rest

theorem isClassFile_iff (h : Text.endsWith ".xml" file = true) :
    isClassFile spaces file = true ↔ IsClassFileOf spaces file := by
  rw [isClassFile, Bool.or_eq_true, isNested_stem_iff h, isNested_stem_iff h]
  constructor
  · rintro (⟨space, hspace, rest, hrest⟩ | ⟨space, hspace, rest, hrest⟩)
    · exact ⟨space, hspace, _, Or.inl rfl, rest, hrest⟩
    · exact ⟨space, hspace, _, Or.inr rfl, rest, hrest⟩
  · rintro ⟨space, hspace, kind, rfl | rfl, rest, hrest⟩
    · exact Or.inl ⟨space, hspace, rest, hrest⟩
    · exact Or.inr ⟨space, hspace, rest, hrest⟩

/-- The file of a class and the file of a namespace begin differently. -/
theorem IsNamespaceFileOf.not_isClassFileOf {spaces' : List String} (h : IsNamespaceFileOf spaces file) :
    ¬ IsClassFileOf spaces' file := by
  have begins : ∀ {lead rest : String}, HasStem (lead ++ rest) file → lead.toList <+: file.toList := by
    intro lead rest hstem
    obtain ⟨tail, hfile, -⟩ := hstem.toList_eq
    rw [hfile, String.toList_append, List.append_assoc]
    exact List.prefix_append _ _
  have hnamespace : "namespace".toList <+: file.toList := by
    obtain ⟨space, -, halone | ⟨rest, hrest⟩⟩ := h
    · exact begins halone
    · rw [String.append_assoc, String.append_assoc] at hrest
      exact begins hrest
  rintro ⟨space, -, kind, hkind, rest, hrest⟩
  rw [String.append_assoc, String.append_assoc] at hrest
  have hclass := begins hrest
  obtain ⟨after, hafter⟩ := hnamespace
  rw [← hafter] at hclass
  rcases hkind with rfl | rfl <;> simp at hclass

theorem isNamespaceFile_iff (h : Text.endsWith ".xml" file = true)
    (hspaces : ∀ space ∈ spaces, Text.endsWith ".xml" ("namespace" ++ space) = false) :
    isNamespaceFile spaces file = true ↔ IsNamespaceFileOf spaces file := by
  have halone : (spaces.any fun space => stem file = "namespace" ++ space) = true ↔
      ∃ space ∈ spaces, HasStem ("namespace" ++ space) file := by
    rw [List.any_eq_true]
    refine exists_congr fun space => and_congr_right fun hspace => ?_
    rw [decide_eq_true_iff]
    constructor
    · intro hstem
      rw [← hstem]
      exact hasStem_stem h
    · intro hstem
      rw [hstem.stem_eq, stem_eq_self (hspaces space hspace)]
  rw [isNamespaceFile, Bool.and_eq_true, Bool.or_eq_true, halone, isNested_stem_iff h, ← exists_or,
    Bool.not_eq_true', ← Bool.not_eq_true, isClassFile_iff h]
  simp only [← and_or_left]
  exact and_iff_right_of_imp IsNamespaceFileOf.not_isClassFileOf

theorem IsClassFileOf.endsWith (h : IsClassFileOf spaces file) : Text.endsWith ".xml" file = true := by
  obtain ⟨_, -, _, -, _, hstem⟩ := h
  exact hstem.endsWith

theorem IsNamespaceFileOf.endsWith (h : IsNamespaceFileOf spaces file) :
    Text.endsWith ".xml" file = true := by
  obtain ⟨_, -, hstem | ⟨_, hstem⟩⟩ := h
  · exact hstem.endsWith
  · exact hstem.endsWith

/-- Names of files are put into ascending order. -/
theorem pairwise_lt_documents (h : names.Nodup) :
    ((names.filter (Text.endsWith ".xml")).mergeSort fun a b => decide (a ≤ b)).Pairwise (· < ·) := by
  have hsorted : ((names.filter (Text.endsWith ".xml")).mergeSort fun a b => decide (a ≤ b)).Pairwise
      fun a b => decide (a ≤ b) = true :=
    List.pairwise_mergeSort
      (fun a b c hab hbc => decide_eq_true ((of_decide_eq_true hab).trans (of_decide_eq_true hbc)))
      (fun a b => by simpa using le_total a b) _
  have hnodup : ((names.filter (Text.endsWith ".xml")).mergeSort fun a b => decide (a ≤ b)).Nodup :=
    (List.mergeSort_perm _ _).nodup_iff.2 (h.filter _)
  refine (hsorted.and hnodup).imp fun hab => ?_
  exact lt_of_le_of_ne (of_decide_eq_true hab.1) hab.2

/-- What is chosen are the own files of the namespaces as they are configured. -/
theorem selects_chooseFiles (hnames : names.Nodup)
    (hspaces : ∀ space ∈ spaces, Text.endsWith ".xml" ("namespace" ++ space) = false) :
    Selects spaces names (chooseFiles names spaces) where
  classes file := by
    simp only [chooseFiles, List.mem_filter, List.mem_mergeSort, and_assoc]
    refine and_congr_right fun _ => ⟨fun h => (isClassFile_iff h.1).1 h.2, fun h => ?_⟩
    exact ⟨h.endsWith, (isClassFile_iff h.endsWith).2 h⟩
  namespaces file := by
    simp only [chooseFiles, List.mem_filter, List.mem_mergeSort, and_assoc]
    refine and_congr_right fun _ => ⟨fun h => (isNamespaceFile_iff h.1 hspaces).1 h.2, fun h => ?_⟩
    exact ⟨h.endsWith, (isNamespaceFile_iff h.endsWith hspaces).2 h⟩
  ascendingClasses := (pairwise_lt_documents hnames).filter _
  ascendingNamespaces := (pairwise_lt_documents hnames).filter _
  disjoint := by
    intro file hclass hnamespace
    have hnot := (List.mem_filter.1 hnamespace).2
    rw [isNamespaceFile, (List.mem_filter.1 hclass).2] at hnot
    cases hnot

/-- Namespaces with the same own files make the same choice. -/
theorem Selects.congr {spaces' : List String} {files : Files} (h : Selects spaces names files)
    (hclass : ∀ file ∈ names, IsClassFileOf spaces file ↔ IsClassFileOf spaces' file)
    (hnamespace : ∀ file ∈ names, IsNamespaceFileOf spaces file ↔ IsNamespaceFileOf spaces' file) :
    Selects spaces' names files :=
  { h with
    classes := fun file => (h.classes file).trans (and_congr_right fun hfile => hclass file hfile)
    namespaces := fun file =>
      (h.namespaces file).trans (and_congr_right fun hfile => hnamespace file hfile) }

end Choosing

/-! ## Namespaces of several segments -/

section Spaces

variable {spaces : List (List String)} {parts below : List String} {root : String} {c : Char}

@[simp]
theorem fileSpace_singleton (root : String) : fileSpace [root] = root :=
  String.intercalate_singleton

theorem fileSpace_cons (root : String) (h : below ≠ []) :
    fileSpace (root :: below) = root ++ "_1_1" ++ fileSpace below := by
  have hjoin : fileSpace (root :: below) = fileSpace [root] ++ "_1_1" ++ fileSpace below :=
    String.intercalate_append_of_ne_nil (List.cons_ne_nil root []) h
  rw [hjoin, fileSpace_singleton]

/-- A name for files has the characters of identifiers only. -/
theorem isIdentChar_of_mem_fileSpace (h : ∀ part ∈ parts, CppType.isIdentifier part.toList = true)
    (hc : c ∈ (fileSpace parts).toList) : CppType.isIdentChar c = true := by
  induction parts with
  | nil => cases hc
  | cons root below ih =>
      have hroot := CppType.isIdentChar_of_isIdentifier (h root List.mem_cons_self)
      by_cases hbelow : below = []
      · rw [hbelow, fileSpace_singleton] at hc
        exact hroot c hc
      · rw [fileSpace_cons root hbelow, String.toList_append, String.toList_append, List.mem_append,
          List.mem_append] at hc
        rcases hc with (hc | hc) | hc
        · exact hroot c hc
        · have hmark : ∀ d ∈ "_1_1".toList, CppType.isIdentChar d = true := by decide
          exact hmark c hc
        · exact ih (fun part hpart => h part (List.mem_cons_of_mem _ hpart)) hc

/-- In front of the first underscore stands the first segment. -/
theorem takeWhile_fileSpace (h : IsConfigured (root :: below)) :
    (fileSpace (root :: below)).toList.takeWhile (· ≠ '_') = root.toList := by
  have hroot : ∀ c ∈ root.toList, decide (c ≠ '_') = true := fun c hc =>
    decide_eq_true (h.letters root List.mem_cons_self c hc).2
  by_cases hbelow : below = []
  · rw [hbelow, fileSpace_singleton, List.takeWhile_eq_self_iff]
    exact hroot
  · rw [fileSpace_cons root hbelow, String.toList_append, String.toList_append, List.append_assoc,
      List.takeWhile_append_of_pos hroot]
    exact List.append_nil _

/-- A namespace of several segments has a colon. -/
theorem colon_mem_joinScopes (h : parts ≠ []) (hlength : parts.length ≠ 1) :
    ':' ∈ (Name.joinScopes parts).toList := by
  obtain ⟨root, below, rfl⟩ := List.exists_cons_of_ne_nil h
  have hbelow : below ≠ [] := by
    rintro rfl
    exact hlength rfl
  rw [Name.toList_joinScopes_cons root hbelow]
  simp

theorem exists_singleton_of_length (h : parts.length = 1) :
    ∃ root, parts = [root] ∧ Name.joinScopes parts = root ∧ fileSpace parts = root := by
  obtain ⟨root, rfl⟩ := List.length_eq_one_iff.1 h
  exact ⟨root, rfl, String.intercalate_singleton, fileSpace_singleton root⟩

/-- What holds of texts without colons only, holds of a namespace as it is configured if and only if it has one
segment. -/
theorem exists_joinScopes_iff {P : String → Prop} (hspaces : ∀ parts ∈ spaces, IsConfigured parts)
    (hP : ∀ space, P space → ':' ∉ space.toList) :
    (∃ space ∈ spaces.map Name.joinScopes, P space) ↔
      ∃ space ∈ (spaces.filter fun parts => parts.length = 1).map fileSpace, P space := by
  constructor
  · rintro ⟨space, hspace, h⟩
    obtain ⟨parts, hparts, rfl⟩ := List.mem_map.1 hspace
    have hlength : parts.length = 1 := by
      by_contra hlength
      exact hP _ h (colon_mem_joinScopes (hspaces parts hparts).nonempty hlength)
    obtain ⟨root, rfl, hconfigured, hfile⟩ := exists_singleton_of_length hlength
    rw [hconfigured, ← hfile] at h
    exact ⟨_, List.mem_map_of_mem (List.mem_filter.2 ⟨hparts, decide_eq_true hlength⟩), h⟩
  · rintro ⟨space, hspace, h⟩
    obtain ⟨parts, hparts, rfl⟩ := List.mem_map.1 hspace
    obtain ⟨hparts, hlength⟩ := List.mem_filter.1 hparts
    obtain ⟨root, rfl, hconfigured, hfile⟩ := exists_singleton_of_length (of_decide_eq_true hlength)
    rw [hfile, ← hconfigured] at h
    exact ⟨_, List.mem_map_of_mem hparts, h⟩

/-- What holds of a namespace and of all namespaces inside it holds of one of several namespaces, if it holds of one
of those with a single segment. -/
theorem exists_fileSpace_iff {P : String → Prop}
    (hroots : ∀ parts ∈ spaces, ∀ root ∈ parts.head?, [root] ∈ spaces)
    (hspaces : ∀ parts ∈ spaces, IsConfigured parts)
    (hP : ∀ root inner, P (root ++ "_1_1" ++ inner) → P root) :
    (∃ space ∈ (spaces.filter fun parts => parts.length = 1).map fileSpace, P space) ↔
      ∃ space ∈ spaces.map fileSpace, P space := by
  constructor
  · rintro ⟨space, hspace, h⟩
    obtain ⟨parts, hparts, rfl⟩ := List.mem_map.1 hspace
    exact ⟨_, List.mem_map_of_mem (List.mem_filter.1 hparts).1, h⟩
  · rintro ⟨space, hspace, h⟩
    obtain ⟨parts, hparts, rfl⟩ := List.mem_map.1 hspace
    obtain ⟨root, below, rfl⟩ := List.exists_cons_of_ne_nil (hspaces parts hparts).nonempty
    have hroot : [root] ∈ spaces.filter fun parts => parts.length = 1 :=
      List.mem_filter.2 ⟨hroots _ hparts root rfl, rfl⟩
    refine ⟨_, List.mem_map_of_mem hroot, ?_⟩
    rw [fileSpace_singleton]
    by_cases hbelow : below = []
    · rwa [hbelow, fileSpace_singleton] at h
    · rw [fileSpace_cons root hbelow] at h
      exact hP _ _ h

end Spaces

/-! ## Documentations -/

section Documentation

variable {spaces : List (List String)} {names : List String}

/-- No namespace ends like a file name. -/
theorem endsWith_namespace_eq_false {space : String} (h : '.' ∉ space.toList) :
    Text.endsWith ".xml" ("namespace" ++ space) = false := by
  rw [← Bool.not_eq_true, endsWith_iff]
  rintro ⟨front, hfront⟩
  have hmem : '.' ∈ ("namespace" ++ space).toList := by
    rw [hfront, String.toList_append]
    exact List.mem_append_right _ List.mem_cons_self
  rw [String.toList_append, List.mem_append] at hmem
  exact hmem.elim (by decide) h

theorem dot_not_mem_joinScopes {parts : List String} (h : IsConfigured parts) :
    '.' ∉ (Name.joinScopes parts).toList := by
  intro hdot
  rcases Name.isNameChar_of_mem_joinScopes h.identifiers hdot with h | h | h <;> cases h

theorem not_mem_fileSpace {parts : List String} {c : Char} (h : IsConfigured parts)
    (hc : CppType.isIdentChar c = false) : c ∉ (fileSpace parts).toList := by
  intro hmem
  rw [isIdentChar_of_mem_fileSpace h.identifiers hmem] at hc
  cases hc

/-- From a documentation the own files of the namespaces with a single segment are chosen. -/
theorem selects_documentation (hspaces : ∀ parts ∈ spaces, IsConfigured parts) (hnames : names.Nodup)
    (hplain : ∀ file ∈ names, ':' ∉ file.toList) :
    Selects ((spaces.filter fun parts => parts.length = 1).map fileSpace) names
      (chooseFiles names (spaces.map Name.joinScopes)) := by
  have hconfigured : Selects (spaces.map Name.joinScopes) names
      (chooseFiles names (spaces.map Name.joinScopes)) := by
    refine selects_chooseFiles hnames fun space hspace => endsWith_namespace_eq_false ?_
    obtain ⟨parts, hparts, rfl⟩ := List.mem_map.1 hspace
    exact dot_not_mem_joinScopes (hspaces parts hparts)
  -- A namespace is a part of the names of its files, so it has no colon, either.
  have hpart : ∀ {stem file : String}, file ∈ names → HasStem stem file → ':' ∉ stem.toList := by
    intro stem file hfile hstem hcolon
    obtain ⟨tail, heq, -⟩ := hstem.toList_eq
    exact hplain file hfile (heq ▸ List.mem_append_left _ hcolon)
  refine hconfigured.congr (fun file hfile => exists_joinScopes_iff hspaces ?_)
    (fun file hfile => exists_joinScopes_iff hspaces ?_)
  · rintro space ⟨kind, -, rest, hstem⟩ hcolon
    exact hpart hfile hstem (by simp [hcolon])
  · rintro space (hstem | ⟨rest, hstem⟩) hcolon
    · exact hpart hfile hstem (by simp [hcolon])
    · exact hpart hfile hstem (by simp [hcolon])

/-- The file of a namespace is chosen from a documentation only if its first segment is configured. -/
theorem root_mem_of_isNamespaceFileOf {parts : List String} {root : String}
    (hspaces : ∀ parts ∈ spaces, IsConfigured parts) (hparts : IsConfigured parts)
    (hroot : root ∈ parts.head?)
    (h : IsNamespaceFileOf ((spaces.filter fun parts => parts.length = 1).map fileSpace)
      ("namespace" ++ fileSpace parts ++ ".xml")) : [root] ∈ spaces := by
  obtain ⟨below, rfl⟩ : ∃ below, parts = root :: below := List.head?_eq_some_iff.1 hroot
  have hstem : stem ("namespace" ++ fileSpace (root :: below) ++ ".xml") =
      "namespace" ++ fileSpace (root :: below) := by
    rw [stem_append, stem_eq_self (endsWith_namespace_eq_false (not_mem_fileSpace hparts (by decide)))]
  obtain ⟨space, hspace, h⟩ := h
  obtain ⟨single, hsingle, rfl⟩ := List.mem_map.1 hspace
  obtain ⟨hsingle, hlength⟩ := List.mem_filter.1 hsingle
  obtain ⟨other, rfl, -, hother⟩ := exists_singleton_of_length (of_decide_eq_true hlength)
  -- Up to its first underscore, the stem is the first segment of either namespace.
  suffices hsame : other.toList = root.toList by rwa [← String.toList_injective hsame]
  rw [← takeWhile_fileSpace hparts]
  rcases h with h | ⟨rest, h⟩
  · have heq := h.stem_eq
    rw [hstem, stem_eq_self (endsWith_namespace_eq_false
      (not_mem_fileSpace (hspaces [other] hsingle) (by decide))), String.append_right_inj] at heq
    rw [heq, takeWhile_fileSpace (hspaces [other] hsingle)]
  · obtain ⟨more, hmore⟩ : ("namespace" ++ fileSpace [other] ++ "_1_1").toList <+:
        ("namespace" ++ fileSpace (root :: below)).toList := by
      rw [← hstem, h.stem_eq]
      refine List.isPrefixOf_iff_prefix.1 (startsWith_stem (c := '1') ?_ (by decide) rest)
      rw [String.toList_append, List.getLast?_append]
      rfl
    rw [String.toList_append, String.toList_append, String.toList_append, List.append_assoc,
      List.append_assoc, List.append_cancel_left_eq] at hmore
    have hplain : ∀ c ∈ other.toList, decide (c ≠ '_') = true := fun c hc =>
      decide_eq_true ((hspaces [other] hsingle).letters other List.mem_cons_self c hc).2
    rw [← hmore, hother, List.takeWhile_append_of_pos hplain]
    exact (List.append_nil _).symm

/-- Namespaces of single segments are written in file names as they are configured. -/
theorem selects_of_single (hspaces : ∀ parts ∈ spaces, IsConfigured parts)
    (hsingle : ∀ parts ∈ spaces, parts.length = 1) (hnames : names.Nodup) :
    Selects (spaces.map fileSpace) names (chooseFiles names (spaces.map Name.joinScopes)) := by
  have hsame : spaces.map Name.joinScopes = spaces.map fileSpace := by
    refine List.map_congr_left fun parts hparts => ?_
    obtain ⟨root, -, hconfigured, hfile⟩ := exists_singleton_of_length (hsingle parts hparts)
    rw [hconfigured, hfile]
  rw [hsame]
  refine selects_chooseFiles hnames fun space hspace => endsWith_namespace_eq_false ?_
  obtain ⟨parts, hparts, rfl⟩ := List.mem_map.1 hspace
  exact not_mem_fileSpace (hspaces parts hparts) (by decide)

/-- The own files of a documentation are chosen if the first segment of each namespace is configured. -/
theorem selects_of_roots (hspaces : ∀ parts ∈ spaces, IsConfigured parts)
    (hroots : ∀ parts ∈ spaces, ∀ root ∈ parts.head?, [root] ∈ spaces) (hnames : names.Nodup)
    (hplain : ∀ file ∈ names, ':' ∉ file.toList) :
    Selects (spaces.map fileSpace) names (chooseFiles names (spaces.map Name.joinScopes)) := by
  refine (selects_documentation hspaces hnames hplain).congr
    (fun file _ => exists_fileSpace_iff hroots hspaces ?_)
    (fun file _ => exists_fileSpace_iff hroots hspaces ?_)
  · rintro root inner ⟨kind, hkind, rest, hstem⟩
    refine ⟨kind, hkind, inner ++ "_1_1" ++ rest, ?_⟩
    simpa only [String.append_assoc] using hstem
  · rintro root inner (hstem | ⟨rest, hstem⟩)
    · exact Or.inr ⟨inner, by simpa only [String.append_assoc] using hstem⟩
    · refine Or.inr ⟨inner ++ "_1_1" ++ rest, ?_⟩
      simpa only [String.append_assoc] using hstem

/-- The file of a namespace alone is a documentation from which it is not chosen otherwise. -/
theorem root_mem_of_selects (hspaces : ∀ parts ∈ spaces, IsConfigured parts)
    (hall : ∀ names : List String, names.Nodup → (∀ file ∈ names, ':' ∉ file.toList) →
      Selects (spaces.map fileSpace) names (chooseFiles names (spaces.map Name.joinScopes)))
    {parts : List String} {root : String} (hparts : parts ∈ spaces) (hroot : root ∈ parts.head?) :
    [root] ∈ spaces := by
  have hplain : ∀ file ∈ ["namespace" ++ fileSpace parts ++ ".xml"], ':' ∉ file.toList := by
    intro file hfile
    rw [List.mem_singleton.1 hfile, String.toList_append, String.toList_append, List.mem_append,
      List.mem_append]
    rintro ((hcolon | hcolon) | hcolon)
    · exact absurd hcolon (by decide)
    · exact not_mem_fileSpace (hspaces parts hparts) (by decide) hcolon
    · exact absurd hcolon (by decide)
  have hchosen := ((hall _ (List.nodup_singleton _) hplain).namespaces _).2
    ⟨List.mem_singleton_self _, _, List.mem_map_of_mem hparts, Or.inl .once⟩
  have hown := ((selects_documentation hspaces (List.nodup_singleton _) hplain).namespaces _).1 hchosen
  exact root_mem_of_isNamespaceFileOf hspaces (hspaces parts hparts) hroot hown.2

/-- Namespaces of single segments choose exactly their own files.  From a documentation, in whose file names no colon
stands, namespaces of several segments choose nothing; so all own files are chosen from every documentation if and
only if the first segment of each namespace is configured as well. -/
theorem chooseFiles_selects (hspaces : ∀ parts ∈ spaces, IsConfigured parts) :
    ((∀ parts ∈ spaces, parts.length = 1) → ∀ names : List String, names.Nodup →
      Selects (spaces.map fileSpace) names (chooseFiles names (spaces.map Name.joinScopes))) ∧
    (∀ names : List String, names.Nodup → (∀ file ∈ names, ':' ∉ file.toList) →
      Selects ((spaces.filter fun parts => parts.length = 1).map fileSpace) names
        (chooseFiles names (spaces.map Name.joinScopes))) ∧
    ((∀ names : List String, names.Nodup → (∀ file ∈ names, ':' ∉ file.toList) →
      Selects (spaces.map fileSpace) names (chooseFiles names (spaces.map Name.joinScopes))) ↔
        ∀ parts ∈ spaces, ∀ root ∈ parts.head?, [root] ∈ spaces) := by
  refine ⟨fun hsingle names => selects_of_single hspaces hsingle,
    fun names => selects_documentation hspaces, fun hall parts hparts root hroot => ?_,
    fun hroots names => selects_of_roots hspaces hroots⟩
  exact root_mem_of_selects hspaces hall hparts hroot

/-- The files of a documentation, some of them in namespaces that begin like `obe`. -/
def obeFiles : List String :=
  ["structobe_1_1audio_1_1_track.xml", "namespaceobe.xml", "classobelisk_1_1_thing.xml",
    "namespaceobe_1_1audio.xml", "classobe_1_1_circle.xml", "classobe.xml"]

theorem chooseFiles_selects_obe :
    (∀ parts ∈ [["obe"], ["obe", "audio"]], IsConfigured parts) ∧ obeFiles.Nodup ∧
      (∀ file ∈ obeFiles, ':' ∉ file.toList) ∧
      Selects ["obe", "obe_1_1audio"] obeFiles (chooseFiles obeFiles ["obe", "obe::audio"]) ∧
      "structobe_1_1audio_1_1_track.xml" ∈ (chooseFiles obeFiles ["obe", "obe::audio"]).classes := by
  have hspaces : ∀ parts ∈ [["obe"], ["obe", "audio"]], IsConfigured parts := by
    simp only [List.forall_mem_cons]
    exact ⟨⟨by decide, by decide, by decide⟩, ⟨by decide, by decide, by decide⟩, List.forall_mem_nil _⟩
  have hnames : obeFiles.Nodup := by decide
  have hplain : ∀ file ∈ obeFiles, ':' ∉ file.toList := by decide
  have hselects : Selects ["obe", "obe_1_1audio"] obeFiles (chooseFiles obeFiles ["obe", "obe::audio"]) :=
    (chooseFiles_selects hspaces).2.2.2 (by decide) _ hnames hplain
  refine ⟨hspaces, hnames, hplain, hselects, (hselects.classes _).2 ⟨List.mem_cons_self, ?_⟩⟩
  exact ⟨_, List.mem_cons_self, "struct", Or.inr rfl, "audio_1_1_track", .once⟩

/-- A namespace of several segments chooses nothing from its own documentation. -/
theorem not_chooseFiles_selects : ¬ ∀ (spaces : List (List String)) (names : List String),
    (∀ parts ∈ spaces, IsConfigured parts) → names.Nodup →
      Selects (spaces.map fileSpace) names (chooseFiles names (spaces.map Name.joinScopes)) := by
  intro hall
  have hspaces : ∀ parts ∈ [["obe", "graphics"]], IsConfigured parts := by
    simp only [List.forall_mem_cons]
    exact ⟨⟨by decide, by decide, by decide⟩, List.forall_mem_nil _⟩
  have hselects := hall _ ["classobe_1_1graphics_1_1_color.xml"] hspaces (by decide)
  have hchosen := (hselects.classes _).2 ⟨List.mem_singleton_self _, "obe_1_1graphics",
    List.mem_singleton_self _, "class", Or.inl rfl, "_color", .once⟩
  have hnone : (chooseFiles ["classobe_1_1graphics_1_1_color.xml"]
    ([["obe", "graphics"]].map Name.joinScopes)).classes = [] := by cbv
  rw [hnone] at hchosen
  cases hchosen

end Documentation

end ScriptBindings.Compound
