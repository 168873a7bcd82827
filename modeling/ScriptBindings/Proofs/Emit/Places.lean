import Mathlib
import ScriptBindings.Proofs.Emit.Arrangement
import ScriptBindings.Proofs.Name.Segments
import ScriptBindings.Proofs.Path
import ScriptBindings.Proofs.Store.Writing

/-!
# Where files go

The directory of a namespace leaves out the outermost namespace, so that a project with several outermost
namespaces can have two namespaces whose files go to the same place.  That is so exactly if their names are
the same without the outermost namespace, or if one is an outermost namespace itself, begins with an
upper-case letter, and the other one is found under its name directly inside of an outermost namespace.  Where
no two namespaces share a place, no file is written over another one.

Paths are compared once they are folded, since a repeated slash means nothing.
-/

namespace ScriptBindings.Emit

open Name ScriptBindings.Path

/-- The directories of a namespace, given by its segments, below that of all bindings. -/
def directories : List String → List String
  | [root] => [capitalize root]
  | parts => parts.tail

/-- A namespace whose segments are steps of a path, with no single colons left in them. -/
structure Plain (scope : String) : Prop where
  slash : '/' ∉ scope.toList
  segments : ∀ part ∈ segments scope, IsStep part ∧ ':' ∉ part.toList

/-- Two namespaces, given by their segments, whose files go to one place. -/
def Meet (p q : List String) : Prop :=
  (p.tail ≠ [] ∧ p.tail = q.tail) ∨ ∃ root, capitalize root = root ∧ p = [root] ∧ q.tail = [root]

instance (p q : List String) : Decidable (Meet p q) :=
  decidable_of_iff
      ((p.tail ≠ [] ∧ p.tail = q.tail) ∨ (p.map capitalize = p ∧ p.length = 1 ∧ q.tail = p)) <| by
    refine or_congr_right ⟨?_, ?_⟩
    · rintro ⟨hupper, hlength, htail⟩
      obtain ⟨root, rfl⟩ := List.length_eq_one_iff.1 hlength
      exact ⟨root, (List.cons.inj hupper).1, rfl, htail⟩
    · rintro ⟨root, hupper, rfl, htail⟩
      exact ⟨by rw [List.map_singleton, hupper], rfl, htail⟩

variable {scope : String}

/-! ## The steps of a path -/

/-- Once colons are slashes, the segments of a name are the steps of a path. -/
theorem splitOn_replace_colons {s : List Char} (h : '/' ∉ s) :
    (Text.replace [':', ':'] ['/'] s).splitOn '/' = cutScopes s := by
  induction s using cutScopes.induct with
  | case1 => rfl
  | case2 s ih =>
      have hs : '/' ∉ s := fun hmem => h (List.mem_cons_of_mem _ (List.mem_cons_of_mem _ hmem))
      have hreplace : Text.replace [':', ':'] ['/'] (':' :: ':' :: s) =
          '/' :: Text.replace [':', ':'] ['/'] s := rfl
      have hsplit : ('/' :: Text.replace [':', ':'] ['/'] s).splitOn '/' =
          [] :: (Text.replace [':', ':'] ['/'] s).splitOn '/' :=
        List.splitOnP_append_cons (p := (· == '/')) [] _ rfl
      rw [hreplace, hsplit, ih hs, cutScopes]
  | case3 c s hc ih =>
      have hs : '/' ∉ s := fun hmem => h (List.mem_cons_of_mem _ hmem)
      have hslash : (c == '/') = false := beq_eq_false_iff_ne.2 fun heq => h (heq ▸ List.mem_cons_self)
      -- No `::` begins here, so that the character is kept, and it is no slash.
      have hcolons : [':', ':'].isPrefixOf (c :: s) = false := by
        rw [Bool.eq_false_iff, ne_eq, List.isPrefixOf_iff_prefix]
        rintro ⟨rest, hrest⟩
        obtain ⟨rfl, rfl⟩ := List.cons.inj hrest
        exact hc _ rfl rfl
      have hreplace : Text.replace [':', ':'] ['/'] (c :: s) =
          c :: Text.replace [':', ':'] ['/'] s := by
        rw [Text.replace, Text.replaceFrom, hcolons]
        rfl
      have hsplit : (c :: Text.replace [':', ':'] ['/'] s).splitOn '/' =
          ((Text.replace [':', ':'] ['/'] s).splitOn '/').modifyHead (c :: ·) := by
        rw [List.splitOn, List.splitOnP_cons_eq_if_modifyHead, hslash]
        rfl
      obtain ⟨word, words, hwords⟩ := List.exists_cons_of_ne_nil (cutScopes_ne_nil s)
      rw [hreplace, hsplit, ih hs, cutScopes, hwords]
      · rfl
      · exact hc

/-- The steps that lead to the directory of a namespace. -/
theorem pieces_bindingsDirectory (h : Plain scope) :
    Text.pieces '/' (bindingsDirectory scope) = "Bindings" :: directories (segments scope) := by
  have hfront (s : String) : Text.pieces '/' ("Bindings/" ++ s) = "Bindings" :: Text.pieces '/' s := by
    calc Text.pieces '/' ("Bindings" ++ "/" ++ s)
        = Text.pieces '/' "Bindings" ++ Text.pieces '/' s := pieces_append_slash _ _
      _ = "Bindings" :: Text.pieces '/' s := by
          rw [pieces_of_no_slash (s := "Bindings") (by decide)]
          rfl
  -- A nested namespace leaves out its root; a root is capitalised.
  cases hcut : Text.cutFirst? [':', ':'] scope.toList with
  | some parts =>
      obtain ⟨before, rest⟩ := parts
      have hrest : '/' ∉ rest := by
        have hslash := h.slash
        rw [Text.cutFirst?_eq_some hcut] at hslash
        exact fun hmem => hslash (List.mem_append_right _ hmem)
      have hpieces : Text.pieces '/' (Text.replaced "::" "/" (String.ofList rest)) =
          (cutScopes rest).map String.ofList := by
        simp only [Text.pieces, Text.replaced, String.toList_ofList]
        exact congrArg _ (splitOn_replace_colons hrest)
      obtain ⟨word, words, hwords⟩ := List.exists_cons_of_ne_nil (cutScopes_ne_nil rest)
      simp only [bindingsDirectory, hcut, hfront, hpieces, segments,
        cutScopes_of_cutFirst?_eq_some hcut, hwords, List.map_cons, directories, List.tail_cons]
  | none =>
      have hpieces := pieces_of_no_slash (not_mem_capitalize (c := '/') (by decide) h.slash)
      simp only [bindingsDirectory, hcut, hfront, hpieces, segments,
        cutScopes_of_cutFirst?_eq_none hcut, List.map_cons, List.map_nil, String.ofList_toList,
        directories]

/-- The place of a namespace's files with some extension, in one of the directories that are made. -/
def placeOf (top extension : String) (parts : List String) : Path :=
  ⟨false, top :: "Bindings" :: directories parts ++ [parts.getLastD "" ++ extension]⟩

theorem isStep_capitalize {s : String} (h : IsStep s) : IsStep (capitalize s) :=
  ⟨not_mem_capitalize (by decide) h.1, capitalize_ne (by simp) h.2.1, capitalize_ne (by simp) h.2.2.1,
    capitalize_ne (by simp) h.2.2.2⟩

theorem Plain.isStep_of_mem_directories (h : Plain scope) {step : String}
    (hstep : step ∈ directories (Name.segments scope)) : IsStep step := by
  unfold directories at hstep
  split at hstep
  · rename_i root hroot
    obtain rfl := List.mem_singleton.1 hstep
    exact isStep_capitalize (h.segments root (hroot ▸ List.mem_singleton_self root)).1
  · exact (h.segments step (List.mem_of_mem_tail hstep)).1

theorem Plain.isStep_getLastD (h : Plain scope) : IsStep ((Name.segments scope).getLastD "") := by
  rw [List.getLastD_eq_getLast?, List.getLast?_eq_some_getLast (segments_ne_nil scope)]
  exact (h.segments _ (List.getLast_mem _)).1

/-- The steps to a namespace's file. -/
theorem Plain.pieces_path (h : Plain scope) {top extension : String} (htop : '/' ∉ top.toList)
    (hslash : '/' ∉ extension.toList) (hlong : 2 < extension.length) :
    Text.pieces '/' (top ++ "/" ++ fileStem scope ++ extension) =
      (placeOf top extension (Name.segments scope)).steps := by
  have hlast := h.isStep_getLastD.append hslash hlong
  have hjoin : top ++ "/" ++ fileStem scope ++ extension = top ++ "/" ++
      (bindingsDirectory scope ++ "/" ++ ((Name.segments scope).getLastD "" ++ extension)) := by
    rw [fileStem, lastSegment_eq_getLastD fun part hpart => (h.segments part hpart).2]
    simp only [String.append_assoc]
  rw [hjoin, pieces_append_slash, pieces_append_slash, pieces_of_no_slash htop,
    pieces_of_no_slash hlast.1, pieces_bindingsDirectory h]
  rfl

/-- Where a namespace's file goes, once its path is folded. -/
theorem Plain.inward_path (h : Plain scope) (top extension : String) (htop : IsStep top)
    (hslash : '/' ∉ extension.toList) (hlong : 2 < extension.length) :
    Inward (top ++ "/" ++ fileStem scope ++ extension) ∧
      (parse (top ++ "/" ++ fileStem scope ++ extension)).normalize =
        placeOf top extension (Name.segments scope) := by
  have hpieces := h.pieces_path htop.1 hslash hlong
  have hinward : Inward (top ++ "/" ++ fileStem scope ++ extension) := by
    constructor
    · obtain ⟨c, rest, hchars⟩ := List.exists_cons_of_ne_nil (mt String.toList_eq_nil_iff.1 htop.2.1)
      have hc : '/' ≠ c := fun heq => htop.1 (by rw [hchars, heq]; exact List.mem_cons_self)
      simp only [Text.startsWith, String.toList_append, hchars, List.cons_append]
      simp [List.isPrefixOf, hc]
    · rw [hpieces]
      simp only [placeOf, List.mem_append, List.mem_cons, List.not_mem_nil, or_false]
      rintro step ((rfl | rfl | hstep) | rfl)
      · exact htop
      · exact ⟨by decide, by decide, by decide, by decide⟩
      · exact h.isStep_of_mem_directories hstep
      · exact h.isStep_getLastD.append hslash hlong
  refine ⟨hinward, ?_⟩
  rw [hinward.normalize_parse, hpieces]
  rfl

/-! ## Shared places -/

theorem directories_of_tail_ne_nil {parts : List String} (h : parts.tail ≠ []) :
    directories parts = parts.tail := by
  unfold directories
  split
  · exact absurd rfl h
  · rfl

theorem getLastD_of_tail_ne_nil {parts : List String} (h : parts.tail ≠ []) :
    parts.getLastD "" = parts.tail.getLastD "" := by
  match parts, h with
  | _ :: _ :: _, _ => rfl

variable {top extension : String} {p q : List String}

theorem placeOf_inj : placeOf top extension p = placeOf top extension q ↔
    directories p = directories q ∧ p.getLastD "" = q.getLastD "" := by
  simp [placeOf]

theorem placeOf_eq_of_meet (h : Meet p q) : placeOf top extension p = placeOf top extension q := by
  rw [placeOf_inj]
  rcases h with ⟨hp, htail⟩ | ⟨root, hupper, rfl, htail⟩
  · have hq : q.tail ≠ [] := htail ▸ hp
    rw [directories_of_tail_ne_nil hp, directories_of_tail_ne_nil hq, getLastD_of_tail_ne_nil hp,
      getLastD_of_tail_ne_nil hq, htail]
    exact ⟨rfl, rfl⟩
  · have hq : q.tail ≠ [] := htail ▸ List.cons_ne_nil _ _
    rw [directories_of_tail_ne_nil hq, getLastD_of_tail_ne_nil hq, htail, directories, hupper]
    exact ⟨rfl, rfl⟩

theorem meet_of_placeOf_root_eq {root : String} (hq : q.tail ≠ [])
    (h : placeOf top extension [root] = placeOf top extension q) : Meet [root] q := by
  obtain ⟨hdirectories, hlast⟩ := placeOf_inj.1 h
  rw [directories_of_tail_ne_nil hq] at hdirectories
  rw [getLastD_of_tail_ne_nil hq, ← hdirectories] at hlast
  have hupper : capitalize root = root := hlast.symm
  exact .inr ⟨root, hupper, rfl, by rw [← hdirectories, directories, hupper]⟩

/-- Two namespaces whose files go to one place are the same, or meet there. -/
theorem eq_or_meet_of_placeOf_eq (hp : p ≠ []) (hq : q ≠ [])
    (h : placeOf top extension p = placeOf top extension q) : p = q ∨ Meet p q ∨ Meet q p := by
  obtain ⟨root, below, rfl⟩ := List.exists_cons_of_ne_nil hp
  obtain ⟨other, under, rfl⟩ := List.exists_cons_of_ne_nil hq
  rcases eq_or_ne below [] with rfl | hbelow <;> rcases eq_or_ne under [] with rfl | hunder
  · exact .inl (congrArg (fun r => [r]) (placeOf_inj.1 h).2)
  · exact .inr (.inl (meet_of_placeOf_root_eq hunder h))
  · exact .inr (.inr (meet_of_placeOf_root_eq hbelow h.symm))
  · have hdirectories := (placeOf_inj.1 h).1
    have htails : (root :: below).tail = (other :: under).tail := by
      rwa [directories_of_tail_ne_nil (by exact hbelow), directories_of_tail_ne_nil (by exact hunder)]
        at hdirectories
    exact .inr (.inl (.inl ⟨hbelow, htails⟩))

/-! ## The paths of all files -/

variable {s : Style}

/-- The folded path of a file. -/
def GeneratedFile.place (f : GeneratedFile) : Path :=
  (Path.parse f.path).normalize

theorem Style.header_inward (h : Plain scope) (loaders : List Loader) :
    Inward (s.header scope loaders).path ∧
      (s.header scope loaders).place = placeOf "include" ".hpp" (segments scope) :=
  h.inward_path "include" ".hpp" ⟨by decide, by decide, by decide, by decide⟩ (by decide) (by decide)

theorem Style.source_inward (h : Plain scope) (loaders : List Loader) :
    Inward (s.source scope loaders).path ∧
      (s.source scope loaders).place = placeOf "src" ".cpp" (segments scope) :=
  h.inward_path "src" ".cpp" ⟨by decide, by decide, by decide, by decide⟩ (by decide) (by decide)

theorem placeOf_include_ne_src : placeOf "include" ".hpp" p ≠ placeOf "src" ".cpp" q := by
  intro h
  have hsteps := congrArg Path.steps h
  rw [placeOf, placeOf] at hsteps
  exact absurd (List.cons.inj hsteps).1 (by decide)

theorem Style.places_eq (h : ∀ scope, s.Emits scope → Plain scope) :
    s.files.map (·.place) = s.spaces.flatMap fun scope =>
      [placeOf "include" ".hpp" (segments scope), placeOf "src" ".cpp" (segments scope)] := by
  rw [files_eq, List.map_flatMap]
  refine List.flatMap_congr fun scope hscope => ?_
  have hplain := h scope (mem_spaces_iff.1 hscope)
  rw [List.map_cons, List.map_cons, (header_inward hplain _).2, (source_inward hplain _).2, List.map_nil]

/-- No two of the namespaces that have files meet. -/
def Style.Apart (s : Style) : Prop :=
  ∀ scope other, s.Emits scope → s.Emits other → Meet (segments scope) (segments other) → scope = other

/-- Where the names of namespaces are plain, all files go to places of their own exactly if no two of the
namespaces that have files meet. -/
theorem Style.nodup_places_iff (h : ∀ scope, s.Emits scope → Plain scope) :
    (s.files.map (·.place)).Nodup ↔ s.Apart := by
  rw [places_eq h, List.nodup_flatMap]
  constructor
  · rintro ⟨-, hpairwise⟩ scope other hscope hother hmeet
    by_contra hne
    have hsymm : Std.Symm (Function.onFun List.Disjoint fun scope =>
        [placeOf "include" ".hpp" (segments scope), placeOf "src" ".cpp" (segments scope)]) :=
      ⟨fun _ _ hdisjoint => hdisjoint.symm⟩
    -- Already the headers of two namespaces that meet go to one place.
    have hdisjoint := hpairwise.forall (mem_spaces_iff.2 hscope) (mem_spaces_iff.2 hother) hne
    refine hdisjoint List.mem_cons_self ?_
    rw [placeOf_eq_of_meet hmeet]
    exact List.mem_cons_self
  · intro hmeet
    refine ⟨fun scope _ => ?_, ?_⟩
    · rw [List.nodup_cons, List.mem_singleton]
      exact ⟨placeOf_include_ne_src, List.nodup_singleton _⟩
    · have hnodup : s.spaces.Nodup := s.pairwise_spaces.imp fun hlt => hlt.ne
      refine hnodup.pairwise_of_forall_ne fun scope hscope other hother hne => ?_
      have hplace (top extension : String) :
          placeOf top extension (segments other) ≠ placeOf top extension (segments scope) := by
        intro heq
        have hscope := mem_spaces_iff.1 hscope
        have hother := mem_spaces_iff.1 hother
        rcases eq_or_meet_of_placeOf_eq (segments_ne_nil _) (segments_ne_nil _) heq with heq | h | h
        · exact hne (segments_injective heq).symm
        · exact hne (hmeet other scope hother hscope h).symm
        · exact hne (hmeet scope other hscope hother h)
      simp [Function.onFun, hplace, placeOf_include_ne_src, placeOf_include_ne_src.symm]

theorem Style.leadApart_files (h : ∀ scope, s.Emits scope → Plain scope) (happart : s.Apart)
    (directory : String) : Disk.LeadApart directory s.files := by
  have hinward : ∀ f ∈ s.files, Inward f.path := by
    intro f hf
    rw [files_eq, List.mem_flatMap] at hf
    obtain ⟨scope, hscope, hf⟩ := hf
    have hplain := h scope (mem_spaces_iff.1 hscope)
    rcases List.mem_pair.1 hf with rfl | rfl
    · exact (header_inward hplain _).1
    · exact (source_inward hplain _).1
  refine Disk.leadApart_of_nodup hinward (List.Nodup.of_map (Path.mk false) ?_)
  have hplaces : s.files.map (·.place) =
      (s.files.map fun f => Text.pieces '/' f.path).map (Path.mk false) := by
    rw [List.map_map]
    exact List.map_congr_left fun f hf => (hinward f hf).normalize_parse
  rw [← hplaces]
  exact (nodup_places_iff h).2 happart

/-- Where the names of namespaces are plain, all files go to places of their own exactly if no two of the
namespaces that have files meet, and then all files have their own contents once they are written. -/
theorem Style.files_kept (h : ∀ scope, s.Emits scope → Plain scope) :
    ((s.files.map (·.place)).Nodup ↔ s.Apart) ∧ ∀ (directory : String) (d d' : Disk), s.Apart →
      (Pipeline.writeFiles Disk.store directory s.files).run.run d = (.ok (), d') →
        ∀ f ∈ s.files, d'.read (FileStore.pathFrom directory f.path) = .ok f.contents :=
  ⟨nodup_places_iff h, fun directory _ _ happart hrun =>
    Disk.read_writeFiles (leadApart_files h happart directory) hrun⟩

/-- Enumerations in an outermost namespace and in one inside of it. -/
def shapes : Style where
  db := { enums := .ofList [("ns::E", { name := "E", scope := "ns" }),
    ("ns::a::F", { name := "F", scope := "ns::a" })] }
  flavour := {}
  roots := []

/-- A disk with the files of these namespaces. -/
def shapesDisk : Disk :=
  ((Pipeline.writeFiles Disk.store "out" shapes.files).run.run {}).2

/-- Files are put together from their paths and their contents. -/
theorem zipWith_paths_contents (files : List GeneratedFile) :
    List.zipWith GeneratedFile.mk (files.map (·.path)) (files.map (·.contents)) = files := by
  rw [List.zipWith_map, List.zipWith_self]
  exact List.map_id files

theorem shapes_written :
    (Pipeline.writeFiles Disk.store "out" shapes.files).run.run {} = (.ok (), shapesDisk) := by
  have hpaths : shapes.files.map (·.path) = ["include/Bindings/Ns/ns.hpp", "src/Bindings/Ns/ns.cpp",
      "include/Bindings/a/a.hpp", "src/Bindings/a/a.cpp"] := by decide +kernel
  have hdone : ((Pipeline.writeFiles Disk.store "out" shapes.files).run.run {}).1 = .ok () := by
    -- The paths are worked out once, and the contents are left as they are.
    rw [← zipWith_paths_contents shapes.files, hpaths]
    decide +kernel
  rw [shapesDisk, ← hdone, Prod.eta]

theorem Style.files_kept_shapes : (∀ scope, shapes.Emits scope → Plain scope) ∧ shapes.Apart ∧
    (Pipeline.writeFiles Disk.store "out" shapes.files).run.run {} = (.ok (), shapesDisk) ∧
    (shapes.files.map (·.place)).Nodup ∧
    ∀ f ∈ shapes.files, shapesDisk.read (FileStore.pathFrom "out" f.path) = .ok f.contents := by
  have hemits (scope : String) (h : shapes.Emits scope) : scope ∈ ["ns", "ns::a"] := by
    have hspaces : shapes.spaces = ["ns", "ns::a"] := by decide +kernel
    rw [← hspaces]
    exact mem_spaces_iff.2 h
  have hplain (scope : String) (h : shapes.Emits scope) : Plain scope := by
    have hall : ∀ scope ∈ ["ns", "ns::a"], '/' ∉ scope.toList ∧
        ∀ part ∈ segments scope, ('/' ∉ part.toList ∧ part ≠ "" ∧ part ≠ "." ∧ part ≠ "..") ∧
          ':' ∉ part.toList := by decide +kernel
    obtain ⟨hslash, hsegments⟩ := hall scope (hemits scope h)
    exact ⟨hslash, hsegments⟩
  have hmeet : ∀ scope ∈ ["ns", "ns::a"], ∀ other ∈ ["ns", "ns::a"],
      Meet (segments scope) (segments other) → scope = other := by decide +kernel
  have happart : shapes.Apart := fun scope other hscope hother =>
    hmeet scope (hemits scope hscope) other (hemits other hother)
  obtain ⟨hnodup, hread⟩ := files_kept hplain
  exact ⟨hplain, happart, shapes_written, hnodup.2 happart, hread "out" {} shapesDisk happart shapes_written⟩

/-- Enumerations in namespaces of one name, in two outermost namespaces. -/
def twins : Style where
  db := { enums := .ofList [("a::x::E", { name := "E", scope := "a::x" }),
    ("b::x::F", { name := "F", scope := "b::x" })] }
  flavour := {}
  roots := []

/-- The files of one namespace have the paths of another one's. -/
theorem Style.not_nodup_paths : ¬ ∀ s : Style, (s.files.map (·.path)).Nodup := by
  intro h
  have htwins := h twins
  revert htwins
  decide +kernel

end ScriptBindings.Emit
