import Mathlib
import ScriptBindings.Pipeline
import ScriptBindings.Store.Memory
import ScriptBindings.Proofs.Dict
import ScriptBindings.Proofs.Except
import ScriptBindings.Proofs.Path

/-!
# Files that are written

Where a path leads does not depend on what else is on the disk, as long as it leads anywhere.  Making
directories changes no file, and writing a file changes this file alone and leaves all directories in place.
So files that are written one after the other are all on the disk in the end, with the contents that they
were given, unless two of their paths lead to one place.
-/

namespace ScriptBindings.Disk

variable {d d' : Disk} {place next next' : Path} {s path contents : String}

/-! ## Where a path leads -/

theorem step_eq_ok (h : d.step place s = .ok next) : d.kindOf? place = some .directory := by
  unfold step at h
  split at h
  · cases h
  · cases h
  · assumption

/-- What a step leads to is a matter of the two places alone. -/
theorem step_unique (h : d.step place s = .ok next) (h' : d'.step place s = .ok next') : next = next' := by
  have hdirectory := step_eq_ok h
  have hdirectory' := step_eq_ok h'
  simp only [step, hdirectory] at h
  simp only [step, hdirectory'] at h'
  exact Except.ok.inj (h.symm.trans h')

theorem step_of_isStep (hs : IsStep s) (h : d.step place s = .ok next) : next = child place s := by
  obtain ⟨-, hne, hstay, hup⟩ := hs
  have hdirectory := step_eq_ok h
  simp only [step, hdirectory, hne, hstay, hup, or_self, if_false] at h
  split at h
  · cases h
  · exact (Except.ok.inj h).symm

theorem proper_step (hs : '/' ∉ s.toList) (hplace : place.Proper) (h : d.step place s = .ok next) :
    next.Proper := by
  have hdirectory := step_eq_ok h
  simp only [step, hdirectory] at h
  split at h
  · cases h
    exact hplace
  · rename_i hnamed
    split at h
    · unfold above at h
      split at h
      · cases h
      · cases h
        exact fun step hstep => hplace step (List.mem_of_mem_dropLast hstep)
    · split at h
      · cases h
      · cases h
        intro step hstep
        rcases List.mem_append.1 hstep with hmem | hmem
        · exact hplace step hmem
        · obtain rfl := List.mem_singleton.1 hmem
          exact ⟨hs, fun hempty => hnamed (.inl hempty)⟩

/-- All directories of a disk are directories of another one. -/
def Keeps (d d' : Disk) : Prop :=
  ∀ place, d.kindOf? place = some .directory → d'.kindOf? place = some .directory

theorem Keeps.step (h : Keeps d d') (hstep : d.step place s = .ok next) : d'.step place s = .ok next := by
  have hdirectory := step_eq_ok hstep
  have hdirectory' := h place hdirectory
  simp only [Disk.step, hdirectory] at hstep
  simp only [Disk.step, hdirectory', hstep]

variable {steps : List String}

theorem foldlM_step_unique (h : steps.foldlM d.step place = .ok next)
    (h' : steps.foldlM d'.step place = .ok next') : next = next' := by
  induction steps generalizing place with
  | nil => exact Except.ok.inj (h.symm.trans h')
  | cons s steps ih =>
      rw [List.foldlM_cons, bind_eq_ok_iff] at h h'
      obtain ⟨middle, hstep, hrest⟩ := h
      obtain ⟨middle', hstep', hrest'⟩ := h'
      obtain rfl := step_unique hstep hstep'
      exact ih hrest hrest'

theorem Keeps.foldlM_step (h : Keeps d d') (hsteps : steps.foldlM d.step place = .ok next) :
    steps.foldlM d'.step place = .ok next := by
  induction steps generalizing place with
  | nil => exact hsteps
  | cons s steps ih =>
      rw [List.foldlM_cons, bind_eq_ok_iff] at hsteps ⊢
      obtain ⟨middle, hstep, hrest⟩ := hsteps
      exact ⟨middle, h.step hstep, ih hrest⟩

theorem proper_foldlM_step (hsteps : ∀ s ∈ steps, '/' ∉ s.toList) (hplace : place.Proper)
    (h : steps.foldlM d.step place = .ok next) : next.Proper :=
  of_foldlM_eq_ok hplace (fun s hs _ _ => proper_step (hsteps s hs)) h

theorem foldlM_step_of_isStep (hsteps : ∀ s ∈ steps, IsStep s) (h : steps.foldlM d.step place = .ok next) :
    next = ⟨place.rooted, place.steps ++ steps⟩ := by
  induction steps generalizing place with
  | nil =>
      cases h
      rw [List.append_nil]
  | cons s steps ih =>
      rw [List.foldlM_cons, bind_eq_ok_iff] at h
      obtain ⟨middle, hstep, hrest⟩ := h
      rw [ih (fun s hs => hsteps s (List.mem_cons_of_mem _ hs)) hrest,
        step_of_isStep (hsteps s List.mem_cons_self) hstep, child, List.append_assoc]
      rfl

theorem locate_eq_ok_iff : d.locate path = .ok place ↔ FileStore.refusal? path = none ∧
    (Text.pieces '/' path).foldlM d.step (startOf path) = .ok place := by
  unfold locate
  cases FileStore.refusal? path with
  | none => simp
  | some e => simp

theorem Keeps.locate (h : Keeps d d') (hplace : d.locate path = .ok place) : d'.locate path = .ok place :=
  locate_eq_ok_iff.2 ((locate_eq_ok_iff.1 hplace).imp_right h.foldlM_step)

theorem proper_of_locate (h : d.locate path = .ok place) : place.Proper :=
  proper_foldlM_step (fun _ hs => Path.no_slash_of_mem_pieces hs) (by simp [Path.Proper, startOf])
    (locate_eq_ok_iff.1 h).2

/-! ## Making directories -/

/-- The files are the same, and there are no fewer directories. -/
structure Grows (d d' : Disk) : Prop where
  files : d'.files = d.files
  directories : ∀ key, d.directories.contains key = true → d'.directories.contains key = true

theorem Grows.refl (d : Disk) : Grows d d := ⟨rfl, fun _ h => h⟩

theorem Grows.trans {d'' : Disk} (h : Grows d d') (h' : Grows d' d'') : Grows d d'' :=
  ⟨h'.files.trans h.files, fun key hkey => h'.directories key (h.directories key hkey)⟩

theorem Grows.keeps (h : Grows d d') : Keeps d d' := by
  intro place hplace
  unfold kindOf? at hplace ⊢
  rw [h.files]
  split at hplace
  · cases hplace
  · split at hplace
    · rename_i hdirectory
      rw [if_pos]
      rw [Bool.or_eq_true] at hdirectory ⊢
      exact hdirectory.imp_right (h.directories _)
    · cases hplace

theorem grows_makeOne {start : Path} (h : d.makeOne start steps = .ok d') : Grows d d' := by
  unfold makeOne at h
  obtain ⟨place, -, h⟩ := bind_eq_ok_iff.1 h
  split at h
  · cases h
  · cases h
    refine ⟨rfl, fun key hkey => ?_⟩
    simp only [Dict.contains, Dict.get?_insert] at hkey ⊢
    split
    · rfl
    · exact hkey

theorem grows_ensure {start : Path} (h : d.ensure start steps = .ok d') : Grows d d' := by
  unfold ensure at h
  split at h
  · split at h
    · cases h
      exact .refl d
    · cases h
  · exact grows_makeOne h

theorem grows_makeAll {start : Path} {behind : List String} (h : d.makeAll start behind steps = .ok d') :
    Grows d d' := by
  induction steps generalizing behind d' with
  | nil =>
      cases h
      exact .refl d
  | cons s above ih =>
      rw [makeAll] at h
      split at h
      · obtain ⟨middle, hmiddle, hlast⟩ := bind_eq_ok_iff.1 h
        exact (ih hmiddle).trans (grows_ensure hlast)
      · exact grows_ensure h

theorem grows_makeDirectory (h : d.makeDirectory path = .ok d') : Grows d d' := by
  unfold makeDirectory at h
  split at h
  · split at h
    · cases h
      exact .refl d
    · cases h
  · exact grows_makeAll h

/-! ## Writing a file -/

theorem write_eq_ok (h : d.write path contents = .ok d') : ∃ place, d.locate path = .ok place ∧
    d.kindOf? place ≠ some .directory ∧
      d' = { d with files := d.files.insert place.text contents } := by
  unfold write at h
  obtain ⟨place, hplace, h⟩ := bind_eq_ok_iff.1 h
  refine ⟨place, hplace, ?_⟩
  split at h
  · cases h
  · rename_i hkind
    cases h
    exact ⟨hkind, rfl⟩

/-- A file that is written is not in the way of a directory. -/
theorem keeps_write (hproper : place.Proper) (hkind : d.kindOf? place ≠ some .directory) :
    Keeps d { d with files := d.files.insert place.text contents } := by
  intro other hother
  have hne : other.text ≠ place.text := by
    intro htext
    unfold kindOf? at hkind hother
    rw [htext] at hother
    split at hother
    · cases hother
    · rename_i hnone
      simp only [hnone] at hkind
      -- Only the top is a directory without being listed as one, and no other place has its text.
      have hplace : ¬ (place.steps.isEmpty || d.directories.contains place.text) = true :=
        fun hdirectory => hkind (if_pos hdirectory)
      rw [Bool.or_eq_true, not_or] at hplace
      have htop : other.steps = [] := by
        split at hother
        · rename_i hdirectory
          rw [Bool.or_eq_true] at hdirectory
          exact List.isEmpty_iff.1 (hdirectory.resolve_right hplace.2)
        · cases hother
      have hsame : other = place := Path.eq_of_text_eq (by simp [Path.Proper, htop]) hproper htext
      exact hplace.1 (List.isEmpty_iff.2 (hsame ▸ htop))
  unfold kindOf? at hother ⊢
  rw [Dict.get?_insert, if_neg hne]
  exact hother

theorem read_of_locate (h : d.locate path = .ok place) (hfile : d.files.get? place.text = some contents) :
    d.read path = .ok contents := by
  have hkind : d.kindOf? place = some (.file contents) := by rw [kindOf?, hfile]
  rw [read, h]
  simp only [bind, Except.bind, hkind]
  rfl

/-! ## Writing many files -/

open Pipeline Emit

variable {directory : String} {f : GeneratedFile} {files : List GeneratedFile}

theorem run_bind_eq_ok {α β : Type} {x : ExceptT Failure (StateM Disk) α}
    {k : α → ExceptT Failure (StateM Disk) β} {b : β} (h : (x >>= k).run.run d = (.ok b, d')) :
    ∃ a middle, x.run.run d = (.ok a, middle) ∧ (k a).run.run middle = (.ok b, d') := by
  rw [ExceptT.run_bind, StateT.run_bind] at h
  cases hrun : x.run.run d with
  | mk result middle =>
      rw [hrun] at h
      cases result with
      | error e => cases h
      | ok a => exact ⟨a, middle, rfl, h⟩

theorem run_change (f : Disk → Except StoreError Disk) (d : Disk) :
    (change f).run d = match f d with
      | .ok d' => (.ok (), d')
      | .error e => (.error e, d) := by
  unfold change
  simp only [StateT.run_bind, StateT.run_get, pure_bind]
  cases f d with
  | ok d' => rfl
  | error e => rfl

theorem run_storing_change_eq_ok {context : List String} {f : Disk → Except StoreError Disk}
    (h : (storing context (change f)).run.run d = (.ok (), d')) : f d = .ok d' := by
  have hrun : (storing context (change f)).run.run d =
      (((change f).run d).1.mapError fun e => ⟨context, .store e⟩, ((change f).run d).2) := rfl
  rw [hrun, run_change] at h
  cases hf : f d with
  | error e =>
      rw [hf] at h
      cases h
  | ok result =>
      rw [hf] at h
      cases h
      rfl

theorem store_makeDirectory (path : String) :
    store.makeDirectory path = change fun d => d.makeDirectory path := rfl

theorem store_write (path contents : String) :
    store.write path contents = change fun d => d.write path contents := rfl

/-- The run for a file: its directory is made, then it is written, and then come the other files. -/
theorem writeFiles_cons_eq_ok {result : Disk}
    (h : (writeFiles store directory (f :: files)).run.run d = (.ok (), result)) : ∃ made written,
      d.makeDirectory (FileStore.directoryOf (FileStore.pathFrom directory f.path)) = .ok made ∧
      made.write (FileStore.pathFrom directory f.path) f.contents = .ok written ∧
      (writeFiles store directory files).run.run written = (.ok (), result) := by
  rw [writeFiles] at h
  obtain ⟨_, made, hmade, h⟩ := run_bind_eq_ok h
  obtain ⟨_, written, hwritten, h⟩ := run_bind_eq_ok h
  rw [store_makeDirectory] at hmade
  rw [store_write] at hwritten
  have hdirectory := run_storing_change_eq_ok hmade
  have hfile := run_storing_change_eq_ok hwritten
  exact ⟨made, written, hdirectory, hfile, h⟩

/-- Files that are written leave directories in place, and every file that none of their paths leads to. -/
theorem kept_writeFiles {result : Disk}
    (h : (writeFiles store directory files).run.run d = (.ok (), result)) :
    Keeps d result ∧ ∀ place, place.Proper →
      (∀ f ∈ files, ∀ e : Disk, e.locate (FileStore.pathFrom directory f.path) ≠ .ok place) →
        result.files.get? place.text = d.files.get? place.text := by
  induction files generalizing d with
  | nil =>
      obtain ⟨-, rfl⟩ := Prod.mk.inj h
      exact ⟨fun _ hplace => hplace, fun _ _ _ => rfl⟩
  | cons f files ih =>
      obtain ⟨made, written, hmade, hwritten, hrest⟩ := writeFiles_cons_eq_ok h
      obtain ⟨other, hother, hkind, rfl⟩ := write_eq_ok hwritten
      obtain ⟨hkeeps, hfiles⟩ := ih hrest
      have hgrows := grows_makeDirectory hmade
      have hproper := proper_of_locate hother
      refine ⟨fun place hplace => hkeeps place (keeps_write hproper hkind place (hgrows.keeps place hplace)),
        fun place hplace happart => ?_⟩
      have hne : place.text ≠ other.text := fun htext =>
        happart f List.mem_cons_self made (Path.eq_of_text_eq hplace hproper htext ▸ hother)
      rw [hfiles place hplace fun g hg => happart g (List.mem_cons_of_mem _ hg), Dict.get?_insert,
        if_neg hne, hgrows.files]

/-! ## Paths that lead apart -/

/-- No two paths of the files lead to one place. -/
def LeadApart (directory : String) (files : List GeneratedFile) : Prop :=
  files.Pairwise fun f g => ∀ (e e' : Disk) place,
    e.locate (FileStore.pathFrom directory f.path) = .ok place →
      e'.locate (FileStore.pathFrom directory g.path) ≠ .ok place

/-- From every directory, relative paths lead on from one place. -/
theorem exists_lead (directory : String) : ∃ (rooted : Bool) (lead : List String), ∀ path,
    Text.startsWith "/" path = false → startOf (FileStore.pathFrom directory path) = ⟨rooted, []⟩ ∧
      Text.pieces '/' (FileStore.pathFrom directory path) = lead ++ Text.pieces '/' path := by
  by_cases hempty : directory = ""
  · refine ⟨false, [], fun path hpath => ?_⟩
    rw [FileStore.pathFrom, if_pos (.inl hempty)]
    exact ⟨by rw [startOf, hpath], rfl⟩
  obtain ⟨c, rest, hchars⟩ := List.exists_cons_of_ne_nil (mt String.toList_eq_nil_iff.1 hempty)
  have hstart (s : String) : startOf (directory ++ s) = startOf directory := by
    simp [startOf, Text.startsWith, hchars, List.isPrefixOf]
  have hfrom {path : String} (hpath : Text.startsWith "/" path = false) :
      ¬ (directory = "" ∨ Text.startsWith "/" path = true) := by
    simp [hempty, hpath]
  -- The directory is put in front as it is, but for the slash that is set behind it if it has none.
  by_cases hslash : Text.endsWith "/" directory = true
  · obtain ⟨front, hfront⟩ := List.isSuffixOf_iff_suffix.1 hslash
    obtain rfl : String.ofList front ++ "/" = directory := by
      rw [← String.toList_inj, String.toList_append, String.toList_ofList, hfront]
    refine ⟨Text.startsWith "/" (String.ofList front ++ "/"), Text.pieces '/' (String.ofList front),
      fun path hpath => ?_⟩
    rw [FileStore.pathFrom, if_neg (hfrom hpath), if_pos hslash]
    exact ⟨hstart path, Path.pieces_append_slash _ _⟩
  · refine ⟨Text.startsWith "/" directory, Text.pieces '/' directory, fun path hpath => ?_⟩
    rw [FileStore.pathFrom, if_neg (hfrom hpath), if_neg hslash]
    exact ⟨by rw [String.append_assoc]; exact hstart _, Path.pieces_append_slash _ _⟩

/-- Paths that only lead inwards lead to one place only if they take the same steps. -/
theorem pieces_eq_of_locate {path' : String} (h : Path.Inward path) (h' : Path.Inward path')
    (hplace : d.locate (FileStore.pathFrom directory path) = .ok place)
    (hplace' : d'.locate (FileStore.pathFrom directory path') = .ok place) :
    Text.pieces '/' path = Text.pieces '/' path' := by
  obtain ⟨rooted, lead, hlead⟩ := exists_lead directory
  obtain ⟨hstart, hpieces⟩ := hlead path h.relative
  obtain ⟨hstart', hpieces'⟩ := hlead path' h'.relative
  have hsteps := (locate_eq_ok_iff.1 hplace).2
  have hsteps' := (locate_eq_ok_iff.1 hplace').2
  rw [hstart, hpieces, List.foldlM_append, bind_eq_ok_iff] at hsteps
  rw [hstart', hpieces', List.foldlM_append, bind_eq_ok_iff] at hsteps'
  obtain ⟨middle, hmiddle, hrest⟩ := hsteps
  obtain ⟨middle', hmiddle', hrest'⟩ := hsteps'
  -- Both paths start in one place, and from there on each of their steps leads one level down.
  obtain rfl := foldlM_step_unique hmiddle hmiddle'
  have hfirst := foldlM_step_of_isStep h.isStep hrest
  have hsecond := foldlM_step_of_isStep h'.isStep hrest'
  rw [hfirst] at hsecond
  exact List.append_cancel_left (Path.mk.inj hsecond).2

/-- Paths that only lead inwards lead apart unless they take the same steps. -/
theorem leadApart_of_nodup (h : ∀ f ∈ files, Path.Inward f.path)
    (hnodup : (files.map fun f => Text.pieces '/' f.path).Nodup) : LeadApart directory files := by
  refine (List.pairwise_map.1 hnodup).imp_of_mem fun hf hg hne e e' place hplace hplace' => hne ?_
  exact pieces_eq_of_locate (h _ hf) (h _ hg) hplace hplace'

/-- Files that lead apart are all there once they are written. -/
theorem read_writeFiles {result : Disk} (happart : LeadApart directory files)
    (h : (writeFiles store directory files).run.run d = (.ok (), result)) :
    ∀ f ∈ files, result.read (FileStore.pathFrom directory f.path) = .ok f.contents := by
  induction files generalizing d with
  | nil => exact fun f hf => absurd hf List.not_mem_nil
  | cons g files ih =>
      obtain ⟨hfirst, hlater⟩ := List.pairwise_cons.1 happart
      obtain ⟨made, written, -, hwritten, hrest⟩ := writeFiles_cons_eq_ok h
      intro f hf
      rcases List.mem_cons.1 hf with rfl | hf
      · -- The file is there once it is written, and none of the later ones leads to its place.
        obtain ⟨place, hplace, hkind, rfl⟩ := write_eq_ok hwritten
        obtain ⟨hkeeps, hfiles⟩ := kept_writeFiles hrest
        have hproper := proper_of_locate hplace
        refine read_of_locate (hkeeps.locate ((keeps_write hproper hkind).locate hplace)) ?_
        rw [hfiles place hproper fun g hg e => hfirst g hg made e place hplace, Dict.get?_insert, if_pos rfl]
      · exact ih hlater hrest f hf

end ScriptBindings.Disk
