import Mathlib
import ScriptBindings.Path

/-!
# Where folded paths lead

A path is a walk through directories: a name enters one, a step up leaves the innermost one, and the root
directory is its own parent.  What a walk comes to are the directories that it enters and does not leave
again, and the number of directories above its start that it leaves.

A folded path has no steps that stay in place, and no step up behind a name.  But of two steps up above the
start the second one takes the first one back, and both are lost.  So a folded path leads where the path
leads if that starts at the root directory or climbs one directory at most, and from any place that is deep
enough it leads elsewhere if the path climbs further.  A file is cut off from a root in the same measure:
what is left of its path leads from the root to the file if as many steps up are lost from both.
-/

namespace ScriptBindings

namespace Path

/-! ## Walks -/

/-- A step that enters a directory. -/
def IsName (step : String) : Prop :=
  step ≠ "." ∧ step ≠ ".."

instance (step : String) : Decidable (IsName step) :=
  inferInstanceAs (Decidable (_ ∧ _))

/-- Where a step leads from a place, which is given innermost directory first.  The root directory is its
own parent. -/
def walkStep (place : List String) (step : String) : List String :=
  if step = "." then place
  else if step = ".." then place.tail
  else step :: place

/-- Where steps lead from a place. -/
def walk (place steps : List String) : List String :=
  steps.foldl walkStep place

/-- Where a path starts. -/
def start (p : Path) (current : List String) : List String :=
  if p.rooted then [] else current

/-- Where a path leads from the current directory. -/
def target (p : Path) (current : List String) : List String :=
  walk (p.start current) p.steps

theorem walk_append (place front back : List String) :
    walk place (front ++ back) = walk (walk place front) back :=
  List.foldl_append

theorem walk_names {steps : List String} (h : ∀ step ∈ steps, IsName step) (place : List String) :
    walk place steps = steps.reverse ++ place := by
  induction steps generalizing place with
  | nil => rfl
  | cons step steps ih =>
      obtain ⟨hstay, hup⟩ := h step List.mem_cons_self
      have hstep : walkStep place step = step :: place := by rw [walkStep, if_neg hstay, if_neg hup]
      show walk (walkStep place step) steps = _
      rw [hstep, ih fun step hstep => h step (List.mem_cons_of_mem _ hstep), List.reverse_cons,
        List.append_assoc]
      rfl

theorem walk_up (place : List String) (k : Nat) :
    walk place (List.replicate k "..") = place.drop k := by
  induction k generalizing place with
  | zero => rfl
  | succ k ih =>
      show walk place.tail (List.replicate k "..") = _
      rw [ih, List.drop_tail]

/-! ## What a walk comes to -/

/-- The directories that a walk enters and does not leave again, innermost first, and the number of
directories above its start that it leaves. -/
structure Balance where
  inner : List String
  up : Nat

namespace Balance

/-- Take one more step. -/
def step (b : Balance) (step : String) : Balance :=
  if step = "." then b
  else if step = ".." then
    match b.inner with
    | [] => ⟨[], b.up + 1⟩
    | _ :: outer => ⟨outer, b.up⟩
  else ⟨step :: b.inner, b.up⟩

/-- The place that the walk leads to. -/
def place (b : Balance) (start : List String) : List String :=
  b.inner ++ start.drop b.up

/-- The place that folding arrives at: every two steps up above the start are lost. -/
def folded (b : Balance) : List String :=
  b.inner ++ List.replicate (b.up % 2) ".."

/-- Everything that a step can do. -/
theorem step_cases (b : Balance) (s : String) :
    s = "." ∧ b.step s = b ∨
      s = ".." ∧ b.inner = [] ∧ b.step s = ⟨[], b.up + 1⟩ ∨
      (∃ name outer, s = ".." ∧ b.inner = name :: outer ∧ b.step s = ⟨outer, b.up⟩) ∨
      IsName s ∧ b.step s = ⟨s :: b.inner, b.up⟩ := by
  by_cases hstay : s = "."
  · exact Or.inl ⟨hstay, by rw [step, if_pos hstay]⟩
  by_cases hup : s = ".."
  · obtain ⟨inner, up⟩ := b
    subst hup
    cases inner with
    | nil => exact Or.inr (Or.inl ⟨rfl, rfl, rfl⟩)
    | cons name outer => exact Or.inr (Or.inr (Or.inl ⟨name, outer, rfl, rfl, rfl⟩))
  · exact Or.inr (Or.inr (Or.inr ⟨⟨hstay, hup⟩, by rw [step, if_neg hstay, if_neg hup]⟩))

theorem walkStep_place (b : Balance) (start : List String) (s : String) :
    walkStep (b.place start) s = (b.step s).place start := by
  rcases b.step_cases s with ⟨rfl, hb⟩ | ⟨rfl, hinner, hb⟩ | ⟨name, outer, rfl, hinner, hb⟩ | ⟨hname, hb⟩
  · rw [hb]
    rfl
  · have hplace : b.place start = start.drop b.up := by rw [place, hinner, List.nil_append]
    rw [hb, hplace]
    exact List.tail_drop
  · rw [hb, place, hinner]
    rfl
  · rw [hb, walkStep, if_neg hname.1, if_neg hname.2]
    rfl

theorem foldStep_folded (b : Balance) (s : String) : foldStep b.folded s = (b.step s).folded := by
  rcases b.step_cases s with ⟨rfl, hb⟩ | ⟨rfl, hinner, hb⟩ | ⟨name, outer, rfl, hinner, hb⟩ | ⟨hname, hb⟩
  · rw [hb]
    rfl
  · -- With nothing to leave, a step up is kept, or it takes back the one that was kept.
    rw [hb, folded, hinner, folded, List.nil_append, List.nil_append]
    rcases Nat.mod_two_eq_zero_or_one b.up with heven | hodd
    · rw [heven, show (b.up + 1) % 2 = 1 by omega]
      rfl
    · rw [hodd, show (b.up + 1) % 2 = 0 by omega]
      rfl
  · rw [hb, folded, hinner]
    rfl
  · rw [hb, foldStep.eq_def, if_neg hname.1, if_neg hname.2]
    rfl

theorem foldl_walkStep_place (b : Balance) (start steps : List String) :
    steps.foldl walkStep (b.place start) = (steps.foldl step b).place start := by
  induction steps generalizing b with
  | nil => rfl
  | cons s steps ih => rw [List.foldl_cons, List.foldl_cons, walkStep_place, ih]

theorem foldl_foldStep_folded (b : Balance) (steps : List String) :
    steps.foldl foldStep b.folded = (steps.foldl step b).folded := by
  induction steps generalizing b with
  | nil => rfl
  | cons s steps ih => rw [List.foldl_cons, List.foldl_cons, foldStep_folded, ih]

end Balance

variable {p root file : Path} {current steps rest : List String} {step : String}

/-- What steps come to. -/
def balance (steps : List String) : Balance :=
  steps.foldl Balance.step ⟨[], 0⟩

/-- The number of directories above its start that a path leaves. -/
def climb (p : Path) : Nat :=
  (balance p.steps).up

theorem balance_concat (steps : List String) (s : String) :
    balance (steps ++ [s]) = (balance steps).step s := by
  rw [balance, List.foldl_append]
  rfl

theorem isName_of_mem_inner {name : String} (h : name ∈ (balance steps).inner) : IsName name := by
  induction steps using List.reverseRecOn with
  | nil => cases h
  | append_singleton steps s ih =>
      rw [balance_concat] at h
      rcases (balance steps).step_cases s with
        ⟨-, hb⟩ | ⟨-, hinner, hb⟩ | ⟨first, outer, -, hinner, hb⟩ | ⟨hname, hb⟩
      · rw [hb] at h
        exact ih h
      · rw [hb] at h
        cases h
      · rw [hb] at h
        exact ih (hinner ▸ List.mem_cons_of_mem first h)
      · rw [hb] at h
        rcases List.mem_cons.1 h with rfl | h
        · exact hname
        · exact ih h

/-- Steps up that are not lost in the directories entered before lead above the start. -/
theorem count_balance (steps : List String) :
    steps.count ".." + (balance steps).inner.length =
      steps.countP (fun step => IsName step) + (balance steps).up := by
  induction steps using List.reverseRecOn with
  | nil => rfl
  | append_singleton steps s ih =>
      rw [balance_concat, List.count_append, List.countP_append]
      -- The step stays, leads up, leads out of the last directory again, or enters one.
      rcases (balance steps).step_cases s with
        ⟨rfl, hb⟩ | ⟨rfl, hinner, hb⟩ | ⟨first, outer, rfl, hinner, hb⟩ | ⟨hname, hb⟩
      · rw [hb]
        simpa [IsName] using ih
      · rw [hinner] at ih
        rw [hb]
        simp [IsName] at ih ⊢
        omega
      · rw [hinner] at ih
        rw [hb]
        simp [IsName] at ih ⊢
        omega
      · rw [hb]
        simp [hname, hname.2] at ih ⊢
        omega

theorem up_balance_concat (steps : List String) (s : String) :
    (balance steps).up ≤ (balance (steps ++ [s])).up ∧
      ((balance (steps ++ [s])).up = (balance steps).up ∨ (balance (steps ++ [s])).inner = []) := by
  rw [balance_concat]
  rcases (balance steps).step_cases s with ⟨-, hb⟩ | ⟨-, -, hb⟩ | ⟨_, _, -, -, hb⟩ | ⟨-, hb⟩
  all_goals simp [hb]

/-- How far steps lead above their start is the largest surplus of steps up in their initial parts. -/
theorem up_balance_le_iff {k : Nat} : (balance steps).up ≤ k ↔
    ∀ front, front <+: steps → front.count ".." ≤ front.countP (fun step => IsName step) + k := by
  induction steps using List.reverseRecOn with
  | nil => simp [balance]
  | append_singleton steps s ih =>
      have hcount := count_balance (steps ++ [s])
      obtain ⟨hle, hcases⟩ := up_balance_concat steps s
      simp only [List.prefix_concat_iff, forall_eq_or_imp, ← ih]
      constructor
      · intro h
        exact ⟨by omega, by omega⟩
      · rintro ⟨hfull, hfront⟩
        rcases hcases with hsame | hnil
        · omega
        · rw [hnil, List.length_nil] at hcount
          omega

theorem climb_le_length (p : Path) : p.climb ≤ p.steps.length :=
  up_balance_le_iff.2 fun _ hfront =>
    (List.count_le_length.trans hfront.length_le).trans (Nat.le_add_left _ _)

/-! ## Targets -/

theorem target_eq (p : Path) (current : List String) :
    p.target current = (balance p.steps).inner ++ (p.start current).drop p.climb :=
  Balance.foldl_walkStep_place ⟨[], 0⟩ (p.start current) p.steps

theorem normalize_eq (p : Path) : p.normalize =
    ⟨p.rooted, List.replicate (p.climb % 2) ".." ++ (balance p.steps).inner.reverse⟩ := by
  have hfold : p.steps.foldl foldStep [] = (balance p.steps).folded :=
    Balance.foldl_foldStep_folded ⟨[], 0⟩ p.steps
  rw [normalize, hfold, Balance.folded, List.reverse_append, List.reverse_replicate]
  rfl

theorem walk_normalize (p : Path) (place : List String) :
    walk place p.normalize.steps = (balance p.steps).inner ++ place.drop (p.climb % 2) := by
  rw [normalize_eq, walk_append, walk_up, walk_names, List.reverse_reverse]
  exact fun step hstep => isName_of_mem_inner (List.mem_reverse.1 hstep)

/-- A path leads where its folded steps lead from further above. -/
theorem target_eq_walk_normalize (p : Path) (current : List String) :
    p.target current = walk ((p.start current).drop (2 * (p.climb / 2))) p.normalize.steps := by
  rw [walk_normalize, List.drop_drop, Nat.div_add_mod, target_eq]

theorem target_normalize (p : Path) (current : List String) :
    p.normalize.target current = walk (p.start current) p.normalize.steps := rfl

/-- Folding keeps the target of a path unless it climbs further than one directory. -/
theorem target_normalize_eq_iff (h : p.steps.length ≤ current.length) :
    p.normalize.target current = p.target current ↔ p.rooted = true ∨ p.climb ≤ 1 := by
  rw [target_normalize, walk_normalize, target_eq, List.append_cancel_left_eq]
  cases hrooted : p.rooted with
  | true => simp [start, hrooted]
  | false =>
      have hstart : p.start current = current := by rw [start, hrooted]; rfl
      have hclimb := p.climb_le_length
      rw [hstart]
      constructor
      · intro hsame
        have hlength := congrArg List.length hsame
        rw [List.length_drop, List.length_drop] at hlength
        exact Or.inr (by omega)
      · rintro (hfalse | hle)
        · cases hfalse
        · rw [Nat.mod_eq_of_lt (by omega)]

/-! ## Folded paths -/

/-- No step stays in place, and no step up follows a name. -/
structure Folded (p : Path) : Prop where
  moves : "." ∉ p.steps
  up_first : ∀ name, IsName name → ¬ [name, ".."] <:+: p.steps

/-- The steps of a folded path: at most one step up, then names. -/
theorem exists_steps_normalize (p : Path) : ∃ names, (∀ name ∈ names, IsName name) ∧
    p.normalize.steps = List.replicate (p.climb % 2) ".." ++ names :=
  ⟨(balance p.steps).inner.reverse, fun _ hname => isName_of_mem_inner (List.mem_reverse.1 hname),
    congrArg Path.steps (normalize_eq p)⟩

/-- Behind the first step of a folded path there are only names. -/
theorem isName_of_mem_tail_normalize (h : step ∈ p.normalize.steps.tail) : IsName step := by
  obtain ⟨names, hnames, hsteps⟩ := exists_steps_normalize p
  rw [hsteps] at h
  rcases Nat.mod_two_eq_zero_or_one p.climb with heven | hodd
  · rw [heven] at h
    exact hnames step (List.mem_of_mem_tail h)
  · rw [hodd] at h
    exact hnames step h

theorem folded_normalize (p : Path) : Folded p.normalize := by
  constructor
  · obtain ⟨names, hnames, hsteps⟩ := exists_steps_normalize p
    rw [hsteps]
    intro hmem
    rcases List.mem_append.1 hmem with h | h
    · exact absurd (List.eq_of_mem_replicate h) (by decide)
    · exact (hnames "." h).1 rfl
  · rintro name - ⟨front, back, hsplit⟩
    have htail : ".." ∈ p.normalize.steps.tail := by
      rw [← hsplit]
      cases front <;> simp
    exact (isName_of_mem_tail_normalize htail).2 rfl

/-! ## What is left of a file's path behind a root -/

/-- The folded root stands at the front of the folded file, and `rest` is what follows.  The folded path
that goes nowhere stands at the front of every path. -/
structure Below (root file : Path) (rest : List String) : Prop where
  alike : root.normalize = here ∨ root.rooted = file.rooted
  split : file.normalize.steps = root.normalize.steps ++ rest

theorem below?_eq_some_iff : below? root.normalize file.normalize = some rest ↔ Below root file rest := by
  rw [below?]
  by_cases hhere : root.normalize = here
  · have hsteps : root.normalize.steps = [] := by rw [hhere]; rfl
    rw [if_pos hhere, Option.some.injEq]
    constructor
    · intro h
      exact ⟨Or.inl hhere, by rw [hsteps, h, List.nil_append]⟩
    · intro h
      rw [h.split, hsteps, List.nil_append]
  · rw [if_neg hhere]
    by_cases halike : root.rooted = file.rooted
    · have halike' : root.normalize.rooted = file.normalize.rooted := halike
      rw [if_pos halike', List.isPrefixOf?_eq_some_iff_append_eq]
      exact ⟨fun h => ⟨Or.inr halike, h.symm⟩, fun h => h.split.symm⟩
    · have halike' : ¬ root.normalize.rooted = file.normalize.rooted := halike
      rw [if_neg halike']
      exact ⟨nofun, fun h => (h.alike.elim hhere halike).elim⟩

/-- The rest leads from the root to the file if folding moves both in the same way. -/
theorem Below.walk_eq_target_iff (h : Below root file rest) (current : List String) :
    walk (root.target current) rest = file.target current ↔
      (root.start current).drop (2 * (root.climb / 2) + file.climb % 2) =
        (file.start current).drop file.climb := by
  rw [target_eq_walk_normalize root, ← walk_append, ← h.split, walk_normalize, target_eq,
    List.append_cancel_left_eq, List.drop_drop]

/-- The same number of steps up is lost from the paths of root and file, and both start at the same place. -/
structure LostAlike (root file : Path) : Prop where
  alike : root.rooted = file.rooted
  lost : root.rooted = true ∨ root.climb / 2 = file.climb / 2

/-- From paths that folding does not lead elsewhere the same is lost, namely nothing. -/
theorem Below.lostAlike_of_climb_le (h : Below root file rest) (hne : root.normalize ≠ here)
    (hroot : root.rooted = true ∨ root.climb ≤ 1) (hfile : file.rooted = true ∨ file.climb ≤ 1) :
    LostAlike root file := by
  have halike : root.rooted = file.rooted := h.alike.resolve_left hne
  refine ⟨halike, ?_⟩
  rcases hroot with hroot | hroot
  · exact Or.inl hroot
  · rcases hfile with hfile | hfile
    · exact Or.inl (halike.trans hfile)
    · exact Or.inr (by omega)

theorem Below.walk_eq_target (h : Below root file rest) (hlost : LostAlike root file)
    (current : List String) : walk (root.target current) rest = file.target current := by
  rw [h.walk_eq_target_iff, start, start, ← hlost.alike]
  rcases hlost.lost with hrooted | hclimb
  · rw [if_pos hrooted, List.drop_nil, List.drop_nil]
  · rw [hclimb, Nat.div_add_mod]

theorem Below.lostAlike (h : Below root file rest)
    (hdeep : root.steps.length + file.steps.length < current.length)
    (htarget : walk (root.target current) rest = file.target current) : LostAlike root file := by
  have hroot := root.climb_le_length
  have hfile := file.climb_le_length
  have hlength := congrArg List.length ((h.walk_eq_target_iff current).1 htarget)
  rw [List.length_drop, List.length_drop, start, start] at hlength
  -- The directory is deep, so that the starts differ in length unless the same steps are lost.
  cases hrooted : root.rooted with
  | true =>
      rcases h.alike with hhere | halike
      · have hrelative : root.rooted = false := congrArg Path.rooted hhere
        rw [hrooted] at hrelative
        cases hrelative
      · exact ⟨halike, Or.inl hrooted⟩
  | false =>
      cases hrooted' : file.rooted with
      | true =>
          simp only [hrooted, hrooted', if_pos, Bool.false_eq_true, if_false, List.length_nil] at hlength
          omega
      | false =>
          simp only [hrooted, hrooted', Bool.false_eq_true, if_false] at hlength
          exact ⟨by rw [hrooted, hrooted'], Or.inr (by omega)⟩

/-- The directories of the root are the outermost directories of what stands below it. -/
theorem Below.suffix_walk (h : Below root file rest) (hne : root.normalize ≠ here)
    (current : List String) : root.target current <:+ walk (root.target current) rest := by
  by_cases hsteps : root.normalize.steps = []
  · have hrooted : root.rooted = true := by
      by_contra hrelative
      refine hne ?_
      calc root.normalize = ⟨root.rooted, root.normalize.steps⟩ := rfl
        _ = here := by rw [hsteps, Bool.eq_false_of_not_eq_true hrelative]; rfl
    rw [target_eq_walk_normalize root, hsteps, start, if_pos hrooted, List.drop_nil]
    exact List.nil_suffix
  · have hnames : ∀ step ∈ rest, IsName step := by
      intro step hstep
      refine isName_of_mem_tail_normalize (p := file) ?_
      rw [h.split, List.tail_append_of_ne_nil hsteps]
      exact List.mem_append_right _ hstep
    rw [walk_names hnames]
    exact List.suffix_append _ _

/-! ## Files without their roots -/

/-- The path of a file from a project's directory: what is left behind the directory, if it leads somewhere
and stands in front of the file, and else the whole path. -/
inductive Relative (file root : String) : String → Prop
  | below {rest : List String} (h : Below (parse root) (parse file) rest)
      (hne : (parse root).normalize ≠ here) : Relative file root (steppedText rest)
  | whole (h : (parse root).normalize = here ∨ ∀ rest, ¬ Below (parse root) (parse file) rest) :
      Relative file root (parse file).normalize.text

/-- The path of a file from the first root that stands in front of it, and its steps if there is none. -/
inductive Rootless (file : String) : List String → String → Prop
  | none : Rootless file [] (steppedText (parse file).normalize.steps)
  | first {root : String} {roots rest : List String} (h : Below (parse root) (parse file) rest) :
      Rootless file (root :: roots) (steppedText rest)
  | later {root text : String} {roots : List String} (h : ∀ rest, ¬ Below (parse root) (parse file) rest)
      (hroots : Rootless file roots text) : Rootless file (root :: roots) text

theorem relative_relativeTo (file root : String) : Relative file root (relativeTo file root) := by
  rw [relativeTo]
  cases hbelow : below? (parse root).normalize (parse file).normalize with
  | none =>
      refine .whole (Or.inr fun rest hrest => ?_)
      rw [below?_eq_some_iff.2 hrest] at hbelow
      cases hbelow
  | some rest =>
      by_cases hhere : (parse root).normalize = here
      · simp only [if_pos hhere]
        exact .whole (Or.inl hhere)
      · simp only [if_neg hhere]
        exact .below (below?_eq_some_iff.1 hbelow) hhere

theorem rootless_withoutRoot (file : String) (roots : List String) :
    Rootless file roots (withoutRoot file roots) := by
  induction roots with
  | nil => exact .none
  | cons root roots ih =>
      rw [withoutRoot, List.findSome?_cons]
      cases hbelow : below? (parse root).normalize (parse file).normalize with
      | none =>
          refine .later (fun rest hrest => ?_) ih
          rw [below?_eq_some_iff.2 hrest] at hbelow
          cases hbelow
      | some rest => exact .first (below?_eq_some_iff.1 hbelow)

/-! ## The whole statement -/

/-- Folding removes all steps that stay in place and all steps up behind names.  It keeps the target of a
path that starts at the root directory or climbs one directory at most, and from a place that is deep enough
it keeps no other.  A file's path is cut behind the folded root.  What is left leads from the root to the
file, so that the root contains the file, if the same number of steps up is lost from both, and from a place
that is deep enough only then. -/
theorem normalize_exact (p root file : Path) (header folder : String) (folders : List String) :
    (Folded p.normalize ∧
      (∀ k, p.climb ≤ k ↔ ∀ front, front <+: p.steps →
        front.count ".." ≤ front.countP (fun step => IsName step) + k) ∧
      ∀ current, p.steps.length ≤ current.length →
        (p.normalize.target current = p.target current ↔ p.rooted = true ∨ p.climb ≤ 1)) ∧
    Relative header folder (relativeTo header folder) ∧
    Rootless header folders (withoutRoot header folders) ∧
    ∀ rest, Below root file rest →
      (root.normalize ≠ here → root.rooted = true ∨ root.climb ≤ 1 →
        file.rooted = true ∨ file.climb ≤ 1 → LostAlike root file) ∧
      (LostAlike root file → ∀ current, walk (root.target current) rest = file.target current ∧
        (root.normalize ≠ here → root.target current <:+ file.target current)) ∧
      ∀ current, root.steps.length + file.steps.length < current.length →
        walk (root.target current) rest = file.target current → LostAlike root file := by
  refine ⟨⟨folded_normalize p, fun k => up_balance_le_iff, fun current hdeep =>
    target_normalize_eq_iff hdeep⟩, relative_relativeTo header folder, rootless_withoutRoot header folders,
    fun rest h => ?_⟩
  refine ⟨fun hne hroot hfile => h.lostAlike_of_climb_le hne hroot hfile, fun hlost current => ?_,
    fun current hdeep htarget => h.lostAlike hdeep htarget⟩
  have htarget := h.walk_eq_target hlost current
  exact ⟨htarget, fun hne => htarget ▸ h.suffix_walk hne current⟩

theorem normalize_exact_neighbours :
    let root := parse "../obe"
    let file := parse "../obe/./src/../include/A.hpp"
    let current := ["lib", "work", "home", "d", "c", "b", "a"]
    file.steps.length ≤ current.length ∧ file.climb ≤ 1 ∧
      file.normalize.target current = file.target current ∧
      Below root file ["include", "A.hpp"] ∧ root.normalize ≠ here ∧ root.climb ≤ 1 ∧
      walk (root.target current) ["include", "A.hpp"] = file.target current ∧
      root.target current <:+ file.target current := by
  intro root file current
  obtain ⟨⟨-, -, hsame⟩, -, -, hbelow⟩ :=
    normalize_exact file root file "../obe/./src/../include/A.hpp" "../obe" ["../obe"]
  have hdeep : file.steps.length ≤ current.length := by decide
  have hfile : file.climb ≤ 1 := by decide
  have hroot : root.climb ≤ 1 := by decide
  have hne : root.normalize ≠ here := by decide
  have hrest : Below root file ["include", "A.hpp"] := below?_eq_some_iff.1 (by decide)
  obtain ⟨hlost, hleads, -⟩ := hbelow _ hrest
  obtain ⟨htarget, hcontains⟩ := hleads (hlost hne (Or.inr hroot) (Or.inr hfile)) current
  exact ⟨hdeep, hfile, (hsame current hdeep).2 (Or.inr hfile), hrest, hne, hroot, htarget, hcontains hne⟩

/-- Two steps up are lost, and a file outside of a directory is taken for one inside of it. -/
theorem not_target_normalize :
    (¬ ∀ (p : Path) (current : List String), p.steps.length ≤ current.length →
      p.normalize.target current = p.target current) ∧
    relativeTo "../../include/A.hpp" "include" = "A.hpp" := by
  constructor
  · intro h
    have hsame := h (parse "../../include/A.hpp") ["d", "c", "b", "a"] (by decide)
    exact absurd hsame (by decide)
  · decide

end Path

end ScriptBindings
