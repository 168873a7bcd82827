import Mathlib
import ScriptBindings.Proofs.FirstOccurrence
import ScriptBindings.Proofs.Resolve.HandedDown
import ScriptBindings.Proofs.Text.Spacing

/-!
# Hooks that classes receive

A class receives the inherit hooks of the classes whose keys are the texts of its bases without template
arguments.  For a class with a plain name these are all classes that derive from it.  A class whose name carries
template arguments is found under its full name everywhere else, but no text without template arguments is
that name, so its inherit hooks reach nobody.  Received hooks are added behind those that are there, each once,
and receiving them again changes nothing.
-/

namespace ScriptBindings

open FirstOccurrence

namespace Name

/-- A text without template arguments has none to lose. -/
@[simp]
theorem withoutTemplateArgs_withoutTemplateArgs (name : String) :
    withoutTemplateArgs (withoutTemplateArgs name) = withoutTemplateArgs name := by
  have hbare : (Text.trimEnd (name.toList.takeWhile (· ≠ '<'))).takeWhile (· ≠ '<') =
      Text.trimEnd (name.toList.takeWhile (· ≠ '<')) := by
    refine List.takeWhile_eq_self_iff.2 fun c hc => ?_
    obtain ⟨back, -, hfront⟩ := Text.exists_trimEnd (name.toList.takeWhile (· ≠ '<'))
    have hmem : c ∈ name.toList.takeWhile (· ≠ '<') := by
      rw [hfront]
      exact List.mem_append_left _ hc
    have hkept := List.mem_takeWhile_imp hmem
    exact hkept
  unfold withoutTemplateArgs
  rw [String.toList_ofList, hbare, Text.trimEnd_eq_self (Text.getLast?_trimEnd _)]

end Name

namespace Resolve

open Database

variable {db : Database} {key base parent : String} {c p : Class} {h : Hook}

/-- The inherit hooks under a key leave a hook to a class, because one of the bases of the class is written as
that key, apart from template arguments: a bind hook whose code names the class wherever the code that is left
has `%childclass%`. -/
def LeftBy (db : Database) (key : String) (c : Class) (parent : String) (h : Hook) : Prop :=
  (∃ base ∈ c.bases, Name.withoutTemplateArgs base = parent) ∧
    ∃ p, db.classes.get? parent = some p ∧
      ∃ code, (⟨.inherit, code⟩ : Hook) ∈ p.flags.hooks ∧
        h = ⟨.bind, Text.replaced "%childclass%" key code⟩

theorem mem_inheritedCode_iff {code : String} :
    code ∈ inheritedCode c ↔ (⟨.inherit, code⟩ : Hook) ∈ c.flags.hooks := by
  rw [inheritedCode, List.mem_map]
  constructor
  · rintro ⟨⟨trigger, code⟩, hmem, rfl⟩
    obtain ⟨hmem, htrigger⟩ := List.mem_filter.1 hmem
    obtain rfl : trigger = .inherit := of_decide_eq_true htrigger
    exact hmem
  · exact fun hmem => ⟨_, List.mem_filter.2 ⟨hmem, decide_eq_true rfl⟩, rfl⟩

theorem mem_receivedHooks_iff : h ∈ receivedHooks db key c ↔ ∃ parent, LeftBy db key c parent h := by
  simp only [receivedHooks, List.mem_flatMap, List.mem_filter, List.mem_map, List.any_eq_true,
    decide_eq_true_eq, mem_inheritedCode_iff, LeftBy]
  constructor
  · rintro ⟨e, ⟨he, hbase⟩, code, hcode, rfl⟩
    exact ⟨e.1, hbase, e.2, Dict.get?_eq_some_iff.2 he, code, hcode, rfl⟩
  · rintro ⟨parent, hbase, p, hp, code, hcode, rfl⟩
    exact ⟨(parent, p), ⟨Dict.get?_eq_some_iff.1 hp, hbase⟩, code, hcode, rfl⟩

/-- Only classes whose names carry no template arguments leave hooks. -/
theorem LeftBy.withoutTemplateArgs (h' : LeftBy db key c parent h) :
    Name.withoutTemplateArgs parent = parent := by
  obtain ⟨⟨base, -, rfl⟩, -⟩ := h'
  exact Name.withoutTemplateArgs_withoutTemplateArgs base

/-- A name without template arguments that a base leads to is what is written of the base. -/
theorem eq_withoutTemplateArgs_of_findClass? (hfind : db.findClass? base = some (parent, p))
    (hplain : Name.withoutTemplateArgs parent = parent) : Name.withoutTemplateArgs base = parent := by
  obtain ⟨-, rfl | rfl⟩ := findClass?_eq_some hfind
  · exact hplain
  · rfl

/-! ## Adding hooks -/

/-- Hooks are added behind those that are there: the first occurrences of those that are not. -/
theorem foldl_addHook_eq (hooks received : List Hook) :
    received.foldl addHook hooks = hooks ++ (received.filter fun h => h ∉ hooks).eraseDups := by
  induction received using List.reverseRecOn with
  | nil => simp
  | append_singleton received h ih =>
      rw [List.foldl_append, List.foldl_cons, List.foldl_nil, List.filter_append]
      by_cases hmem : h ∈ hooks
      · rw [addHook, if_pos (mem_foldl_addHook.2 (Or.inl hmem)), ih,
          List.filter_cons_of_neg (by simpa using hmem), List.filter_nil, List.append_nil]
      · rw [List.filter_cons_of_pos (by simpa using hmem), List.filter_nil, eraseDups_concat]
        by_cases hreceived : h ∈ received
        · rw [addHook, if_pos (mem_foldl_addHook.2 (Or.inr hreceived)), ih,
            if_pos (List.mem_filter.2 ⟨hreceived, by simpa using hmem⟩)]
        · have hnew : h ∉ received.foldl addHook hooks := fun h' =>
            (mem_foldl_addHook.1 h').elim hmem hreceived
          rw [addHook, if_neg hnew, ih, if_neg fun h' => hreceived (List.mem_filter.1 h').1,
            List.append_assoc]

/-- The hooks that are new to a class, each once and in the order in which they come. -/
def addedHooks (db : Database) (key : String) (c : Class) : List Hook :=
  ((receivedHooks db key c).filter fun h => h ∉ c.flags.hooks).eraseDups

theorem mem_addedHooks_iff :
    h ∈ addedHooks db key c ↔ h ∉ c.flags.hooks ∧ ∃ parent, LeftBy db key c parent h := by
  rw [addedHooks, List.mem_eraseDups, List.mem_filter, mem_receivedHooks_iff, decide_eq_true_eq,
    and_comm]

theorem get?_inheritHooks (hc : db.classes.get? key = some c) : (inheritHooks db).classes.get? key =
    some { c with flags := { c.flags with hooks := c.flags.hooks ++ addedHooks db key c } } := by
  have hmap := get?_mapClasses (fun key c => { c with flags := { c.flags with
    hooks := hooksWith db key c } }) db key
  rw [hc, Option.map_some, hooksWith, foldl_addHook_eq] at hmap
  exact hmap

/-- What a class received is there when it is received again. -/
theorem inheritHooks_inheritHooks (db : Database) : inheritHooks (inheritHooks db) = inheritHooks db := by
  refine mapClasses_eq_self fun key c' hc' => ?_
  obtain ⟨c, hc, rfl⟩ := Option.map_eq_some_iff.1 ((get?_mapClasses _ db key).symm.trans hc')
  have hreceived : receivedHooks (inheritHooks db) key
      { c with flags := { c.flags with hooks := hooksWith db key c } } = receivedHooks db key c :=
    receivedHooks_mapClasses (inheritedCode_hooksWith db) rfl
  have hsubset : receivedHooks db key c ⊆ hooksWith db key c := fun h hmem =>
    mem_foldl_addHook.2 (Or.inr hmem)
  have hsame := foldl_addHook_of_subset hsubset
  rw [← hreceived] at hsame
  exact congrArg (fun hooks => ({ c with flags := { c.flags with hooks := hooks } } : Class)) hsame

/-- The hooks of a class after the pass are those it had, followed by those that are new to it: bind hooks, each
once.  They are left by the classes with a plain name that its bases lead to.  So an inherit hook of a class that
a base leads to is received if and only if the name of that class carries no template arguments, or the hook is
there already, or another class leaves the same hook.  Nothing else changes, and neither does anything when the
pass runs again. -/
theorem inheritHooks_exact (db : Database) :
    { inheritHooks db with classes := db.classes } = db ∧
      inheritHooks (inheritHooks db) = inheritHooks db ∧
      (∀ key, db.classes.get? key = none → (inheritHooks db).classes.get? key = none) ∧
      ∀ key c, db.classes.get? key = some c → ∃ added,
        (inheritHooks db).classes.get? key =
            some { c with flags := { c.flags with hooks := c.flags.hooks ++ added } } ∧
          added.Nodup ∧ (∀ h ∈ added, h.trigger = .bind) ∧
          (∀ h, h ∈ added ↔ h ∉ c.flags.hooks ∧ ∃ parent, LeftBy db key c parent h) ∧
          ∀ base ∈ c.bases, ∀ parent p, db.findClass? base = some (parent, p) →
            ∀ code, (⟨.inherit, code⟩ : Hook) ∈ p.flags.hooks →
              ∀ h : Hook, h = ⟨.bind, Text.replaced "%childclass%" key code⟩ →
                (h ∈ c.flags.hooks ++ added ↔
                  Name.withoutTemplateArgs parent = parent ∨ h ∈ c.flags.hooks ∨
                    ∃ other, other ≠ parent ∧ LeftBy db key c other h) := by
  refine ⟨rfl, inheritHooks_inheritHooks db, fun key hnone => ?_, fun key c hc => ?_⟩
  · exact (get?_mapClasses _ db key).trans (by rw [hnone]; rfl)
  · refine ⟨addedHooks db key c, get?_inheritHooks hc, nodup_eraseDups _, fun h hmem => ?_,
      fun h => mem_addedHooks_iff, fun base hbase parent p hfind code hcode h hh => ?_⟩
    · obtain ⟨-, parent, -, p, -, code, -, rfl⟩ := mem_addedHooks_iff.1 hmem
      rfl
    · rw [List.mem_append, mem_addedHooks_iff]
      have hleft : Name.withoutTemplateArgs parent = parent →
          LeftBy db key c parent h := fun hplain =>
        ⟨⟨base, hbase, eq_withoutTemplateArgs_of_findClass? hfind hplain⟩, p,
          (findClass?_eq_some hfind).1, code, hcode, hh⟩
      constructor
      · rintro (hmem | ⟨-, other, hother⟩)
        · exact Or.inr (Or.inl hmem)
        · by_cases heq : other = parent
          · exact Or.inl (heq ▸ hother.withoutTemplateArgs)
          · exact Or.inr (Or.inr ⟨other, heq, hother⟩)
      · intro hor
        by_cases hmem : h ∈ c.flags.hooks
        · exact Or.inl hmem
        · rcases hor with hplain | hthere | ⟨other, -, hother⟩
          · exact Or.inr ⟨hmem, parent, hleft hplain⟩
          · exact absurd hthere hmem
          · exact Or.inr ⟨hmem, other, hother⟩

/-- A specialised class that leaves a hook. -/
def pool : Class where
  name := "Pool<int>"
  scope := "ns"
  flags := { hooks := [⟨.inherit, "track<%childclass%>();"⟩] }

/-- A class with a plain name that leaves a hook. -/
def task : Class where
  name := "Task"
  scope := "ns"
  flags := { hooks := [⟨.inherit, "queue<%childclass%>();"⟩] }

/-- A class that derives from both. -/
def worker : Class where
  name := "Worker"
  scope := "ns"
  bases := ["ns::Pool<int>", "ns::Task<double>"]
  flags := { hooks := [⟨.bind, "start();"⟩] }

/-- The three classes. -/
def pooled : Database where
  classes := .ofList [("ns::Pool<int>", pool), ("ns::Task", task), ("ns::Worker", worker)]

/-- The class has its own hook afterwards, and that of the class with the plain name. -/
theorem hooks_worker : ((inheritHooks pooled).classes.get? "ns::Worker").map (·.flags.hooks) =
    some [⟨.bind, "start();"⟩, ⟨.bind, "queue<ns::Worker>();"⟩] := by decide +kernel

/-- The base leads to the specialised class, whose hook does not arrive. -/
theorem not_received_from_specialisation : ¬ ∀ (db : Database) (key base parent : String) (c p : Class)
    (code : String), db.classes.get? key = some c → base ∈ c.bases →
      db.findClass? base = some (parent, p) → (⟨.inherit, code⟩ : Hook) ∈ p.flags.hooks →
        ∃ c', (inheritHooks db).classes.get? key = some c' ∧
          (⟨.bind, Text.replaced "%childclass%" key code⟩ : Hook) ∈ c'.flags.hooks := by
  intro h
  obtain ⟨c', hc', hmem⟩ := h pooled "ns::Worker" "ns::Pool<int>" "ns::Pool<int>" worker pool
    "track<%childclass%>();" (by decide +kernel) (by decide +kernel) (by decide +kernel)
    (by decide +kernel)
  have hhooks := hooks_worker
  rw [hc', Option.map_some] at hhooks
  rw [Option.some.inj hhooks] at hmem
  revert hmem
  decide +kernel

theorem inheritHooks_exact_worker : pooled.classes.get? "ns::Worker" = some worker ∧
    pooled.findClass? "ns::Task<double>" = some ("ns::Task", task) ∧ ∃ added,
      (inheritHooks pooled).classes.get? "ns::Worker" =
          some { worker with flags := { worker.flags with hooks := worker.flags.hooks ++ added } } ∧
        added = [⟨.bind, "queue<ns::Worker>();"⟩] ∧
        (⟨.bind, "queue<ns::Worker>();"⟩ : Hook) ∈ worker.flags.hooks ++ added := by
  have hworker : pooled.classes.get? "ns::Worker" = some worker := by decide +kernel
  have htask : pooled.findClass? "ns::Task<double>" = some ("ns::Task", task) := by decide +kernel
  obtain ⟨-, -, -, hclasses⟩ := inheritHooks_exact pooled
  obtain ⟨added, hadded, -, -, -, hreach⟩ := hclasses "ns::Worker" worker hworker
  refine ⟨hworker, htask, added, hadded, ?_, ?_⟩
  · have hhooks := hooks_worker
    rw [hadded, Option.map_some] at hhooks
    exact List.append_cancel_left (Option.some.inj hhooks)
  · exact (hreach "ns::Task<double>" (by decide) "ns::Task" task htask "queue<%childclass%>();"
      (by decide) _ (by decide +kernel)).2 (Or.inl (by decide +kernel))

end Resolve

end ScriptBindings
