import Mathlib
import ScriptBindings.Directive.Surrogate
import ScriptBindings.Proofs.Dict

/-!
# Surrogates under any interleaving

Flags come in for their targets while symbols receive what waits for them, in any order.  A run is a list
of such steps from a new context.  The specification looks only at the list: the flags of a symbol are its
own flags merged with those that had come in for its name when it last received, in the order in which
they came in.

The context counts, for each symbol, how many of the flags waiting under its name it has received.  The
invariant says what is counted: exactly the flags that had come in before the last time.
-/

namespace ScriptBindings.FlagContext

/-- A family of symbols, each with its name and its identifier.  No two of them are counted under the same
key; they may well share a name, as overloads do. -/
structure Symbols (ι : Type) where
  fqn : ι → String
  id : ι → String
  distinct : Function.Injective fun s => receiverKey (fqn s) (id s)

/-- One thing that happens: flags come in for a target, or a symbol receives what waits for it. -/
inductive Step (ι : Type) where
  | buffer (target : String) (flags : Flags)
  | apply (symbol : ι)
deriving DecidableEq

/-- The context, and the flags of each symbol so far. -/
@[ext]
structure State (ι : Type) where
  ctx : FlagContext
  flags : ι → Flags

variable {ι : Type}

/-- The counter of a symbol. -/
def Symbols.key (symbols : Symbols ι) (s : ι) : String :=
  receiverKey (symbols.fqn s) (symbols.id s)

/-- Do flags come in at this step? -/
def Step.isBuffer : Step ι → Bool
  | .buffer .. => true
  | .apply _ => false

/-- The flags that came in for a target, in order. -/
def bufferedFor (target : String) (steps : List (Step ι)) : List Flags :=
  steps.filterMap fun
    | .buffer other flags => if other = target then some flags else none
    | .apply _ => none

@[simp]
theorem bufferedFor_append (target : String) (steps more : List (Step ι)) :
    bufferedFor target (steps ++ more) = bufferedFor target steps ++ bufferedFor target more := by
  simp [bufferedFor]

@[simp]
theorem bufferedFor_buffer (target other : String) (flags : Flags) :
    bufferedFor target [(.buffer other flags : Step ι)] = if other = target then [flags] else [] := by
  by_cases h : other = target <;> simp [bufferedFor, h]

@[simp]
theorem bufferedFor_apply (target : String) (s : ι) : bufferedFor target [Step.apply s] = [] := rfl

variable [DecidableEq ι] (symbols : Symbols ι)

/-- Take one step. -/
def step (st : State ι) : Step ι → State ι
  | .buffer target flags => { st with ctx := st.ctx.buffer target flags }
  | .apply s =>
      let (flags, ctx) := st.ctx.apply (symbols.fqn s) (symbols.id s) (st.flags s)
      ⟨ctx, Function.update st.flags s flags⟩

/-- Take the steps of a list, from a new context. -/
def run (extra : TypeSets) (initial : ι → Flags) (steps : List (Step ι)) : State ι :=
  steps.foldl (step symbols) ⟨new extra, initial⟩

/-- The steps before the last one at which a symbol received; none if it never did. -/
def beforeLastApply (s : ι) : List (Step ι) → List (Step ι)
  | [] => []
  | x :: rest => if .apply s ∈ rest then x :: beforeLastApply s rest else []

/-- The flags a symbol has to have. -/
def expectedFlags (initial : ι → Flags) (steps : List (Step ι)) (s : ι) : Flags :=
  (bufferedFor (symbols.fqn s) (beforeLastApply s steps)).foldl Flags.merge (initial s)

/-! ## The specification step by step -/

theorem beforeLastApply_append (s : ι) (steps : List (Step ι)) (x : Step ι) :
    beforeLastApply s (steps ++ [x]) = if x = .apply s then steps else beforeLastApply s steps := by
  induction steps with
  | nil => simp [beforeLastApply]
  | cons y steps ih =>
      rw [List.cons_append, beforeLastApply, ih, beforeLastApply]
      by_cases hx : x = .apply s
      · simp [hx]
      · have hne : Step.apply s ≠ x := fun h => hx h.symm
        simp [hx, hne]

theorem beforeLastApply_prefix (s : ι) (steps : List (Step ι)) : beforeLastApply s steps <+: steps := by
  induction steps with
  | nil => exact List.prefix_rfl
  | cons x steps ih =>
      rw [beforeLastApply]
      split
      · exact List.cons_prefix_cons.2 ⟨rfl, ih⟩
      · exact List.nil_prefix

/-- What had come in before is at the front of what has come in. -/
theorem exists_bufferedFor_eq (target : String) (s : ι) (steps : List (Step ι)) :
    ∃ more, bufferedFor target steps = bufferedFor target (beforeLastApply s steps) ++ more := by
  obtain ⟨rest, hrest⟩ := beforeLastApply_prefix s steps
  refine ⟨bufferedFor target rest, ?_⟩
  rw [← bufferedFor_append, hrest]

/-! ## One step of the context -/

theorem mergeAll_fst (target : String) (flags : Flags) (more : List Flags) :
    (mergeAll target flags more).1 = more.foldl Flags.merge flags := by
  unfold mergeAll
  generalize ([] : List TargetConflict) = found
  induction more generalizing flags found with
  | nil => rfl
  | cons f more ih =>
      rw [List.foldl_cons, List.foldl_cons]
      exact ih (flags.merge f) _

/-- Optional, but only if there is something to count. -/
def counted (n : Nat) : Option Nat :=
  if n = 0 then none else some n

theorem getD_counted (n : Nat) : (counted n).getD 0 = n := by
  unfold counted
  split
  · rename_i h
    exact h.symm
  · rfl

/-- What the context knows after some steps, and what the symbols have. -/
structure Invariant (initial : ι → Flags) (steps : List (Step ι)) (st : State ι) : Prop where
  waiting : ∀ target, st.ctx.waiting.get? target =
    if bufferedFor target steps = [] then none else some (bufferedFor target steps)
  received : ∀ s, st.ctx.received.get? (symbols.key s) =
    counted (bufferedFor (symbols.fqn s) (beforeLastApply s steps)).length
  met : ∀ s, bufferedFor (symbols.fqn s) (beforeLastApply s steps) ≠ [] →
    st.ctx.met.get? (symbols.fqn s) = some ()
  flags : ∀ s, st.flags s = expectedFlags symbols initial steps s

theorem invariant_new (extra : TypeSets) (initial : ι → Flags) :
    Invariant symbols initial [] ⟨new extra, initial⟩ where
  waiting _ := rfl
  received _ := rfl
  met _ h := absurd rfl h
  flags _ := rfl

variable {symbols} {initial : ι → Flags} {steps : List (Step ι)} {st : State ι}

/-- Flags that come in wait behind those that came in before. -/
theorem Invariant.buffer (h : Invariant symbols initial steps st) (target : String) (flags : Flags) :
    Invariant symbols initial (steps ++ [.buffer target flags])
      (step symbols st (.buffer target flags)) := by
  -- Only applying changes what a symbol has received.
  have hbefore : ∀ s : ι, beforeLastApply s (steps ++ [.buffer target flags]) =
      beforeLastApply s steps := fun s => by
    rw [beforeLastApply_append, if_neg (by simp)]
  refine ⟨fun other => ?_, fun s => ?_, fun s hs => ?_, fun s => ?_⟩
  · have hwaiting : st.ctx.waitingFor target = bufferedFor target steps := by
      rw [waitingFor, h.waiting]
      split
      · rename_i hnil
        exact hnil.symm
      · rfl
    show (st.ctx.waiting.insert target (st.ctx.waitingFor target ++ [flags])).get? other = _
    rw [Dict.get?_insert, hwaiting, bufferedFor_append, bufferedFor_buffer]
    by_cases heq : other = target
    · simp [heq]
    · have hne : target ≠ other := fun h => heq h.symm
      rw [if_neg heq, if_neg hne, List.append_nil]
      exact h.waiting other
  · rw [hbefore]
    exact h.received s
  · rw [hbefore] at hs
    exact h.met s hs
  · rw [expectedFlags, hbefore]
    exact h.flags s

/-- When a symbol has everything that has come in, and nothing else has changed, the invariant holds with
one more step. -/
theorem Invariant.of_receiver (h : Invariant symbols initial steps st) {st' : State ι} {s : ι}
    (hwaiting : st'.ctx.waiting = st.ctx.waiting)
    (hreceived : ∀ s', st'.ctx.received.get? (symbols.key s') =
      if s' = s then counted (bufferedFor (symbols.fqn s) steps).length
      else st.ctx.received.get? (symbols.key s'))
    (hmet : bufferedFor (symbols.fqn s) steps ≠ [] → st'.ctx.met.get? (symbols.fqn s) = some ())
    (hkept : ∀ target, st.ctx.met.get? target = some () → st'.ctx.met.get? target = some ())
    (hflags : st'.flags = Function.update st.flags s
      ((bufferedFor (symbols.fqn s) steps).foldl Flags.merge (initial s))) :
    Invariant symbols initial (steps ++ [.apply s]) st' := by
  have hbuffered : ∀ target, bufferedFor target (steps ++ [Step.apply s]) = bufferedFor target steps :=
    fun target => by rw [bufferedFor_append, bufferedFor_apply, List.append_nil]
  -- All steps are before the last application to this symbol now; other symbols are as before.
  have hbefore : ∀ s', beforeLastApply s' (steps ++ [.apply s]) =
      if s' = s then steps else beforeLastApply s' steps := by
    intro s'
    rw [beforeLastApply_append]
    by_cases heq : s' = s
    · rw [heq, if_pos rfl, if_pos rfl]
    · rw [if_neg heq, if_neg fun hstep => heq (Step.apply.inj hstep).symm]
  refine ⟨fun target => ?_, fun s' => ?_, fun s' hs' => ?_, fun s' => ?_⟩
  · rw [hbuffered, hwaiting]
    exact h.waiting target
  · rw [hreceived, hbefore]
    by_cases heq : s' = s
    · rw [if_pos heq, if_pos heq, heq]
    · rw [if_neg heq, if_neg heq]
      exact h.received s'
  · rw [hbefore] at hs'
    by_cases heq : s' = s
    · subst heq
      rw [if_pos rfl] at hs'
      exact hmet hs'
    · rw [if_neg heq] at hs'
      exact hkept _ (h.met s' hs')
  · rw [hflags, expectedFlags, hbefore]
    by_cases heq : s' = s
    · rw [if_pos heq, heq, Function.update_self]
    · rw [if_neg heq, Function.update_of_ne heq]
      exact h.flags s'

/-- A symbol receives what it has not received, and then it has everything that has come in. -/
theorem Invariant.apply (h : Invariant symbols initial steps st) (s : ι) :
    Invariant symbols initial (steps ++ [.apply s]) (step symbols st (.apply s)) := by
  obtain ⟨more, hmore⟩ := exists_bufferedFor_eq (symbols.fqn s) s steps
  by_cases hnil : bufferedFor (symbols.fqn s) steps = []
  · -- Nothing waits under the name, and nothing did before.
    obtain ⟨hbefore, -⟩ := List.append_eq_nil_iff.1 (hmore ▸ hnil)
    have hget : st.ctx.waiting.get? (symbols.fqn s) = none := by
      rw [h.waiting, if_pos hnil]
    have hstep : step symbols st (.apply s) = st := by
      simp only [step, FlagContext.apply, hget, Function.update_eq_self]
    rw [hstep]
    refine h.of_receiver rfl (fun s' => ?_) (fun hne => absurd hnil hne) (fun _ hmet => hmet) ?_
    · split
      · rename_i heq
        rw [heq, h.received, hbefore, hnil]
      · rfl
    · have hflags := h.flags s
      rw [expectedFlags, hbefore] at hflags
      rw [hnil, ← hflags, Function.update_eq_self]
  · have hget : st.ctx.waiting.get? (symbols.fqn s) = some (bufferedFor (symbols.fqn s) steps) := by
      rw [h.waiting, if_neg hnil]
    have hnew : (bufferedFor (symbols.fqn s) steps).drop (st.ctx.receivedBy (symbols.key s)) = more := by
      rw [receivedBy, h.received, getD_counted, hmore, List.drop_left]
    have hreceived : (step symbols st (.apply s)).ctx.received =
        st.ctx.received.insert (symbols.key s) (bufferedFor (symbols.fqn s) steps).length := by
      simp only [step, FlagContext.apply, hget, Symbols.key]
    have hmet : (step symbols st (.apply s)).ctx.met = st.ctx.met.insert (symbols.fqn s) () := by
      simp only [step, FlagContext.apply, hget]
    have hflags : (step symbols st (.apply s)).flags =
        Function.update st.flags s (more.foldl Flags.merge (st.flags s)) := by
      rw [← hnew, ← mergeAll_fst (symbols.fqn s)]
      simp only [step, FlagContext.apply, hget, Symbols.key]
    refine h.of_receiver (by simp only [step, FlagContext.apply, hget]) (fun s' => ?_) (fun _ => ?_)
      (fun target hkept => ?_) ?_
    · rw [hreceived, Dict.get?_insert]
      by_cases heq : s' = s
      · rw [if_pos (by rw [heq]), if_pos heq, counted, if_neg (by simpa using hnil)]
      · have hkey : symbols.key s' ≠ symbols.key s := fun hkey => heq (symbols.distinct hkey)
        rw [if_neg hkey, if_neg heq]
    · rw [hmet, Dict.get?_insert, if_pos rfl]
    · rw [hmet, Dict.get?_insert]
      split
      · rfl
      · exact hkept
    · rw [hflags, h.flags, expectedFlags, hmore, List.foldl_append]

/-- The invariant holds after any steps. -/
theorem invariant_run (symbols : Symbols ι) (extra : TypeSets) (initial : ι → Flags)
    (steps : List (Step ι)) :
    Invariant symbols initial steps (run symbols extra initial steps) := by
  induction steps using List.reverseRecOn with
  | nil => exact invariant_new symbols extra initial
  | append_singleton steps x ih =>
      rw [run, List.foldl_concat]
      cases x with
      | buffer target flags => exact ih.buffer target flags
      | apply s => exact ih.apply s

/-! ## Schedules -/

/-- Where every symbol of a list receives at the end, a symbol of the list has everything. -/
theorem beforeLastApply_schedule {s : ι} {order : List ι} (hs : s ∈ order) (body : List (Step ι)) :
    bufferedFor (symbols.fqn s) (beforeLastApply s (body ++ order.map .apply)) =
      bufferedFor (symbols.fqn s) body := by
  induction order using List.reverseRecOn with
  | nil => simp at hs
  | append_singleton order last ih =>
      have happly : ∀ order : List ι, bufferedFor (symbols.fqn s) (order.map Step.apply) = [] := by
        intro order
        simp [bufferedFor]
      rw [List.map_append, List.map_singleton, ← List.append_assoc, beforeLastApply_append]
      by_cases heq : last = s
      · rw [if_pos (by rw [heq]), bufferedFor_append, happly, List.append_nil]
      · rw [if_neg fun hstep => heq (Step.apply.inj hstep)]
        refine ih ?_
        rcases List.mem_append.1 hs with hs | hs
        · exact hs
        · exact absurd (List.mem_singleton.1 hs).symm heq

/-- A symbol for which nothing has come in since it last received changes nothing when it receives. -/
theorem Invariant.step_apply_eq (h : Invariant symbols initial steps st) {s : ι}
    (hnothing : bufferedFor (symbols.fqn s) steps =
      bufferedFor (symbols.fqn s) (beforeLastApply s steps)) :
    step symbols st (.apply s) = st := by
  by_cases hnil : bufferedFor (symbols.fqn s) steps = []
  · have hget : st.ctx.waiting.get? (symbols.fqn s) = none := by
      rw [h.waiting, if_pos hnil]
    simp only [step, FlagContext.apply, hget, Function.update_eq_self]
  · have hget : st.ctx.waiting.get? (symbols.fqn s) = some (bufferedFor (symbols.fqn s) steps) := by
      rw [h.waiting, if_neg hnil]
    have hcount : st.ctx.received.get? (receiverKey (symbols.fqn s) (symbols.id s)) =
        some (bufferedFor (symbols.fqn s) steps).length := by
      have hreceived := h.received s
      rwa [← hnothing, counted, if_neg (by simpa using hnil)] at hreceived
    have hmet := h.met s (hnothing ▸ hnil)
    simp [step, FlagContext.apply, hget, receivedBy, hcount, mergeAll,
      Dict.insert_of_get?_eq_some hcount, Dict.insert_of_get?_eq_some hmet]

/-- Every surrogate reaches every symbol of its target's name exactly once, in the order in which they
came in.  So it does not matter how often a symbol receives before it receives for the last time, and it
changes nothing to receive when nothing has come in. -/
theorem received_exactly_once (symbols : Symbols ι) (extra : TypeSets) (initial : ι → Flags) :
    (∀ steps s, (run symbols extra initial steps).flags s =
      (bufferedFor (symbols.fqn s) (beforeLastApply s steps)).foldl Flags.merge (initial s)) ∧
    (∀ (body : List (Step ι)) (order order' : List ι) (s : ι), s ∈ order → s ∈ order' →
      (run symbols extra initial (body ++ order.map .apply)).flags s =
        (run symbols extra initial (body.filter Step.isBuffer ++ order'.map .apply)).flags s) ∧
    ∀ steps s, bufferedFor (symbols.fqn s) steps =
        bufferedFor (symbols.fqn s) (beforeLastApply s steps) →
      run symbols extra initial (steps ++ [.apply s]) = run symbols extra initial steps := by
  have hflags : ∀ steps s, (run symbols extra initial steps).flags s =
      (bufferedFor (symbols.fqn s) (beforeLastApply s steps)).foldl Flags.merge (initial s) :=
    fun steps s => (invariant_run symbols extra initial steps).flags s
  refine ⟨hflags, fun body order order' s hs hs' => ?_, fun steps s hnothing => ?_⟩
  · have hfilter : bufferedFor (symbols.fqn s) (body.filter Step.isBuffer) =
        bufferedFor (symbols.fqn s) body := by
      rw [bufferedFor, bufferedFor, List.filterMap_filter]
      congr 1
      funext x
      cases x <;> rfl
    rw [hflags, hflags, beforeLastApply_schedule hs, beforeLastApply_schedule hs', hfilter]
  · rw [run, List.foldl_concat]
    exact (invariant_run symbols extra initial steps).step_apply_eq hnothing

/-- Two overloads share what comes in for their name: one of them receives in between, and both end up
with the same flags as if each had received once at the end. -/
theorem received_exactly_once_overloads :
    let overloads : Symbols Bool :=
      ⟨fun _ => "ns::f", fun first => if first then "f1" else "f2", by decide⟩
    let body : List (Step Bool) :=
      [.buffer "ns::f" { rename := some "g" }, .apply true, .buffer "ns::f" { noBind := true }]
    let result := run overloads .empty (fun _ => {}) (body ++ [false, true].map .apply)
    result.flags true = { rename := some "g", noBind := true } ∧
      result.flags true = (run overloads .empty (fun _ => {})
        (body.filter Step.isBuffer ++ [true, false].map .apply)).flags true ∧
      run overloads .empty (fun _ => {}) (body ++ [false, true].map .apply ++ [.apply false]) =
        result := by
  intro overloads body result
  obtain ⟨hflags, hschedule, hnothing⟩ := received_exactly_once overloads .empty fun _ => {}
  refine ⟨?_, hschedule body _ _ true (by decide) (by decide), hnothing _ false (by decide)⟩
  rw [hflags]
  decide

end ScriptBindings.FlagContext
