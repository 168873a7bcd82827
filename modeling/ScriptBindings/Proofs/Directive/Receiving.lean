import Mathlib
import ScriptBindings.Directive.Reader
import ScriptBindings.Proofs.Directive.Interleaving

/-!
# Receiving while symbols are read

When a documented symbol is read, what it carries to other symbols begins to wait, and then it receives
what waits for it.  So the flags that a symbol is given depend on what was read before it.  The account
below says by how much: a symbol has its own flags, merged with the first of those that wait under its
name, as many as are counted for it.  What is outstanding brings every symbol to the same flags, whenever
it was read.
-/

namespace ScriptBindings

/-- A documented symbol: the qualified name that it is read under, and its element. -/
structure Documented where
  fqn : String
  element : Xml.Element

namespace Documented

/-- The identifier. -/
def id (d : Documented) : String :=
  d.element.attr "id"

/-- What the flags received by the symbol are counted under. -/
def key (d : Documented) : String :=
  FlagContext.receiverKey d.fqn d.id

/-- The targets that the symbol carries flags to. -/
def targets (sets : TypeSets) (d : Documented) : List String :=
  (Directive.ownFlags sets d.element).surrogateFor

/-- The flags of the symbol before it receives any: its own ones, and a surrogate is not bound. -/
def initialFlags (sets : TypeSets) (d : Documented) : Flags :=
  let own := Directive.ownFlags sets d.element
  if own.surrogateFor = [] then own else { own with noBind := true }

/-- What the symbol carries to a target, as often as it names it. -/
def carriedTo (sets : TypeSets) (target : String) (d : Documented) : List Flags :=
  ((d.targets sets).filter (· = target)).map fun _ =>
    { Directive.ownFlags sets d.element with surrogateFor := [] }

/-- The flags of the symbol once it has received everything that some symbols carry to it. -/
def finalFlags (sets : TypeSets) (read : List Documented) (d : Documented) : Flags :=
  (read.flatMap (carriedTo sets d.fqn)).foldl Flags.merge (d.initialFlags sets)

theorem carriedTo_eq_nil {sets : TypeSets} {target : String} {d : Documented}
    (h : target ∉ d.targets sets) : d.carriedTo sets target = [] := by
  rw [carriedTo, List.map_eq_nil_iff, List.filter_eq_nil_iff]
  intro other hother heq
  exact h (of_decide_eq_true heq ▸ hother)

end Documented

namespace FlagContext

variable {ctx : FlagContext} {fqn id target key : String} {flags : Flags}

/-! ## Letting flags wait -/

theorem waitingFor_buffer (ctx : FlagContext) (target other : String) (flags : Flags) :
    (ctx.buffer target flags).waitingFor other =
      ctx.waitingFor other ++ if other = target then [flags] else [] := by
  unfold waitingFor buffer
  rw [Dict.get?_insert]
  by_cases h : other = target
  · simp [h, waitingFor]
  · simp [h]

/-- Flags that are let wait for several targets wait once for each time the target is named. -/
theorem waitingFor_foldl_buffer (ctx : FlagContext) (targets : List String) (flags : Flags)
    (other : String) :
    (targets.foldl (fun ctx target => ctx.buffer target flags) ctx).waitingFor other =
      ctx.waitingFor other ++ (targets.filter (· = other)).map fun _ => flags := by
  induction targets generalizing ctx with
  | nil => simp
  | cons target targets ih =>
      rw [List.foldl_cons, ih, waitingFor_buffer, List.append_assoc]
      congr 1
      by_cases h : target = other
      · simp [h]
      · have hne : other ≠ target := fun heq => h heq.symm
        simp [h, hne]

theorem foldl_buffer_received (ctx : FlagContext) (targets : List String) (flags : Flags) :
    (targets.foldl (fun ctx target => ctx.buffer target flags) ctx).received = ctx.received ∧
      (targets.foldl (fun ctx target => ctx.buffer target flags) ctx).typeSets = ctx.typeSets := by
  induction targets generalizing ctx with
  | nil => exact ⟨rfl, rfl⟩
  | cons target targets ih => exact ih (ctx.buffer target flags)

/-! ## Receiving -/

/-- The flags that wait under a name and that a symbol with an identifier has not received. -/
def outstanding (ctx : FlagContext) (fqn id : String) : List Flags :=
  (ctx.waitingFor fqn).drop (ctx.receivedBy (receiverKey fqn id))

/-- Flags with everything that is outstanding merged into them. -/
def settled (ctx : FlagContext) (fqn id : String) (flags : Flags) : Flags :=
  (ctx.outstanding fqn id).foldl Flags.merge flags

theorem apply_fst (ctx : FlagContext) (fqn id : String) (flags : Flags) :
    (ctx.apply fqn id flags).1 = ctx.settled fqn id flags := by
  unfold FlagContext.apply settled outstanding waitingFor
  cases ctx.waiting.get? fqn with
  | none => simp
  | some waiting => exact mergeAll_fst _ _ _

@[simp]
theorem waiting_apply (ctx : FlagContext) (fqn id : String) (flags : Flags) :
    (ctx.apply fqn id flags).2.waiting = ctx.waiting := by
  unfold FlagContext.apply
  split <;> rfl

@[simp]
theorem typeSets_apply (ctx : FlagContext) (fqn id : String) (flags : Flags) :
    (ctx.apply fqn id flags).2.typeSets = ctx.typeSets := by
  unfold FlagContext.apply
  split <;> rfl

/-- Nothing is counted for other symbols. -/
theorem receivedBy_apply_of_ne (h : key ≠ receiverKey fqn id) :
    (ctx.apply fqn id flags).2.receivedBy key = ctx.receivedBy key := by
  unfold FlagContext.apply
  split
  · rfl
  · show ((ctx.received.insert _ _).get? key).getD 0 = _
    rw [Dict.get?_insert, if_neg h, receivedBy]

/-- Everything that waits is counted for the symbol. -/
theorem receivedBy_apply_self
    (h : ctx.receivedBy (receiverKey fqn id) ≤ (ctx.waitingFor fqn).length) :
    (ctx.apply fqn id flags).2.receivedBy (receiverKey fqn id) = (ctx.waitingFor fqn).length := by
  unfold FlagContext.apply
  split
  · rename_i hnone
    have hlength : (ctx.waitingFor fqn).length = 0 := by simp [waitingFor, hnone]
    show ctx.receivedBy _ = _
    omega
  · rename_i waiting hsome
    show ((ctx.received.insert _ _).get? _).getD 0 = _
    simp [waitingFor, hsome]

theorem waitingFor_congr {ctx' : FlagContext} (h : ctx'.waiting = ctx.waiting) (target : String) :
    ctx'.waitingFor target = ctx.waitingFor target := by
  rw [waitingFor, waitingFor, h]

/-! ## Reading one symbol -/

theorem redirect_fst (ctx : FlagContext) (d : Documented) :
    (ctx.redirect (Directive.ownFlags ctx.typeSets d.element)).1 = d.initialFlags ctx.typeSets := by
  by_cases h : (Directive.ownFlags ctx.typeSets d.element).surrogateFor = []
  · simp only [redirect, Documented.initialFlags, if_pos h]
  · simp only [redirect, Documented.initialFlags, if_neg h]

theorem waitingFor_redirect (ctx : FlagContext) (d : Documented) (target : String) :
    (ctx.redirect (Directive.ownFlags ctx.typeSets d.element)).2.waitingFor target =
      ctx.waitingFor target ++ d.carriedTo ctx.typeSets target := by
  unfold redirect
  split
  · rename_i hnone
    simp [Documented.carriedTo, Documented.targets, hnone]
  · exact waitingFor_foldl_buffer _ _ _ _

theorem redirect_received (ctx : FlagContext) (flags : Flags) :
    (ctx.redirect flags).2.received = ctx.received ∧
      (ctx.redirect flags).2.typeSets = ctx.typeSets := by
  unfold redirect
  split
  · exact ⟨rfl, rfl⟩
  · exact foldl_buffer_received _ _ _

/-- What the context knows once some symbols have been read, and what the symbols were given then. -/
structure Accounts (sets : TypeSets) (read : List Documented) (given : Documented → Flags)
    (ctx : FlagContext) : Prop where
  typeSets : ctx.typeSets = sets
  waiting : ∀ target, ctx.waitingFor target = read.flatMap (Documented.carriedTo sets target)
  unread : ∀ key, key ∉ read.map Documented.key → ctx.receivedBy key = 0
  counted : ∀ d ∈ read, ctx.receivedBy d.key ≤ (ctx.waitingFor d.fqn).length
  given : ∀ d ∈ read, given d =
    ((ctx.waitingFor d.fqn).take (ctx.receivedBy d.key)).foldl Flags.merge (d.initialFlags sets)

variable {sets : TypeSets} {read : List Documented} {given : Documented → Flags}

theorem accounts_new (extra : TypeSets) (given : Documented → Flags) :
    Accounts (.extended extra) [] given (new extra) where
  typeSets := rfl
  waiting _ := rfl
  unread _ _ := rfl
  counted _ h := absurd h List.not_mem_nil
  given _ h := absurd h List.not_mem_nil

/-- The account holds for other flags that agree on what has been read. -/
theorem Accounts.congr (h : Accounts sets read given ctx) {given' : Documented → Flags}
    (hgiven : ∀ d ∈ read, given' d = given d) : Accounts sets read given' ctx :=
  { h with given := fun d hd => (hgiven d hd).trans (h.given d hd) }

/-- Reading a symbol is to redirect what it carries and then to receive. -/
theorem flagsOf_eq (ctx : FlagContext) (d : Documented) : ctx.flagsOf d.element d.fqn =
    (ctx.redirect (Directive.ownFlags ctx.typeSets d.element)).2.apply d.fqn d.id
      (d.initialFlags ctx.typeSets) := by
  rw [← redirect_fst]
  rfl

/-- A symbol that is read is given everything that waits for it, what it carries itself included. -/
theorem Accounts.flagsOf_fst (h : Accounts sets read given ctx) {d : Documented}
    (hnew : d.key ∉ read.map Documented.key) : (ctx.flagsOf d.element d.fqn).1 =
      (ctx.waitingFor d.fqn ++ d.carriedTo sets d.fqn).foldl Flags.merge (d.initialFlags sets) := by
  have hzero : (ctx.redirect (Directive.ownFlags ctx.typeSets d.element)).2.receivedBy
      (receiverKey d.fqn d.id) = 0 := by
    rw [receivedBy, (redirect_received _ _).1]
    exact h.unread _ hnew
  rw [flagsOf_eq, apply_fst, settled, outstanding, hzero, List.drop_zero, waitingFor_redirect,
    h.typeSets]

/-- The account goes on with a symbol that is read. -/
theorem Accounts.flagsOf (h : Accounts sets read given ctx) (d : Documented)
    (hnew : d.key ∉ read.map Documented.key) (hgiven : given d = (ctx.flagsOf d.element d.fqn).1) :
    Accounts sets (read ++ [d]) given (ctx.flagsOf d.element d.fqn).2 := by
  rw [h.flagsOf_fst hnew] at hgiven
  rw [flagsOf_eq, h.typeSets]
  obtain ⟨mid, hmid⟩ : ∃ mid, mid = (ctx.redirect (Directive.ownFlags sets d.element)).2 := ⟨_, rfl⟩
  have hwaiting : ∀ target, mid.waitingFor target =
      ctx.waitingFor target ++ d.carriedTo sets target := fun target => by
    rw [hmid, ← h.typeSets, waitingFor_redirect]
  have hcount : ∀ key, mid.receivedBy key = ctx.receivedBy key := fun key => by
    rw [hmid, receivedBy, (redirect_received _ _).1, receivedBy]
  have hzero : mid.receivedBy d.key = 0 := (hcount _).trans (h.unread _ hnew)
  have hne : ∀ e ∈ read, e.key ≠ d.key := fun e he heq => hnew (heq ▸ List.mem_map_of_mem he)
  rw [← hmid]
  have hkept : ∀ target, (mid.apply d.fqn d.id (d.initialFlags sets)).2.waitingFor target =
      mid.waitingFor target := waitingFor_congr (waiting_apply _ _ _ _)
  have hfull : (mid.apply d.fqn d.id (d.initialFlags sets)).2.receivedBy d.key =
      (mid.waitingFor d.fqn).length := receivedBy_apply_self (hzero.trans_le (Nat.zero_le _))
  have hothers : ∀ key, key ≠ d.key →
      (mid.apply d.fqn d.id (d.initialFlags sets)).2.receivedBy key = ctx.receivedBy key :=
    fun key hkey => (receivedBy_apply_of_ne hkey).trans (hcount key)
  -- This symbol has received everything that waits for it; the others have what they had.
  refine ⟨?_, fun target => ?_, fun key hkey => ?_, fun e he => ?_, fun e he => ?_⟩
  · rw [typeSets_apply, hmid, (redirect_received _ _).2, h.typeSets]
  · rw [hkept, hwaiting, h.waiting]
    simp
  · simp only [List.map_append, List.mem_append, not_or, List.map_singleton,
      List.mem_singleton] at hkey
    rw [hothers key hkey.2, h.unread key hkey.1]
  · rw [hkept]
    rcases List.mem_append.1 he with he | he
    · have hle := h.counted e he
      rw [hothers e.key (hne e he), hwaiting, List.length_append]
      omega
    · rw [List.mem_singleton.1 he, hfull]
  · rw [hkept]
    rcases List.mem_append.1 he with he | he
    · -- What comes in later stands behind what the symbol has received.
      rw [hothers e.key (hne e he), hwaiting, List.take_append_of_le_length (h.counted e he)]
      exact h.given e he
    · rw [List.mem_singleton.1 he, hfull, List.take_length, hgiven, hwaiting]

/-- What is outstanding brings a symbol to its final flags, whenever it was read. -/
theorem Accounts.settled_given (h : Accounts sets read given ctx) {d : Documented} (hd : d ∈ read) :
    ctx.settled d.fqn d.id (given d) = d.finalFlags sets read := by
  rw [settled, outstanding, h.given d hd, ← List.foldl_append]
  show List.foldl _ _ (List.take (ctx.receivedBy d.key) _ ++ List.drop (ctx.receivedBy d.key) _) = _
  rw [List.take_append_drop, h.waiting, Documented.finalFlags]

theorem noBind_foldl_merge (flags : Flags) (more : List Flags) :
    (more.foldl Flags.merge flags).noBind = (flags.noBind || more.any Flags.noBind) := by
  induction more generalizing flags with
  | nil => simp
  | cons f more ih =>
      rw [List.foldl_cons, ih, List.any_cons, ← Bool.or_assoc]
      rfl

end FlagContext

end ScriptBindings
