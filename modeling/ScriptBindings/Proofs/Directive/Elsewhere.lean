import Mathlib
import ScriptBindings.Directive.Reader
import ScriptBindings.Proofs.Directive.Receiving

/-!
# Contexts that differ for one symbol

What has been counted for one symbol does not matter to symbols that are counted under other keys, nor do
the targets that were met and the conflicts that were found.  So contexts that agree apart from one counter
give the same flags to all other symbols, and still agree afterwards.
-/

namespace ScriptBindings.FlagContext

variable {ctx ctx' ctx'' : FlagContext} {key fqn id : String} {flags : Flags}

/-- The same type sets, the same flags wait, and the same is counted for all other symbols. -/
structure AgreeExcept (key : String) (ctx ctx' : FlagContext) : Prop where
  typeSets : ctx'.typeSets = ctx.typeSets
  waiting : ctx'.waiting = ctx.waiting
  received : ∀ other, other ≠ key → ctx'.receivedBy other = ctx.receivedBy other

theorem AgreeExcept.refl (key : String) (ctx : FlagContext) : AgreeExcept key ctx ctx :=
  ⟨rfl, rfl, fun _ _ => rfl⟩

theorem AgreeExcept.symm (h : AgreeExcept key ctx ctx') : AgreeExcept key ctx' ctx :=
  ⟨h.typeSets.symm, h.waiting.symm, fun other hother => (h.received other hother).symm⟩

/-! ## Receiving -/

/-- What is counted for a symbol once it has received depends on what waits for it, and otherwise on what was
counted before. -/
theorem receivedBy_apply_receiver (ctx : FlagContext) (fqn id : String) (flags : Flags) :
    (ctx.apply fqn id flags).2.receivedBy (receiverKey fqn id) =
      ((ctx.waiting.get? fqn).map List.length).getD (ctx.receivedBy (receiverKey fqn id)) := by
  unfold FlagContext.apply
  cases ctx.waiting.get? fqn with
  | none => rfl
  | some waiting =>
      show ((ctx.received.insert _ _).get? _).getD 0 = _
      rw [Dict.get?_insert, if_pos rfl]
      rfl

/-- A symbol that receives changes its own counter alone. -/
theorem agreeExcept_apply (ctx : FlagContext) (fqn id : String) (flags : Flags) :
    AgreeExcept (receiverKey fqn id) ctx (ctx.apply fqn id flags).2 :=
  ⟨typeSets_apply ctx fqn id flags, waiting_apply ctx fqn id flags,
    fun _ hother => receivedBy_apply_of_ne hother⟩

/-- Another symbol receives the same in contexts that agree. -/
theorem AgreeExcept.apply (h : AgreeExcept key ctx ctx') (hne : receiverKey fqn id ≠ key)
    (flags : Flags) : (ctx'.apply fqn id flags).1 = (ctx.apply fqn id flags).1 ∧
      AgreeExcept key (ctx.apply fqn id flags).2 (ctx'.apply fqn id flags).2 := by
  constructor
  · rw [apply_fst, apply_fst, settled, settled, outstanding, outstanding,
      waitingFor_congr h.waiting, h.received _ hne]
  · refine ⟨?_, ?_, fun other hother => ?_⟩
    · rw [typeSets_apply, typeSets_apply, h.typeSets]
    · rw [waiting_apply, waiting_apply, h.waiting]
    · by_cases hself : other = receiverKey fqn id
      -- Its own counter is set to what waits, and that is the same in both contexts.
      · rw [hself, receivedBy_apply_receiver, receivedBy_apply_receiver, h.waiting, h.received _ hne]
      · rw [receivedBy_apply_of_ne hself, receivedBy_apply_of_ne hself, h.received other hother]

/-! ## Reading flags -/

theorem AgreeExcept.foldl_buffer (h : AgreeExcept key ctx ctx') (targets : List String)
    (flags : Flags) :
    AgreeExcept key (targets.foldl (fun ctx target => ctx.buffer target flags) ctx)
      (targets.foldl (fun ctx target => ctx.buffer target flags) ctx') := by
  induction targets generalizing ctx ctx' with
  | nil => exact h
  | cons target targets ih =>
      have hwaiting : (ctx'.buffer target flags).waiting = (ctx.buffer target flags).waiting := by
        rw [buffer, buffer, waitingFor_congr h.waiting, h.waiting]
      exact ih ⟨h.typeSets, hwaiting, h.received⟩

theorem AgreeExcept.redirect (h : AgreeExcept key ctx ctx') (flags : Flags) :
    (ctx'.redirect flags).1 = (ctx.redirect flags).1 ∧
      AgreeExcept key (ctx.redirect flags).2 (ctx'.redirect flags).2 := by
  unfold FlagContext.redirect
  split
  · exact ⟨rfl, h⟩
  · exact ⟨rfl, h.foldl_buffer _ _⟩

/-- Another symbol is given the same flags in contexts that agree. -/
theorem AgreeExcept.flagsOf (h : AgreeExcept key ctx ctx') {e : Xml.Element}
    (hne : receiverKey fqn (e.attr "id") ≠ key) :
    (ctx'.flagsOf e fqn).1 = (ctx.flagsOf e fqn).1 ∧
      AgreeExcept key (ctx.flagsOf e fqn).2 (ctx'.flagsOf e fqn).2 := by
  obtain ⟨hfirst, hagree⟩ := h.redirect (Directive.ownFlags ctx.typeSets e)
  unfold FlagContext.flagsOf
  rw [h.typeSets]
  simp only [hfirst]
  exact hagree.apply hne _

/-- A symbol without directives changes its own counter alone. -/
theorem agreeExcept_flagsOf (ctx : FlagContext) {e : Xml.Element} (hid : e.attr "id" ≠ "")
    (hsilent : Directive.ofElement e = []) (fqn : String) :
    AgreeExcept (e.attr "id") ctx (ctx.flagsOf e fqn).2 := by
  have hown : Directive.ownFlags ctx.typeSets e = {} := by
    rw [Directive.ownFlags, hsilent]
    rfl
  have hkey : receiverKey fqn (e.attr "id") = e.attr "id" := if_neg hid
  have happly := agreeExcept_apply ctx fqn (e.attr "id") {}
  rw [hkey] at happly
  unfold FlagContext.flagsOf
  rw [hown]
  exact happly

/-- Elements with the same directives and identifier are given the same flags. -/
theorem flagsOf_congr {e e' : Xml.Element} (hdirectives : Directive.ofElement e' = Directive.ofElement e)
    (hid : e'.attr "id" = e.attr "id") (ctx : FlagContext) (fqn : String) :
    ctx.flagsOf e' fqn = ctx.flagsOf e fqn := by
  unfold FlagContext.flagsOf Directive.ownFlags
  rw [hdirectives, hid]

end ScriptBindings.FlagContext
