import Mathlib
import ScriptBindings.Proofs.Binding.Legality

/-!
# Leaving out defaults

A callable with defaults is bound as a chain of wrappers.  The first one takes the parameters before the first
default, each further one takes one parameter more, and the last one takes all.  The wrappers differ in nothing
but what they take: a parameter is adapted for itself, whatever comes behind it.
-/

namespace ScriptBindings

namespace Binding

variable {db : Database} {f : Callable} {d : Nat} {ws : List CallWrapper} {overloaded : Bool}

/-- Wrappers that take the first parameters of a callable, from a number of them on to all of them, each
wrapper one more than the one before.  What they call, what they return, what they put in front of the call
and the object that they call it on are the same; so is what becomes of a parameter in all wrappers that take
it. -/
structure PrefixChain (db : Database) (f : Callable) (first : Nat) (ws : List CallWrapper) : Prop where
  wraps : ∀ i w, ws[i]? = some w → Wraps db f (first + i) w
  parameters_next : ∀ i w next, ws[i]? = some w → ws[i + 1]? = some next →
    w.parameters = next.parameters.dropLast
  arguments_next : ∀ i w next, ws[i]? = some w → ws[i + 1]? = some next →
    w.arguments = next.arguments.dropLast
  shared : ∀ w ∈ ws, ∀ w' ∈ ws, w.call = w'.call ∧ w.returnType = w'.returnType ∧
    w.callLead = w'.callLead
  alone : ∃ self, Receiver f self ∧ ∀ i w, ws[i]? = some w →
    w.parameters = self ++ (f.params.take (first + i)).map (fun p =>
      ((adaptParameter db p).ty, (adaptParameter db p).name)) ∧
    w.arguments = (f.params.take (first + i)).map fun p => (adaptParameter db p).argument

/-- The wrapper for one argument less leaves the last parameter out. -/
theorem dropLast_map_take_succ {α β : Type} (g : α → β) (l : List α) {n : Nat} (h : n < l.length) :
    ((l.take (n + 1)).map g).dropLast = (l.take n).map g := by
  rw [List.take_succ_eq_append_getElem h, List.map_append, List.map_singleton, List.dropLast_concat]

theorem mandatory_eq (h : f.params.findIdx? (fun p => p.default.isSome) = some d) :
    mandatory f = d ∧ d < f.params.length := by
  obtain ⟨hlt, hfirst⟩ := List.findIdx?_eq_some_iff_findIdx_eq.1 h
  refine ⟨?_, hlt⟩
  rw [mandatory, List.takeWhile_eq_take_findIdx_not, List.length_take]
  simp only [Option.not_isNone]
  rw [hfirst, Nat.min_eq_left hlt.le]

theorem prefixChain_wrap (db : Database) (h : mandatory f = d) (hlt : d < f.params.length) :
    PrefixChain db f d ((arities f).map fun n => wrap db f n none .defaultParameters) := by
  -- The wrapper at a position takes that many parameters more than the first one.
  have hget : ∀ i w, ((arities f).map fun n => wrap db f n none .defaultParameters)[i]? = some w →
      d + i ≤ f.params.length ∧ w = wrap db f (d + i) none .defaultParameters := by
    intro i w hw
    rw [arities, h, List.map_map, List.getElem?_map, Option.map_eq_some_iff] at hw
    obtain ⟨n, hn, rfl⟩ := hw
    obtain ⟨hi, rfl⟩ := List.getElem?_eq_some_iff.1 hn
    rw [List.length_range] at hi
    rw [List.getElem_range]
    exact ⟨by omega, rfl⟩
  refine ⟨fun i w hw => ?_, fun i w next hw hnext => ?_, fun i w next hw hnext => ?_, ?_, ?_⟩
  · obtain ⟨hle, rfl⟩ := hget i w hw
    exact wraps_wrap db .defaultParameters hle
  · obtain ⟨-, rfl⟩ := hget i w hw
    obtain ⟨hle, rfl⟩ := hget (i + 1) next hnext
    -- What is left out is a declared parameter, and not the object in front.
    have htaken : (f.params.take (d + i + 1)).map (fun p =>
        ((adaptParameter db p).ty, (adaptParameter db p).name)) ≠ [] :=
      List.ne_nil_of_length_pos (by rw [List.length_map, List.length_take]; omega)
    rw [parameters_wrap, parameters_wrap, ← Nat.add_assoc, List.dropLast_append_of_ne_nil htaken,
      dropLast_map_take_succ _ _ (by omega)]
  · obtain ⟨-, rfl⟩ := hget i w hw
    obtain ⟨hle, rfl⟩ := hget (i + 1) next hnext
    rw [arguments_wrap, arguments_wrap, ← Nat.add_assoc, dropLast_map_take_succ _ _ (by omega)]
  · intro w hw w' hw'
    obtain ⟨n, -, rfl⟩ := List.mem_map.1 hw
    obtain ⟨n', -, rfl⟩ := List.mem_map.1 hw'
    exact ⟨rfl, rfl, rfl⟩
  · refine ⟨receiverParameters f, receiver_iff.2 rfl, fun i w hw => ?_⟩
    obtain ⟨-, rfl⟩ := hget i w hw
    exact ⟨parameters_wrap db f _ _, arguments_wrap db f _ _⟩

/-- A callable that is bound itself and whose first default is that of the parameter at some position is bound
as a chain of wrappers, one for each number of arguments from that position on. -/
theorem strategyOf_prefixes (db : Database) (hself : BoundItself f)
    (hfirst : f.params.findIdx? (fun p => p.default.isSome) = some d) (overloaded : Bool) :
    ∃ ws : List CallWrapper, strategyOf db f overloaded = .overload (ws.map .wrapper) ∧
      ws.length = f.params.length - d + 1 ∧ PrefixChain db f d ws := by
  obtain ⟨hmandatory, hlt⟩ := mandatory_eq hfirst
  have hdefault : hasDefaults f = true := by
    rw [hasDefaults, ← List.findIdx?_isSome, hfirst]
    rfl
  refine ⟨_, strategyOf_of_defaults db hself hdefault overloaded, ?_,
    prefixChain_wrap db hmandatory hlt⟩
  rw [arities, List.length_map, List.length_map, List.length_range, hmandatory]

/-- A method of an abstract class: of its four parameters the second one has a default, the third one none. -/
def blendMethod : Callable where
  name := "blend"
  scope := "ns"
  owner := some "Shape"
  params := [
    { name := "other", ty := .base "ns::Shape" ⟨["const"], ["&"]⟩ },
    { name := "mask", ty := .base "ns::Mask" ⟨[], ["&&"]⟩, default := some "{}" },
    { name := "amount", ty := .base "float" ⟨[], ["&"]⟩ },
    { name := "smooth", ty := .named "bool", default := some "true" }]
  result := some (.base "ns::Shape" ⟨["const"], ["&"]⟩)

theorem strategyOf_prefixes_blend : BoundItself blendMethod ∧
    blendMethod.params.findIdx? (fun p => p.default.isSome) = some 1 ∧
      ∃ ws : List CallWrapper, strategyOf shapeOnly blendMethod true = .overload (ws.map .wrapper) ∧
        ws.length = 4 ∧ PrefixChain shapeOnly blendMethod 1 ws := by
  have hself : BoundItself blendMethod := by decide
  have hfirst : blendMethod.params.findIdx? (fun p => p.default.isSome) = some 1 := by decide
  exact ⟨hself, hfirst, strategyOf_prefixes shapeOnly hself hfirst true⟩

end Binding

end ScriptBindings
