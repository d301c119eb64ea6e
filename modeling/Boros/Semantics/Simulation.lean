import Mathlib.Data.List.Induction
import Boros.Semantics.Transition

/-!
# Forward simulation

A concrete system is seen through a view of its states. Each of its steps is a step of the
abstract system between two views, or leaves the view as it is. Along a run the visible steps
are then a run of the abstract system (`Simulation.run`).
-/

namespace Boros.Semantics

universe u v w x

variable {State : Type u} {Label : Type v} {State' : Type w} {Label' : Type x}

/-- What every allowed step from a state with the invariant looks like through `view`: the step
of its visible label, or no step. -/
structure Simulation (Step : State → Label → State → Prop)
    (Step' : State' → Label' → State' → Prop) (allowed : State → Label → Prop)
    (Inv : State → Prop) where
  view : State → State'
  visible : Transition State Label → Option Label'
  preserved : Preserved Step allowed Inv
  matched : ∀ state label next action, Inv state → allowed state label →
    Step state label next → visible ⟨state, label, next⟩ = some action →
      Step' (view state) action (view next)
  stutters : ∀ state label next, Inv state → allowed state label → Step state label next →
    visible ⟨state, label, next⟩ = none → view next = view state

variable {Step : State → Label → State → Prop} {Step' : State' → Label' → State' → Prop}
  {allowed : State → Label → Prop} {Inv : State → Prop}

/-- A transition as it is seen, unless it is not. -/
def Simulation.seen (simulation : Simulation Step Step' allowed Inv)
    (transition : Transition State Label) : Option (Transition State' Label') :=
  (simulation.visible transition).map fun action =>
    ⟨simulation.view transition.before, action, simulation.view transition.after⟩

/-- What is seen of a run is a run. -/
theorem Simulation.run (simulation : Simulation Step Step' allowed Inv) {start final : State}
    {trace : List (Transition State Label)} (run : Run Step start trace final)
    (holds : Inv start) (guarded : Guarded allowed trace) :
    Run Step' (simulation.view start) (trace.filterMap simulation.seen)
      (simulation.view final) := by
  induction run with
  | nil => exact .nil
  | @cons start label middle trace final transition rest ih =>
      rw [guarded_cons] at guarded
      have later := ih (simulation.preserved _ _ _ holds guarded.1 transition) guarded.2
      cases seen : simulation.visible ⟨start, label, middle⟩ with
      | none =>
          have same := simulation.stutters _ _ _ holds guarded.1 transition seen
          rw [same] at later
          rw [List.filterMap_cons_none (by simp [Simulation.seen, seen])]
          exact later
      | some action =>
          have step := simulation.matched _ _ _ _ holds guarded.1 transition seen
          rw [List.filterMap_cons_some (by simp [Simulation.seen, seen]; rfl)]
          exact .cons step later

/-- A property of the runs of a system, which grow at their end. -/
theorem Run.history {P : List (Transition State Label) → State → Prop} {start final : State}
    {trace : List (Transition State Label)} (run : Run Step start trace final)
    (initial : P [] start)
    (extend : ∀ prior state label next, Run Step start prior state → P prior state →
      Step state label next → P (prior ++ [⟨state, label, next⟩]) next) : P trace final := by
  induction trace using List.reverseRecOn generalizing final with
  | nil =>
      cases run
      exact initial
  | append_singleton prior last ih =>
      obtain ⟨state, label, next⟩ := last
      obtain ⟨before, step, done⟩ := run.around
      cases done
      exact extend prior state label _ before (ih before) step

end Boros.Semantics
