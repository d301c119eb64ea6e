import Boros.Semantics.Transition

/-!
# First in, first out

What comes into a system, what it holds and what goes out of it, each in order. If no step
loses, invents or reorders anything, no run does: `Flow.run`. So what is held goes out after
everything before it, and before everything behind it.
-/

namespace Boros.Semantics

universe u v w

variable {State : Type u} {Label : Type v} {Step : State → Label → State → Prop}
  {Item : Type w} {allowed : State → Label → Prop} {Inv : State → Prop}

/-- A passage through a system in which every allowed step, from a state with the invariant,
keeps the order. -/
structure Flow (Step : State → Label → State → Prop) (allowed : State → Label → Prop)
    (Inv : State → Prop) (Item : Type w) where
  held : State → List Item
  incoming : Transition State Label → List Item
  outgoing : Transition State Label → List Item
  preserved : Preserved Step allowed Inv
  balanced : ∀ state label next, Inv state → allowed state label → Step state label next →
    held state ++ incoming ⟨state, label, next⟩ = outgoing ⟨state, label, next⟩ ++ held next

variable {start final : State} {trace : List (Transition State Label)}

/-- Over a run, what was held and what came in has gone out or is held, in order. -/
theorem Flow.run (flow : Flow Step allowed Inv Item) (run : Run Step start trace final)
    (holds : Inv start) (guarded : Guarded allowed trace) :
    flow.held start ++ trace.flatMap flow.incoming =
      trace.flatMap flow.outgoing ++ flow.held final := by
  induction run with
  | nil => simp
  | @cons start label middle trace final step rest ih =>
      rw [guarded_cons] at guarded
      have first := flow.balanced start label middle holds guarded.1 step
      have later := ih (flow.preserved start label middle holds guarded.1 step) guarded.2
      calc flow.held start ++ List.flatMap flow.incoming (⟨start, label, middle⟩ :: trace)
          = (flow.held start ++ flow.incoming ⟨start, label, middle⟩) ++
              trace.flatMap flow.incoming := by simp
        _ = flow.outgoing ⟨start, label, middle⟩ ++
              (flow.held middle ++ trace.flatMap flow.incoming) := by
            rw [first, List.append_assoc]
        _ = List.flatMap flow.outgoing (⟨start, label, middle⟩ :: trace) ++ flow.held final := by
            rw [later]
            simp

end Boros.Semantics
