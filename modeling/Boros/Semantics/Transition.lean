import Mathlib.Data.List.Basic

/-!
# Finite runs of labelled transition systems

A system is given by its step relation alone. `Run` keeps every transition it
takes as data, so that a property of a run may speak about the state before a
step, about the step's label, and about the order of two steps.
`Run.invariant` packages the induction over a run once: an invariant which
every allowed step preserves holds along every run whose steps are all allowed.
-/

namespace Boros.Semantics

universe u v

/-- One transition of a run, with the states on both sides of its label. -/
@[ext]
structure Transition (State : Type u) (Label : Type v) where
  before : State
  label : Label
  after : State
deriving DecidableEq

variable {State : Type u} {Label : Type v} {Step : State → Label → State → Prop}

/-- A finite run from `start`, with the transitions it took in order. -/
inductive Run (Step : State → Label → State → Prop) :
    State → List (Transition State Label) → State → Prop where
  | nil {start} : Run Step start [] start
  | cons {start label middle trace final} (transition : Step start label middle)
      (rest : Run Step middle trace final) :
      Run Step start (⟨start, label, middle⟩ :: trace) final

/-- Every transition of `trace` starts in a state where its label is allowed. -/
def Guarded (allowed : State → Label → Prop) (trace : List (Transition State Label)) : Prop :=
  ∀ transition ∈ trace, allowed transition.before transition.label

@[simp]
theorem guarded_nil (allowed : State → Label → Prop) : Guarded allowed [] := by
  simp [Guarded]

@[simp]
theorem guarded_append (allowed : State → Label → Prop)
    (first second : List (Transition State Label)) :
    Guarded allowed (first ++ second) ↔ Guarded allowed first ∧ Guarded allowed second := by
  simp [Guarded, or_imp, forall_and]

@[simp]
theorem guarded_cons (allowed : State → Label → Prop) (transition : Transition State Label)
    (rest : List (Transition State Label)) :
    Guarded allowed (transition :: rest) ↔
      allowed transition.before transition.label ∧ Guarded allowed rest := by
  simp [Guarded]

/-- A weaker guard allows every trace that a stronger one allows. -/
theorem Guarded.mono {weak strong : State → Label → Prop}
    {trace : List (Transition State Label)} (guarded : Guarded strong trace)
    (weaken : ∀ state label, strong state label → weak state label) : Guarded weak trace :=
  fun transition member => weaken _ _ (guarded transition member)

/-- `Inv` is preserved by every allowed step. -/
def Preserved (Step : State → Label → State → Prop) (allowed : State → Label → Prop)
    (Inv : State → Prop) : Prop :=
  ∀ state label next, Inv state → allowed state label → Step state label next → Inv next

/-- Runs compose at a common state. -/
theorem Run.append {start middle final : State}
    {first second : List (Transition State Label)} (prior : Run Step start first middle)
    (rest : Run Step middle second final) : Run Step start (first ++ second) final := by
  induction prior with
  | nil => exact rest
  | cons transition _ ih => exact .cons transition (ih rest)

/-- A run is extended by one step at its end. -/
theorem Run.snoc {start middle final : State} {label : Label}
    {trace : List (Transition State Label)} (prior : Run Step start trace middle)
    (transition : Step middle label final) :
    Run Step start (trace ++ [⟨middle, label, final⟩]) final :=
  prior.append (.cons transition .nil)

/-- A run is cut at any position of its trace. -/
theorem Run.split {start final : State} {first second : List (Transition State Label)}
    (run : Run Step start (first ++ second) final) :
    ∃ middle, Run Step start first middle ∧ Run Step middle second final := by
  induction first generalizing start with
  | nil => exact ⟨start, .nil, run⟩
  | cons head tail ih =>
      cases run with
      | cons transition rest =>
          obtain ⟨middle, before, after⟩ := ih rest
          exact ⟨middle, .cons transition before, after⟩

/-- A run is cut around any transition of its trace. -/
theorem Run.around {start final : State} {first second : List (Transition State Label)}
    {transition : Transition State Label}
    (run : Run Step start (first ++ transition :: second) final) :
    Run Step start first transition.before ∧
      Step transition.before transition.label transition.after ∧
      Run Step transition.after second final := by
  obtain ⟨middle, before, rest⟩ := run.split
  cases rest with
  | cons step after => exact ⟨before, step, after⟩

/-- Every transition of a run is a step. -/
theorem Run.step_of_mem {start final : State} {trace : List (Transition State Label)}
    (run : Run Step start trace final) {transition : Transition State Label}
    (member : transition ∈ trace) :
    Step transition.before transition.label transition.after := by
  obtain ⟨first, second, rfl⟩ := List.append_of_mem member
  exact run.around.2.1

/-- There is a run of allowed steps between two states. -/
def Reaches (Step : State → Label → State → Prop) (allowed : State → Label → Prop)
    (start final : State) : Prop :=
  ∃ trace, Run Step start trace final ∧ Guarded allowed trace

/-- A run of allowed steps is extended by an allowed step at its start. -/
theorem Reaches.cons {allowed : State → Label → Prop} {start middle final : State} {label : Label}
    (transition : Step start label middle) (here : allowed start label)
    (rest : Reaches Step allowed middle final) : Reaches Step allowed start final := by
  obtain ⟨trace, run, guarded⟩ := rest
  exact ⟨_, .cons transition run, (guarded_cons _ _ _).mpr ⟨here, guarded⟩⟩

theorem Reaches.refl (allowed : State → Label → Prop) (state : State) :
    Reaches Step allowed state state :=
  ⟨[], .nil, guarded_nil _⟩

/-- Runs of allowed steps compose at a common state. -/
theorem Reaches.trans {allowed : State → Label → Prop} {start middle final : State}
    (prior : Reaches Step allowed start middle) (rest : Reaches Step allowed middle final) :
    Reaches Step allowed start final := by
  obtain ⟨first, before, guarded⟩ := prior
  obtain ⟨second, after, guarded'⟩ := rest
  exact ⟨first ++ second, before.append after, (guarded_append _ _ _).mpr ⟨guarded, guarded'⟩⟩

/-- A run whose steps are all allowed under a guard is one under a weaker guard. -/
theorem Reaches.mono {weak strong : State → Label → Prop} {start final : State}
    (reaches : Reaches Step strong start final)
    (weaken : ∀ state label, strong state label → weak state label) :
    Reaches Step weak start final := by
  obtain ⟨trace, run, guarded⟩ := reaches
  exact ⟨trace, run, guarded.mono weaken⟩

/-- A run of allowed steps is one of another system which takes the same steps. -/
theorem Reaches.map {State' : Type*} {Label' : Type*} {Step' : State' → Label' → State' → Prop}
    {allowed : State → Label → Prop} {allowed' : State' → Label' → Prop} (state : State → State')
    (label : Label → Label') (steps : ∀ before action after, allowed before action →
      Step before action after → Step' (state before) (label action) (state after) ∧
        allowed' (state before) (label action)) {start final : State}
    (reaches : Reaches Step allowed start final) :
    Reaches Step' allowed' (state start) (state final) := by
  obtain ⟨trace, run, guarded⟩ := reaches
  induction run with
  | nil => exact .refl _ _
  | cons transition _ ih =>
      rw [guarded_cons] at guarded
      obtain ⟨step, here⟩ := steps _ _ _ guarded.1 transition
      exact .cons step here (ih guarded.2)

/-- An invariant that every allowed step preserves holds at the end of every
run whose steps are all allowed. -/
theorem Run.invariant {allowed : State → Label → Prop} {Inv : State → Prop}
    (preserved : Preserved Step allowed Inv) {start final : State}
    {trace : List (Transition State Label)} (run : Run Step start trace final)
    (holds : Inv start) (guarded : Guarded allowed trace) : Inv final := by
  induction run with
  | nil => exact holds
  | cons transition _ ih =>
      rw [guarded_cons] at guarded
      exact ih (preserved _ _ _ holds guarded.1 transition) guarded.2

/-- The same invariant holds on both sides of every transition of the run. -/
theorem Run.invariant_of_mem {allowed : State → Label → Prop} {Inv : State → Prop}
    (preserved : Preserved Step allowed Inv) {start final : State}
    {trace : List (Transition State Label)} (run : Run Step start trace final)
    (holds : Inv start) (guarded : Guarded allowed trace)
    {transition : Transition State Label} (member : transition ∈ trace) :
    Inv transition.before ∧ Inv transition.after := by
  obtain ⟨first, second, rfl⟩ := List.append_of_mem member
  rw [guarded_append, guarded_cons] at guarded
  obtain ⟨before, step, _⟩ := run.around
  have here : Inv transition.before := before.invariant preserved holds guarded.1
  exact ⟨here, preserved _ _ _ here guarded.2.1 step⟩

/-- A level which no allowed step raises, and which is lowered by `amount` in each round, as far
down as it goes, is lowered in a run by that amount for each of its rounds. -/
theorem Run.level_le {allowed : State → Label → Prop} {Inv : State → Prop}
    (preserved : Preserved Step allowed Inv) {level : State → Nat} {amount : Nat}
    {round : Transition State Label → Bool}
    (lowered : ∀ state label next, Inv state → allowed state label → Step state label next →
      level next ≤ level state - if round ⟨state, label, next⟩ then amount else 0)
    {start final : State} {trace : List (Transition State Label)}
    (run : Run Step start trace final) (holds : Inv start) (guarded : Guarded allowed trace) :
    level final ≤ level start - amount * trace.countP round := by
  induction run with
  | nil => exact Nat.le_refl _
  | @cons start label middle trace final step rest ih =>
      rw [guarded_cons] at guarded
      have first := lowered start label middle holds guarded.1 step
      have later := ih (preserved start label middle holds guarded.1 step) guarded.2
      rw [List.countP_cons, Nat.mul_add]
      cases served : round ⟨start, label, middle⟩ with
      | true =>
          rw [served, if_pos rfl] at first
          rw [if_pos rfl]
          omega
      | false =>
          rw [served, if_neg Bool.false_ne_true] at first
          rw [if_neg Bool.false_ne_true]
          omega

/-- A run which ends with a property has a step which brings it about. -/
theorem Run.exists_step_of_change {P : State → Prop} {start final : State}
    {trace : List (Transition State Label)} (run : Run Step start trace final)
    (absent : ¬ P start) (present : P final) :
    ∃ transition ∈ trace, ¬ P transition.before ∧ P transition.after := by
  induction run with
  | nil => exact absurd present absent
  | @cons start label middle trace final transition rest ih =>
      by_cases here : P middle
      · exact ⟨⟨start, label, middle⟩, List.mem_cons_self, absent, here⟩
      · obtain ⟨later, member, change⟩ := ih here present
        exact ⟨later, List.mem_cons_of_mem _ member, change⟩

/-- A run which ends with a property is cut around a step which brings it about. -/
theorem Run.split_of_change {P : State → Prop} {start final : State}
    {trace : List (Transition State Label)} (run : Run Step start trace final)
    (absent : ¬ P start) (present : P final) :
    ∃ first transition second, trace = first ++ transition :: second ∧
      ¬ P transition.before ∧ P transition.after := by
  obtain ⟨transition, member, change⟩ := run.exists_step_of_change absent present
  obtain ⟨first, second, cut⟩ := List.append_of_mem member
  exact ⟨first, transition, second, cut, change⟩

/-- Take the steps of the labels, one after the other. -/
def follow (exec : State → Label → Option State) (start : State) : List Label → Option State
  | [] => some start
  | label :: rest => (exec start label).bind fun next => follow exec next rest

/-- Labels that can be followed are those of a run. -/
theorem Run.of_follow {exec : State → Label → Option State}
    (sound : ∀ state label next, exec state label = some next → Step state label next)
    {start final : State} {labels : List Label} (followed : follow exec start labels = some final) :
    ∃ trace, Run Step start trace final ∧ trace.map Transition.label = labels := by
  induction labels generalizing start with
  | nil =>
      obtain rfl := Option.some.inj followed
      exact ⟨[], .nil, rfl⟩
  | cons label rest ih =>
      obtain ⟨next, taken, later⟩ := Option.bind_eq_some_iff.mp followed
      obtain ⟨trace, run, labels⟩ := ih later
      exact ⟨_, .cons (sound _ _ _ taken) run, by simp [labels]⟩

/-- The label of a transition is among those that were followed. -/
theorem label_mem {trace : List (Transition State Label)} {labels : List Label}
    {transition : Transition State Label} (followed : trace.map Transition.label = labels)
    (member : transition ∈ trace) : transition.label ∈ labels :=
  followed ▸ List.mem_map_of_mem member

end Boros.Semantics
