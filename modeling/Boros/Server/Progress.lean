import Boros.Semantics.Simulation
import Boros.Server.Locking

/-!
# Calls come to an end

A call of `submit_tx` takes steps of its own between its awaits: it examines an item, checks a
token, stores its records, sends a signal, answers. `progress_of_run` says that there is a bound
on these steps, by the length of the message, whatever happens in between; and that a call which
has not ended can take its next one, unless it waits for room in the channel of a queue.
-/

namespace Boros.Server.Locking

open Boros.Data Boros.Semantics Boros.Storage Boros.Ledger Boros.Queue Boros.Queue.Chaining
open Boros.Server.Submit

variable {pallas : Pallas} {queues : Configs} {state next final : State} {label : Label pallas}
  {trace : List (Transition State (Label pallas))} {id now : Nat} {request : Request} {db : Db}

/-- The call which takes a step. -/
def Label.caller : Label pallas → Option Nat
  | .examine id _ _ | .check id | .create id | .createFail id | .unlock id | .answer id => some id
  | _ => none

/-- The call has returned, or its task has panicked. -/
def HasEnded : Phase → Prop
  | .answered _ | .panicked _ => True
  | _ => False

/-- The next signal of the call does not fit into its channel. -/
def WaitsForRoom (state : State) (request : Request) : Prop :=
  ∃ queue rest, request.phase = .unlocking (queue :: rest) ∧
    unlockCapacity ≤ state.locks.unlocks queue

/-- A bound on the steps which a call has left to take: three for an item of the message, as it is
examined, checked and signalled. -/
def Request.work (request : Request) : Nat :=
  match request.phase with
  | .examining _ remaining => 3 * remaining.length + request.passed.length + 3
  | .checking _ _ _ _ _ remaining => 3 * remaining.length + request.passed.length + 5
  | .creating => request.passed.length + 2
  | .unlocking signals => signals.length + 1
  | .answered _ | .panicked _ => 0

theorem Request.work_examine {validation evaluation : U5cDataAdapter pallas} {index : Nat}
    {remaining : List TxRequest} :
    Request.work (request.examine pallas queues validation evaluation now index remaining) <
      3 * remaining.length + request.passed.length + 3 := by
  fun_cases Request.examine pallas queues validation evaluation now request index remaining <;>
    simp only [Request.work, Request.fail, Request.push, List.length_cons, List.length_nil] <;>
    omega

theorem Request.work_check {locks : Locks} {tx : Transaction} {hash : Hash32}
    {queue token : String} {index : Nat} {remaining : List TxRequest} :
    Request.work (request.check locks tx hash queue token index remaining) <
      3 * remaining.length + request.passed.length + 5 := by
  unfold Request.check
  split
  · simp only [Request.work, Request.push, List.length_append, List.length_singleton]
    omega
  · exact Nat.succ_pos _

/-- A call has less to do after a step of its own. -/
theorem Step.work (step : Step queues state label next) (own : label.caller = some id)
    (found : state.requests id = some request) :
    ∃ after, next.requests id = some after ∧ Request.work after < Request.work request := by
  have set : ∀ (before : State) (after : Request),
      (before.setRequest id after).requests id = some after := fun before after =>
    Function.update_self id _ before.requests
  cases step with
  | tick | store | lock | worker | submit => cases own
  | examine validation evaluation found' phase =>
      cases own
      cases found.symm.trans found'
      refine ⟨_, set _ _, Nat.lt_of_lt_of_eq Request.work_examine ?_⟩
      rw [Request.work, phase]
  | check found' phase =>
      cases own
      cases found.symm.trans found'
      refine ⟨_, set _ _, Nat.lt_of_lt_of_eq Request.work_check ?_⟩
      rw [Request.work, phase]
  | create found' phase =>
      cases own
      cases found.symm.trans found'
      refine ⟨_, set _ _, ?_⟩
      simp only [Request.work, phase, Request.created, List.length_map]
      omega
  | createFail found' phase =>
      cases own
      cases found.symm.trans found'
      refine ⟨_, set _ _, ?_⟩
      simp only [Request.work, phase, Request.fail]
      omega
  | unlock found' phase =>
      cases own
      cases found.symm.trans found'
      refine ⟨_, set _ _, ?_⟩
      simp only [Request.work, phase, List.length_cons]
      omega
  | answer found' phase =>
      cases own
      cases found.symm.trans found'
      refine ⟨_, set _ _, ?_⟩
      simp only [Request.work, phase, List.length_nil]
      omega

/-- A step of another call, or of nobody's, leaves a call as it is, unless it comes in. -/
theorem Step.other_request (step : Step queues state label next) (other : label.caller ≠ some id) :
    next.requests id = state.requests id ∨ state.requests id = none ∧
      ∃ message, label = .submit id message ∧ next.requests id = some (.new message) := by
  have kept : ∀ {taker after}, taker ≠ id →
      (state.setRequest taker after).requests id = state.requests id := fun apart =>
    Function.update_of_ne apart.symm _ _
  cases step with
  | tick | store | lock | worker => exact .inl rfl
  | submit taker message free =>
      by_cases same : taker = id
      · subst same
        exact .inr ⟨free, message, rfl, Function.update_self _ _ _⟩
      · exact .inl (kept same)
  | examine | check | create | createFail | unlock | answer =>
      exact .inl (kept fun same => other (congrArg some same))

/-- A step of a call is one of a call which has come in. -/
theorem Step.exists_of_caller (step : Step queues state label next)
    (own : label.caller = some id) : ∃ request, state.requests id = some request := by
  cases step with
  | tick | store | lock | worker | submit => cases own
  | examine _ _ found | check found | create found | createFail found | unlock found
  | answer found =>
      cases own
      exact ⟨_, found⟩

/-- A call which has not ended can take a step, if there is room for its signals. -/
theorem exists_step_of_call (found : state.requests id = some request)
    (going : ¬ HasEnded request.phase) : WaitsForRoom state request ∨
      ∃ (label : Label pallas) (next : State), label.caller = some id ∧
        Step queues state label next := by
  cases phase : request.phase with
  | examining index remaining =>
      let adapter : U5cDataAdapter pallas :=
        ⟨.error (.error ""), fun _ => .error (.error ""), fun _ _ => .error (.error "")⟩
      exact .inr ⟨_, _, rfl, .examine adapter adapter found phase⟩
  | checking => exact .inr ⟨_, _, rfl, .check found phase⟩
  | creating =>
      cases created : state.db.create request.txs with
      | ok db => exact .inr ⟨_, _, rfl, .create found phase created⟩
      | error cause => exact .inr ⟨_, _, rfl, .createFail found phase⟩
  | unlocking signals =>
      cases signals with
      | nil => exact .inr ⟨_, _, rfl, .answer found phase⟩
      | cons queue rest =>
          by_cases room : state.locks.unlocks queue < unlockCapacity
          · exact .inr ⟨_, _, rfl, .unlock found phase room⟩
          · exact .inl ⟨queue, rest, phase, Nat.le_of_not_lt room⟩
  | answered | panicked =>
      rw [phase] at going
      exact absurd trivial going

/-! ## Runs -/

/-- The steps of a call. -/
def ownSteps (id : Nat) (trace : List (Transition State (Label pallas))) : Nat :=
  trace.countP fun transition => transition.label.caller = some id

/-- The steps which a call has taken, and those which it has left, are within its bound. -/
def Budgeted (id : Nat) (trace : List (Transition State (Label pallas))) : Option Request → Prop
  | none => ownSteps id trace = 0
  | some request => ∃ message, (∃ transition ∈ trace, transition.label = .submit id message) ∧
    ownSteps id trace + Request.work request ≤ 3 * message.length + 3

theorem ownSteps_snoc {transition : Transition State (Label pallas)} :
    ownSteps id (trace ++ [transition]) =
      ownSteps id trace + if transition.label.caller = some id then 1 else 0 := by
  simp [ownSteps, List.countP_append, List.countP_singleton]

/-- Every step keeps every call within its bound. -/
theorem Step.budgeted (step : Step queues state label next)
    (budgeted : Budgeted id trace (state.requests id)) :
    Budgeted id (trace ++ [⟨state, label, next⟩]) (next.requests id) := by
  by_cases own : label.caller = some id
  · obtain ⟨request, found⟩ := step.exists_of_caller own
    obtain ⟨after, found', less⟩ := step.work own found
    rw [found] at budgeted
    obtain ⟨message, ⟨submission, member, submitted⟩, bound⟩ := budgeted
    rw [found']
    refine ⟨message, ⟨submission, List.mem_append_left _ member, submitted⟩, ?_⟩
    rw [ownSteps_snoc, if_pos own]
    omega
  · have same : ownSteps id (trace ++ [⟨state, label, next⟩]) = ownSteps id trace := by
      rw [ownSteps_snoc, if_neg own, Nat.add_zero]
    rcases step.other_request own with kept | ⟨free, message, rfl, fresh⟩
    · rw [kept]
      cases found : state.requests id with
      | none =>
          rw [found] at budgeted
          exact same.trans budgeted
      | some request =>
          rw [found] at budgeted
          obtain ⟨message, ⟨submission, member, submitted⟩, bound⟩ := budgeted
          exact ⟨message, ⟨submission, List.mem_append_left _ member, submitted⟩, same ▸ bound⟩
    · rw [free] at budgeted
      rw [fresh]
      refine ⟨message, ⟨_, List.mem_append_right _ List.mem_cons_self, rfl⟩, ?_⟩
      rw [same, show ownSteps id trace = 0 from budgeted, Nat.zero_add]
      exact Nat.le_refl _

/-- A call takes no more steps than its message allows, and goes on until it has ended, but for
waiting for room for a signal. -/
structure Progress (queues : Configs) (trace : List (Transition State (Label pallas)))
    (final : State) (id : Nat) (request : Request) : Prop where
  bounded : ∃ message, (∃ transition ∈ trace, transition.label = .submit id message) ∧
    ownSteps id trace ≤ 3 * message.length + 3
  going : HasEnded request.phase ∨ WaitsForRoom final request ∨
    ∃ (label : Label pallas) (next : State), label.caller = some id ∧
      Step queues final label next

/-- In every run, every call makes progress, whatever the others, the workers and the stages do. -/
theorem progress_of_run (run : Run (Step queues) (State.initial db now) trace final)
    (found : final.requests id = some request) : Progress queues trace final id request := by
  have budgeted : Budgeted id trace (final.requests id) := by
    refine run.history (P := fun trace state => Budgeted id trace (state.requests id)) rfl ?_
    intro prior state label next _ budgeted step
    exact step.budgeted budgeted
  rw [found] at budgeted
  obtain ⟨message, submitted, bound⟩ := budgeted
  refine ⟨⟨message, submitted, Nat.le_trans (Nat.le_add_right _ _) bound⟩, ?_⟩
  by_cases ended : HasEnded request.phase
  · exact .inl ended
  · exact .inr (exists_step_of_call found ended)

/-- A call with one transaction has taken five of at most six steps when it can answer. -/
theorem progress_of_run_sample :
    ∃ (trace : List (Transition State (Label samplePallas))) (final : State) (request : Request),
      Run (Step sampleQueues) (State.initial .empty 0) trace final ∧
        ownSteps 0 trace = 5 ∧ request.phase = .unlocking [] ∧
        Progress sampleQueues trace final 0 request := by
  let labels : List (Label samplePallas) := sampleLock 1 "aaaaaaaa" ++
    [.worker "banana" .deliver] ++ sampleSubmission 0 [sampleRequest 1 "aaaaaaaa"] ++
    [.create 0, .unlock 0]
  have reached : (follow (State.exec sampleQueues) (State.initial .empty 0) labels).bind
      (fun final => (final.requests 0).map Request.phase) = some (.unlocking []) := by
    decide +kernel
  obtain ⟨final, followed, view⟩ := Option.bind_eq_some_iff.mp reached
  obtain ⟨request, found, phase⟩ := Option.map_eq_some_iff.mp view
  obtain ⟨trace, run, same⟩ := Run.of_follow (step_of_exec sampleQueues) followed
  refine ⟨trace, final, request, run, ?_, phase, progress_of_run run found⟩
  have count : labels.countP (fun label => label.caller = some 0) = 5 := rfl
  rw [← same, List.countP_map] at count
  exact count

end Boros.Server.Locking
