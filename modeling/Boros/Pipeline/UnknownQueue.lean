import Boros.Pipeline.Execute
import Boros.Pipeline.System

/-!
# Transactions of unknown queues

A queue which is not configured is looked up in three places. `submit_tx` falls back to
the default queue, `Priority::next` to the weight one, and `execute` gives up with
`WorkerError::Retry`. So the unit of such a transaction is never executed to its end, and
nothing after it in the unit is looked at.
-/

namespace Boros.Pipeline.Ingest

open Boros.Data Boros.Semantics Boros.Storage Boros.Ledger Boros.Queue Boros.Server

variable {pallas : Pallas} {stage : Stage} {queues : Configs} {tx : Transaction}
  {calls : Calls pallas} {first second : List (Transaction × Calls pallas)}
  {entries : List (Transaction × Calls pallas)} {output middle : Output} {abort : Abort WorkerError}

/-- The weight which `Priority::next` uses for a queue. -/
def weight (queues : Configs) (queue : String) : UInt8 :=
  ((queues.get queue).map Config.weight).getD defaultWeight

theorem stateQueues_eq (queues : Configs) (state : List TransactionState) :
    Priority.stateQueues queues state = state.map fun s => (s.queue, weight queues s.queue) := rfl

/-- In a unit with this transaction, its queue is treated as the default one: when it was
submitted, when its share was computed, when it was signed, and the unit is executed to its
end with the transaction failed or in flight. -/
structure AsDefault (stage : Stage) (entries : List (Transaction × Calls pallas))
    (output : Output) (tx : Transaction) : Prop where
  validates : Submit.shouldValidate stage.queues (some tx.queue) =
    Submit.shouldValidate stage.queues (some defaultQueue)
  weighs : weight stage.queues tx.queue = weight stage.queues defaultQueue
  signs : ∀ replies : Replies pallas, (signed stage replies tx).map Transaction.raw =
    (signed stage replies { tx with queue := defaultQueue }).map Transaction.raw
  finishes : (execute stage entries output).2 = .ok ()
  processed : (execute stage entries output).1.db.HasStatus tx.id .failed ∨
    (execute stage entries output).1.db.HasStatus tx.id .inFlight

/-- `submit_tx` does treat an unknown queue as the default one. -/
theorem shouldValidate_of_unknown {queue : String} (unknown : queues.get queue = none) :
    Submit.shouldValidate queues (some queue) =
      Submit.shouldValidate queues (some defaultQueue) := by
  simp [Submit.shouldValidate, unknown]

/-- `Priority::next` treats it as a queue of weight one. -/
theorem weight_of_unknown {queue : String} (unknown : queues.get queue = none) :
    weight queues queue = defaultWeight := by
  simp [weight, unknown]

theorem examine_of_unknown {replies : Replies pallas} (unknown : stage.queues.get tx.queue = none) :
    examine stage replies tx = .error (.error .retry) := by
  have lookup : signed stage replies tx = .error (.error .retry) := by
    simp only [signed, unknown]
  simp only [examine, lookup]
  rfl

/-- A transaction of an unknown queue is never executed. -/
theorem executeOne_of_unknown (unknown : stage.queues.get tx.queue = none) :
    executeOne stage calls tx output = (output, .error (.error .retry)) := by
  simp only [executeOne, examine_of_unknown unknown]

/-- `execute` gives up at the first transaction of an unknown queue, and the rest of the
unit is left alone. -/
theorem execute_of_unknown (unknown : stage.queues.get tx.queue = none)
    (before : execute stage first output = (middle, .ok ())) :
    execute stage (first ++ (tx, calls) :: second) output = (middle, .error (.error .retry)) := by
  rw [execute_append, before]
  simp only [execute, executeOne_of_unknown unknown]

/-- No unit with a transaction of an unknown queue is executed to its end. -/
theorem execute_ne_ok_of_unknown {entry : Transaction × Calls pallas} (member : entry ∈ entries)
    (unknown : stage.queues.get entry.1.queue = none) :
    (execute stage entries output).2 ≠ .ok () := by
  obtain ⟨first, second, rfl⟩ := List.append_of_mem member
  obtain ⟨tx, calls⟩ := entry
  rw [execute_append]
  cases before : execute stage first output with
  | mk middle result =>
      cases result with
      | error abort => simp
      | ok value =>
          simp only [execute, executeOne_of_unknown unknown]
          simp

/-! ## The unit in hand -/

/-- Some of the transactions is of a queue which is not configured. -/
def Unknown (stage : Stage) (txs : List Transaction) : Prop :=
  ∃ tx ∈ txs, stage.queues.get tx.queue = none

/-- The unit in hand has a transaction of an unknown queue, and it is still to come; or the
stage has stopped. -/
def Blocked (stage : Stage) : Worker → Prop
  | .awaiting unit tx rest .examine => Unknown stage unit ∧ Unknown stage (tx :: rest)
  | .awaiting unit _ rest _ => Unknown stage unit ∧ Unknown stage rest
  | .retrying unit => Unknown stage unit
  | .stopped _ | .panicked _ => True
  | _ => False

theorem blocked_proceed {unit rest : List Transaction} (unknown : Unknown stage unit)
    (later : Unknown stage rest) : Blocked stage (proceed unit rest) := by
  cases rest with
  | nil =>
      obtain ⟨tx, member, _⟩ := later
      cases member
  | cons tx rest => exact ⟨unknown, later⟩

theorem blocked_afterExamine {replies : Replies pallas} {unit rest : List Transaction}
    (unknown : Unknown stage unit) (later : Unknown stage (tx :: rest)) :
    Blocked stage (afterExamine unit rest (examine stage replies tx)) := by
  obtain ⟨blocking, member, lookup⟩ := later
  rcases List.mem_cons.mp member with rfl | restMem
  · rw [examine_of_unknown lookup]
    exact unknown
  · have still : Unknown stage rest := ⟨blocking, restMem, lookup⟩
    rcases afterExamine_cases unit rest (examine stage replies tx) with
      ⟨next, await, apart, same⟩ | same | ⟨cause, same⟩ | ⟨fault, same⟩ <;> rw [same]
    · cases await with
      | examine => exact absurd rfl apart
      | send | fetchTip | update => exact ⟨unknown, still⟩
    · exact unknown
    · trivial
    · trivial

/-- A step which does not restart the stage leaves it blocked. -/
theorem Step.blocked {profile : Profile} {before after : State} {label : Label pallas}
    (step : Step profile stage before label after) (running : label ≠ .restart)
    (blocked : Blocked stage before.worker) : Blocked stage after.worker := by
  cases step with
  | schedule | select | selectFail => cases blocked
  | examine replies examined =>
      subst examined
      exact blocked_afterExamine blocked.1 blocked.2
  | send | fetchTip => exact blocked
  | sendFail | update => exact blocked_proceed blocked.1 blocked.2
  | fetchTipFail | updateFail => exact blocked.1
  | rerun => exact blocked_proceed blocked blocked
  | restart => exact absurd rfl running

/-- Once such a unit is in hand, the stage schedules no other one, for whatever queue,
unless it is restarted. -/
theorem not_schedule_of_blocked {profile : Profile} {state final : State}
    {trace : List (Transition State (Label pallas))}
    (run : Run (Step profile stage) state trace final) (blocked : Blocked stage state.worker)
    (running : Guarded (fun _ label => label ≠ .restart) trace) : final.worker ≠ .schedule := by
  have preserved : Preserved (@Step pallas profile stage) (fun _ label => label ≠ .restart)
      fun state => Blocked stage state.worker := by
    intro state label next blocked running step
    exact step.blocked running blocked
  have still := run.invariant preserved blocked running
  intro scheduling
  rw [scheduling] at still
  exact still

/-- Whatever the configuration is and the unit and the calls come to, an unknown queue is
not treated as the default one. -/
theorem not_asDefault_of_unknown {entry : Transaction × Calls pallas} (member : entry ∈ entries)
    (unknown : stage.queues.get entry.1.queue = none) :
    ¬ AsDefault stage entries output entry.1 := by
  intro asDefault
  exact execute_ne_ok_of_unknown member unknown asDefault.finishes

/-! ## A removed queue and the default one -/

/-- A transaction of a queue which was removed from the configuration. -/
def orphanTx : Transaction := { sampleTx 1 1 with queue := "gone" }

/-- The store with it and a transaction of the default queue. -/
def orphanDb : Db :=
  ⟨⟨[.ofTransaction orphanTx, .ofTransaction (sampleTx 2 2)], by decide⟩, [], none⟩

/-- Both transactions, with calls which all succeed. -/
def orphanUnit : List (Transaction × Calls samplePallas) :=
  [(orphanTx, sampleCalls), (sampleTx 2 2, sampleCalls)]

theorem not_asDefault_of_unknown_orphan :
    ¬ AsDefault sampleSetup.ingest orphanUnit ⟨orphanDb, []⟩ orphanTx :=
  not_asDefault_of_unknown (show (orphanTx, sampleCalls) ∈ orphanUnit from List.mem_cons_self)
    (by decide)

/-- `execute` wants the unit to be run again, and has sent neither transaction. -/
theorem execute_orphanUnit :
    Submit.Accepted samplePallas orphanTx ∧ sampleSetup.ingest.queues.get orphanTx.queue = none ∧
      execute sampleSetup.ingest orphanUnit ⟨orphanDb, []⟩ =
        (⟨orphanDb, []⟩, .error (.error .retry)) ∧
      ¬ AsDefault sampleSetup.ingest orphanUnit ⟨orphanDb, []⟩ orphanTx := by
  have result : execute sampleSetup.ingest orphanUnit ⟨orphanDb, []⟩ =
      (⟨orphanDb, []⟩, .error (.error .retry)) := by decide +kernel
  refine ⟨⟨(1 : UInt8), [1], some "gone", 1, rfl, rfl⟩, by decide, result, fun asDefault => ?_⟩
  have finished := asDefault.finishes
  rw [result] at finished
  cases finished

end Boros.Pipeline.Ingest
