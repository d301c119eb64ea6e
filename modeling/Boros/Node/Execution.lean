import Boros.Node.System
import Boros.Pipeline.Execution

/-!
# Executions of the node

The step relation of the node as a function of the label, where the step can be taken.
-/

namespace Boros.Node

open Boros.Data Boros.Semantics Boros.Storage Boros.Ledger Boros.Queue Boros.Server Boros.Pipeline

variable {pallas : Pallas}

/-- The step of that label, where the node can take it. -/
def State.exec (setup : Setup) (state : State) : Label pallas → Option State
  | .server (.store _) => none
  | .server label =>
    (state.server.exec setup.ingest.queues label).map fun server => { state with server }
  | .fanout (.store _) => none
  | .fanout label =>
    (Fanout.exec setup.profile setup.ingest state.fanout label).map state.setFanout
  | .monitor label =>
    (Monitor.exec setup.profile setup.monitor (state.db, state.monitor) label).map fun after =>
      state.setMonitor after.1 after.2
  | .restart => some state.restart

theorem step_of_exec (setup : Setup) (state : State) (label : Label pallas) (next : State)
    (executed : state.exec setup label = some next) : Step setup state label next := by
  cases label with
  | server label =>
      cases label with
      | store => cases executed
      | _ =>
          simp only [State.exec, Option.map_eq_some_iff] at executed
          obtain ⟨server, step, rfl⟩ := executed
          exact .server (by simp) (Locking.step_of_exec _ _ _ _ step)
  | fanout label =>
      cases label with
      | store => cases executed
      | _ =>
          obtain ⟨fanout, step, rfl⟩ := Option.map_eq_some_iff.mp executed
          exact .fanout (by simp) (Fanout.step_of_exec step)
  | monitor label =>
      obtain ⟨⟨db, worker⟩, step, rfl⟩ := Option.map_eq_some_iff.mp executed
      exact .monitor (Monitor.step_of_exec step)
  | restart =>
      cases executed
      exact .restart

/-! ## A small node

One queue, and a transaction of one byte. -/

/-- A call comes in with a transaction of one byte, and is answered. -/
def sampleCall (id : Nat) (byte : UInt8) : List (Label samplePallas) :=
  [.server (.tick 1), .server (.submit id [⟨[byte], none, none⟩]),
    .server (.examine id sampleAdapter sampleAdapter),
    .server (.examine id sampleAdapter sampleAdapter), .server (.create id), .server (.answer id)]

/-- A peer is connected. -/
def sampleConnection (addr : String) : List (Label samplePallas) :=
  [.fanout (.subscribe addr), .fanout (.peer addr .connect)]

/-- The only pending transaction is broadcast. -/
def sampleBroadcast : List (Label samplePallas) :=
  [.fanout (.ingest (.schedule 0 (.inserted _))), .fanout (.ingest (.select (.inserted _))),
    .fanout (.ingest (.examine sampleReplies)), .fanout (.ingest (.send true)),
    .fanout (.ingest (.fetchTip sampleTip)), .fanout (.ingest .update)]

/-- A block with the transaction of one byte is executed. -/
def sampleConfirmation (slot : UInt64) (byte : UInt8) : List (Label samplePallas) :=
  [.monitor (.receive (sampleBlock slot byte)), .monitor .resume, .monitor .resume,
    .monitor .resume]

/-- A transaction is submitted and broadcast, the process crashes, and a block with the
transaction comes in. -/
def sampleLife : List (Label samplePallas) :=
  sampleCall 0 1 ++ sampleConnection "relay" ++ sampleBroadcast ++
    [.fanout (.peer "relay" .receive), .restart] ++ sampleConfirmation 100 1

/-- The record after this life. -/
def sampleRow : TxRow :=
  { TxRow.ofTransaction (sampleTx 1 1) with status := .confirmed, slot := some 100 }

/-- The run of this life. -/
theorem sampleLife_run :
    ∃ (trace : List (Transition State (Label samplePallas))) (final : State),
      Run (Step sampleSetup) (State.initial 0) trace final ∧
        trace.map Transition.label = sampleLife ∧ final.db.tx.rows = [sampleRow] ∧
        final.sent = [((sampleTx 1 1).id, [1])] := by
  have reached : (follow (State.exec sampleSetup) (State.initial 0) sampleLife).map (fun state =>
      (state.db.tx.rows, state.sent)) = some ([sampleRow], [((sampleTx 1 1).id, [1])]) := by
    decide +kernel
  obtain ⟨final, followed, view⟩ := Option.map_eq_some_iff.mp reached
  obtain ⟨rows, sent⟩ := Prod.mk.inj view
  obtain ⟨trace, run, labels⟩ := Run.of_follow (step_of_exec sampleSetup) followed
  exact ⟨trace, final, run, labels, rows, sent⟩

end Boros.Node
